import StarterHub.Lib.Ascii

/-!
# IPv6 literals

The text form of an IPv6 address: eight groups of one to four hexadecimal digits between colons, with at most one `::`
for one or more groups of zeros, and the last two groups possibly as an IPv4 address.
-/

namespace Ipv6

/-- The pieces of a text between its separators. -/
def split (sep : Char) : List Char → List (List Char)
  | [] => [[]]
  | c :: cs =>
    if c = sep then [] :: split sep cs
    else
      match split sep cs with
      | [] => [[c]]
      | piece :: pieces => (c :: piece) :: pieces

def isGroup (piece : List Char) : Bool :=
  decide (1 ≤ piece.length) && decide (piece.length ≤ 4) && piece.all fun c => (Ascii.hexValue c).isSome

/-- A decimal octet, without leading zeros. -/
def isOctet (piece : List Char) : Bool :=
  piece.all Char.isDigit && decide (1 ≤ piece.length) && decide (Nat.ofDigitChars 10 piece 0 < 256) &&
    (piece.length == 1 || piece.head? != some '0')

def isIpv4 (cs : List Char) : Bool := (split '.' cs).length == 4 && (split '.' cs).all isOctet

/-- How many groups the pieces make up, the last one possibly an IPv4 address. -/
def groups : List (List Char) → Option Nat
  | [] => some 0
  | [piece] => if isGroup piece then some 1 else if isIpv4 piece then some 2 else none
  | piece :: pieces => if isGroup piece then (groups pieces).map (· + 1) else none

/-- The text before and after the first `::`. -/
def splitGap : List Char → Option (List Char × List Char)
  | ':' :: ':' :: cs => some ([], cs)
  | c :: cs => (splitGap cs).map fun (before, after) => (c :: before, after)
  | [] => none

/-- The number of groups of a text, which may be empty beside a `::`. -/
def countGroups (cs : List Char) : Option Nat := if cs = [] then some 0 else groups (split ':' cs)

def isLiteral (cs : List Char) : Bool :=
  match splitGap cs with
  | none => groups (split ':' cs) == some 8
  | some (before, after) =>
    -- the IPv4 form stands at the end only
    !before.contains '.' && match countGroups before, countGroups after with
      | some m, some n => decide (m + n ≤ 7)
      | _, _ => false

example : isLiteral "::1".toList = true ∧ isLiteral "fe80::1:2".toList = true ∧
    isLiteral "64:ff9b::192.0.2.33".toList = true ∧ isLiteral "1::2::3".toList = false := by decide

/-! ### Characters -/

/-- What may stand in a literal. -/
def isLiteralChar (c : Char) : Bool := (Ascii.hexValue c).isSome || c == ':' || c == '.'

theorem mem_split (sep : Char) {c : Char} {cs : List Char} (h : c ∈ cs) :
    c = sep ∨ ∃ piece ∈ split sep cs, c ∈ piece := by
  induction cs with
  | nil => cases h
  | cons d cs ih =>
    unfold split
    split
    · next hd =>
      rcases List.mem_cons.1 h with rfl | h
      · exact .inl hd
      · exact (ih h).imp id fun ⟨piece, hp, hc⟩ => ⟨piece, List.mem_cons_of_mem _ hp, hc⟩
    · split
      · next hnil =>
        rcases List.mem_cons.1 h with rfl | h
        · exact .inr ⟨[c], List.mem_singleton_self _, List.mem_singleton_self _⟩
        · rcases ih h with hc | ⟨piece, hp, -⟩
          · exact .inl hc
          · rw [hnil] at hp
            cases hp
      · next first rest hcons =>
        rcases List.mem_cons.1 h with rfl | h
        · exact .inr ⟨c :: first, List.mem_cons_self .., List.mem_cons_self ..⟩
        · rcases ih h with hc | ⟨piece, hp, hc⟩
          · exact .inl hc
          · rw [hcons] at hp
            rcases List.mem_cons.1 hp with rfl | hp
            · exact .inr ⟨d :: piece, List.mem_cons_self .., List.mem_cons_of_mem _ hc⟩
            · exact .inr ⟨piece, List.mem_cons_of_mem _ hp, hc⟩

theorem isLiteralChar_of_isDigit {c : Char} (h : c.isDigit = true) : isLiteralChar c = true := by
  simp only [Char.isDigit, Bool.and_eq_true, decide_eq_true_eq] at h
  have hhex : (Ascii.hexValue c).isSome = true := by
    rw [Ascii.hexValue, if_pos ⟨h.1, h.2⟩]
    rfl
  simp [isLiteralChar, hhex]

theorem isLiteralChar_of_isGroup {piece : List Char} (h : isGroup piece = true) {c : Char} (hc : c ∈ piece) :
    isLiteralChar c = true := by
  simp only [isGroup, Bool.and_eq_true, List.all_eq_true] at h
  simp [isLiteralChar, h.2 c hc]

theorem isLiteralChar_of_isIpv4 {piece : List Char} (h : isIpv4 piece = true) {c : Char} (hc : c ∈ piece) :
    isLiteralChar c = true := by
  simp only [isIpv4, Bool.and_eq_true, List.all_eq_true] at h
  rcases mem_split '.' hc with rfl | ⟨octet, ho, hc⟩
  · simp [isLiteralChar]
  · have := h.2 octet ho
    simp only [isOctet, Bool.and_eq_true, List.all_eq_true] at this
    exact isLiteralChar_of_isDigit (this.1.1.1 c hc)

theorem isLiteralChar_of_groups {pieces : List (List Char)} {n : Nat} (h : groups pieces = some n) :
    ∀ piece ∈ pieces, ∀ c ∈ piece, isLiteralChar c = true := by
  induction pieces generalizing n with
  | nil => simp
  | cons piece pieces ih =>
    cases pieces with
    | nil =>
      rw [groups] at h
      intro p hp c hc
      obtain rfl := List.mem_singleton.1 hp
      split at h
      · next hg => exact isLiteralChar_of_isGroup hg hc
      · split at h
        · next hv => exact isLiteralChar_of_isIpv4 hv hc
        · cases h
    | cons next rest =>
      rw [groups] at h
      · split at h
        · next hg =>
          obtain ⟨m, hm, -⟩ := Option.map_eq_some_iff.1 h
          intro p hp c hc
          rcases List.mem_cons.1 hp with rfl | hp
          · exact isLiteralChar_of_isGroup hg hc
          · exact ih hm p hp c hc
        · cases h
      · simp

theorem splitGap_eq_some {cs before after : List Char} (h : splitGap cs = some (before, after)) :
    cs = before ++ ':' :: ':' :: after := by
  induction cs generalizing before with
  | nil => cases h
  | cons c cs ih =>
    unfold splitGap at h
    split at h
    · next heq =>
      cases h
      exact heq
    · next heq =>
      cases heq
      obtain ⟨⟨before', after'⟩, hgap, hpair⟩ := Option.map_eq_some_iff.1 h
      cases hpair
      rw [ih hgap, List.cons_append]
    · cases h

private theorem isLiteralChar_of_split {cs : List Char} {n : Nat} (h : groups (split ':' cs) = some n) {c : Char}
    (hc : c ∈ cs) : isLiteralChar c = true := by
  rcases mem_split ':' hc with rfl | ⟨piece, hp, hc⟩
  · simp [isLiteralChar]
  · exact isLiteralChar_of_groups h piece hp c hc

private theorem isLiteralChar_of_countGroups {cs : List Char} {n : Nat} (h : countGroups cs = some n) {c : Char}
    (hc : c ∈ cs) : isLiteralChar c = true := by
  rw [countGroups, if_neg (List.ne_nil_of_mem hc)] at h
  exact isLiteralChar_of_split h hc

/-- A literal consists of hexadecimal digits, colons and dots. -/
theorem isLiteralChar_of_mem {cs : List Char} (h : isLiteral cs = true) {c : Char} (hc : c ∈ cs) :
    isLiteralChar c = true := by
  unfold isLiteral at h
  split at h
  · exact isLiteralChar_of_split (beq_iff_eq.1 h) hc
  · next before after hgap =>
    rw [Bool.and_eq_true] at h
    obtain ⟨-, h⟩ := h
    split at h
    · next m n hm hn =>
      rw [splitGap_eq_some hgap] at hc
      rcases List.mem_append.1 hc with hc | hc
      · exact isLiteralChar_of_countGroups hm hc
      · rcases List.mem_cons.1 hc with rfl | hc
        · decide
        · rcases List.mem_cons.1 hc with rfl | hc
          · decide
          · exact isLiteralChar_of_countGroups hn hc
    · cases h

end Ipv6
