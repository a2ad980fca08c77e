import Mathlib.Data.List.Nodup
import Mathlib.Logic.Function.Basic

/-!
# Journals

Several parties extend one journal towards a given list of entries.  A party reads the journal once; what the list has
and the journal has not is then ahead of it, and it appends this, all at once or piece by piece, or it leaves.  It never
looks at the journal again, so nothing but the order of the steps keeps two parties from appending the same entry.

As long as nobody reads while another party is busy, an entry is with one party at most (`Inv.exclusive`); and whoever
reads while another one is busy has the same entries ahead (`Inv.missing_eq`).
-/

/-- The entries, what is ahead of each party that has read them and not left, and who has appended which entry. -/
structure Journal (α ν : Type*) where
  entries : List ν
  ahead : α → Option (List ν)
  log : List (α × ν)

/-- A party reads, appends the next `n` of its entries and stays or not, or leaves. -/
inductive JournalAction (α : Type*) where
  | read (x : α)
  | append (x : α) (n : Nat) (stays : Bool)
  | leave (x : α)

namespace Journal

variable {α ν : Type*} [DecidableEq α] [DecidableEq ν]

def init (entries : List ν) : Journal α ν := ⟨entries, fun _ => none, []⟩

/-- What the list has and the entries have not. -/
def missing (list entries : List ν) : List ν := list.filter fun name => decide (name ∉ entries)

/-- `x` has `rest` before it, or nothing more to do. -/
def setAhead (s : Journal α ν) (x : α) (rest : Option (List ν)) : Journal α ν :=
  { s with ahead := Function.update s.ahead x rest }

omit [DecidableEq ν] in
theorem setAhead_self {s : Journal α ν} {x : α} {rest : Option (List ν)} (h : s.ahead x = rest) :
    s.setAhead x rest = s := by
  subst h
  simp [setAhead]

/-- `x` appends `names` and has `rest` before it then. -/
def append (s : Journal α ν) (x : α) (names : List ν) (rest : Option (List ν)) : Journal α ν :=
  { s.setAhead x rest with entries := s.entries ++ names, log := s.log ++ names.map fun name => (x, name) }

def step (list : List ν) (s : Journal α ν) : JournalAction α → Option (Journal α ν)
  | .read x =>
    match s.ahead x with
    | none => some (s.setAhead x (some (missing list s.entries)))
    | some _ => none
  | .append x n stays =>
    match s.ahead x with
    | none => none
    | some l => some (s.append x (l.take n) (if stays then some (l.drop n) else none))
  | .leave x => some (s.setAhead x none)

/-- The party has entries ahead. -/
def Busy (s : Journal α ν) (x : α) : Prop := ∃ l, s.ahead x = some l ∧ l ≠ []

/-- The entry is ahead of the party, or appended by it. -/
def Has (s : Journal α ν) (x : α) (name : ν) : Prop := (∃ l, s.ahead x = some l ∧ name ∈ l) ∨ (x, name) ∈ s.log

/-- Nobody reads while another party is busy. -/
def Careful (s : Journal α ν) : JournalAction α → Prop
  | .read x => ∀ y, y ≠ x → ¬ s.Busy y
  | _ => True

variable {list : List ν} {s s' : Journal α ν} {a : JournalAction α} {x y : α} {name : ν}

/-- What a step does. -/
theorem step_cases (h : step list s a = some s') :
    (∃ x, a = .read x ∧ s' = s.setAhead x (some (missing list s.entries))) ∨
      (∃ x n stays l, a = .append x n stays ∧ s.ahead x = some l ∧
        s' = s.append x (l.take n) (if stays then some (l.drop n) else none)) ∨
      ∃ x, a = .leave x ∧ s' = s.setAhead x none := by
  cases a with
  | read x =>
    simp only [step] at h
    split at h
    · exact .inl ⟨x, rfl, (Option.some.inj h).symm⟩
    · cases h
  | append x n stays =>
    simp only [step] at h
    split at h
    · cases h
    · next l hl => exact .inr (.inl ⟨x, n, stays, l, rfl, hl, (Option.some.inj h).symm⟩)
  | leave x => exact .inr (.inr ⟨x, rfl, (Option.some.inj h).symm⟩)

omit [DecidableEq α] in
/-- What is missing from an initial part of the list is the rest of it. -/
theorem append_missing {entries : List ν} (hn : list.Nodup) (h : entries <+: list) :
    entries ++ missing list entries = list := by
  obtain ⟨rest, rfl⟩ := h
  have hrest : ∀ name ∈ rest, name ∉ entries := fun name hname hmem =>
    (List.nodup_append.1 hn).2.2 name hmem name hname rfl
  have hself : entries.filter (fun name => decide (name ∉ entries)) = [] := by simp
  have hall : rest.filter (fun name => decide (name ∉ entries)) = rest :=
    List.filter_eq_self.2 fun name hname => by simpa using hrest name hname
  rw [missing, List.filter_append, hself, hall, List.nil_append]

/-! ### The invariant -/

/-- The journal is an initial part of the list, whoever has read it has exactly the rest of it ahead, and this is one
party at most, unless the rest is empty. -/
structure Inv (list : List ν) (s : Journal α ν) : Prop where
  ordered : s.entries <+: list
  onTrack : ∀ x l, s.ahead x = some l → s.entries ++ l = list
  alone : ∀ x y, s.Busy x → s.Busy y → x = y
  logged : ∀ x name, (x, name) ∈ s.log → name ∈ s.entries
  once : ∀ x y name, (x, name) ∈ s.log → (y, name) ∈ s.log → x = y

omit [DecidableEq α] [DecidableEq ν] in
theorem inv_init {entries : List ν} (h : entries <+: list) : Inv list (init (α := α) entries) where
  ordered := h
  onTrack := by simp [init]
  alone := by simp [Busy, init]
  logged := by simp [init]
  once := by simp [init]

omit [DecidableEq ν] in
@[simp] theorem busy_setAhead_ne {rest : Option (List ν)} (h : y ≠ x) : (s.setAhead x rest).Busy y ↔ s.Busy y := by
  simp [Busy, setAhead, Function.update_of_ne h]

omit [DecidableEq ν] in
/-- A party goes on with something of the rest ahead, when nobody else is busy, or with nothing. -/
theorem Inv.setAhead {rest : Option (List ν)} (hs : Inv list s) (htrack : ∀ l, rest = some l → s.entries ++ l = list)
    (hbusy : ∀ l, rest = some l → l ≠ [] → ∀ y, y ≠ x → ¬ s.Busy y) : Inv list (s.setAhead x rest) := by
  have hself : (s.setAhead x rest).Busy x → ∀ y, y ≠ x → ¬ s.Busy y := by
    rintro ⟨l, hl, hne⟩
    exact hbusy l (by simpa [Journal.setAhead] using hl) hne
  refine ⟨hs.ordered, fun y l hl => ?_, fun y z hy hz => ?_, hs.logged, hs.once⟩
  · by_cases hyx : y = x
    · subst hyx
      exact htrack l (by simpa [Journal.setAhead] using hl)
    · exact hs.onTrack y l (by simpa [Journal.setAhead, Function.update_of_ne hyx] using hl)
  · by_cases hyx : y = x <;> by_cases hzx : z = x
    · rw [hyx, hzx]
    · subst hyx
      exact absurd ((busy_setAhead_ne hzx).1 hz) (hself hy z hzx)
    · subst hzx
      exact absurd ((busy_setAhead_ne hyx).1 hy) (hself hz y hyx)
    · exact hs.alone y z ((busy_setAhead_ne hyx).1 hy) ((busy_setAhead_ne hzx).1 hz)

omit [DecidableEq α] [DecidableEq ν] in
/-- What is ahead of somebody is not in the journal. -/
theorem Inv.fresh {l : List ν} (hn : list.Nodup) (hs : Inv list s) (h : s.ahead x = some l) (hname : name ∈ l) :
    name ∉ s.entries := by
  rw [← hs.onTrack x l h] at hn
  exact fun hmem => (List.nodup_append.1 hn).2.2 name hmem name hname rfl

omit [DecidableEq ν] in
theorem mem_log_append {names : List ν} {rest : Option (List ν)} :
    (y, name) ∈ (s.append x names rest).log ↔ (y, name) ∈ s.log ∨ y = x ∧ name ∈ names := by
  simp only [append, List.mem_append, List.mem_map, Prod.mk.injEq]
  refine or_congr_right ⟨?_, ?_⟩
  · rintro ⟨_, hname, rfl, rfl⟩
    exact ⟨rfl, hname⟩
  · rintro ⟨rfl, hname⟩
    exact ⟨name, hname, rfl, rfl⟩

omit [DecidableEq ν] in
/-- Whoever appends was busy, if it still is. -/
private theorem busy_of_append {l : List ν} {n : Nat} {stays : Bool} (h : s.ahead x = some l)
    (hy : (s.append x (l.take n) (if stays then some (l.drop n) else none)).Busy y) : s.Busy y := by
  obtain ⟨l', hl', hne⟩ := hy
  by_cases hyx : y = x
  · subst hyx
    refine ⟨l, h, ?_⟩
    rintro rfl
    cases stays <;> simp_all [append, Journal.setAhead]
  · exact ⟨l', by simpa [append, Journal.setAhead, Function.update_of_ne hyx] using hl', hne⟩

omit [DecidableEq ν] in
/-- A party appends from what is ahead of it: if that is anything, nobody else has something ahead. -/
private theorem Inv.append {l : List ν} (n : Nat) (stays : Bool) (hn : list.Nodup) (hs : Inv list s)
    (h : s.ahead x = some l) : Inv list (s.append x (l.take n) (if stays then some (l.drop n) else none)) := by
  have hlist : s.entries ++ l.take n ++ l.drop n = list := by
    rw [List.append_assoc, List.take_append_drop]
    exact hs.onTrack x l h
  have hfresh : ∀ name ∈ l.take n, name ∉ s.entries := fun name hname =>
    hs.fresh hn h (List.mem_of_mem_take hname)
  refine ⟨⟨_, hlist⟩, fun y l' hl' => ?_, fun y z hy hz => hs.alone y z (busy_of_append h hy) (busy_of_append h hz),
    fun y name hmem => ?_, fun y z name hy hz => ?_⟩
  · by_cases hyx : y = x
    · subst hyx
      have hrest : (if stays then some (l.drop n) else none) = some l' := by
        simpa [Journal.append, Journal.setAhead] using hl'
      cases stays with
      | true => rw [← Option.some.inj hrest]; exact hlist
      | false => cases hrest
    · have hy : s.ahead y = some l' := by
        simpa [Journal.append, Journal.setAhead, Function.update_of_ne hyx] using hl'
      -- both have the rest of the list ahead, so there is none unless `x` is the only one that is busy
      have hsame : l' = l := List.append_cancel_left ((hs.onTrack y l' hy).trans (hs.onTrack x l h).symm)
      subst hsame
      cases l' with
      | nil => simpa [Journal.append] using hs.onTrack y [] hy
      | cons name rest => exact absurd (hs.alone y x ⟨_, hy, by simp⟩ ⟨_, h, by simp⟩) hyx
  · rcases mem_log_append.1 hmem with hmem | ⟨-, hmem⟩
    · exact List.mem_append_left _ (hs.logged y name hmem)
    · exact List.mem_append_right _ hmem
  · rcases mem_log_append.1 hy with hold | ⟨rfl, hnew⟩ <;> rcases mem_log_append.1 hz with hold' | ⟨rfl, hnew'⟩
    · exact hs.once y z name hold hold'
    · exact absurd (hs.logged y name hold) (hfresh name hnew')
    · exact absurd (hs.logged z name hold') (hfresh name hnew)
    · rfl

theorem Inv.step (hn : list.Nodup) (hs : Inv list s) (hc : Careful s a) (h : Journal.step list s a = some s') :
    Inv list s' := by
  obtain ⟨x, rfl, rfl⟩ | ⟨x, n, stays, l, rfl, hl, rfl⟩ | ⟨x, rfl, rfl⟩ := step_cases h
  · refine hs.setAhead (fun l hl => ?_) fun _ _ _ => hc
    cases hl
    exact append_missing hn hs.ordered
  · exact hs.append n stays hn hl
  · exact hs.setAhead (by simp) (by simp)

omit [DecidableEq α] [DecidableEq ν] in
/-- An entry is with one party at most. -/
theorem Inv.exclusive (hn : list.Nodup) (hs : Inv list s) (hx : s.Has x name) (hy : s.Has y name) : x = y := by
  rcases hx with ⟨l, hl, hname⟩ | hx <;> rcases hy with ⟨l', hl', hname'⟩ | hy
  · exact hs.alone x y ⟨l, hl, List.ne_nil_of_mem hname⟩ ⟨l', hl', List.ne_nil_of_mem hname'⟩
  · exact absurd (hs.logged y name hy) (hs.fresh hn hl hname)
  · exact absurd (hs.logged x name hx) (hs.fresh hn hl' hname')
  · exact hs.once x y name hx hy

omit [DecidableEq α] in
/-- Whoever reads has ahead what somebody else has already. -/
theorem Inv.missing_eq {l : List ν} (hn : list.Nodup) (hs : Inv list s) (h : s.ahead x = some l) :
    missing list s.entries = l :=
  List.append_cancel_left ((append_missing hn hs.ordered).trans (hs.onTrack x l h).symm)

/-! ### Without care -/

/-- Between the journal and what is ahead of a party no entry of the list is lost. -/
def Covers (list : List ν) (s : Journal α ν) : Prop := ∀ x l, s.ahead x = some l → list ⊆ s.entries ++ l

/-- However the parties read, each of them has ahead all that the journal has not. -/
theorem Covers.step (hs : Covers list s) (h : Journal.step list s a = some s') : Covers list s' := by
  obtain ⟨x, rfl, rfl⟩ | ⟨x, n, stays, l, rfl, hl, rfl⟩ | ⟨x, rfl, rfl⟩ := step_cases h
  · intro y l hl
    by_cases hyx : y = x
    · subst hyx
      obtain rfl : missing list s.entries = l := by simpa [setAhead] using hl
      intro name hname
      by_cases hmem : name ∈ s.entries
      · exact List.mem_append_left _ hmem
      · exact List.mem_append_right _ (List.mem_filter.2 ⟨hname, by simpa using hmem⟩)
    · exact hs y l (by simpa [setAhead, Function.update_of_ne hyx] using hl)
  · intro y l' hl'
    by_cases hyx : y = x
    · subst hyx
      have hrest : (if stays then some (l.drop n) else none) = some l' := by simpa [append, setAhead] using hl'
      cases stays with
      | true =>
        rw [← Option.some.inj hrest]
        simpa [append, List.append_assoc, List.take_append_drop] using hs y l hl
      | false => cases hrest
    · have hy : s.ahead y = some l' := by simpa [append, setAhead, Function.update_of_ne hyx] using hl'
      intro name hname
      rcases List.mem_append.1 (hs y l' hy hname) with hmem | hmem
      · exact List.mem_append_left _ (List.mem_append_left _ hmem)
      · exact List.mem_append_right _ hmem
  · intro y l hl
    by_cases hyx : y = x
    · subst hyx
      simp [setAhead] at hl
    · exact hs y l (by simpa [setAhead, Function.update_of_ne hyx] using hl)

end Journal
