import StarterHub.Layering
import StarterHub.Lib.Decimal
import Mathlib.Algebra.Group.Nat.Defs
import Mathlib.Algebra.Ring.Int.Defs

/-!
# Native and textual scalars

`native_or_string` first tries a value in its own type and reads it as a text only if it is one.  For the unsigned
types of the tree both ways end at the same number: `from_str` checks for overflow at every digit, which is a check of
the number itself (`pushDigits_eq_some`), and the native way checks the range at once.  A file may therefore put its
integers either way (`load_spelled`).
-/

namespace StarterHub

open Decimal

/-! ### Texts -/

/-- One or more decimal digits after an optional `+`, and the number they stand for. -/
def TextDenotes (text : String) (n : Nat) : Prop :=
  ∃ digits, Denotes digits n ∧ (text.toList = digits ∨ text.toList = '+' :: digits)

theorem pushDigit_eq_some {max acc n : Nat} {c : Char} :
    pushDigit max acc c = some n ↔ c.isDigit = true ∧ 10 * acc + (c.toNat - '0'.toNat) = n ∧ n ≤ max := by
  have hzero : '0'.toNat = 48 := rfl
  rw [hzero, pushDigit]
  by_cases hc : c.isDigit = true
  · by_cases hmul : acc * 10 ≤ max
    · simp only [hc, hmul, ↓reduceIte, Option.bind_eq_bind, Option.bind_some, Option.ite_none_right_eq_some,
        Option.some.injEq, true_and]
      omega
    · simp only [hc, hmul, ↓reduceIte, Option.bind_eq_bind, Option.bind_some, Option.bind_none, true_and]
      constructor
      · intro h
        cases h
      · omega
  · simp [hc]

theorem pushDigits_eq_foldlM (max acc : Nat) (digits : List Char) :
    pushDigits max acc digits = digits.foldlM (pushDigit max) acc := by
  induction digits generalizing acc with
  | nil => rfl
  | cons c digits ih =>
    rw [pushDigits, List.foldlM_cons, Option.bind_eq_bind]
    exact congrArg _ (funext ih)

/-- The overflow checks refuse no number in range and admit none out of it. -/
theorem pushDigits_eq_some {max n : Nat} {digits : List Char} (hne : digits ≠ []) :
    pushDigits max 0 digits = some n ↔ Denotes digits n ∧ n ≤ max := by
  rw [pushDigits_eq_foldlM]
  exact foldlM_digits (fun _ _ _ => pushDigit_eq_some) hne

private theorem not_denotes_nil (n : Nat) : ¬ Denotes [] n := fun h => h.nonempty rfl

private theorem not_denotes_cons {c : Char} (hc : c.isDigit = false) (digits : List Char) (n : Nat) :
    ¬ Denotes (c :: digits) n := by
  intro h
  rw [h.isDigit c (List.mem_cons_self ..)] at hc
  cases hc

theorem textDenotes_of_plus {text : String} {digits : List Char} (h : text.toList = '+' :: digits) {n : Nat} :
    TextDenotes text n ↔ Denotes digits n := by
  rw [TextDenotes, h]
  constructor
  · rintro ⟨digits', hd, rfl | hcons⟩
    · exact absurd hd (not_denotes_cons (by decide) _ _)
    · cases hcons
      exact hd
  · intro hd
    exact ⟨digits, hd, .inr rfl⟩

theorem textDenotes_of_ne_plus {text : String} (h : ∀ digits, text.toList ≠ '+' :: digits) {n : Nat} :
    TextDenotes text n ↔ Denotes text.toList n := by
  constructor
  · rintro ⟨digits, hd, rfl | hcons⟩
    · exact hd
    · exact absurd hcons (h digits)
  · intro hd
    exact ⟨text.toList, hd, .inl rfl⟩

/-- A text is read iff it is an optional `+` and a numeral in range. -/
theorem parseUnsigned_eq_some {max n : Nat} {text : String} :
    parseUnsigned max text = some n ↔ TextDenotes text n ∧ n ≤ max := by
  unfold parseUnsigned
  split
  · next h =>
    rw [textDenotes_of_ne_plus (by simp [h]), h]
    simp [not_denotes_nil]
  · next h =>
    rw [textDenotes_of_plus h]
    simp [not_denotes_nil]
  · next h =>
    rw [textDenotes_of_ne_plus (by simp [h]), h]
    simp [not_denotes_cons]
  · next digits hne h =>
    rw [textDenotes_of_plus h, pushDigits_eq_some hne]
  · next hnil _ _ hplus =>
    rw [textDenotes_of_ne_plus hplus, pushDigits_eq_some hnil]

theorem toList_toString_ofNat (n : Nat) : (toString (Int.ofNat n)).toList = Nat.toDigits 10 n := Nat.toList_repr

theorem toList_toString_negSucc (n : Nat) : (toString (Int.negSucc n)).toList = '-' :: Nat.toDigits 10 (n + 1) := by
  simp [toString, Int.repr]

/-- The decimal text of an integer stands for that integer, and for no other number. -/
theorem textDenotes_toString {n : Int} {m : Nat} : TextDenotes (toString n) m ↔ (m : Int) = n := by
  cases n with
  | ofNat k =>
    have hk := denotes_toDigits k
    rw [← toList_toString_ofNat] at hk
    have hplus : ∀ digits, (toString (Int.ofNat k)).toList ≠ '+' :: digits := by
      intro digits h
      rw [h] at hk
      exact not_denotes_cons (by decide) _ _ hk
    rw [textDenotes_of_ne_plus hplus]
    constructor
    · intro hm
      exact congrArg _ (hm.value.symm.trans hk.value)
    · intro h
      cases Int.ofNat.inj h
      exact hk
  | negSucc k =>
    have hplus : ∀ digits, (toString (Int.negSucc k)).toList ≠ '+' :: digits := by
      intro digits h
      rw [toList_toString_negSucc] at h
      cases h
    rw [textDenotes_of_ne_plus hplus, toList_toString_negSucc]
    exact iff_of_false (not_denotes_cons (by decide) _ _) (by omega)

/-! ### The two ways -/

section

variable {T : Type} [TypedScalar T]

theorem nativeOrString_of_native {value : Scalar} {v : T} (h : TypedScalar.deserialize value = some v) :
    nativeOrString value = some v := by
  simp [nativeOrString, Raw.deserialize, h]

theorem nativeOrString_of_text {text : String}
    (h : TypedScalar.deserialize (.string text) = (none : Option T)) :
    (nativeOrString (.string text) : Option T) = TypedScalar.fromStr text := by
  simp [nativeOrString, Raw.deserialize, h]

/-- What is neither of the type nor a text is rejected. -/
theorem nativeOrString_eq_none {value : Scalar} (h : TypedScalar.deserialize value = (none : Option T))
    (hs : ∀ text, value ≠ .string text) : (nativeOrString value : Option T) = none := by
  cases value with
  | string text => exact absurd rfl (hs text)
  | _ => simp [nativeOrString, Raw.deserialize, h]

theorem nativeOrString_integer (n : Int) :
    (nativeOrString (.integer n) : Option T) = TypedScalar.deserialize (.integer n) := by
  cases h : (TypedScalar.deserialize (.integer n) : Option T) with
  | none => exact nativeOrString_eq_none h (by simp)
  | some v => exact nativeOrString_of_native h

end

/-! ### Unsigned types -/

/-- An unsigned type of `width` bits, read through the natural numbers. -/
structure IsUnsigned (T : Type) [TypedScalar T] (ofNat : Nat → T) (toNat : T → Nat) (width : Nat) : Prop where
  ofNat_toNat : ∀ v, ofNat (toNat v) = v
  toNat_ofNat : ∀ n ≤ 2 ^ width - 1, toNat (ofNat n) = n
  toNat_le : ∀ v, toNat v ≤ 2 ^ width - 1
  deserialize : ∀ value, TypedScalar.deserialize value = (value.unsigned (2 ^ width - 1)).map ofNat
  fromStr : ∀ text, TypedScalar.fromStr text = (parseUnsigned (2 ^ width - 1) text).map ofNat

theorem isUnsigned_uInt16 : IsUnsigned UInt16 UInt16.ofNat UInt16.toNat 16 where
  ofNat_toNat _ := UInt16.ofNat_toNat
  toNat_ofNat _ hn := UInt16.toNat_ofNat_of_lt' (Nat.lt_of_le_pred (by decide) hn)
  toNat_le v := Nat.le_pred_of_lt v.toNat_lt
  deserialize _ := rfl
  fromStr _ := rfl

theorem isUnsigned_uInt32 : IsUnsigned UInt32 UInt32.ofNat UInt32.toNat 32 where
  ofNat_toNat _ := UInt32.ofNat_toNat
  toNat_ofNat _ hn := UInt32.toNat_ofNat_of_lt' (Nat.lt_of_le_pred (by decide) hn)
  toNat_le v := Nat.le_pred_of_lt v.toNat_lt
  deserialize _ := rfl
  fromStr _ := rfl

theorem isUnsigned_uInt64 : IsUnsigned UInt64 UInt64.ofNat UInt64.toNat 64 where
  ofNat_toNat _ := UInt64.ofNat_toNat
  toNat_ofNat _ hn := UInt64.toNat_ofNat_of_lt' (Nat.lt_of_le_pred (by decide) hn)
  toNat_le v := Nat.le_pred_of_lt v.toNat_lt
  deserialize _ := rfl
  fromStr _ := rfl

theorem unsigned_eq_some {max n : Nat} {value : Scalar} :
    value.unsigned max = some n ↔ value = .integer n ∧ n ≤ max := by
  cases value with
  | integer k =>
    simp only [Scalar.unsigned, Option.ite_none_right_eq_some, Option.some.injEq, Scalar.integer.injEq]
    omega
  | _ => simp [Scalar.unsigned]

namespace IsUnsigned

variable {T : Type} [TypedScalar T] {ofNat : Nat → T} {toNat : T → Nat} {width : Nat}

private theorem map_eq_some (hT : IsUnsigned T ofNat toNat width) {x : Option Nat}
    (hx : ∀ n, x = some n → n ≤ 2 ^ width - 1) {v : T} : x.map ofNat = some v ↔ x = some (toNat v) := by
  rw [Option.map_eq_some_iff]
  constructor
  · rintro ⟨n, hn, rfl⟩
    rw [hT.toNat_ofNat n (hx n hn)]
    exact hn
  · intro h
    exact ⟨toNat v, h, hT.ofNat_toNat v⟩

theorem exists_iff (hT : IsUnsigned T ofNat toNat width) {n : Nat} : (∃ v, toNat v = n) ↔ n < 2 ^ width := by
  have hpos : 0 < 2 ^ width := Nat.two_pow_pos width
  constructor
  · rintro ⟨v, rfl⟩
    have := hT.toNat_le v
    omega
  · intro hn
    exact ⟨ofNat n, hT.toNat_ofNat n (by omega)⟩

theorem native_iff (hT : IsUnsigned T ofNat toNat width) {n : Int} {v : T} :
    nativeOrString (.integer n) = some v ↔ (toNat v : Int) = n := by
  rw [nativeOrString_integer, hT.deserialize, hT.map_eq_some fun k hk => (unsigned_eq_some.1 hk).2, unsigned_eq_some,
    and_iff_left (hT.toNat_le v), Scalar.integer.injEq]
  exact eq_comm

theorem text_iff (hT : IsUnsigned T ofNat toNat width) {text : String} {v : T} :
    nativeOrString (.string text) = some v ↔ TextDenotes text (toNat v) := by
  rw [nativeOrString_of_text (hT.deserialize _), hT.fromStr,
    hT.map_eq_some fun k hk => (parseUnsigned_eq_some.1 hk).2, parseUnsigned_eq_some, and_iff_left (hT.toNat_le v)]

theorem eq_none_of_kind (hT : IsUnsigned T ofNat toNat width) {value : Scalar} (hn : ∀ n, value ≠ .integer n)
    (hs : ∀ text, value ≠ .string text) : (nativeOrString value : Option T) = none := by
  refine nativeOrString_eq_none ?_ hs
  rw [hT.deserialize, Option.map_eq_none_iff]
  cases value with
  | integer n => exact absurd rfl (hn n)
  | _ => rfl

end IsUnsigned

/-! ### The law -/

/-- What `native_or_string` makes of a value of the configuration, at an unsigned type of `width` bits. -/
structure ScalarLaw (T : Type) [TypedScalar T] (toNat : T → Nat) (width : Nat) : Prop where
  -- A native integer is read as its decimal text is: ...
  agree : ∀ n : Int, (nativeOrString (.integer n) : Option T) = nativeOrString (.string (toString n))
  -- ... as itself and as no other number, if it fits the type, and not at all otherwise.
  native : ∀ (n : Int) (v : T), nativeOrString (.integer n) = some v ↔ (toNat v : Int) = n
  fits : ∀ n : Int, (nativeOrString (.integer n) : Option T).isSome = true ↔ 0 ≤ n ∧ n < 2 ^ width
  -- A text is read iff it is an optional `+` and a numeral in range.
  text : ∀ text (v : T), nativeOrString (.string text) = some v ↔ TextDenotes text (toNat v)
  textFits : ∀ text, (nativeOrString (.string text) : Option T).isSome = true ↔ ∃ n < 2 ^ width, TextDenotes text n
  -- Nothing else is read: no boolean, no fraction, no null, no list and no table.
  others : ∀ value : ConfigValue, (∀ n, value ≠ .scalar (.integer n)) → (∀ text, value ≠ .scalar (.string text)) →
    (onScalar nativeOrString value : Option T) = none

theorem IsUnsigned.scalarLaw {T : Type} [TypedScalar T] {ofNat : Nat → T} {toNat : T → Nat} {width : Nat}
    (hT : IsUnsigned T ofNat toNat width) : ScalarLaw T toNat width where
  agree n := Option.ext fun v => by rw [hT.native_iff, hT.text_iff, textDenotes_toString]
  native _ _ := hT.native_iff
  fits n := by
    have hpow : (2 : Int) ^ width = ((2 ^ width : Nat) : Int) := by simp
    rw [Option.isSome_iff_exists, hpow]
    simp only [hT.native_iff]
    constructor
    · rintro ⟨v, rfl⟩
      have hv := hT.exists_iff.1 ⟨v, rfl⟩
      omega
    · rintro ⟨hn, hlt⟩
      obtain ⟨v, hv⟩ := (hT.exists_iff (n := n.toNat)).2 (by omega)
      exact ⟨v, by omega⟩
  text _ _ := hT.text_iff
  textFits text := by
    rw [Option.isSome_iff_exists]
    simp only [hT.text_iff, ← hT.exists_iff]
    constructor
    · rintro ⟨v, hv⟩
      exact ⟨toNat v, ⟨v, rfl⟩, hv⟩
    · rintro ⟨n, ⟨v, rfl⟩, hv⟩
      exact ⟨v, hv⟩
  others value hn hs := by
    cases value with
    | scalar value => exact hT.eq_none_of_kind (fun n h => hn n (by rw [h])) fun text h => hs text (by rw [h])
    | table => rfl

/-- The law holds at the three widths of the tree, and a boolean is read from a boolean or a text only. -/
theorem native_or_textual : ScalarLaw UInt16 UInt16.toNat 16 ∧ ScalarLaw UInt32 UInt32.toNat 32 ∧
    ScalarLaw UInt64 UInt64.toNat 64 ∧
    ∀ value : ConfigValue, (∀ b, value ≠ .scalar (.boolean b)) → (∀ text, value ≠ .scalar (.string text)) →
      (onScalar nativeOrString value : Option Bool) = none := by
  refine ⟨isUnsigned_uInt16.scalarLaw, isUnsigned_uInt32.scalarLaw, isUnsigned_uInt64.scalarLaw, fun value hb hs => ?_⟩
  cases value with
  | scalar value =>
    refine nativeOrString_eq_none ?_ fun text h => hs text (by rw [h])
    cases value with
    | boolean b => exact absurd rfl (hb b)
    | _ => rfl
  | table => rfl

example : (nativeOrString (.string "+0080") : Option UInt16) = some 80 ∧
    (nativeOrString (.string "65536") : Option UInt16) = none := by decide

/-! ### The whole configuration -/

/-- An integer as its text. -/
def Scalar.spelled : Scalar → Scalar
  | .integer n => .string (toString n)
  | value => value

def ConfigLayer.spelled (layer : ConfigLayer) : ConfigLayer := layer.map fun e => (e.1, e.2.spelled)

/-- The sources with every integer of the two files put as a text. -/
def Sources.spelled (sources : Sources) : Sources :=
  { sources with system := ConfigLayer.spelled sources.system, workDir := ConfigLayer.spelled sources.workDir }

private theorem mem_toString {n : Int} {c : Char} (hc : c ∈ (toString n).toList) : c.isDigit = true ∨ c = '-' := by
  cases n with
  | ofNat k =>
    rw [toList_toString_ofNat] at hc
    exact .inl ((denotes_toDigits k).isDigit c hc)
  | negSucc k =>
    rw [toList_toString_negSucc] at hc
    rcases List.mem_cons.1 hc with rfl | hc
    · exact .inr rfl
    · exact .inl ((denotes_toDigits (k + 1)).isDigit c hc)

/-- The text of an integer is no word. -/
private theorem toString_ne {n : Int} {word : String} (h : ∃ c ∈ word.toList, c.isDigit = false ∧ c ≠ '-') :
    toString n ≠ word := by
  rintro rfl
  obtain ⟨c, hc, hdigit, hminus⟩ := h
  rcases mem_toString hc with hd | rfl
  · rw [hdigit] at hd
    cases hd
  · exact hminus rfl

theorem intoString_spelled (value : Scalar) : value.spelled.intoString = value.intoString := by
  cases value <;> rfl

theorem IsUnsigned.nativeOrString_spelled {T : Type} [TypedScalar T] {ofNat : Nat → T} {toNat : T → Nat} {width : Nat}
    (hT : IsUnsigned T ofNat toNat width) (value : Scalar) :
    (nativeOrString value.spelled : Option T) = nativeOrString value := by
  cases value with
  | integer n => exact (hT.scalarLaw.agree n).symm
  | _ => rfl

theorem bool_spelled (value : Scalar) : (nativeOrString value.spelled : Option Bool) = nativeOrString value := by
  cases value with
  | integer n =>
    have htrue : toString n ≠ "true" := toString_ne ⟨'t', by decide, by decide, by decide⟩
    have hfalse : toString n ≠ "false" := toString_ne ⟨'f', by decide, by decide, by decide⟩
    rw [nativeOrString_integer, Scalar.spelled, nativeOrString_of_text rfl]
    exact (if_neg htrue).trans (if_neg hfalse)
  | _ => rfl

theorem environment_spelled (value : Scalar) :
    Environment.deserialize (.scalar value.spelled) = Environment.deserialize (.scalar value) := by
  cases value with
  | integer n =>
    have hname : Environment.ofName (toString n) = none := by
      unfold Environment.ofName
      split
      · next h => exact absurd h (toString_ne ⟨'l', by decide, by decide, by decide⟩)
      · next h => exact absurd h (toString_ne ⟨'d', by decide, by decide, by decide⟩)
      · next h => exact absurd h (toString_ne ⟨'s', by decide, by decide, by decide⟩)
      · next h => exact absurd h (toString_ne ⟨'p', by decide, by decide, by decide⟩)
      · rfl
    exact hname
  | _ => rfl

@[simp] theorem spelled_spelled (value : Scalar) : value.spelled.spelled = value.spelled := by
  cases value <;> rfl

section

variable {name version : String} {sources : Sources}

/-- What stands at a path, up to its spelling. -/
theorem effective_spelled (layers : List ConfigLayer) (path : Path) :
    effective (layers.map ConfigLayer.spelled) path = (effective layers path).map Scalar.spelled := by
  have hlookup : ∀ layer : ConfigLayer,
      (ConfigLayer.spelled layer).reverse.lookup path = (layer.reverse.lookup path).map Scalar.spelled := by
    intro layer
    rw [ConfigLayer.spelled, ← List.map_reverse]
    induction layer.reverse with
    | nil => rfl
    | cons e entries ih =>
      rw [List.map_cons, List.lookup_cons, List.lookup_cons, ih]
      cases path == e.1 <;> rfl
  unfold effective
  rw [← List.map_reverse]
  induction layers.reverse with
  | nil => rfl
  | cons layer rest ih =>
    rw [List.map_cons, List.findSome?_cons, List.findSome?_cons, hlookup, ih]
    cases layer.reverse.lookup path <;> rfl

/-- A conversion that does not see the spelling reads alike from values that differ in it only. -/
private theorem bind_of_spelled {β : Type} (convert : Scalar → Option β)
    (hconvert : ∀ value, convert value.spelled = convert value) {x y : Option Scalar}
    (h : x.map Scalar.spelled = y.map Scalar.spelled) : y.bind convert = x.bind convert := by
  have hmap : ∀ z : Option Scalar, z.bind convert = (z.map Scalar.spelled).bind convert := by
    intro z
    cases z with
    | none => rfl
    | some v => exact (hconvert v).symm
  rw [hmap x, hmap y, h]

private theorem reads_of_spelled {value value' : Path → Option Scalar}
    (h : ∀ path, (value path).map Scalar.spelled = (value' path).map Scalar.spelled) {config : Config}
    (hread : Reads value config) : Reads value' config := by
  have htext := fun path => bind_of_spelled _ intoString_spelled (h path)
  have henvironment := fun path =>
    bind_of_spelled (fun v => Environment.deserialize (.scalar v)) environment_spelled (h path)
  have hbool := fun path => bind_of_spelled _ bool_spelled (h path)
  have h16 := fun path => bind_of_spelled _ isUnsigned_uInt16.nativeOrString_spelled (h path)
  have h32 := fun path => bind_of_spelled _ isUnsigned_uInt32.nativeOrString_spelled (h path)
  have h64 := fun path => bind_of_spelled _ isUnsigned_uInt64.nativeOrString_spelled (h path)
  exact ⟨(htext _).trans hread.name, (htext _).trans hread.version, (henvironment _).trans hread.environment,
    (hbool _).trans hread.debug, (htext _).trans hread.serverHost, (h16 _).trans hread.serverPort,
    (h64 _).trans hread.serverTimeout, (htext _).trans hread.host, (h16 _).trans hread.port,
    (htext _).trans hread.username, (htext _).trans hread.password, (htext _).trans hread.database,
    (h32 _).trans hread.maxConnections, (h32 _).trans hread.minConnections, (h64 _).trans hread.connectTimeout,
    (h64 _).trans hread.acquireTimeout, (h64 _).trans hread.idleTimeout, (h64 _).trans hread.maxLifetime⟩

/-- The spelling of the values leaves the paths alone. -/
private theorem forall_mem_spelled {P : Path → Prop} {layer : ConfigLayer} :
    (∀ e ∈ ConfigLayer.spelled layer, P e.1) ↔ ∀ e ∈ layer, P e.1 := List.forall_mem_map

private theorem flat_spelled (h : sources.Flat) : sources.spelled.Flat := by
  simp only [Sources.Flat, Sources.spelled, List.forall_mem_cons, List.not_mem_nil, false_imp_iff, implies_true,
    and_true, forall_mem_spelled] at h ⊢
  exact h

/-- Integers in the files may be put as texts: the load ends the same way. -/
theorem load_spelled (h : sources.Flat) :
    Config.load name version sources.spelled = Config.load name version sources := by
  have hpaths : (∀ layer ∈ sources.spelled.layers name version, ∀ e ∈ layer, e.1 ∈ fieldPaths) ↔
      ∀ layer ∈ sources.layers name version, ∀ e ∈ layer, e.1 ∈ fieldPaths := by
    simp only [Sources.layers, Sources.spelled, List.forall_mem_cons, forall_mem_spelled]
  have hsame : (sources.spelled.layers name version).map ConfigLayer.spelled =
      (sources.layers name version).map ConfigLayer.spelled := by
    simp [Sources.layers, Sources.spelled, ConfigLayer.spelled]
  have hvalue : ∀ path, (effective (sources.spelled.layers name version) path).map Scalar.spelled =
      (effective (sources.layers name version) path).map Scalar.spelled := by
    intro path
    rw [← effective_spelled, ← effective_spelled, hsame]
  have hread : Config.deserialize (Tree.Value.build (sources.spelled.layers name version).flatten) =
      Config.deserialize (Tree.Value.build (sources.layers name version).flatten) := by
    refine Option.ext fun config => ?_
    rw [deserialize_layers_eq_some (flat_spelled h), deserialize_layers_eq_some h, hpaths]
    exact and_congr_right fun _ => ⟨reads_of_spelled hvalue, reads_of_spelled fun path => (hvalue path).symm⟩
  rw [Config.load, hread, Config.load]

end

end StarterHub
