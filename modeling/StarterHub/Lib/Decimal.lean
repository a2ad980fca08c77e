import Mathlib.Data.Nat.Basic

/-!
# Checked accumulation and decimal numerals

An accumulation that never shrinks may be checked against a bound at every step or once at the end: the same lists pass
(`foldlM_checked`).  Reading a numeral digit by digit is such an accumulation.
-/

namespace Decimal

/-! ### Checked accumulation -/

section

variable {σ α : Type} [Preorder σ] {f : σ → α → σ}

theorem le_foldl (hf : ∀ s a, s ≤ f s a) (l : List α) (s : σ) : s ≤ l.foldl f s := by
  induction l generalizing s with
  | nil => exact le_refl s
  | cons a l ih => exact le_trans (hf s a) (ih (f s a))

/-- If every step checks its entry and the bound, the run passes iff all entries do and the result is in bounds. -/
theorem foldlM_checked {ok : α → Prop} {bound : σ} {step : σ → α → Option σ} (hf : ∀ s a, s ≤ f s a)
    (hstep : ∀ s a t, step s a = some t ↔ ok a ∧ f s a = t ∧ t ≤ bound) {s t : σ} (hs : s ≤ bound) (l : List α) :
    l.foldlM step s = some t ↔ (∀ a ∈ l, ok a) ∧ l.foldl f s = t ∧ t ≤ bound := by
  induction l generalizing s with
  | nil =>
    simp only [List.foldlM_nil, Option.pure_def, Option.some.injEq, List.not_mem_nil, false_imp_iff, implies_true,
      true_and, List.foldl_nil]
    constructor
    · rintro rfl
      exact ⟨rfl, hs⟩
    · exact And.left
  | cons a l ih =>
    simp only [List.foldlM_cons, Option.bind_eq_bind, Option.bind_eq_some_iff, List.forall_mem_cons, List.foldl_cons]
    constructor
    · rintro ⟨s', hs', hl⟩
      obtain ⟨ha, rfl, hle⟩ := (hstep s a s').1 hs'
      obtain ⟨hall, ht⟩ := (ih hle).1 hl
      exact ⟨⟨ha, hall⟩, ht⟩
    · rintro ⟨⟨ha, hall⟩, rfl, hle⟩
      -- what is in bounds at the end was in bounds all along
      have hmid : f s a ≤ bound := le_trans (le_foldl hf l _) hle
      exact ⟨f s a, (hstep s a _).2 ⟨ha, rfl, hmid⟩, (ih hmid).2 ⟨hall, rfl, hle⟩⟩

end

/-! ### Numerals -/

/-- One or more decimal digits and the number they stand for. -/
structure Denotes (digits : List Char) (n : Nat) : Prop where
  nonempty : digits ≠ []
  isDigit : ∀ c ∈ digits, c.isDigit = true
  value : Nat.ofDigitChars 10 digits 0 = n

theorem denotes_toDigits (n : Nat) : Denotes (Nat.toDigits 10 n) n where
  nonempty := Nat.toDigits_ne_nil
  isDigit _ hc := Nat.isDigit_of_mem_toDigits (by decide) (by decide) hc
  value := Nat.ofDigitChars_ten_toDigits

/-- The digits, read one by one under a bound. -/
theorem foldlM_digits {max : Nat} {step : Nat → Char → Option Nat}
    (hstep : ∀ acc c n, step acc c = some n ↔ c.isDigit = true ∧ 10 * acc + (c.toNat - '0'.toNat) = n ∧ n ≤ max)
    {digits : List Char} (hne : digits ≠ []) {n : Nat} :
    digits.foldlM step 0 = some n ↔ Denotes digits n ∧ n ≤ max := by
  have hgrow : ∀ (acc : Nat) (c : Char), acc ≤ 10 * acc + (c.toNat - '0'.toNat) := fun acc c => by omega
  rw [foldlM_checked hgrow hstep (Nat.zero_le max), ← Nat.ofDigitChars_eq_foldl]
  constructor
  · rintro ⟨hall, hvalue, hle⟩
    exact ⟨⟨hne, hall, hvalue⟩, hle⟩
  · rintro ⟨hn, hle⟩
    exact ⟨hn.isDigit, hn.value, hle⟩

end Decimal
