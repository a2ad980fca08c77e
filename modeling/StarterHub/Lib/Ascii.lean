/-!
# ASCII

Hexadecimal digits, and ASCII characters as the one byte they are in UTF-8.
-/

namespace Ascii

def hexUpper (n : Nat) : Char := if n < 10 then Char.ofNat (48 + n) else Char.ofNat (55 + n)

def hexLower (n : Nat) : Char := if n < 10 then Char.ofNat (48 + n) else Char.ofNat (87 + n)

/-- The value of a hexadecimal digit of either case. -/
def hexValue (c : Char) : Option Nat :=
  if '0' ≤ c ∧ c ≤ '9' then some (c.toNat - 48)
  else if 'A' ≤ c ∧ c ≤ 'F' then some (c.toNat - 55)
  else if 'a' ≤ c ∧ c ≤ 'f' then some (c.toNat - 87)
  else none

theorem hexValue_hexUpper {n : Nat} (h : n < 16) : hexValue (hexUpper n) = some n := by
  revert n
  decide

theorem hexValue_hexLower {n : Nat} (h : n < 16) : hexValue (hexLower n) = some n := by
  revert n
  decide

theorem hexUpper_isAlphanum {n : Nat} (h : n < 16) : (hexUpper n).isAlphanum = true := by
  revert n
  decide

/-- What has no capitals is spelled back from its capitals. -/
theorem toLower_toUpper {c : Char} (h : c.toNat < 128) (hc : c.isUpper = false) : c.toUpper.toLower = c := by
  have hall : ∀ n < 128, (Char.ofNat n).isUpper = false → (Char.ofNat n).toUpper.toLower = Char.ofNat n := by decide
  rw [← Char.ofNat_toNat c] at hc ⊢
  exact hall c.toNat h hc

theorem utf8EncodeChar_ofNat {n : Nat} (h : n < 128) : String.utf8EncodeChar (Char.ofNat n) = [UInt8.ofNat n] := by
  revert n
  decide

end Ascii
