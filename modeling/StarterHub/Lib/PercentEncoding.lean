import StarterHub.Lib.Ascii

/-!
# Percent encoding

The UTF-8 bytes of a text with some of the ASCII bytes, and all the others, written as `%` and two upper-case
hexadecimal digits, and the decoding that reads such triples back.  Decoding undoes encoding whenever `%` itself is
one of the escaped bytes.
-/

namespace PercentEncoding

def AsciiSet : Type := UInt8 → Bool

namespace AsciiSet

def remove (set : AsciiSet) (byte : UInt8) : AsciiSet := fun b => set b && b != byte

/-- Bytes outside ASCII are escaped whatever the set. -/
def shouldPercentEncode (set : AsciiSet) (byte : UInt8) : Bool := decide (128 ≤ byte.toNat) || set byte

end AsciiSet

/-- `NON_ALPHANUMERIC`: every ASCII byte that is neither a letter nor a digit. -/
def nonAlphanumeric : AsciiSet := fun b => !(Char.ofNat b.toNat).isAlphanum

def percentEncodeByte (byte : UInt8) : List Char :=
  ['%', Ascii.hexUpper (byte.toNat / 16), Ascii.hexUpper (byte.toNat % 16)]

def encodeByte (set : AsciiSet) (byte : UInt8) : List Char :=
  if set.shouldPercentEncode byte then percentEncodeByte byte else [Char.ofNat byte.toNat]

def encodeBytes (set : AsciiSet) (bytes : List UInt8) : List Char := bytes.flatMap (encodeByte set)

def utf8PercentEncode (input : String) (set : AsciiSet) : String :=
  String.ofList (encodeBytes set input.toUTF8.data.toList)

/-- `percent_decode`: a `%` that two hexadecimal digits do not follow stands for itself. -/
def percentDecode : List Char → List UInt8
  | '%' :: h :: l :: rest =>
    match Ascii.hexValue h, Ascii.hexValue l with
    | some h', some l' => UInt8.ofNat (h' * 16 + l') :: percentDecode rest
    | _, _ => String.utf8EncodeChar '%' ++ percentDecode (h :: l :: rest)
  | c :: rest => String.utf8EncodeChar c ++ percentDecode rest
  | [] => []

/-- `percent_decode` followed by `decode_utf8`. -/
def decodeUtf8 (input : List Char) : Option String := String.fromUTF8? ⟨(percentDecode input).toArray⟩

/-! ### One byte -/

theorem ofNat_ne_percent {n : Nat} (h : n < 128) (hn : n ≠ 37) : Char.ofNat n ≠ '%' := by
  revert n
  decide

theorem percentDecode_cons {c : Char} (h : c ≠ '%') (rest : List Char) :
    percentDecode (c :: rest) = String.utf8EncodeChar c ++ percentDecode rest := by
  rw [percentDecode]
  rintro _ _ _ rfl
  exact absurd rfl h

theorem percentDecode_percentEncodeByte (byte : UInt8) (rest : List Char) :
    percentDecode (percentEncodeByte byte ++ rest) = byte :: percentDecode rest := by
  have hlt := byte.toNat_lt
  have hh : byte.toNat / 16 < 16 := by omega
  have hl : byte.toNat % 16 < 16 := by omega
  simp only [percentEncodeByte, List.cons_append, List.nil_append, percentDecode, Ascii.hexValue_hexUpper hh,
    Ascii.hexValue_hexUpper hl]
  congr 1
  rw [Nat.div_add_mod']
  exact UInt8.ofNat_toNat

/-- Either way, a byte is read back, if `%` itself is escaped. -/
theorem percentDecode_encodeByte {set : AsciiSet} (hset : set 37 = true) (byte : UInt8) (rest : List Char) :
    percentDecode (encodeByte set byte ++ rest) = byte :: percentDecode rest := by
  unfold encodeByte
  split
  · exact percentDecode_percentEncodeByte byte rest
  · next h =>
    simp only [AsciiSet.shouldPercentEncode, Bool.or_eq_true, decide_eq_true_eq, not_or, Nat.not_le] at h
    obtain ⟨hlt, hs⟩ := h
    have hne : byte.toNat ≠ 37 := by
      intro heq
      obtain rfl : byte = 37 := UInt8.toNat_inj.1 heq
      exact hs hset
    rw [List.singleton_append, percentDecode_cons (ofNat_ne_percent hlt hne), Ascii.utf8EncodeChar_ofNat hlt,
      UInt8.ofNat_toNat, List.singleton_append]

/-! ### Texts -/

theorem percentDecode_encodeBytes {set : AsciiSet} (hset : set 37 = true) (bytes : List UInt8) :
    percentDecode (encodeBytes set bytes) = bytes := by
  induction bytes with
  | nil => rfl
  | cons byte bytes ih =>
    rw [encodeBytes, List.flatMap_cons, percentDecode_encodeByte hset]
    exact congrArg _ ih

theorem fromUTF8?_toUTF8 (s : String) : String.fromUTF8? s.toUTF8 = some s := by
  rw [String.toUTF8_eq_toByteArray, String.fromUTF8?, dif_pos s.isValidUTF8]
  rfl

/-- Decoding undoes encoding, for every text. -/
theorem decodeUtf8_utf8PercentEncode {set : AsciiSet} (hset : set 37 = true) (input : String) :
    decodeUtf8 (utf8PercentEncode input set).toList = some input := by
  rw [decodeUtf8, utf8PercentEncode, String.toList_ofList, percentDecode_encodeBytes hset, Array.toArray_toList]
  exact fromUTF8?_toUTF8 input

/-- What stands in an encoded text: `%`, letters and digits, and ASCII outside the set. -/
theorem mem_utf8PercentEncode {set : AsciiSet} {input : String} {c : Char}
    (h : c ∈ (utf8PercentEncode input set).toList) :
    c = '%' ∨ c.isAlphanum = true ∨ ∃ n < 128, c = Char.ofNat n ∧ set (UInt8.ofNat n) = false := by
  rw [utf8PercentEncode, String.toList_ofList, encodeBytes, List.mem_flatMap] at h
  obtain ⟨byte, -, h⟩ := h
  have hlt := byte.toNat_lt
  unfold encodeByte at h
  split at h
  · simp only [percentEncodeByte, List.mem_cons, List.not_mem_nil, or_false] at h
    rcases h with rfl | rfl | rfl
    · exact .inl rfl
    · exact .inr (.inl (Ascii.hexUpper_isAlphanum (by omega)))
    · exact .inr (.inl (Ascii.hexUpper_isAlphanum (by omega)))
  · next hs =>
    simp only [AsciiSet.shouldPercentEncode, Bool.or_eq_true, decide_eq_true_eq, not_or, Nat.not_le,
      Bool.not_eq_true] at hs
    exact .inr (.inr ⟨byte.toNat, hs.1, List.mem_singleton.1 h, by rw [UInt8.ofNat_toNat]; exact hs.2⟩)

end PercentEncoding
