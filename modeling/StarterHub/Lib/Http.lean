import StarterHub.Lib.Ascii

/-!
# HTTP messages

Status codes, header values and header maps, as far as a middleware looks at them.  A status code and a header value
carry the proof that they are legal.
-/

namespace Http

/-! ### Status codes -/

/-- A `StatusCode`: three digits. -/
structure StatusCode where
  code : Nat
  valid : 100 ≤ code ∧ code < 1000
  deriving DecidableEq

namespace StatusCode

def isSuccess (status : StatusCode) : Bool := decide (200 ≤ status.code) && decide (status.code < 300)

def isServerError (status : StatusCode) : Bool := decide (500 ≤ status.code) && decide (status.code < 600)

def ok : StatusCode := ⟨200, by decide⟩
def badRequest : StatusCode := ⟨400, by decide⟩
def notFound : StatusCode := ⟨404, by decide⟩
def methodNotAllowed : StatusCode := ⟨405, by decide⟩
def conflict : StatusCode := ⟨409, by decide⟩
def internalServerError : StatusCode := ⟨500, by decide⟩
def serviceUnavailable : StatusCode := ⟨503, by decide⟩

end StatusCode

/-! ### Header values -/

/-- A byte that may stand in a header value. -/
def isLegal (b : UInt8) : Bool := (decide (32 ≤ b.toNat) && decide (b.toNat ≠ 127)) || decide (b.toNat = 9)

/-- A visible byte, or a tab. -/
def isVisible (b : UInt8) : Bool := (decide (32 ≤ b.toNat) && decide (b.toNat < 127)) || decide (b.toNat = 9)

def isAsciiGraphic (b : UInt8) : Bool := decide (33 ≤ b.toNat) && decide (b.toNat ≤ 126)

theorem isVisible_of_isAsciiGraphic {b : UInt8} (h : isAsciiGraphic b = true) : isVisible b = true := by
  simp only [isAsciiGraphic, isVisible, Bool.and_eq_true, Bool.or_eq_true, decide_eq_true_eq] at h ⊢
  omega

theorem isLegal_of_isVisible {b : UInt8} (h : isVisible b = true) : isLegal b = true := by
  simp only [isLegal, isVisible, Bool.and_eq_true, Bool.or_eq_true, decide_eq_true_eq] at h ⊢
  omega

/-- A `HeaderValue`: legal bytes. -/
structure HeaderValue where
  bytes : List UInt8
  valid : bytes.all isLegal = true
  deriving DecidableEq

namespace HeaderValue

/-- A text of visible ASCII, byte by byte. -/
def ofBytes (bytes : List UInt8) : String := String.ofList (bytes.map fun b => Char.ofNat b.toNat)

def toStr (value : HeaderValue) : Option String :=
  if value.bytes.all isVisible then some (ofBytes value.bytes) else none

theorem toUTF8_ofBytes {bytes : List UInt8} (h : ∀ b ∈ bytes, b.toNat < 128) :
    (ofBytes bytes).toUTF8.data.toList = bytes := by
  have hflat : (bytes.map fun b => Char.ofNat b.toNat).flatMap String.utf8EncodeChar = bytes := by
    induction bytes with
    | nil => rfl
    | cons b bytes ih =>
      rw [List.map_cons, List.flatMap_cons, Ascii.utf8EncodeChar_ofNat (h b (List.mem_cons_self ..)), UInt8.ofNat_toNat,
        ih fun b' hb' => h b' (List.mem_cons_of_mem _ hb')]
      rfl
  rw [String.toUTF8_eq_toByteArray, ofBytes, String.toByteArray_ofList, List.utf8Encode, hflat]
  simp

theorem toUTF8_of_toStr {value : HeaderValue} {text : String} (h : value.toStr = some text) :
    text.toUTF8.data.toList = value.bytes := by
  simp only [toStr, Option.ite_none_right_eq_some, Option.some.injEq] at h
  obtain ⟨hv, rfl⟩ := h
  refine toUTF8_ofBytes fun b hb => ?_
  have := List.all_eq_true.1 hv b hb
  simp only [isVisible, Bool.and_eq_true, Bool.or_eq_true, decide_eq_true_eq] at this
  omega

end HeaderValue

/-! ### Header maps -/

/-- A `HeaderMap`: values by lower-case name, in order; a name may have several. -/
structure HeaderMap where
  entries : List (String × HeaderValue)
  deriving DecidableEq

namespace HeaderMap

def empty : HeaderMap := ⟨[]⟩

def getAll (headers : HeaderMap) (name : String) : List HeaderValue :=
  (headers.entries.filter fun e => decide (e.1 = name)).map Prod.snd

/-- `HeaderMap::get`: the first value of the name. -/
def get (headers : HeaderMap) (name : String) : Option HeaderValue := (headers.getAll name).head?

/-- `HeaderMap::remove`: all values of the name. -/
def remove (headers : HeaderMap) (name : String) : HeaderMap :=
  ⟨headers.entries.filter fun e => decide (e.1 ≠ name)⟩

/-- `HeaderMap::insert`: the one value of the name. -/
def insert (headers : HeaderMap) (name : String) (value : HeaderValue) : HeaderMap :=
  ⟨(headers.remove name).entries ++ [(name, value)]⟩

variable {headers : HeaderMap} {name other : String} {value : HeaderValue}

@[simp] theorem getAll_remove_self : (headers.remove name).getAll name = [] := by
  simp [getAll, remove, List.filter_filter]

theorem getAll_remove_ne (h : other ≠ name) : (headers.remove name).getAll other = headers.getAll other := by
  have hand : ∀ e : String × HeaderValue, (decide (e.1 = other) && decide (e.1 ≠ name)) = decide (e.1 = other) := by
    intro e
    by_cases he : e.1 = other <;> simp [he, h]
  simp only [getAll, remove, List.filter_filter, hand]

@[simp] theorem getAll_insert_self : (headers.insert name value).getAll name = [value] := by
  simp [getAll, insert, remove, List.filter_filter]

theorem getAll_insert_ne (h : other ≠ name) : (headers.insert name value).getAll other = headers.getAll other := by
  have hremove : (headers.remove name).getAll other = headers.getAll other := getAll_remove_ne h
  rw [← hremove]
  simp [getAll, insert, Ne.symm h]

@[simp] theorem get_remove_self : (headers.remove name).get name = none := by simp [get]

@[simp] theorem get_insert_self : (headers.insert name value).get name = some value := by simp [get]

theorem get_insert_ne (h : other ≠ name) : (headers.insert name value).get other = headers.get other := by
  rw [get, getAll_insert_ne h, get]

end HeaderMap

end Http
