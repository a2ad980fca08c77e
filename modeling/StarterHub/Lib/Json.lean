import StarterHub.Lib.Ascii

/-!
# JSON texts

JSON values and their compact rendering, and the reading of a string literal, which undoes the escaping of its
characters.
-/

namespace Json

/-! ### Values -/

/-- The exponent of a number, if it has one, up to the end of the literal. -/
def isExponent : List Char → Bool
  | [] => true
  | c :: '+' :: d :: ds => (c == 'e' || c == 'E') && (d :: ds).all Char.isDigit
  | c :: '-' :: d :: ds => (c == 'e' || c == 'E') && (d :: ds).all Char.isDigit
  | c :: d :: ds => (c == 'e' || c == 'E') && (d :: ds).all Char.isDigit
  | _ => false

/-- The fraction of a number, if it has one, and its exponent. -/
def isFraction : List Char → Bool
  | '.' :: d :: ds => d.isDigit && isExponent (ds.dropWhile Char.isDigit)
  | cs => isExponent cs

/-- A number literal: no leading zeros, no bare point. -/
def isNumber (cs : List Char) : Bool :=
  match if cs.head? = some '-' then cs.tail else cs with
  | '0' :: ds => isFraction ds
  | d :: ds => d.isDigit && isFraction (ds.dropWhile Char.isDigit)
  | [] => false

/-- A number, by its literal. -/
structure Number where
  literal : String
  valid : isNumber literal.toList = true

inductive Value where
  | null
  | bool (b : Bool)
  | number (n : Number)
  | string (s : String)
  | array (items : List Value)
  | object (members : List (String × Value))

/-! ### Rendering -/

def escapeChar (c : Char) : List Char :=
  if c = '"' then ['\\', '"']
  else if c = '\\' then ['\\', '\\']
  else if c.toNat = 8 then ['\\', 'b']
  else if c = '\t' then ['\\', 't']
  else if c = '\n' then ['\\', 'n']
  else if c.toNat = 12 then ['\\', 'f']
  else if c = '\r' then ['\\', 'r']
  else if c.toNat < 32 then ['\\', 'u', '0', '0', Ascii.hexLower (c.toNat / 16), Ascii.hexLower (c.toNat % 16)]
  else [c]

def quote (s : String) : List Char := '"' :: (s.toList.flatMap escapeChar ++ ['"'])

mutual

def Value.render : Value → List Char
  | .null => "null".toList
  | .bool true => "true".toList
  | .bool false => "false".toList
  | .number n => n.literal.toList
  | .string s => quote s
  | .array items => '[' :: (renderItems items ++ [']'])
  | .object members => '\x7b' :: (renderMembers members ++ ['\x7d'])

def renderItems : List Value → List Char
  | [] => []
  | v :: vs => v.render ++ renderMoreItems vs

def renderMoreItems : List Value → List Char
  | [] => []
  | v :: vs => ',' :: (v.render ++ renderMoreItems vs)

def renderMembers : List (String × Value) → List Char
  | [] => []
  | (key, v) :: ms => quote key ++ ':' :: (v.render ++ renderMoreMembers ms)

def renderMoreMembers : List (String × Value) → List Char
  | [] => []
  | (key, v) :: ms => ',' :: (quote key ++ ':' :: (v.render ++ renderMoreMembers ms))

end

def Value.text (v : Value) : String := String.ofList v.render

private theorem Value.render_ne_nil (v : Value) : v.render ≠ [] := by
  cases v with
  | bool b => cases b <;> simp [render]
  | number n =>
    intro h
    have hvalid := n.valid
    rw [render] at h
    rw [h] at hvalid
    cases hvalid
  | _ => simp [render, quote]

/-- No text is empty. -/
theorem Value.text_ne_empty (v : Value) : v.text ≠ "" := fun h =>
  v.render_ne_nil (by simpa [text] using congrArg String.toList h)

/-! ### Reading a string literal -/

def unescapeChar : Char → Option Char
  | '"' => some '"'
  | '\\' => some '\\'
  | '/' => some '/'
  | 'b' => some (Char.ofNat 8)
  | 't' => some '\t'
  | 'n' => some '\n'
  | 'f' => some (Char.ofNat 12)
  | 'r' => some '\r'
  | _ => none

/-- The content of a literal whose opening quote was read, and what follows it. -/
def readQuoted : List Char → Option (List Char × List Char)
  | '"' :: rest => some ([], rest)
  | '\\' :: 'u' :: a :: b :: c :: d :: rest =>
    match Ascii.hexValue a, Ascii.hexValue b, Ascii.hexValue c, Ascii.hexValue d with
    | some a, some b, some c, some d =>
      (readQuoted rest).map fun (s, rest) => (Char.ofNat (((a * 16 + b) * 16 + c) * 16 + d) :: s, rest)
    | _, _, _, _ => none
  | '\\' :: c :: rest =>
    (unescapeChar c).bind fun c => (readQuoted rest).map fun (s, rest) => (c :: s, rest)
  | c :: rest => (readQuoted rest).map fun (s, rest) => (c :: s, rest)
  | [] => none

theorem readQuoted_control {n : Nat} (h : n < 32) (rest : List Char) :
    readQuoted ('\\' :: 'u' :: '0' :: '0' :: Ascii.hexLower (n / 16) :: Ascii.hexLower (n % 16) :: rest) =
      (readQuoted rest).map fun (s, rest) => (Char.ofNat n :: s, rest) := by
  have h0 : Ascii.hexValue '0' = some 0 := by decide
  rw [readQuoted, h0, Ascii.hexValue_hexLower (show n / 16 < 16 by omega),
    Ascii.hexValue_hexLower (show n % 16 < 16 by omega)]
  have hn : ((0 * 16 + 0) * 16 + n / 16) * 16 + n % 16 = n := by omega
  simp only [hn]

theorem readQuoted_plain {c : Char} (hq : c ≠ '"') (hb : c ≠ '\\') (rest : List Char) :
    readQuoted (c :: rest) = (readQuoted rest).map fun (s, rest) => (c :: s, rest) := by
  rw [readQuoted]
  all_goals simp_all

theorem readQuoted_escapeChar (c : Char) (rest : List Char) :
    readQuoted (escapeChar c ++ rest) = (readQuoted rest).map fun (s, rest) => (c :: s, rest) := by
  have hof : ∀ n, c.toNat = n → c = Char.ofNat n := by
    rintro n rfl
    exact (Char.ofNat_toNat c).symm
  unfold escapeChar
  split
  · next h => subst h; rfl
  split
  · next h => subst h; rfl
  split
  · next h => obtain rfl := hof _ h; rfl
  split
  · next h => subst h; rfl
  split
  · next h => subst h; rfl
  split
  · next h => obtain rfl := hof _ h; rfl
  split
  · next h => subst h; rfl
  split
  · next h =>
    have hread := readQuoted_control h rest
    rw [Char.ofNat_toNat] at hread
    exact hread
  · next hq hb _ _ _ _ _ _ => exact readQuoted_plain hq hb rest

/-- A string literal is read back, up to its closing quote. -/
theorem readQuoted_escape (cs rest : List Char) :
    readQuoted (cs.flatMap escapeChar ++ '"' :: rest) = some (cs, rest) := by
  induction cs with
  | nil => rfl
  | cons c cs ih => rw [List.flatMap_cons, List.append_assoc, readQuoted_escapeChar, ih, Option.map_some]

/-- The string under the single key of an object. -/
def readObject (key : String) (body : List Char) : Option String :=
  let start := '\x7b' :: (quote key ++ [':', '"'])
  if body.take start.length = start then
    match readQuoted (body.drop start.length) with
    | some (s, ['\x7d']) => some (String.ofList s)
    | _ => none
  else none

/-- It is the string the object was rendered from. -/
theorem readObject_render (key s : String) : readObject key (Value.object [(key, .string s)]).render = some s := by
  have hrender : (Value.object [(key, .string s)]).render =
      ('\x7b' :: (quote key ++ [':', '"'])) ++ (s.toList.flatMap escapeChar ++ '"' :: ['\x7d']) := by
    simp [Value.render, renderMembers, renderMoreMembers, quote]
  rw [readObject, hrender, List.take_left, List.drop_left, if_pos rfl, readQuoted_escape]
  exact congrArg some String.ofList_toList

end Json
