import VibeRouter.Lib.JsMap
import VibeRouter.Lib.JsString
import Mathlib.Algebra.Field.Rat
import Mathlib.Data.List.Lex
import Mathlib.Data.List.Sort

/-! # JSON

`Json.parse` reads a text by the JSON grammar: it skips white space between tokens, decodes
the escapes of strings, and lets a later member of an object replace an earlier one of the same
name.  `Json.stringify` writes a value without white space.  Numbers are exact, so a number
that is not a finite binary fraction keeps its decimal value. -/

/-- A JSON value. -/
inductive Json
  | null
  | bool (b : Bool)
  | num (n : ℚ)
  | str (s : JsString)
  | arr (xs : List Json)
  | obj (es : List (JsString × Json))

namespace Json

/-! ### Reading -/

def isBlank (c : ℕ) : Bool := c == 32 || c == 9 || c == 10 || c == 13

/-- Skip white space. -/
def skip (s : JsString) : JsString := s.dropWhile isBlank

/-- The value of a hexadecimal digit. -/
def hexDigit (c : ℕ) : Option ℕ :=
  if 48 ≤ c ∧ c ≤ 57 then some (c - 48)
  else if 65 ≤ c ∧ c ≤ 70 then some (c - 55)
  else if 97 ≤ c ∧ c ≤ 102 then some (c - 87)
  else none

/-- The code unit four hexadecimal digits denote. -/
def hex4 (a b c d : ℕ) : Option ℕ :=
  match hexDigit a, hexDigit b, hexDigit c, hexDigit d with
  | some a, some b, some c, some d => some (((a * 16 + b) * 16 + c) * 16 + d)
  | _, _, _, _ => none

/-- What a one-character escape denotes. -/
def escape (c : ℕ) : Option ℕ :=
  if c = 34 ∨ c = 92 ∨ c = 47 then some c
  else if c = 98 then some 8
  else if c = 102 then some 12
  else if c = 110 then some 10
  else if c = 114 then some 13
  else if c = 116 then some 9
  else none

/-- The rest of a string after its opening quote. -/
def chars : JsString → Option (JsString × JsString)
  | [] => none
  | c :: rest =>
      if c = 34 then some ([], rest)
      else if c < 32 then none
      else if c = 92 then
        match rest with
        | [] => none
        | e :: rest₁ =>
            if e = 117 then
              match rest₁ with
              | h₁ :: h₂ :: h₃ :: h₄ :: rest₂ =>
                  (hex4 h₁ h₂ h₃ h₄).bind fun u =>
                    (chars rest₂).map fun p => (u :: p.1, p.2)
              | _ => none
            else (escape e).bind fun u => (chars rest₁).map fun p => (u :: p.1, p.2)
      else (chars rest).map fun p => (c :: p.1, p.2)

/-- A non-empty run of digits. -/
def digits (s : JsString) : Option (JsString × JsString) :=
  let ds := s.takeWhile JsString.isDigit
  if ds = [] then none else some (ds, s.drop ds.length)

/-- The integer part of a number: a leading zero stands alone. -/
def intPart : JsString → Option (JsString × JsString)
  | 48 :: rest => some ([48], rest)
  | s => digits s

/-- The fraction of a number, if there is one. -/
def fracPart : JsString → Option (JsString × JsString)
  | 46 :: rest => digits rest
  | s => some ([], s)

/-- The exponent of a number, if there is one. -/
def expPart : JsString → Option (ℤ × JsString)
  | c :: rest =>
      if c = 101 ∨ c = 69 then
        match rest with
        | 43 :: rest' => (digits rest').map fun p => ((JsString.digitsValue p.1 : ℤ), p.2)
        | 45 :: rest' => (digits rest').map fun p => (-(JsString.digitsValue p.1 : ℤ), p.2)
        | rest' => (digits rest').map fun p => ((JsString.digitsValue p.1 : ℤ), p.2)
      else some (0, c :: rest)
  | [] => some (0, [])

/-- `m · 10 ^ e`. -/
def scale (m : ℕ) (e : ℤ) : ℚ :=
  if 0 ≤ e then (m : ℚ) * 10 ^ e.toNat else (m : ℚ) / 10 ^ (-e).toNat

/-- A number without its sign. -/
def unsigned (s : JsString) : Option (ℚ × JsString) :=
  (intPart s).bind fun i => (fracPart i.2).bind fun f => (expPart f.2).map fun e =>
    (scale (JsString.digitsValue (i.1 ++ f.1)) (e.1 - f.1.length), e.2)

def number : JsString → Option (ℚ × JsString)
  | 45 :: rest => (unsigned rest).map fun p => (-p.1, p.2)
  | s => unsigned s

/-- Drop the word `w` from the front. -/
def keyword (w : String) (s : JsString) : Option JsString :=
  if js w <+: s then some (s.drop (js w).length) else none

mutual

/-- A value, with at most `fuel` nested steps. -/
def value (fuel : ℕ) (s : JsString) : Option (Json × JsString) :=
  match fuel with
  | 0 => none
  | fuel + 1 => match skip s with
    | [] => none
    | c :: rest =>
        if c = 34 then (chars rest).map fun p => (.str p.1, p.2)
        else if c = 91 then
          match skip rest with
          | 93 :: rest' => some (.arr [], rest')
          | rest' => (elements fuel rest').map fun p => (.arr p.1, p.2)
        else if c = 123 then
          match skip rest with
          | 125 :: rest' => some (.obj [], rest')
          | rest' => (members fuel rest').map fun p =>
              (.obj (p.1.foldl (fun es e => JsMap.assign e.1 e.2 es) []), p.2)
        else if c = 116 then (keyword "true" (c :: rest)).map fun r => (.bool true, r)
        else if c = 102 then (keyword "false" (c :: rest)).map fun r => (.bool false, r)
        else if c = 110 then (keyword "null" (c :: rest)).map fun r => (.null, r)
        else (number (c :: rest)).map fun p => (.num p.1, p.2)

/-- The elements of an array up to its closing bracket. -/
def elements (fuel : ℕ) (s : JsString) : Option (List Json × JsString) :=
  match fuel with
  | 0 => none
  | fuel + 1 => (value fuel s).bind fun p => match skip p.2 with
    | 44 :: rest => (elements fuel rest).map fun q => (p.1 :: q.1, q.2)
    | 93 :: rest => some ([p.1], rest)
    | _ => none

/-- The members of an object up to its closing brace. -/
def members (fuel : ℕ) (s : JsString) : Option (List (JsString × Json) × JsString) :=
  match fuel with
  | 0 => none
  | fuel + 1 => match skip s with
    | 34 :: rest => (chars rest).bind fun k => match skip k.2 with
      | 58 :: rest₁ => (value fuel rest₁).bind fun p => match skip p.2 with
        | 44 :: rest₂ => (members fuel rest₂).map fun q => ((k.1, p.1) :: q.1, q.2)
        | 125 :: rest₂ => some ([(k.1, p.1)], rest₂)
        | _ => none
      | _ => none
    | _ => none

end

/-- `JSON.parse(s)`; `none` is the `SyntaxError`. -/
def parse (s : JsString) : Option Json :=
  (value (2 * s.length + 2) s).bind fun p => if skip p.2 = [] then some p.1 else none

/-! ### Writing -/

/-- A hexadecimal digit. -/
def hexChar (n : ℕ) : ℕ := if n < 10 then 48 + n else 87 + n

/-- `\uXXXX`. -/
def unicodeEscape (c : ℕ) : JsString :=
  [92, 117, hexChar (c / 4096), hexChar (c / 256 % 16), hexChar (c / 16 % 16), hexChar (c % 16)]

/-- One code unit inside a string. -/
def writeChar (c : ℕ) : JsString :=
  if c = 34 then [92, 34]
  else if c = 92 then [92, 92]
  else if c = 8 then [92, 98]
  else if c = 12 then [92, 102]
  else if c = 10 then [92, 110]
  else if c = 13 then [92, 114]
  else if c = 9 then [92, 116]
  else if c < 32 then unicodeEscape c
  else [c]

/-- The inside of a string; a surrogate without its partner is escaped. -/
def writeChars : JsString → JsString
  | [] => []
  | c :: cs =>
      if 0xD800 ≤ c ∧ c ≤ 0xDBFF then
        match cs with
        | d :: ds =>
            if 0xDC00 ≤ d ∧ d ≤ 0xDFFF then c :: d :: writeChars ds
            else unicodeEscape c ++ writeChars (d :: ds)
        | [] => unicodeEscape c
      else if 0xDC00 ≤ c ∧ c ≤ 0xDFFF then unicodeEscape c ++ writeChars cs
      else writeChar c ++ writeChars cs

/-- A string with its quotes. -/
def quote (s : JsString) : JsString := 34 :: writeChars s ++ [34]

mutual

/-- `JSON.stringify(v)`, with the way numbers are written given. -/
def stringify (number : ℚ → JsString) : Json → JsString
  | null => js "null"
  | bool true => js "true"
  | bool false => js "false"
  | num n => number n
  | str s => quote s
  | arr xs => 91 :: stringifyList number xs ++ [93]
  | obj es => 123 :: stringifyEntries number es ++ [125]

def stringifyList (number : ℚ → JsString) : List Json → JsString
  | [] => []
  | [x] => stringify number x
  | x :: y :: xs => stringify number x ++ 44 :: stringifyList number (y :: xs)

def stringifyEntries (number : ℚ → JsString) : List (JsString × Json) → JsString
  | [] => []
  | [(k, v)] => quote k ++ 58 :: stringify number v
  | (k, v) :: e :: es =>
      quote k ++ 58 :: (stringify number v ++ 44 :: stringifyEntries number (e :: es))

end

mutual

/-- The value with the members of every object in the order of their names. -/
def sortKeys : Json → Json
  | arr xs => arr (sortKeysList xs)
  | obj es => obj ((sortKeysEntries es).insertionSort fun a b => a.1 ≤ b.1)
  | v => v

def sortKeysList : List Json → List Json
  | [] => []
  | x :: xs => sortKeys x :: sortKeysList xs

def sortKeysEntries : List (JsString × Json) → List (JsString × Json)
  | [] => []
  | (k, v) :: es => (k, sortKeys v) :: sortKeysEntries es

end

/-- The text of a value that does not depend on the order of its members. -/
def canonicalize (number : ℚ → JsString) (v : Json) : JsString := stringify number (sortKeys v)

/-! ### Values -/

/-- `value.name`, when the value is an object that has it. -/
def field (name : String) : Json → Option Json
  | obj es => es.lookup (js name)
  | _ => none

/-- `Boolean(value)`. -/
def truthy : Json → Bool
  | null => false
  | bool b => b
  | num n => n ≠ 0
  | str s => s ≠ []
  | arr _ => true
  | obj _ => true

mutual

/-- The number of values inside a value, itself included. -/
def size : Json → ℕ
  | arr xs => sizeList xs + 1
  | obj es => sizeEntries es + 1
  | _ => 1

def sizeList : List Json → ℕ
  | [] => 0
  | x :: xs => size x + sizeList xs

def sizeEntries : List (JsString × Json) → ℕ
  | [] => 0
  | (_, v) :: es => size v + sizeEntries es

end

end Json
