import Mathlib.Data.List.Basic
import Mathlib.Data.Nat.Notation

/-! # Strings as sequences of code units

A string of the language is a sequence of UTF-16 code units; `js` gives the code units of a
text, and the functions below are the string methods the program uses. -/

/-- A string: its UTF-16 code units. -/
abbrev JsString : Type := List ℕ

namespace JsString

/-- The code units of one character. -/
def units (c : Char) : JsString :=
  let n := c.toNat
  if n < 0x10000 then [n] else [0xD800 + (n - 0x10000) / 0x400, 0xDC00 + (n - 0x10000) % 0x400]

/-- `s.slice(start, stop)` for indices that are not negative. -/
def slice (s : JsString) (start stop : ℕ) : JsString := (s.drop start).take (stop - start)

/-- `\d`. -/
def isDigit (c : ℕ) : Bool := 48 ≤ c && c ≤ 57

/-- A character that `trim` removes and `\s` matches. -/
def isSpace (c : ℕ) : Bool :=
  (9 ≤ c && c ≤ 13) || c == 32 || c == 0xA0 || c == 0x1680 || (0x2000 ≤ c && c ≤ 0x200A) ||
    c == 0x2028 || c == 0x2029 || c == 0x202F || c == 0x205F || c == 0x3000 || c == 0xFEFF

/-- `s.trim()`. -/
def trim (s : JsString) : JsString := ((s.dropWhile isSpace).reverse.dropWhile isSpace).reverse

/-- The number a run of decimal digits denotes. -/
def digitsValue (s : JsString) : ℕ := s.foldl (fun n c => 10 * n + (c - 48)) 0

/-- A string for a message. -/
def toText (s : JsString) : String := String.ofList (s.map Char.ofNat)

end JsString

/-- The elements are UTF-16 code units. -/
def JsString.Units (s : JsString) : Prop := ∀ c ∈ s, c < 0x10000

/-- The code units of a text. -/
def js (s : String) : JsString := s.toList.flatMap JsString.units
