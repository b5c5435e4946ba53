import VibeRouter.Lib.JsString

/-! # Regular expressions

Regular expressions over code units with the backtracking semantics of the language.
`Regex.run` lists every way an expression matches at a cursor, in order of preference, so that
the first entry is the match the engine reports.  A repetition stops when an iteration after
the required ones consumes nothing.

* `Regex.exec` matches at one place, `Regex.test` anywhere, `Regex.matchAll` collects the
  matches of a global search from left to right.
* A class is a predicate on code units; the flag `i` is expressed by the class. -/

/-- A regular expression. -/
inductive Regex
  | eps
  | char (p : ℕ → Bool)
  | seq (r s : Regex)
  | alt (r s : Regex)
  | rep (r : Regex) (min : ℕ) (max : Option ℕ) (greedy : Bool)
  | group (n : ℕ) (r : Regex)
  | backref (n : ℕ)
  | bol
  | eol
  | notBehind (p : ℕ → Bool)
  | notAhead (p : ℕ → Bool)

namespace Regex

/-- A place in a text, with what the groups have captured. -/
structure Cursor where
  before : JsString
  rest : JsString
  groups : ℕ → Option JsString

namespace Cursor

/-- Move over the first `n` code units of what is left. -/
def advance (c : Cursor) (n : ℕ) : Cursor :=
  { c with before := (c.rest.take n).reverse ++ c.before, rest := c.rest.drop n }

/-- What was read between two places. -/
def between (c c' : Cursor) : JsString := c.rest.take (c.rest.length - c'.rest.length)

end Cursor

/-- The most a repetition may still do after one more iteration. -/
def less : Option ℕ → Option ℕ
  | some n => some (n - 1)
  | none => none

/-- Iterate the body `m` of a repetition. -/
def iter (m : Cursor → List Cursor) (greedy : Bool) : ℕ → ℕ → Option ℕ → Cursor → List Cursor
  | 0, _, _, _ => []
  | fuel + 1, 0, max, c =>
      if max = some 0 then [c]
      else
        let more := ((m c).filter fun c' => c'.rest.length < c.rest.length).flatMap
          (iter m greedy fuel 0 (less max))
        if greedy then more ++ [c] else c :: more
  | fuel + 1, min + 1, max, c => (m c).flatMap (iter m greedy fuel min (less max))

/-- Every way to match at a cursor, in order of preference. -/
def run : Regex → Cursor → List Cursor
  | eps, c => [c]
  | char p, c => match c.rest with
    | x :: _ => if p x then [c.advance 1] else []
    | [] => []
  | seq r s, c => (run r c).flatMap (run s)
  | alt r s, c => run r c ++ run s c
  | rep r min max greedy, c => iter (run r) greedy (min + c.rest.length + 1) min max c
  | group n r, c => (run r c).map fun c' =>
      { c' with groups := fun k => if k = n then some (c.between c') else c'.groups k }
  | backref n, c => match c.groups n with
    | none => [c]
    | some s => if s <+: c.rest then [c.advance s.length] else []
  | bol, c => if c.before = [] then [c] else []
  | eol, c => if c.rest = [] then [c] else []
  | notBehind p, c => match c.before with
    | x :: _ => if p x then [] else [c]
    | [] => [c]
  | notAhead p, c => match c.rest with
    | x :: _ => if p x then [] else [c]
    | [] => [c]

/-- The preferred match at one place. -/
def exec (r : Regex) (before rest : JsString) : Option Cursor :=
  (r.run ⟨before, rest, fun _ => none⟩).head?

/-- Does the expression match somewhere from a place on? -/
def testFrom (r : Regex) (before : JsString) : JsString → Bool
  | [] => (r.exec before []).isSome
  | x :: xs => (r.exec before (x :: xs)).isSome || testFrom r (x :: before) xs

/-- `r.test(text)`. -/
def test (r : Regex) (text : JsString) : Bool := r.testFrom [] text

/-- One match of a global search. -/
structure Match where
  index : ℕ
  text : JsString
  groups : ℕ → Option JsString

/-- Where a match ends. -/
def Match.stop (m : Match) : ℕ := m.index + m.text.length

/-- The matches of a global search from a place on. -/
def matchFrom (r : Regex) : ℕ → JsString → JsString → List Match
  | 0, _, _ => []
  | fuel + 1, before, rest => match r.exec before rest with
    | some c =>
        let m : Match := ⟨before.length, rest.take (rest.length - c.rest.length), c.groups⟩
        if c.rest.length < rest.length then m :: matchFrom r fuel c.before c.rest
        else match rest with
          | [] => [m]
          | x :: xs => m :: matchFrom r fuel (x :: before) xs
    | none => match rest with
      | [] => []
      | x :: xs => matchFrom r fuel (x :: before) xs

/-- `[...text.matchAll(r)]`. -/
def matchAll (r : Regex) (text : JsString) : List Match := r.matchFrom (text.length + 1) [] text

/-- `text.replace(r, '')`: leave out the first match. -/
def removeFirst (r : Regex) (text : JsString) : JsString :=
  match (r.matchAll text).head? with
  | some m => text.take m.index ++ text.drop m.stop
  | none => text

/-! ### Ways to write an expression -/

/-- The characters of a class listed one by one. -/
def oneOf (s : String) (c : ℕ) : Bool := (js s).contains c

/-- A letter with the flag `i`. -/
def letter (c : Char) : Regex := char fun x => x == c.toLower.toNat || x == c.toUpper.toNat

/-- A text matched as it is. -/
def literal (s : JsString) : Regex := s.foldr (fun x r => seq (char fun y => y == x) r) eps

/-- A word with the flag `i`. -/
def word (s : String) : Regex := s.toList.foldr (fun x r => seq (letter x) r) eps

def digit : Regex := char JsString.isDigit

def space : Regex := char JsString.isSpace

/-- `r{n}`. -/
def times (r : Regex) (n : ℕ) : Regex := rep r n (some n) true

/-- `r{m,n}`. -/
def upTo (r : Regex) (m n : ℕ) : Regex := rep r m (some n) true

/-- `r*`. -/
def star (r : Regex) : Regex := rep r 0 none true

/-- `r?`. -/
def opt (r : Regex) : Regex := rep r 0 (some 1) true

/-- One expression after the other. -/
def cat (rs : List Regex) : Regex := rs.foldr seq eps

/-- One of several expressions. -/
def any : List Regex → Regex
  | [] => char fun _ => false
  | [r] => r
  | r :: rs => alt r (any rs)

end Regex
