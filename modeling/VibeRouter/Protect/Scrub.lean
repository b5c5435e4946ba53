import VibeRouter.Gateway.Envelope
import VibeRouter.Lib.Regex
import Mathlib.Data.List.Sort

/-! # The scrubber

Deterministic detection of identifiers in text: social security numbers, employer
identification numbers, bank routing numbers, account numbers and payment cards.  `scanText`
runs five passes over a text, each skipping what an earlier pass has matched; `redactText`
replaces the matched spans; `scanEnvelope` and `redactEnvelope` do so for every text field of
an envelope. -/

namespace VibeRouter

open Regex

/-- `MATCH_TYPES`. -/
inductive MatchType
  | ssn | ein | routing | account | card
deriving DecidableEq, Repr

def MatchType.text : MatchType → String
  | ssn => "ssn"
  | ein => "ein"
  | routing => "routing"
  | account => "account"
  | card => "card"

structure ScrubMatch where
  type : MatchType
  start : ℕ
  stop : ℕ
deriving DecidableEq, Repr

/-! ### Validity of candidates -/

def validSsnParts (area group serial : JsString) : Bool :=
  let a := JsString.digitsValue area
  if a = 0 ∨ a = 666 ∨ 900 ≤ a then false
  else if JsString.digitsValue group = 0 then false
  else if JsString.digitsValue serial = 0 then false
  else true

/-- `EIN_PREFIXES`, as numbers below 100. -/
def EIN_PREFIXES : List ℕ :=
  [1, 2, 3, 4, 5, 6, 10, 11, 12, 13, 14, 15, 16, 20, 21, 22, 23, 24,
    25, 26, 27, 30, 31, 32, 33, 34, 35, 36, 37, 38, 39, 40, 41, 42, 43, 44,
    45, 46, 47, 48, 50, 51, 52, 53, 54, 55, 56, 57, 58, 59, 60, 61, 62, 63,
    64, 65, 66, 67, 68, 71, 72, 73, 74, 75, 76, 77, 80, 81, 82, 83, 84, 85,
    86, 87, 88, 90, 91, 92, 93, 94, 95, 98, 99]

def abaChecksumValid (digits : JsString) : Bool :=
  if digits.length ≠ 9 then false
  else
    let d := fun i => digits.getD i 48 - 48
    let sum := 3 * (d 0 + d 3 + d 6) + 7 * (d 1 + d 4 + d 7) + 1 * (d 2 + d 5 + d 8)
    sum % 10 = 0 ∧ 0 < sum

def abaPrefixValid (digits : JsString) : Bool :=
  let p := JsString.digitsValue (digits.slice 0 2)
  p ≤ 12 ∨ (21 ≤ p ∧ p ≤ 32) ∨ (61 ≤ p ∧ p ≤ 72) ∨ p = 80

/-- The sum of the Luhn check over digits listed from the last to the first. -/
def luhnSum : Bool → JsString → ℕ
  | _, [] => 0
  | false, c :: cs => (c - 48) + luhnSum true cs
  | true, c :: cs =>
      let n := 2 * (c - 48)
      (if 9 < n then n - 9 else n) + luhnSum false cs

def luhnValid (digits : JsString) : Bool := luhnSum false digits.reverse % 10 = 0

/-- A character between two others, both included. -/
def range (a b : Char) : Regex := char fun c => a.toNat ≤ c && c ≤ b.toNat

/-- `^4\d{12}(\d{3})?(\d{3})?$`. -/
def visa : Regex :=
  cat [bol, literal (js "4"), digit.times 12, opt (group 1 (digit.times 3)),
    opt (group 2 (digit.times 3)), eol]

/-- `^5[1-5]\d{14}$`. -/
def mastercard : Regex := cat [bol, literal (js "5"), range '1' '5', digit.times 14, eol]

/-- `^3[47]\d{13}$`. -/
def amex : Regex := cat [bol, literal (js "3"), char (oneOf "47"), digit.times 13, eol]

/-- `^(6011|65\d{2}|64[4-9]\d)\d{12}$`. -/
def discover : Regex :=
  cat [bol, group 1 (any [literal (js "6011"), cat [literal (js "65"), digit.times 2],
    cat [literal (js "64"), range '4' '9', digit]]), digit.times 12, eol]

def iinValid (digits : JsString) : Bool :=
  let first4 := JsString.digitsValue (digits.slice 0 4)
  if visa.test digits then true
  else if mastercard.test digits then true
  else if digits.length = 16 ∧ 2221 ≤ first4 ∧ first4 ≤ 2720 then true
  else if amex.test digits then true
  else discover.test digits

/-! ### Patterns -/

/-- `[\d-]`. -/
def digitOrDash (c : ℕ) : Bool := JsString.isDigit c || c == 45

/-- `[ -]`. -/
def spaceOrDash (c : ℕ) : Bool := c == 32 || c == 45

/-- `(?<![\d-])r(?![\d-])`. -/
def standalone (rs : List Regex) : Regex :=
  seq (notBehind digitOrDash) (cat (rs ++ [notAhead digitOrDash]))

/-- `(?<![\d-])(?:\d[ -]?){12,18}\d(?![\d-])`. -/
def CARD : Regex := standalone [(seq digit (opt (char spaceOrDash))).upTo 12 18, digit]

/-- `(?<![\d-])\d{9}(?![\d-])`. -/
def NINE_DIGITS : Regex := standalone [digit.times 9]

/-- `(?<![\d-])(\d{3})([- ])(\d{2})\2(\d{4})(?![\d-])`. -/
def SSN : Regex :=
  standalone [group 1 (digit.times 3), group 2 (char spaceOrDash), group 3 (digit.times 2),
    backref 2, group 4 (digit.times 4)]

/-- `(?<![\d-])(\d{2})-(\d{7})(?![\d-])`. -/
def EIN : Regex :=
  standalone [group 1 (digit.times 2), literal (js "-"), group 2 (digit.times 7)]

/-- `(?<![\d-])\d{6,17}(?![\d-])`. -/
def ACCOUNT_DIGITS : Regex := standalone [digit.upTo 6 17]

/-- `/acc(?:oun)?t(?:\s*(?:#|no\.?|num(?:ber)?))?|iban|checking|savings/i`. -/
def ACCOUNT_KEYWORD : Regex :=
  any [cat [word "acc", opt (word "oun"), word "t",
      opt (cat [space.star, any [literal (js "#"), cat [word "no", opt (literal (js "."))],
        cat [word "num", opt (word "ber")]]])],
    word "iban", word "checking", word "savings"]

/-- `/ssn|social\s*security|taxpayer\s*id|itin/i`. -/
def SSN_KEYWORD : Regex :=
  any [word "ssn", cat [word "social", space.star, word "security"],
    cat [word "taxpayer", space.star, word "id"], word "itin"]

/-! ### Scanning -/

def overlaps (ms : List ScrubMatch) (start stop : ℕ) : Bool :=
  ms.any fun m => start < m.stop && m.start < stop

/-- One pass: add the candidates that overlap no match so far and are valid. -/
def collect (type : MatchType) (valid : Match → Bool) (found : List Match)
    (ms : List ScrubMatch) : List ScrubMatch :=
  found.foldl (fun ms m =>
    if overlaps ms m.index m.stop then ms
    else if valid m then ms ++ [⟨type, m.index, m.stop⟩] else ms) ms

/-- A captured group. -/
def captured (m : Match) (n : ℕ) : JsString := (m.groups n).getD []

/-- The text of at most `n` code units before a match. -/
def context (text : JsString) (n : ℕ) (m : Match) : JsString :=
  text.slice (m.index - n) m.index

def validCard (m : Match) : Bool :=
  let digits := m.text.filter fun c => !spaceOrDash c
  if digits.length < 13 ∨ 19 < digits.length then false
  else luhnValid digits && iinValid digits

def validRouting (m : Match) : Bool := abaChecksumValid m.text && abaPrefixValid m.text

def validSsn (m : Match) : Bool :=
  validSsnParts (captured m 1) (captured m 3) (captured m 4)

def validBareSsn (text : JsString) (m : Match) : Bool :=
  SSN_KEYWORD.test (context text 40 m) &&
    validSsnParts (m.text.slice 0 3) (m.text.slice 3 5) (m.text.drop 5)

def validEin (m : Match) : Bool := EIN_PREFIXES.contains (JsString.digitsValue (captured m 1))

/-- `Math.abs(a - b) <= n`. -/
def within (n a b : ℕ) : Bool := a ≤ b + n && b ≤ a + n

def validAccount (text : JsString) (routingSpans : List (ℕ × ℕ)) (m : Match) : Bool :=
  (routingSpans.any fun s => within 120 m.index s.2 || within 120 s.1 m.stop) ||
    ACCOUNT_KEYWORD.test (context text 30 m)

/-- The spans of the matches of type `routing`. -/
def routingSpans (ms : List ScrubMatch) : List (ℕ × ℕ) :=
  (ms.filter fun m => m.type = .routing).map fun m => (m.start, m.stop)

/-- Cards are looked for first, so no earlier match can overlap them. -/
def scanCards (text : JsString) : List ScrubMatch :=
  ((CARD.matchAll text).filter validCard).map fun m => ⟨.card, m.index, m.stop⟩

def scanRouting (text : JsString) (ms : List ScrubMatch) : List ScrubMatch :=
  collect .routing validRouting (NINE_DIGITS.matchAll text) ms

def scanSsn (text : JsString) (ms : List ScrubMatch) : List ScrubMatch :=
  collect .ssn (validBareSsn text) (NINE_DIGITS.matchAll text)
    (collect .ssn validSsn (SSN.matchAll text) ms)

def scanEin (text : JsString) (ms : List ScrubMatch) : List ScrubMatch :=
  collect .ein validEin (EIN.matchAll text) ms

def scanAccount (text : JsString) (ms : List ScrubMatch) : List ScrubMatch :=
  collect .account (validAccount text (routingSpans ms)) (ACCOUNT_DIGITS.matchAll text) ms

def scanText (text : JsString) : List ScrubMatch :=
  (scanAccount text (scanEin text (scanSsn text (scanRouting text (scanCards text))))).insertionSort
    fun a b => a.start ≤ b.start

/-! ### Redaction -/

def REDACTION : MatchType → JsString
  | .ssn => js "[SSN]"
  | .ein => js "[EIN]"
  | .routing => js "[ROUTING]"
  | .account => js "[ACCOUNT]"
  | .card => js "[CARD]"

/-- The loop of `redactText` from a cursor on. -/
def redactFrom (text : JsString) : ℕ → List ScrubMatch → JsString
  | cursor, [] => text.drop cursor
  | cursor, m :: ms =>
      if m.start < cursor then redactFrom text cursor ms
      else text.slice cursor m.start ++ REDACTION m.type ++ redactFrom text m.stop ms

def redactText (text : JsString) (ms : List ScrubMatch) : JsString := redactFrom text 0 ms

/-! ### Envelopes -/

/-- Counts for each type, in the order the types were first seen. -/
structure ScrubReport where
  counts : JsMap MatchType ℕ
  total : ℕ

namespace ScrubReport

def empty : ScrubReport := ⟨.empty, 0⟩

/-- Count one match. -/
def count (r : ScrubReport) (m : ScrubMatch) : ScrubReport :=
  ⟨r.counts.set m.type ((r.counts.get m.type).getD 0 + 1), r.total + 1⟩

/-- Count the matches of one text. -/
def countText (r : ScrubReport) (text : JsString) : ScrubReport := (scanText text).foldl count r

/-- The counts as texts and numbers. -/
def detail (r : ScrubReport) : List (String × ℕ) := r.counts.entries.map fun e => (e.1.text, e.2)

end ScrubReport

/-- The texts of a content. -/
def Content.texts : Content → List JsString
  | .text s => [s]
  | .parts ps => ps.filterMap fun p => match p with
    | .text t => some t
    | .image _ => none

def AIMessage.textFields (m : AIMessage) : List JsString :=
  m.content.texts ++ (m.toolCalls.getD []).map ToolCall.arguments

def textFields (env : AIRequest) : List JsString := env.messages.flatMap AIMessage.textFields

def scanEnvelope (env : AIRequest) : ScrubReport :=
  (textFields env).foldl ScrubReport.countText .empty

/-- `scrubString`: redact one text and count its matches. -/
def scrubString (text : JsString) : StateM ScrubReport JsString := do
  modify fun r => r.countText text
  pure (if 0 < (scanText text).length then redactText text (scanText text) else text)

def scrubPart : ContentPart → StateM ScrubReport ContentPart
  | .text t => do pure (.text (← scrubString t))
  | .image url => pure (.image url)

def scrubContent : Content → StateM ScrubReport Content
  | .text s => do pure (.text (← scrubString s))
  | .parts ps => do pure (.parts (← ps.mapM scrubPart))

def scrubToolCall (tc : ToolCall) : StateM ScrubReport ToolCall := do
  pure { tc with arguments := ← scrubString tc.arguments }

def scrubMessage (m : AIMessage) : StateM ScrubReport AIMessage := do
  let content ← scrubContent m.content
  match m.toolCalls with
  | none => pure { m with content }
  | some tcs => pure { m with content, toolCalls := some (← tcs.mapM scrubToolCall) }

/-- A copy of the envelope with the matched spans replaced, and what was matched. -/
def redactEnvelope (env : AIRequest) : AIRequest × ScrubReport :=
  let (messages, report) := (env.messages.mapM scrubMessage).run .empty
  ({ env with messages }, report)

end VibeRouter
