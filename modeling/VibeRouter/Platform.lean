import VibeRouter.Db.Schema

/-! # The platform

Functions of the runtime that the program calls and whose code is not part of it.  Everything
below is stated for every platform. -/

namespace VibeRouter

/-- The parts of a URL the program reads. -/
structure Url where
  protocol : String
  hostname : String
deriving DecidableEq

/-- The runtime. -/
class Platform where
  /-- `createHash('sha256').update(text).digest('hex')`. -/
  sha256 : JsString → Digest
  /-- The upper case of a code unit, itself when that is not a single code unit. -/
  upperCase : ℕ → ℕ
  /-- `new URL(text)`; `none` is the `TypeError`. -/
  parseUrl : String → Option Url
  /-- `isIP(text) !== 0`. -/
  isIP : String → Bool
  /-- `String(n)`. -/
  numberText : ℚ → JsString

/-- A platform to evaluate on: it knows the digests of some texts, the URLs without a port in
their host, and how whole numbers are written. -/
@[reducible] def Platform.ofDigests (digests : List (JsString × Digest)) (other : Digest) : Platform where
  sha256 text := (digests.lookup text).getD other
  upperCase c := if 97 ≤ c ∧ c ≤ 122 then c - 32 else c
  parseUrl text :=
    let host := fun cs : List Char => String.ofList (cs.takeWhile fun c => c ≠ '/' && c ≠ ':')
    if "https://".toList <+: text.toList then some ⟨"https:", host (text.toList.drop 8)⟩
    else if "http://".toList <+: text.toList then some ⟨"http:", host (text.toList.drop 7)⟩
    else none
  isIP text := text.toList.all (fun c => c.isDigit || c == '.') || text.toList.contains ':'
  numberText n := js (toString n.num)

end VibeRouter
