import VibeRouter.Lib.Json

/-! # Reading JSON by a schema

Readers for values of a given shape, and for the members of an object: one that must be there, one
that may be absent, and one that may be absent or `null`.  A reader that does not accept a value
answers `none`. -/

namespace Json

def asString : Json → Option JsString
  | str s => some s
  | _ => none

def asNumber : Json → Option ℚ
  | num n => some n
  | _ => none

def asArray : Json → Option (List Json)
  | arr xs => some xs
  | _ => none

def isObject : Json → Bool
  | obj _ => true
  | _ => false

def isNull : Json → Bool
  | null => true
  | _ => false

/-- `z.object(…)`: an object, whose members are read by `read`. -/
def object {α : Type} (read : Json → Option α) (v : Json) : Option α :=
  if v.isObject then read v else none

def array {α : Type} (read : Json → Option α) (v : Json) : Option (List α) :=
  v.asArray.bind fun xs => xs.mapM read

/-- A member that must be there. -/
def member {α : Type} (read : Json → Option α) (name : String) (v : Json) : Option α :=
  (v.field name).bind read

/-- `.optional()`. -/
def optionalMember {α : Type} (read : Json → Option α) (name : String) (v : Json) :
    Option (Option α) :=
  match v.field name with
  | none => some none
  | some w => (read w).map some

/-- `.nullish()`. -/
def nullishMember {α : Type} (read : Json → Option α) (name : String) (v : Json) :
    Option (Option α) :=
  match v.field name with
  | none | some null => some none
  | some w => (read w).map some

end Json
