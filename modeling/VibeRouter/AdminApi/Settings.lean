import VibeRouter.AdminApi.Logins
import VibeRouter.Lib.JsonRead
import VibeRouter.Lib.ReadWrite

/-! # The settings of a firm

The routes under `/admin-api/settings`.  An update reads the settings of the firm, merges the body
into them and writes the result back with a later statement; a key that is set to `null` is
cleared.  By its keys, what it writes is what it has read with the keys of the body set
(`merge_get`). -/

namespace VibeRouter

open Effects ReadWrite

/-- `firms.settings`, as it is stored. -/
abbrev SettingsObject : Type := JsMap JsString Json

/-- A row of `firms`. -/
structure FirmRecord where
  id : Uuid
  name : JsString
  settings : SettingsObject

/-- The `config_change` that is written to the audit log. -/
structure SettingsAudit where
  firmId : Uuid
  userId : Uuid
  entityId : Uuid
  scrubber_mode : Json
  changed : JsString

inductive SettingsOp
  | getSession (cookie : Option JsString)
  | findFirm (id : Uuid)
  | updateFirm (id : Uuid) (settings : SettingsObject)
  | invalidate (firmId : Uuid)
  | audit (entry : SettingsAudit)

/-- What is awaited may be rejected. -/
@[reducible] def SettingsOp.Answer : SettingsOp → Type
  | getSession _ => Option SessionData
  | findFirm _ => Except Thrown (Option FirmRecord)
  | updateFirm _ _ => Except Thrown Unit
  | invalidate _ => Unit
  | audit _ => Unit

namespace Settings

abbrev Route (α : Type) : Type := Code SettingsOp SettingsOp.Answer Unit Thrown α

def op (e : SettingsOp) : Route e.Answer := Code.perform e

/-- `await`, of an answer that may be a rejection. -/
def await {α : Type} (c : Route (Except Thrown α)) : Route α := do
  Code.ofExcept (← c)

/-! ### The body of an update -/

section

open Zod

def budgetSchemas : List (String × Schema Json) :=
  [("firm_monthly_cents", unchanged positiveInt),
    ("apps", mapped Json.obj (record (unchanged positiveInt))),
    ("users", mapped Json.obj (record (unchanged positiveInt))),
    ("soft_pct", unchanged (checked number (isInt :: between 1 100)))]

def scrubberModes : List (String × ScrubberMode) :=
  [("block", .block), ("redact", .redact), ("warn", .warn)]

def providerKinds : List (String × ProviderKind) :=
  ProviderKind.all.map fun kind => (kind.text, kind)

def settingsSchemas : List (String × Schema Json) :=
  [("scrubber_mode", unchanged (enumeration scrubberModes)),
    ("banned_provider_kinds", unchanged (array (enumeration providerKinds))),
    ("banned_model_patterns",
      unchanged (atMost 50 (array (checked string [Auth.maxLength 200])))),
    ("global_temperature_max", unchanged (nullish (checked number (between 0 2)))),
    ("budgets", mapped Json.obj (object (optionals budgetSchemas)))]

/-- The keys that are set are the keys of the body. -/
def settingsSchema : Schema SettingsObject :=
  mapped JsMap.ofList (object fun members => do
    let data ← optionals settingsSchemas members
    only (settingsSchemas.map Prod.fst) members
    pure data)

end

/-! ### Routes -/

inductive Method
  | get | put
deriving DecidableEq

/-- `vibeAdmin` is the header `x-vibe-admin`. -/
structure Request where
  method : Method
  cookie : Option JsString
  vibeAdmin : Option JsString
  body : Option Json

inductive Reply
  | refused (status : ℕ) (e : RouterError)
  | settings (name : Option JsString) (settings : SettingsObject)
  | updated (settings : SettingsObject)

def fail (code : ErrorCode) (message : String) : Route Reply :=
  let e : RouterError := { code, message }
  pure (.refused e.status e)

def requireAdmin (req : Request) (next : SessionData → Route Reply) : Route Reply := do
  match (← op (.getSession req.cookie)).filter fun session => session.role = .admin with
  | none => pure (.refused 401 { code := .auth_error, message := "admin session required" })
  | some session =>
      if req.method ≠ .get ∧ req.vibeAdmin ≠ some (js "1") then
        pure (.refused 403 { code := .policy_blocked, message := "missing x-vibe-admin header" })
      else next session

/-- `firm?.settings ?? {}`. -/
def settingsOf (firm : Option FirmRecord) : SettingsObject :=
  (firm.map FirmRecord.settings).getD JsMap.empty

/-- `{ ...settings, ...data }`, without the keys that are `null`. -/
def merge (settings data : SettingsObject) : SettingsObject :=
  (settings.spread data).filter fun e => !e.2.isNull

/-- The settings by key, after a merge. -/
theorem merge_get (settings data : SettingsObject) :
    (merge settings data).get = patch (fun v => !v.isNull) data.get settings.get := by
  funext k
  unfold merge patch
  rw [JsMap.get_filter, JsMap.get_spread]

def getSettings (session : SessionData) : Route Reply := do
  let firm ← await (op (.findFirm session.firmId))
  pure (.settings (firm.map FirmRecord.name) (settingsOf firm))

def putSettings (req : Request) (session : SessionData) : Route Reply :=
  match settingsSchema req.body with
  | .error issue => fail .invalid_request issue.message
  | .ok data => do
      let firm ← await (op (.findFirm session.firmId))
      let merged := merge (settingsOf firm) data
      await (op (.updateFirm session.firmId merged))
      op (.invalidate session.firmId)
      op (.audit
        { firmId := session.firmId
          userId := session.userId
          entityId := session.firmId
          scrubber_mode := (data.get (js "scrubber_mode")).getD .null
          changed := (js ",").intercalate data.keys })
      pure (.updated merged)

def Request.run (req : Request) : Route Reply :=
  requireAdmin req (match req.method with
    | .get => getSettings
    | .put => putSettings req)

end Settings

end VibeRouter
