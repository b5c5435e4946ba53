import VibeRouter.Lib.JsString
import Mathlib.Data.Rat.Defs

/-! # Table rows

The rows of the database as the gateway reads and writes them, with the columns some modelled
function uses.

* Ids are uuids and digests are hexadecimal: `HexText` carries that such a text is made of
  hexadecimal digits and dashes only, so it never contains the colon that composite keys use.
* A `jsonb` column has the record type the program reads it as.
* Amounts of money are natural numbers of millionths: `numeric(12,6)` cents are counted in
  millionths of a cent, `numeric(14,6)` dollars in millionths of a dollar. -/

namespace VibeRouter

/-- A character of a uuid or of a hexadecimal digest. -/
def isHexChar (c : Char) : Bool := c.isDigit || ('a' ≤ c && c ≤ 'f') || c == '-'

/-- A text of hexadecimal digits and dashes. -/
structure HexText where
  text : String
  wf : text.toList.all isHexChar = true
deriving DecidableEq

abbrev Uuid : Type := HexText

abbrev Digest : Type := HexText

namespace HexText

theorem no_colon (h : HexText) : ':' ∉ h.text.toList := by
  intro hc
  have := List.all_eq_true.1 h.wf ':' hc
  exact absurd this (by decide)

theorem ext_text {a b : HexText} (h : a.text = b.text) : a = b := by
  cases a
  cases b
  cases h
  rfl

theorem append_colon_inj {a a' b b' : List Char} (ha : ':' ∉ a) (ha' : ':' ∉ a')
    (h : a ++ ':' :: b = a' ++ ':' :: b') : a = a' ∧ b = b' := by
  induction a generalizing a' with
  | nil =>
      cases a' with
      | nil => exact ⟨rfl, (List.cons.inj h).2⟩
      | cons c cs => exact absurd (List.cons.inj h).1.symm (List.ne_of_not_mem_cons ha').symm
  | cons c cs ih =>
      cases a' with
      | nil => exact absurd (List.cons.inj h).1 (List.ne_of_not_mem_cons ha).symm
      | cons c' cs' =>
          obtain ⟨rfl, ht⟩ := List.cons.inj h
          obtain ⟨rfl, rfl⟩ := ih (List.not_mem_of_not_mem_cons ha)
            (List.not_mem_of_not_mem_cons ha') ht
          exact ⟨rfl, rfl⟩

/-- A composite key that starts with such a text and a colon determines its parts. -/
theorem key_inj {a a' : HexText} {x x' : String}
    (h : a.text ++ ":" ++ x = a'.text ++ ":" ++ x') : a = a' ∧ x = x' := by
  have h' : a.text.toList ++ ':' :: x.toList = a'.text.toList ++ ':' :: x'.toList := by
    simpa using congrArg String.toList h
  obtain ⟨ha, hx⟩ := append_colon_inj a.no_colon a'.no_colon h'
  exact ⟨ext_text (String.toList_injective ha), String.toList_injective hx⟩

/-- `digest.slice(0, n)`. -/
def take (h : HexText) (n : ℕ) : HexText where
  text := String.ofList (h.text.toList.take n)
  wf := by
    rw [String.toList_ofList, List.all_eq_true]
    intro c hc
    exact List.all_eq_true.1 h.wf c (List.mem_of_mem_take hc)

end HexText

/-! ### Enumerations -/

inductive UserRole
  | admin | partner | staff
deriving DecidableEq, Repr

inductive ProviderKind
  | openai_compat | anthropic | local | digitalocean | local_ocr
deriving DecidableEq, Repr

namespace ProviderKind

/-- `PROVIDER_KINDS`. -/
def all : List ProviderKind := [openai_compat, anthropic, .local, digitalocean, local_ocr]

/-- The text of a kind in the database. -/
def text : ProviderKind → String
  | openai_compat => "openai_compat"
  | anthropic => "anthropic"
  | .local => "local"
  | digitalocean => "digitalocean"
  | local_ocr => "local_ocr"

end ProviderKind

/-- `LOCAL_TIER_KINDS`: kinds whose endpoints live on the appliance network. -/
def LOCAL_TIER_KINDS : List ProviderKind := [.local, .local_ocr]

def isLocalKind (kind : ProviderKind) : Bool := LOCAL_TIER_KINDS.contains kind

inductive ProviderAuthType
  | api_key | none
deriving DecidableEq, Repr

inductive ModelStatus
  | active | deprecated | sunset
deriving DecidableEq, Repr

inductive Sensitivity
  | local_only | cloud_deidentified | cloud_allowed
deriving DecidableEq, Repr

inductive BudgetScope
  | firm | app | user
deriving DecidableEq, Repr

inductive RequestStatus
  | ok | provider_error | policy_blocked | scrubber_blocked | budget_exceeded | rate_limited
  | capability_missing | no_vision_provider | client_abort | error
deriving DecidableEq, Repr

/-- `CAPABILITY_KEYS`. -/
inductive CapabilityKey
  | tools | json_schema | vision | caching | reasoning
deriving DecidableEq, Repr

namespace CapabilityKey

def text : CapabilityKey → String
  | tools => "tools"
  | json_schema => "json_schema"
  | vision => "vision"
  | caching => "caching"
  | reasoning => "reasoning"

end CapabilityKey

/-! ### Settings kept as JSON -/

/-- `models.capabilities` and `models.capability_overrides`. -/
structure Capabilities where
  tools : Option Bool := none
  json_schema : Option Bool := none
  vision : Option Bool := none
  caching : Option Bool := none
  reasoning : Option Bool := none
deriving DecidableEq, Repr

def Capabilities.get (c : Capabilities) : CapabilityKey → Option Bool
  | .tools => c.tools
  | .json_schema => c.json_schema
  | .vision => c.vision
  | .caching => c.caching
  | .reasoning => c.reasoning

/-- `firm.settings.budgets`; limits are whole cents. -/
structure BudgetSettings where
  firm_monthly_cents : Option ℕ := none
  apps : List (String × ℕ) := []
  users : List (String × ℕ) := []
  soft_pct : Option ℕ := none
deriving DecidableEq, Repr

inductive ScrubberMode
  | block | redact | warn
deriving DecidableEq, Repr

/-- `firms.settings`. -/
structure FirmSettings where
  scrubber_mode : Option ScrubberMode := none
  banned_provider_kinds : List String := []
  banned_model_patterns : List JsString := []
  global_temperature_max : Option ℚ := none
  budgets : BudgetSettings := {}
deriving DecidableEq

/-- `task_classes.requires`. -/
structure TaskClassRequires where
  tools : Bool := false
  json_schema : Bool := false
  vision : Bool := false
  caching : Bool := false
  thinking_budget : Option ℕ := none
  cache_ttl_s : Option ℚ := none
  cache_cloud : Bool := false
deriving DecidableEq, Repr

/-! ### Rows -/

structure FirmRow where
  id : Uuid
  settings : FirmSettings
deriving DecidableEq

structure ProviderRow where
  id : Uuid
  firmId : Uuid
  kind : ProviderKind
  label : String
  baseUrl : String
  authType : ProviderAuthType
  modelMapping : List (String × String) := []
  deletedAt : Option ℕ := none
deriving DecidableEq

structure ModelRow where
  id : Uuid
  canonicalId : String
  providerKind : ProviderKind
  maxOutput : Option ℤ := none
  capabilities : Capabilities := {}
  capabilityOverrides : Capabilities := {}
  status : ModelStatus := .active
  thirdPartyHosted : Bool := false
deriving DecidableEq

/-- Rates are millionths of a dollar for each million tokens; a feed may carry any number. -/
structure ModelPricingRow where
  modelId : Uuid
  effectiveFrom : ℕ
  inputPerMtok : Option ℤ
  outputPerMtok : Option ℤ
  cacheReadPerMtok : Option ℤ
  cacheWritePerMtok : Option ℤ
deriving DecidableEq

structure TaskClassRow where
  id : Uuid
  key : String
  app : String
  description : String := ""
  sensitivity : Sensitivity
  requires : TaskClassRequires := {}
  defaultMaxTokens : ℤ := 1024
  registeredByAppVersion : Option String := none
deriving DecidableEq

structure PolicyRow where
  id : Uuid
  firmId : Uuid
  taskClassId : Uuid
  defaultModelId : Uuid
  allowedModelIds : List Uuid := []
  fallbackChain : List Uuid := []
  maxTokensOverride : Option ℤ := none
  temperatureMin : Option ℚ := none
  temperatureMax : Option ℚ := none
  monthlyBudgetCents : Option ℕ := none
  enabled : Bool := true
  acknowledgedModels : List String := []
deriving DecidableEq

structure RolePolicyRow where
  policyId : Uuid
  role : UserRole
  allowed : Bool
deriving DecidableEq

structure AppTokenRow where
  id : Uuid
  firmId : Uuid
  app : String
  tokenHash : Digest
  scopes : List String
  revokedAt : Option ℕ := none
deriving DecidableEq

/-- A ledger row as it is inserted; `costCents` is `null` when the price is unknown.  The counts are as
the provider reported them, and the database refuses a row with one that is not whole. -/
structure UsageLedgerValues where
  requestId : String
  firmId : Uuid
  app : String
  taskClassId : Option Uuid
  userId : Option Uuid
  modelRequested : Option String
  modelServed : Option String
  providerId : Option Uuid
  promptTokens : ℚ
  completionTokens : ℚ
  cachedReadTokens : ℚ
  cacheWriteTokens : ℚ
  costCents : Option ℤ
  costUnknown : Bool
  costEstimated : Bool
  latencyMs : ℤ
  status : RequestStatus
  engagementRef : Option String
  clientRef : Option String
  requestHash : Digest

/-- A ledger row; `ts` is the time of the insertion. -/
structure UsageLedgerRow extends UsageLedgerValues where
  ts : ℕ

end VibeRouter
