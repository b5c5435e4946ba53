import Mathlib.Data.List.Induction
import VibeRouter.Catalog.Service
import VibeRouter.Gateway.Envelope
import VibeRouter.Gateway.Errors

/-! # Probes of capabilities

A model is sent small requests that need a capability; what comes back is a verdict, and conclusive
verdicts become overrides.  What the kind of a provider rules out is not switched on by a probe
(`effectiveCapabilities_probed`), and nothing is switched unless the adapter has answered so
(`probe_changes`). -/

namespace VibeRouter

namespace Catalog

inductive ProbeableCapability
  | vision | json_schema | tools
deriving DecidableEq

def PROBEABLE_CAPABILITIES : List ProbeableCapability := [.vision, .json_schema, .tools]

def ProbeableCapability.key : ProbeableCapability → CapabilityKey
  | .vision => .vision
  | .json_schema => .json_schema
  | .tools => .tools

inductive ProbeOutcome
  | supported | unsupported | inconclusive
deriving DecidableEq

structure ProbeResult where
  capability : ProbeableCapability
  outcome : ProbeOutcome
deriving DecidableEq

/-! ### Verdicts -/

/-- A completed response counts when it has made use of the capability. -/
def classifyProbeSuccess (capability : ProbeableCapability) (res : AIResponse) : ProbeOutcome :=
  match capability with
  | .vision => .supported
  | .json_schema => match Json.parse res.message.content with
    | some (.obj _) => .supported
    | some (.arr _) => .supported
    | _ => .inconclusive
  | .tools => if 0 < (res.message.toolCalls.getD []).length then .supported else .inconclusive

/-- `err.detail['providerStatus']` when it is a number. -/
def providerStatus (e : RouterError) : Option ℤ :=
  match e.detail.lookup "providerStatus" with
  | some (.num n) => some n
  | _ => none

/-- Only a rejection of the request itself says something about the model. -/
def classifyProbeError : Thrown → ProbeOutcome
  | .router e =>
      if e.code = .auth_error ∨ e.code = .rate_limited then .inconclusive
      else if (providerStatus e = some 400 ∨ providerStatus e = some 415 ∨
          providerStatus e = some 422) ∧ e.code ≠ .context_exceeded ∧ e.code ≠ .content_filtered then
        .unsupported
      else .inconclusive
  | _ => .inconclusive

/-- The verdicts on what the adapter answers to the request for each capability. -/
def probeModelCapabilities (answers : List (ProbeableCapability × Except Thrown AIResponse)) :
    List ProbeResult :=
  answers.map fun answer =>
    { capability := answer.1
      outcome := match answer.2 with
        | .ok res => classifyProbeSuccess answer.1 res
        | .error err => classifyProbeError err }

/-- The response makes use of the capability; to have taken the picture is enough. -/
def Exercises (res : AIResponse) : ProbeableCapability → Prop
  | .vision => True
  | .json_schema => ∃ j, Json.parse res.message.content = some j ∧
      ((∃ members, j = .obj members) ∨ ∃ items, j = .arr items)
  | .tools => ∃ calls, res.message.toolCalls = some calls ∧ calls ≠ []

/-- The provider has rejected the request itself. -/
def RejectsRequest (err : Thrown) : Prop :=
  ∃ e, err = .router e ∧ (∃ status ∈ [400, 415, 422], providerStatus e = some status) ∧
    e.code ∉ [.auth_error, .rate_limited, .context_exceeded, .content_filtered]

theorem classifyProbeSuccess_supported {capability : ProbeableCapability} {res : AIResponse} :
    classifyProbeSuccess capability res = .supported ↔ Exercises res capability := by
  cases capability with
  | vision => exact ⟨fun _ => trivial, fun _ => rfl⟩
  | json_schema =>
      unfold classifyProbeSuccess Exercises
      cases Json.parse res.message.content with
      | none => simp
      | some j => cases j <;> simp
  | tools =>
      unfold classifyProbeSuccess Exercises
      cases res.message.toolCalls with
      | none => simp
      | some calls => cases calls <;> simp

/-- A completed response is no proof that something is absent. -/
theorem classifyProbeSuccess_ne_unsupported (capability : ProbeableCapability) (res : AIResponse) :
    classifyProbeSuccess capability res ≠ .unsupported := by
  unfold classifyProbeSuccess
  split
  · simp
  · split <;> simp
  · split <;> simp

theorem classifyProbeError_unsupported {err : Thrown} :
    classifyProbeError err = .unsupported ↔ RejectsRequest err := by
  unfold classifyProbeError RejectsRequest
  cases err with
  | router e =>
      by_cases hprovider : e.code = .auth_error ∨ e.code = .rate_limited
      · rcases hprovider with hcode | hcode <;> simp [hcode]
      · rw [not_or] at hprovider
        simp [hprovider.1, hprovider.2]
  | _ => simp

/-- An error is no proof that something is there. -/
theorem classifyProbeError_ne_supported (err : Thrown) : classifyProbeError err ≠ .supported := by
  unfold classifyProbeError
  split
  · split
    · simp
    · split <;> simp
  · simp

section
variable {answers : List (ProbeableCapability × Except Thrown AIResponse)} {r : ProbeResult}

theorem answer_of_supported (hr : r ∈ probeModelCapabilities answers) (h : r.outcome = .supported) :
    ∃ res, (r.capability, .ok res) ∈ answers ∧ Exercises res r.capability := by
  obtain ⟨⟨capability, answer⟩, hanswer, rfl⟩ := List.mem_map.1 hr
  cases answer with
  | ok res => exact ⟨res, hanswer, classifyProbeSuccess_supported.1 h⟩
  | error err => exact absurd h (classifyProbeError_ne_supported err)

theorem answer_of_unsupported (hr : r ∈ probeModelCapabilities answers)
    (h : r.outcome = .unsupported) :
    ∃ err, (r.capability, .error err) ∈ answers ∧ RejectsRequest err := by
  obtain ⟨⟨capability, answer⟩, hanswer, rfl⟩ := List.mem_map.1 hr
  cases answer with
  | ok res => exact absurd h (classifyProbeSuccess_ne_unsupported capability res)
  | error err => exact ⟨err, hanswer, classifyProbeError_unsupported.1 h⟩

end

/-! ### Overrides -/

/-- Assign to a key. -/
def assign (caps : Capabilities) (b : Bool) : CapabilityKey → Capabilities
  | .tools => { caps with tools := some b }
  | .json_schema => { caps with json_schema := some b }
  | .vision => { caps with vision := some b }
  | .caching => { caps with caching := some b }
  | .reasoning => { caps with reasoning := some b }

theorem get_assign (caps : Capabilities) (b : Bool) (key key' : CapabilityKey) :
    (assign caps b key).get key' = if key' = key then some b else caps.get key' := by
  cases key <;> cases key' <;> rfl

/-- What one result makes of the overrides. -/
def mergeProbe (kind : ProviderKind) (merged : Capabilities) (r : ProbeResult) : Capabilities :=
  match r.outcome with
  | .supported =>
      if (KIND_CAPABILITY_CEILING kind).contains r.capability.key then merged
      else assign merged true r.capability.key
  | .unsupported => assign merged false r.capability.key
  | .inconclusive => merged

def overridesFromProbes (existing : Capabilities) (results : List ProbeResult) (kind : ProviderKind) :
    Capabilities :=
  results.foldl (mergeProbe kind) existing

/-- What a probe may not switch on. -/
def ceilingCappedCapabilities (kind : ProviderKind) : List CapabilityKey :=
  KIND_CAPABILITY_CEILING kind

/-- What a result has to say of a key: nothing, when it is not conclusive or says that a kind can do
what it cannot. -/
def verdict (kind : ProviderKind) (key : CapabilityKey) (r : ProbeResult) : Option Bool :=
  if r.capability.key ≠ key then none
  else match r.outcome with
    | .supported => if (ceilingCappedCapabilities kind).contains key then none else some true
    | .unsupported => some false
    | .inconclusive => none

theorem get_mergeProbe (kind : ProviderKind) (merged : Capabilities) (r : ProbeResult)
    (key : CapabilityKey) :
    (mergeProbe kind merged r).get key = (verdict kind key r).or (merged.get key) := by
  unfold mergeProbe verdict ceilingCappedCapabilities
  cases r.outcome with
  | supported =>
      by_cases hcapped : (KIND_CAPABILITY_CEILING kind).contains r.capability.key = true
      · by_cases hkey : r.capability.key = key
        · subst hkey
          simp only [hcapped, if_true, ne_eq, not_true_eq_false, if_false, Option.none_or]
        · simp only [hcapped, hkey, if_true, ne_eq, not_false_eq_true, Option.none_or]
      · by_cases hkey : r.capability.key = key
        · subst hkey
          simp only [hcapped, get_assign, if_true, ne_eq, not_true_eq_false, if_false,
            Option.some_or, Bool.false_eq_true]
        · simp only [hcapped, get_assign, hkey, Ne.symm hkey, if_true, ne_eq, not_false_eq_true,
            if_false, Option.none_or, Bool.false_eq_true]
  | unsupported =>
      by_cases hkey : r.capability.key = key
      · simp [get_assign, hkey]
      · simp [get_assign, hkey, Ne.symm hkey]
  | inconclusive =>
      by_cases hkey : r.capability.key = key <;> simp [hkey]

/-- The last verdict on a key decides, and where there is none the override stays. -/
theorem get_overridesFromProbes (existing : Capabilities) (results : List ProbeResult)
    (kind : ProviderKind) (key : CapabilityKey) :
    (overridesFromProbes existing results kind).get key =
      ((results.filterMap (verdict kind key)).getLast?).or (existing.get key) := by
  unfold overridesFromProbes
  induction results using List.reverseRecOn with
  | nil => rfl
  | append_singleton results r ih =>
      rw [List.foldl_append, List.filterMap_append]
      show (mergeProbe kind _ r).get key = _
      rw [get_mergeProbe, ih]
      cases hv : verdict kind key r with
      | none => simp [hv]
      | some b => simp [hv]

/-- A verdict is a conclusive result, and switches on nothing that the kind rules out. -/
theorem verdict_eq_some {kind : ProviderKind} {key : CapabilityKey} {r : ProbeResult} {b : Bool} :
    verdict kind key r = some b ↔ r.capability.key = key ∧
      (b = true ∧ r.outcome = .supported ∧ key ∉ ceilingCappedCapabilities kind ∨
        b = false ∧ r.outcome = .unsupported) := by
  unfold verdict
  by_cases hkey : r.capability.key = key
  · cases hout : r.outcome with
    | supported =>
        by_cases hcapped : key ∈ ceilingCappedCapabilities kind
        · simp [hkey, hcapped]
        · simp [hkey, hcapped, eq_comm]
    | unsupported => simp [hkey, eq_comm]
    | inconclusive => simp [hkey]
  · simp [hkey]

/-- The effective capabilities under other overrides. -/
theorem effectiveCapabilities_overrides (model : ModelRow) (overrides : Capabilities)
    (key : CapabilityKey) :
    effectiveCapabilities { model with capabilityOverrides := overrides } key =
      (overrides.get key).getD
        ((if (KIND_CAPABILITY_CEILING model.providerKind).contains key then some false
          else model.capabilities.get key).getD false) := by
  unfold effectiveCapabilities
  dsimp only
  cases overrides.get key <;> rfl

/-- A model with the overrides that results make. -/
theorem effectiveCapabilities_merged (model : ModelRow) (results : List ProbeResult)
    (key : CapabilityKey) :
    effectiveCapabilities { model with
      capabilityOverrides :=
        overridesFromProbes model.capabilityOverrides results model.providerKind } key =
      ((results.filterMap (verdict model.providerKind key)).getLast?).getD
        (effectiveCapabilities model key) := by
  have hmodel := effectiveCapabilities_overrides model model.capabilityOverrides key
  rw [effectiveCapabilities_overrides, get_overridesFromProbes, hmodel]
  cases (results.filterMap (verdict model.providerKind key)).getLast? <;> rfl

/-- **What probes make of a model.**  For each capability the last conclusive result decides what the
model can do, and where there is none nothing changes; and nothing that the kind rules out is
switched on. -/
theorem effectiveCapabilities_probed (model : ModelRow) (results : List ProbeResult)
    (key : CapabilityKey) :
    let probed := { model with
      capabilityOverrides :=
        overridesFromProbes model.capabilityOverrides results model.providerKind }
    effectiveCapabilities probed key =
      ((results.filterMap (verdict model.providerKind key)).getLast?).getD
        (effectiveCapabilities model key) ∧
    (key ∈ ceilingCappedCapabilities model.providerKind →
      effectiveCapabilities probed key = true → effectiveCapabilities model key = true) := by
  dsimp only
  refine ⟨effectiveCapabilities_merged model results key, ?_⟩
  intro hcapped htrue
  rw [effectiveCapabilities_merged] at htrue
  cases hlast : (results.filterMap (verdict model.providerKind key)).getLast? with
  | none => simpa [hlast] using htrue
  | some b =>
      obtain ⟨r, -, hr⟩ := List.mem_filterMap.1 (List.mem_of_getLast? hlast)
      obtain ⟨-, ⟨-, -, hfree⟩ | ⟨hb, -⟩⟩ := verdict_eq_some.1 hr
      · exact absurd hcapped hfree
      · simp [hlast, hb] at htrue

/-- **What a probe changes.**  A capability is switched on only by a response that makes use of it, where
the kind does not rule it out, and off only by a provider that rejects the request for it. -/
theorem probe_changes (model : ModelRow)
    (answers : List (ProbeableCapability × Except Thrown AIResponse)) (key : CapabilityKey) :
    let probed := { model with
      capabilityOverrides := overridesFromProbes model.capabilityOverrides
        (probeModelCapabilities answers) model.providerKind }
    effectiveCapabilities probed key = effectiveCapabilities model key ∨
    (effectiveCapabilities probed key = true ∧
      key ∉ ceilingCappedCapabilities model.providerKind ∧
      ∃ capability res, (capability, .ok res) ∈ answers ∧ capability.key = key ∧
        Exercises res capability) ∨
    effectiveCapabilities probed key = false ∧
      ∃ capability err, (capability, .error err) ∈ answers ∧ capability.key = key ∧
        RejectsRequest err := by
  dsimp only
  rw [effectiveCapabilities_merged]
  cases hlast : ((probeModelCapabilities answers).filterMap
      (verdict model.providerKind key)).getLast? with
  | none => exact Or.inl rfl
  | some b =>
      obtain ⟨r, hmem, hr⟩ := List.mem_filterMap.1 (List.mem_of_getLast? hlast)
      obtain ⟨hkey, ⟨hb, hout, hfree⟩ | ⟨hb, hout⟩⟩ := verdict_eq_some.1 hr
      · obtain ⟨res, hanswer, hexercises⟩ := answer_of_supported hmem hout
        exact Or.inr (Or.inl ⟨hb, hfree, r.capability, res, hanswer, hkey, hexercises⟩)
      · obtain ⟨err, hanswer, hrejects⟩ := answer_of_unsupported hmem hout
        exact Or.inr (Or.inr ⟨hb, r.capability, err, hanswer, hkey, hrejects⟩)

end Catalog

end VibeRouter
