import VibeRouter.Catalog.Service
import VibeRouter.Gateway.Envelope
import VibeRouter.Gateway.Errors
import VibeRouter.Lib.Regex
import VibeRouter.Platform

/-! # The policy engine

Request-time validation and selection of models, and the limits applied to a request.  All of
it is a pure function of the effective policy and the envelope; the cache in front of the
database is in `Policy/Cache.lean`. -/

namespace VibeRouter

/-- Model rows by id, each under its own id. -/
structure ModelsById where
  map : JsMap Uuid ModelRow
  keyed : ∀ id m, map.get id = some m → m.id = id

namespace ModelsById

def get (ms : ModelsById) (id : Uuid) : Option ModelRow := ms.map.get id

def values (ms : ModelsById) : List ModelRow := ms.map.values

def empty : ModelsById := ⟨.empty, by simp⟩

def insert (ms : ModelsById) (m : ModelRow) : ModelsById where
  map := ms.map.set m.id m
  keyed := by
    intro id m' h
    rw [JsMap.get_set] at h
    split at h
    · next he => cases h; exact he.symm
    · exact ms.keyed id m' h

/-- `new Map(rows.map((m) => [m.id, m]))`. -/
def ofRows (rows : List ModelRow) : ModelsById := rows.foldl insert empty

end ModelsById

/-- A resolved policy; its default model is one of its models. -/
structure EffectivePolicy where
  taskClass : TaskClassRow
  policy : PolicyRow
  defaultModel : ModelRow
  modelsById : ModelsById
  roleRules : JsMap UserRole Bool
  firmSettings : FirmSettings
  default_known : modelsById.get policy.defaultModelId = some defaultModel

def classRequires (tc : TaskClassRow) : TaskClassRequires := tc.requires

/-! ### Capabilities -/

def Content.hasImage : Content → Bool
  | .text _ => false
  | .parts ps => ps.any fun p => match p with
    | .image _ => true
    | .text _ => false

/-- Requirements implied by the request itself. -/
def requestRequires (env : AIRequest) : List CapabilityKey :=
  (if (env.tools.getD []).length ≠ 0 then [.tools] else []) ++
    (match env.responseFormat with
      | some (.json_schema ..) => [.json_schema]
      | _ => []) ++
    (if env.messages.any fun m => m.content.hasImage then [.vision] else [])

def missingCapabilities (model : ModelRow) (needs : List CapabilityKey) : List CapabilityKey :=
  needs.filter fun n => !effectiveCapabilities model n

/-- `needs.add(key)`. -/
def addNeed (needs : List CapabilityKey) (wanted : Bool) (key : CapabilityKey) :
    List CapabilityKey :=
  if wanted ∧ key ∉ needs then needs ++ [key] else needs

/-- Class-required and request-implied capabilities. -/
def requiredCapabilities (effective : EffectivePolicy) (env : AIRequest) : List CapabilityKey :=
  let req := classRequires effective.taskClass
  addNeed (addNeed (addNeed (requestRequires env) req.tools .tools) req.json_schema .json_schema)
    req.vision .vision

/-! ### Bans -/

/-- What `.` does not match. -/
def isLineTerminator (c : ℕ) : Bool := c == 10 || c == 13 || c == 0x2028 || c == 0x2029

/-- `[.+^${}()|[\]\\]`: the characters that are escaped. -/
def isEscaped (c : ℕ) : Bool := (js ".+^$\x7b\x7d()|[]\\").contains c

/-- `?`, which is not escaped and so is a quantifier. -/
def isQuantifier (c : ℕ) : Bool := c == 63

/-- What `new RegExp` throws at a quantifier with nothing before it. -/
def nothingToRepeat : Thrown := .error "Invalid regular expression: Nothing to repeat"

/-- The first occurrence of each element. -/
def uniq {α : Type} [DecidableEq α] : List α → List α
  | [] => []
  | a :: as => a :: (uniq as).filter (· ≠ a)

section
variable {α : Type} [DecidableEq α]

theorem uniq_sublist (l : List α) : (uniq l).Sublist l := by
  induction l with
  | nil => exact .slnil
  | cons a as ih => exact .cons_cons a (List.filter_sublist.trans ih)

theorem mem_uniq {a : α} {l : List α} : a ∈ uniq l ↔ a ∈ l := by
  induction l with
  | nil => rfl
  | cons b bs ih =>
      rw [uniq, List.mem_cons, List.mem_cons, List.mem_filter, ih]
      by_cases h : a = b
      · simp [h]
      · simp [h]

theorem nodup_uniq (l : List α) : (uniq l).Nodup := by
  induction l with
  | nil => exact List.nodup_nil
  | cons a as ih => exact List.nodup_cons.2 ⟨by simp, ih.filter _⟩

/-- Only a list without repetition keeps its length. -/
theorem nodup_of_length_uniq {l : List α} (h : (uniq l).length = l.length) : l.Nodup := by
  rw [← (uniq_sublist l).eq_of_length h]
  exact nodup_uniq l

theorem uniq_of_nodup {l : List α} (h : l.Nodup) : uniq l = l := by
  induction l with
  | nil => rfl
  | cons a as ih =>
      obtain ⟨ha, has⟩ := List.nodup_cons.1 h
      rw [uniq, ih has, List.filter_eq_self.2 fun b hb => ?_]
      exact decide_eq_true fun heq => ha (heq ▸ hb)

theorem uniq_filter (p : α → Bool) (l : List α) : (uniq l).filter p = uniq (l.filter p) := by
  induction l with
  | nil => rfl
  | cons a as ih =>
      cases hp : p a with
      | true => simp only [uniq, List.filter_cons, hp, if_true, ← ih, List.filter_filter, Bool.and_comm]
      | false =>
          have hne : ∀ b ∈ uniq as, (p b && decide (b ≠ a)) = p b := by
            intro b _
            cases hb : p b with
            | false => rfl
            | true =>
                have : b ≠ a := fun heq => by rw [heq, hp] at hb; cases hb
                simpa using this
          simp only [uniq, List.filter_cons, hp, Bool.false_eq_true, if_false, ← ih,
            List.filter_filter]
          exact List.filter_congr hne

end

section
variable [Platform]

/-- How the flag `i` compares code units. -/
def canonicalize (c : ℕ) : ℕ :=
  let u := Platform.upperCase c
  if 128 ≤ c ∧ u < 128 then c else u

/-- The atom a character of a pattern becomes. -/
def wildcardAtom (c : ℕ) : Regex := .char fun x => canonicalize x == canonicalize c

/-- The regular expression of the pattern after its escapes: `*` is `.*`, an escaped or an
ordinary character stands for itself, and `?` quantifies the atom before it (a second one
makes the quantifier lazy). -/
def wildcardParse : JsString → Except Thrown Regex
  | [] => .ok .eol
  | c :: rest =>
      if c = 42 then
        let star := fun greedy => Regex.rep (.char fun x => !isLineTerminator x) 0 none greedy
        match rest with
        | 63 :: rest' => (wildcardParse rest').map (.seq (star false))
        | rest' => (wildcardParse rest').map (.seq (star true))
      else if isQuantifier c then .error nothingToRepeat
      else
        let opt := fun greedy => Regex.rep (wildcardAtom c) 0 (some 1) greedy
        match rest with
        | 63 :: 63 :: rest' => (wildcardParse rest').map (.seq (opt false))
        | 63 :: rest' => (wildcardParse rest').map (.seq (opt true))
        | rest' => (wildcardParse rest').map (.seq (wildcardAtom c))

def wildcardToRegex (pattern : JsString) : Except Thrown Regex :=
  (wildcardParse pattern).map (.seq .bol)

/-- The loop of `modelBanned` over the patterns. -/
def bannedByPattern (canonicalId : String) : List JsString → Except Thrown (Option JsString)
  | [] => .ok none
  | pattern :: patterns => do
      let r ← wildcardToRegex pattern
      if r.test (js canonicalId) then pure (some pattern) else bannedByPattern canonicalId patterns

def modelBanned (model : ModelRow) (settings : FirmSettings) : Except Thrown (Option String) := do
  if settings.banned_provider_kinds.contains model.providerKind.text then
    pure (some ("provider kind " ++ model.providerKind.text ++ " is banned by firm policy"))
  else
    match ← bannedByPattern model.canonicalId settings.banned_model_patterns with
    | some pattern => pure (some ("model matches banned pattern \"" ++ pattern.toText ++ "\""))
    | none => pure none

/-! ### Validation of one model -/

/-- `code` is `capability_missing` or `policy_blocked`. -/
structure Violation where
  code : ErrorCode
  reason : String
  missing : List CapabilityKey := []
deriving DecidableEq

/-- Why a model is unusable for a request, if it is. -/
def modelViolation (model : ModelRow) (effective : EffectivePolicy) (needs : List CapabilityKey) :
    Except Thrown (Option Violation) := do
  if model.status = .sunset then
    pure (some { code := .policy_blocked, reason := "model " ++ model.canonicalId ++ " is sunset" })
  else if effective.taskClass.sensitivity = .local_only ∧ !isLocalKind model.providerKind then
    pure (some { code := .policy_blocked, reason :=
      "local_only task class cannot use non-local model " ++ model.canonicalId })
  else
    match ← modelBanned model effective.firmSettings with
    | some banned => pure (some { code := .policy_blocked, reason := banned })
    | none =>
        let missing := missingCapabilities model needs
        if 0 < missing.length then
          pure (some { code := .capability_missing, missing, reason :=
            "model " ++ model.canonicalId ++ " lacks required capabilities: " ++
              ", ".intercalate (missing.map CapabilityKey.text) })
        else pure none

/-! ### Selection -/

/-- What `onUpgrade` is told. -/
structure CapabilityUpgrade where
  source : String
  target : String
  missing : List CapabilityKey
deriving DecidableEq

/-- The requested model, when it is allowed and has no violation. -/
def requestedModel (effective : EffectivePolicy) (env : AIRequest) (needs : List CapabilityKey) :
    Except Thrown (Option ModelRow) :=
  match env.modelRequested with
  | none => .ok none
  | some requested =>
      if requested = "" then .ok none
      else
        let allowedIds := effective.policy.defaultModelId :: effective.policy.allowedModelIds
        match effective.modelsById.values.find? fun m =>
            m.canonicalId = requested && allowedIds.contains m.id with
        | none => .ok none
        | some m => do
            match ← modelViolation m effective needs with
            | none => pure (some m)
            | some _ => pure none

/-- Candidates for a failing default: the allowed set, then the chain, local tier first. -/
def orderedCandidates (effective : EffectivePolicy) : List ModelRow :=
  let configured := ((uniq (effective.policy.allowedModelIds ++ effective.policy.fallbackChain)).filter
    (· ≠ effective.policy.defaultModelId)).filterMap effective.modelsById.get
  configured.filter (fun m => isLocalKind m.providerKind) ++
    configured.filter fun m => !isLocalKind m.providerKind

def noVisionProvider (effective : EffectivePolicy) : Thrown :=
  .router
    { code := .no_vision_provider
      message := "no vision-capable model is configured for " ++ effective.taskClass.key ++
        " — mark one vision-capable in Catalog or add it to the policy"
      detail := [("taskClass", .str effective.taskClass.key)] }

/-- The scan for a substitute of a default that lacks capabilities. -/
def upgradeFrom (effective : EffectivePolicy) (needs : List CapabilityKey) (violation : Violation) :
    List ModelRow → List CapabilityKey → Except Thrown (ModelRow × Option CapabilityUpgrade)
  | [], unsatisfiable =>
      if unsatisfiable.contains .vision then .error (noVisionProvider effective)
      else routerError violation.code violation.reason
  | m :: ms, unsatisfiable => do
      match ← modelViolation m effective needs with
      | none => pure (m, some
          { source := effective.defaultModel.canonicalId, target := m.canonicalId,
            missing := violation.missing })
      | some v =>
          upgradeFrom effective needs violation ms
            (if v.code = .capability_missing then unsatisfiable.filter v.missing.contains
              else unsatisfiable)

/-- The model that serves a request, with the upgrade to report when it is a substitute. -/
def selectModelWith (effective : EffectivePolicy) (env : AIRequest) :
    Except Thrown (ModelRow × Option CapabilityUpgrade) := do
  let needs := requiredCapabilities effective env
  match ← requestedModel effective env needs with
  | some m => pure (m, none)
  | none =>
      match ← modelViolation effective.defaultModel effective needs with
      | none => pure (effective.defaultModel, none)
      | some violation =>
          if violation.code = .capability_missing then
            upgradeFrom effective needs violation (orderedCandidates effective) violation.missing
          else routerError violation.code violation.reason

/-- `selectModel` without a callback. -/
def selectModel (effective : EffectivePolicy) (env : AIRequest) : Except Thrown ModelRow :=
  (selectModelWith effective env).map Prod.fst

end

/-! ### Roles and limits -/

def checkRole (effective : EffectivePolicy) (role : Option UserRole) : Except Thrown Unit :=
  match role with
  | none => .ok ()
  | some r =>
      if effective.roleRules.get r = some false then
        routerError .policy_blocked ("role " ++ (match r with
          | .admin => "admin"
          | .partner => "partner"
          | .staff => "staff") ++ " is not permitted for " ++ effective.taskClass.key)
      else .ok ()

/-- The envelope with the output ceiling of one model applied. -/
def clampToModel (env : AIRequest) (model : ModelRow) : AIRequest :=
  match model.maxOutput, env.maxTokens with
  | some limit, some n => if limit ≤ 0 ∨ n ≤ limit then env else { env with maxTokens := some limit }
  | _, _ => env

/-- The temperature after the maxima and the minimum of the policy. -/
def limitTemperature (policy : PolicyRow) (settings : FirmSettings) (t : ℚ) : ℚ :=
  let maxima := policy.temperatureMax.toList ++ settings.global_temperature_max.toList
  let t := maxima.foldl min t
  match policy.temperatureMin with
  | some m => max t m
  | none => t

/-- The ceilings of the class and the policy. -/
def applyLimits (effective : EffectivePolicy) (env : AIRequest) : AIRequest :=
  let cap := effective.policy.maxTokensOverride.getD effective.taskClass.defaultMaxTokens
  { env with
    maxTokens := some (min (env.maxTokens.getD cap) cap)
    temperature := env.temperature.map (limitTemperature effective.policy effective.firmSettings) }

end VibeRouter
