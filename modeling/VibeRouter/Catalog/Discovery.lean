import Mathlib.Data.List.Induction
import VibeRouter.Catalog.Sync

/-! # Discovery

The models that a provider serves are added to the catalog when it does not have them.  A list of
DigitalOcean is a list of ids, so a new row has placeholder specs; an entry of Anthropic's list has
specs of its own, and it fills the placeholders of a row that an earlier discovery has added. -/

namespace VibeRouter

open Effects Json

namespace Catalog

def DISCOVERED_CONTEXT_WINDOW : ℕ := 8192

/-- What every model discovered at DigitalOcean is taken to be able to do. -/
def DISCOVERED_CAPABILITIES : Capabilities := { json_schema := some true }

/-! ### Third-party hosting -/

inductive Vendor
  | anthropic | openai
deriving DecidableEq

structure ThirdPartyHosting where
  vendor : Vendor
  retentionNote : String
deriving DecidableEq

def anthropicNote : String :=
  "Hosted by DigitalOcean but served under Anthropic's terms: zero retention, EXCEPT Claude Fable " ++
    "5.1 / Fable 5, which require a mandatory 30-day retention of prompts and completions for " ++
    "trust-and-safety review (docs.digitalocean.com data-privacy page, 2026-09-03). Confirm " ++
    "against the firm's WISP before binding."

def openaiNote : String :=
  "Hosted by DigitalOcean but served under OpenAI's terms. DigitalOcean's data-privacy page " ++
    "(2026-09-03) states OpenAI's zero-data-retention policy applies and excludes customer " ++
    "content from abuse-monitoring logs; those are OpenAI's terms, not DigitalOcean's. Confirm " ++
    "against the firm's WISP before binding."

/-- The predicates on ids, with what they say of a model: what begins with `anthropic-`, and what
begins with `openai-` and does not go on with `gpt-oss-`. -/
def THIRD_PARTY_HOSTED : List ((JsString → Bool) × ThirdPartyHosting) :=
  [((js "anthropic-").isPrefixOf, ⟨.anthropic, anthropicNote⟩),
    (fun id => (js "openai-").isPrefixOf id && !(js "openai-gpt-oss-").isPrefixOf id,
      ⟨.openai, openaiNote⟩)]

/-- The hosting of a native id, which has no namespace. -/
def thirdPartyHostingFor (nativeId : JsString) : Option ThirdPartyHosting :=
  (THIRD_PARTY_HOSTED.find? fun t => t.1 nativeId).map Prod.snd

/-! ### The plan -/

structure Insertion where
  canonicalId : JsString
  displayName : JsString
  thirdPartyHosted : Option ThirdPartyHosting
deriving DecidableEq

structure DiscoveryPlan where
  toInsert : List Insertion := []
  alreadyKnown : List JsString := []
  skipped : List JsString := []
deriving DecidableEq

/-- An id without the namespace it may have. -/
def nativeId (ns id : JsString) : JsString :=
  let nsSlash := ns ++ js "/"
  if nsSlash.isPrefixOf id then id.drop nsSlash.length else id

/-- The body of the loop: the plan, and the ids seen before. -/
def planOne (existing : List JsString) (ns : JsString) :
    DiscoveryPlan × List JsString → JsString → DiscoveryPlan × List JsString
  | (plan, seen), raw =>
      let id := raw.trim
      if id = [] then ({ plan with skipped := plan.skipped ++ [raw] }, seen)
      else
        let name := nativeId ns id
        if name = [] then ({ plan with skipped := plan.skipped ++ [id] }, seen)
        else
          let canonicalId := ns ++ js "/" ++ name
          if seen.contains canonicalId then (plan, seen)
          else if existing.contains canonicalId then
            ({ plan with alreadyKnown := plan.alreadyKnown ++ [canonicalId] }, seen ++ [canonicalId])
          else
            ({ plan with toInsert := plan.toInsert ++
                [⟨canonicalId, name, thirdPartyHostingFor name⟩] },
              seen ++ [canonicalId])

/-- What to add, given the ids that are served and those the catalog has. -/
def planDiscovery (servedIds existing : List JsString) (ns : JsString) : DiscoveryPlan :=
  (servedIds.foldl (planOne existing ns) ({}, [])).1

/-- The canonical id of a served id, unless the id is blank or nothing but the namespace. -/
def canonicalOf (ns raw : JsString) : Option JsString :=
  if raw.trim = [] ∨ nativeId ns raw.trim = [] then none
  else some (ns ++ js "/" ++ nativeId ns raw.trim)

/-- The report of an id that has none. -/
def skipText (raw : JsString) : JsString := if raw.trim = [] then raw else raw.trim

theorem planOne_none (existing seen : List JsString) (plan : DiscoveryPlan) {ns raw : JsString}
    (h : canonicalOf ns raw = none) :
    planOne existing ns (plan, seen) raw =
      ({ plan with skipped := plan.skipped ++ [skipText raw] }, seen) := by
  unfold canonicalOf at h
  unfold planOne skipText
  by_cases hblank : raw.trim = []
  · simp [hblank]
  · have hnative : nativeId ns raw.trim = [] := by
      by_contra hnot
      rw [if_neg (by simp [hblank, hnot])] at h
      cases h
    simp [hblank, hnative]

theorem planOne_some (existing seen : List JsString) (plan : DiscoveryPlan) {ns raw c : JsString}
    (h : canonicalOf ns raw = some c) :
    ∃ name, name ≠ [] ∧ c = ns ++ js "/" ++ name ∧
      planOne existing ns (plan, seen) raw =
        if c ∈ seen then (plan, seen)
        else if c ∈ existing then
          ({ plan with alreadyKnown := plan.alreadyKnown ++ [c] }, seen ++ [c])
        else
          ({ plan with toInsert := plan.toInsert ++ [⟨c, name, thirdPartyHostingFor name⟩] },
            seen ++ [c]) := by
  unfold canonicalOf at h
  split at h
  · cases h
  · next hnot =>
      cases h
      rw [not_or] at hnot
      refine ⟨nativeId ns raw.trim, hnot.2, rfl, ?_⟩
      unfold planOne
      dsimp only
      rw [if_neg hnot.1, if_neg hnot.2]
      simp only [List.contains_iff_mem]

/-- What the loop has made of the ids before. -/
structure Planned (existing : List JsString) (ns : JsString) (served : List JsString)
    (plan : DiscoveryPlan) (seen : List JsString) : Prop where
  ids : ∀ c, c ∈ seen ↔ c ∈ served.filterMap (canonicalOf ns)
  known : ∀ c, c ∈ plan.alreadyKnown ↔ c ∈ seen ∧ c ∈ existing
  inserted : ∀ c, c ∈ plan.toInsert.map Insertion.canonicalId ↔ c ∈ seen ∧ c ∉ existing
  nodupKnown : plan.alreadyKnown.Nodup
  nodupInserted : (plan.toInsert.map Insertion.canonicalId).Nodup
  values : ∀ m ∈ plan.toInsert, m.canonicalId = ns ++ js "/" ++ m.displayName ∧
    m.thirdPartyHosted = thirdPartyHostingFor m.displayName
  skipped : plan.skipped = (served.filter fun raw => canonicalOf ns raw = none).map skipText

theorem nodup_concat {α : Type} {l : List α} {a : α} (h : l.Nodup) (ha : a ∉ l) :
    (l ++ [a]).Nodup := by
  rw [List.nodup_append]
  refine ⟨h, List.nodup_singleton a, ?_⟩
  rintro x hx y hy rfl
  rw [List.mem_singleton] at hy
  rw [hy] at hx
  exact ha hx

theorem Planned.step {existing served seen : List JsString} {ns : JsString} {plan : DiscoveryPlan}
    (h : Planned existing ns served plan seen) (raw : JsString) :
    Planned existing ns (served ++ [raw]) (planOne existing ns (plan, seen) raw).1
      (planOne existing ns (plan, seen) raw).2 := by
  obtain ⟨hseen, hknown, hinserted, hnodup, hnodup', hvalues, hskipped⟩ := h
  cases hc : canonicalOf ns raw with
  | none =>
      rw [planOne_none existing seen plan hc]
      refine ⟨?_, hknown, hinserted, hnodup, hnodup', hvalues, ?_⟩
      · intro c
        rw [hseen, List.filterMap_append]
        simp [hc]
      · simp [hskipped, hc]
  | some c =>
      obtain ⟨name, -, hnative, hstep⟩ := planOne_some existing seen plan hc
      have hmem : ∀ c', c' ∈ (served ++ [raw]).filterMap (canonicalOf ns) ↔ c' ∈ seen ∨ c' = c := by
        intro c'
        rw [hseen, List.filterMap_append]
        simp [hc]
      have hskip : plan.skipped =
          ((served ++ [raw]).filter fun raw => canonicalOf ns raw = none).map skipText := by
        simp [hskipped, hc]
      rw [hstep]
      by_cases hold : c ∈ seen
      · rw [if_pos hold]
        refine ⟨?_, hknown, hinserted, hnodup, hnodup', hvalues, hskip⟩
        intro c'
        rw [hmem]
        constructor
        · exact Or.inl
        · rintro (h | rfl)
          · exact h
          · exact hold
      · rw [if_neg hold]
        by_cases hex : c ∈ existing
        · rw [if_pos hex]
          refine ⟨?_, ?_, ?_, ?_, hnodup', hvalues, hskip⟩
          · intro c'
            rw [hmem, List.mem_append, List.mem_singleton]
          · intro c'
            simp only [List.mem_append, List.mem_singleton, hknown]
            constructor
            · rintro (⟨h₁, h₂⟩ | rfl)
              · exact ⟨Or.inl h₁, h₂⟩
              · exact ⟨Or.inr rfl, hex⟩
            · rintro ⟨h₁ | rfl, h₂⟩
              · exact Or.inl ⟨h₁, h₂⟩
              · exact Or.inr rfl
          · intro c'
            simp only [List.mem_append, List.mem_singleton, hinserted]
            constructor
            · rintro ⟨h₁, h₂⟩
              exact ⟨Or.inl h₁, h₂⟩
            · rintro ⟨h₁ | rfl, h₂⟩
              · exact ⟨h₁, h₂⟩
              · exact absurd hex h₂
          · exact nodup_concat hnodup fun hk => hold ((hknown c).1 hk).1
        · rw [if_neg hex]
          refine ⟨?_, ?_, ?_, hnodup, ?_, ?_, hskip⟩
          · intro c'
            rw [hmem, List.mem_append, List.mem_singleton]
          · intro c'
            simp only [List.mem_append, List.mem_singleton, hknown]
            constructor
            · rintro ⟨h₁, h₂⟩
              exact ⟨Or.inl h₁, h₂⟩
            · rintro ⟨h₁ | rfl, h₂⟩
              · exact ⟨h₁, h₂⟩
              · exact absurd h₂ hex
          · intro c'
            simp only [List.map_append, List.map_singleton, List.mem_append, List.mem_singleton,
              hinserted]
            constructor
            · rintro (⟨h₁, h₂⟩ | rfl)
              · exact ⟨Or.inl h₁, h₂⟩
              · exact ⟨Or.inr rfl, hex⟩
            · rintro ⟨h₁ | rfl, h₂⟩
              · exact Or.inl ⟨h₁, h₂⟩
              · exact Or.inr rfl
          · rw [List.map_append]
            exact nodup_concat hnodup' fun hk => hold ((hinserted c).1 hk).1
          · intro m hm
            rcases List.mem_append.1 hm with hm | hm
            · exact hvalues m hm
            · rw [List.mem_singleton.1 hm]
              exact ⟨hnative, rfl⟩

theorem planned (served existing : List JsString) (ns : JsString) :
    Planned existing ns served (served.foldl (planOne existing ns) ({}, [])).1
      (served.foldl (planOne existing ns) ({}, [])).2 := by
  induction served using List.reverseRecOn with
  | nil =>
      refine ⟨?_, ?_, ?_, List.nodup_nil, List.nodup_nil, ?_, rfl⟩ <;> simp
  | append_singleton served raw ih =>
      rw [List.foldl_append]
      exact ih.step raw

/-! ### DigitalOcean -/

structure DiscoverResult where
  discovered : List JsString := []
  alreadyKnown : ℕ := 0
  skipped : List JsString := []
  thirdPartyHosted : List JsString := []
deriving DecidableEq

abbrev Discover (α : Type) : Type := Job DiscoverResult α

def DO_NAMESPACE : JsString := js "digitalocean"

def Insertion.values (m : Insertion) : ModelValues where
  canonicalId := m.canonicalId
  providerKind := .kind .digitalocean
  displayName := m.displayName
  contextWindow := DISCOVERED_CONTEXT_WINDOW
  maxOutput := none
  capabilities := DISCOVERED_CAPABILITIES
  source := .provider
  thirdPartyHosted := m.thirdPartyHosted.isSome
  retentionNote := m.thirdPartyHosted.map ThirdPartyHosting.retentionNote

/-- The first loop. -/
def insertDiscovered : List Insertion → Discover Unit
  | [] => pure ()
  | m :: rest => do
      let row ← Job.await (Job.op (.insertOrNothing m.values))
      Job.note fun r => { r with
        discovered := if row.isSome then r.discovered ++ [m.canonicalId] else r.discovered
        thirdPartyHosted :=
          if m.thirdPartyHosted.isSome then r.thirdPartyHosted ++ [m.canonicalId]
          else r.thirdPartyHosted }
      insertDiscovered rest

/-- A row with this tag is left alone. -/
def tagged (row : CatalogModel) (hosting : ThirdPartyHosting) : Bool :=
  row.thirdPartyHosted && row.retentionNote == some hosting.retentionNote

/-- The second loop: tag the known models that a third party hosts. -/
def tagKnown (existingById : JsMap JsString CatalogModel) : List JsString → Discover Unit
  | [] => pure ()
  | canonicalId :: rest =>
      match thirdPartyHostingFor (canonicalId.drop (DO_NAMESPACE.length + 1)) with
      | none => tagKnown existingById rest
      | some hosting => do
          Job.note fun r => { r with thirdPartyHosted := r.thirdPartyHosted ++ [canonicalId] }
          Job.when (!(existingById.get canonicalId).any fun row => tagged row hosting)
            (Job.await (Job.op (.tagThirdParty canonicalId hosting.retentionNote)))
          tagKnown existingById rest

def discoverDigitalOceanModels (provider : ProviderRow) (apiKey : Option String) :
    Discover Unit := do
  let served ← Job.await (Job.op (.listServedModelIds provider apiKey))
  let existing ← Job.await (Job.op .findModels)
  let plan := planDiscovery served (existing.map fun m => js m.canonicalId) DO_NAMESPACE
  insertDiscovered plan.toInsert
  tagKnown (JsMap.ofList (existing.map fun m => (js m.canonicalId, m))) plan.alreadyKnown
  Job.note fun r => { r with alreadyKnown := plan.alreadyKnown.length, skipped := plan.skipped }

/-! ### Anthropic -/

structure AnthropicModel where
  id : JsString
  display_name : Option JsString
  max_input_tokens : Option ℤ
  max_tokens : Option ℤ
  capabilities : Option (List (JsString × Option Json))

/-- `[A-Za-z0-9_.:\-]`. -/
def isIdChar (c : ℕ) : Bool := isWordChar c || c == 46 || c == 58 || c == 45

def anthropicModelSchema : Zod.Schema AnthropicModel := Zod.object fun members => do
  let id ← Zod.member (Zod.checked Zod.string
    [fun s => if 1 ≤ s.length ∧ s.length ≤ 200 ∧ s.all isIdChar then none else some "Invalid"])
    "id" members
  let display_name ← Zod.member (Zod.optional (Zod.checked Zod.string
    [fun s => if 1 ≤ s.length then none else some "String must contain at least 1 character(s)",
      fun s => if s.length ≤ 200 then none
        else some "String must contain at most 200 character(s)"])) "display_name" members
  let max_input_tokens ← Zod.member (Zod.optional Zod.positiveInt) "max_input_tokens" members
  let max_tokens ← Zod.member (Zod.optional Zod.positiveInt) "max_tokens" members
  let capabilities ← Zod.member (Zod.optional (Zod.record Zod.unknown)) "capabilities" members
  return { id, display_name, max_input_tokens, max_tokens, capabilities }

/-- A leaf of the tree of capabilities. -/
def supported (tree : Option (List (JsString × Option Json))) (key : String) : Option Bool :=
  match (tree.getD []).lookup (js key) with
  | some (some (.obj members)) => match members.lookup (js "supported") with
    | some (.bool b) => some b
    | _ => none
  | _ => none

/-- What the tree leaves open stays unset. -/
def anthropicCapabilities (tree : Option (List (JsString × Option Json))) : Capabilities where
  tools := some true
  caching := some true
  vision := supported tree "image_input"
  json_schema := supported tree "structured_outputs"
  reasoning := supported tree "thinking"

/-- `CAPABILITY_KEYS`. -/
def CAPABILITY_KEYS : List CapabilityKey := [.tools, .json_schema, .vision, .caching, .reasoning]

/-- A capability that is stated is switched on when it is not on already. -/
def gain (stated : Capabilities) (acc : Capabilities × Bool) (key : CapabilityKey) :
    Capabilities × Bool :=
  if stated.get key = some true ∧ acc.1.get key ≠ some true then
    (assign acc.1 true key, true)
  else acc

/-- Capabilities are added to the base set; none is switched off. -/
def additive (base stated : Capabilities) : Capabilities × Bool :=
  CAPABILITY_KEYS.foldl (gain stated) (base, false)

/-- A key that is stated is on afterwards, and any other is as it was. -/
theorem get_gain (stated : Capabilities) (acc : Capabilities × Bool) (key key' : CapabilityKey) :
    (gain stated acc key).1.get key' =
      if key' = key ∧ stated.get key = some true then some true else acc.1.get key' := by
  unfold gain
  by_cases hkey : key' = key
  · subst hkey
    by_cases hstated : stated.get key' = some true
    · by_cases hon : acc.1.get key' = some true
      · rw [if_neg (by simp [hon]), if_pos ⟨rfl, hstated⟩, hon]
      · rw [if_pos ⟨hstated, hon⟩, if_pos ⟨rfl, hstated⟩, get_assign, if_pos rfl]
    · rw [if_neg (by simp [hstated]), if_neg (by simp [hstated])]
  · have hother : ¬(key' = key ∧ stated.get key = some true) := fun h => hkey h.1
    by_cases hgain : stated.get key = some true ∧ acc.1.get key ≠ some true
    · rw [if_pos hgain, if_neg hother, get_assign, if_neg hkey]
    · rw [if_neg hgain, if_neg hother]

theorem get_foldl_gain (stated : Capabilities) (keys : List CapabilityKey)
    (acc : Capabilities × Bool) (key : CapabilityKey) :
    (keys.foldl (gain stated) acc).1.get key =
      if key ∈ keys ∧ stated.get key = some true then some true else acc.1.get key := by
  induction keys generalizing acc with
  | nil => simp
  | cons key' keys ih =>
      rw [List.foldl_cons, ih, get_gain]
      by_cases hstated : stated.get key = some true
      · by_cases hkey : key = key'
        · subst hkey
          simp [hstated]
        · simp [hkey, hstated]
      · have hfirst : ¬(key = key' ∧ stated.get key' = some true) := by
          rintro ⟨rfl, h⟩
          exact hstated h
        simp [hstated, hfirst]

theorem get_additive (base stated : Capabilities) (key : CapabilityKey) :
    (additive base stated).1.get key =
      if stated.get key = some true then some true else base.get key := by
  unfold additive
  rw [get_foldl_gain]
  have hall : key ∈ CAPABILITY_KEYS := by cases key <;> decide
  simp [hall]

/-- What is set of a discovered row: specs only where the row has placeholders. -/
def fillPlaceholders (row : CatalogModel) (contextWindow maxOutput : Option ℚ)
    (stated : Capabilities) : ModelSet where
  contextWindow := if row.contextWindow = DISCOVERED_CONTEXT_WINDOW then contextWindow else none
  maxOutput := if row.maxOutput = none then maxOutput.map some else none
  capabilities :=
    let (caps, capsChanged) := additive row.capabilities stated
    if capsChanged then some caps else none

def AnthropicModel.values (m : AnthropicModel) (canonicalId : JsString) : ModelValues where
  canonicalId := canonicalId
  providerKind := .kind .anthropic
  displayName := m.display_name.getD m.id
  contextWindow := m.max_input_tokens.getD DISCOVERED_CONTEXT_WINDOW
  maxOutput := m.max_tokens.map Int.cast
  capabilities := anthropicCapabilities m.capabilities
  source := .provider

/-- A model that is served, of which the catalog has the row `row`. -/
def discoverOne (m : AnthropicModel) (canonicalId : JsString) (row : Option CatalogModel)
    (curated : Bool) : Discover Unit :=
  match row with
  | none =>
      if curated then Job.note fun r => { r with alreadyKnown := r.alreadyKnown + 1 }
      else do
        let inserted ← Job.await (Job.op (.insertOrNothing (m.values canonicalId)))
        Job.note fun r => if inserted.isSome then
          { r with discovered := r.discovered ++ [canonicalId] } else r
  | some row => do
      Job.note fun r => { r with alreadyKnown := r.alreadyKnown + 1 }
      if row.source ≠ .provider ∨ curated then pure ()
      else
        let set := fillPlaceholders row (m.max_input_tokens.map Int.cast)
          (m.max_tokens.map Int.cast) (anthropicCapabilities m.capabilities)
        Job.when (set ≠ {}) (Job.await (Job.op (.updateModel row.id set)))

/-- The loop; `seen` are the ids that came before. -/
def discoverEach (existing : JsMap JsString CatalogModel) (curatedIds : Option (List JsString)) :
    List JsString → List Json → Discover Unit
  | _, [] => pure ()
  | seen, raw :: rest => match anthropicModelSchema (some raw) with
    | .error _ => do
        Job.note fun r => { r with skipped := r.skipped ++ [js "malformed entry"] }
        discoverEach existing curatedIds seen rest
    | .ok m =>
        let canonicalId := js "anthropic" ++ js "/" ++ m.id
        if seen.contains canonicalId then discoverEach existing curatedIds seen rest
        else do
          discoverOne m canonicalId (existing.get canonicalId)
            (curatedIds.any fun ids => ids.contains canonicalId)
          discoverEach existing curatedIds (seen ++ [canonicalId]) rest

def discoverAnthropicModels (provider : ProviderRow) (apiKey : Option String)
    (curatedIds : Option (List JsString)) : Discover Unit := do
  let served ← Job.await (Job.op (.listAnthropicModels provider apiKey))
  let existing ← Job.await (Job.op .findModels)
  discoverEach (JsMap.ofList (existing.map fun m => (js m.canonicalId, m))) curatedIds [] served

/-! ### Any provider -/

/-- `DISCOVERABLE_KINDS`. -/
def isDiscoverableKind (kind : ProviderKind) : Bool :=
  [ProviderKind.digitalocean, .anthropic].contains kind

def discoverProviderModels (provider : ProviderRow) (apiKey : Option String)
    (curatedIds : Option (List JsString)) : Discover Unit :=
  match provider.kind with
  | .digitalocean => discoverDigitalOceanModels provider apiKey
  | .anthropic => discoverAnthropicModels provider apiKey curatedIds
  | kind => throw (.error ("model discovery is not supported for provider kind " ++ kind.text))

end Catalog

end VibeRouter
