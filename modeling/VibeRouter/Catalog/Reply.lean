import Mathlib.Data.List.MinMax
import VibeRouter.Catalog.Store

/-! # Surroundings to evaluate on

A database that carries out what its columns take, and a provider and a feed that stand still
(`reply`).  It only gives answers that a database may give (`answers_reply`). -/

namespace VibeRouter

open Effects

namespace Catalog

/-- Whole numbers as texts, and two dates. -/
@[reducible] def dollarFormats : Formats where
  double := id
  text x := js (toString x.num)
  date t := ["2026-12-31", "2027-06-30"].find? fun d => js d = t

/-- What stands still: the time, the ids that rows may get, the feed, the models a provider serves and
the documentation, if it can be read. -/
structure Outside where
  now : ℕ
  ids : List Uuid
  vendored : Feed
  served : List JsString
  docs : Option (List ScrapedModel) := none

section
variable [Formats]

/-- A row that a statement inserts, under the first id it can. -/
def CatalogDb.inserted (db : CatalogDb) (v : ModelValues) (ids : List Uuid) : Option Uuid :=
  ids.find? fun id => match v.toRow id with
    | some row => db.findById id = none && db.findModel row.canonicalId = none
    | none => false

/-- The row that stands in the way of an insertion. -/
def CatalogDb.conflict (db : CatalogDb) (v : ModelValues) (ids : List Uuid) : Option CatalogModel :=
  (ids.findSome? v.toRow).bind fun row => db.findModel row.canonicalId

def succeed (b : Bool) : Except Thrown Unit := if b then .ok () else .error .other

/-- What is answered. -/
def reply (o : Outside) (db : CatalogDb) : (e : CatalogOp) → e.Answer
  | .now => o.now
  | .findModels => .ok db.models
  | .findModelsBySource source => .ok (db.models.filter fun row => row.source = source)
  | .findByCanonicalId canonicalId => .ok (db.findModel (Utf8.text canonicalId))
  | .findById id => .ok (db.findById id)
  | .insertModel v => match db.inserted v o.ids with
    | some id => .ok id
    | none => .error .other
  | .insertOrUpdate v set => match db.inserted v o.ids, db.conflict v o.ids with
    | some id, _ => .ok id
    | none, some row => if set.change.isSome then .ok row.id else .error .other
    | none, none => .error .other
  | .insertOrNothing v => match db.inserted v o.ids, db.conflict v o.ids with
    | some id, _ => .ok (some id)
    | none, some _ => .ok none
    | none, none => .error .other
  | .updateModel _ set => succeed set.change.isSome
  | .tagThirdParty _ _ => .ok ()
  | .deprecateModels _ => .ok ()
  | .deleteModel id => succeed (db.policies.all fun p => p.defaultModelId ≠ id)
  | .latestPrice modelId =>
      .ok ((db.modelPricing.filter fun p => p.modelId = modelId).argmax PriceRow.effectiveFrom)
  | .insertPrice v => succeed (v.toRow.isSome && (db.findById v.modelId).isSome)
  | .findPolicyByDefault modelId => .ok (db.policies.find? fun p => p.defaultModelId = modelId)
  | .findPolicies => .ok db.policies
  | .firmIdForAudit => .ok none
  | .findLinkedProviders _ => .ok []
  | .getApiKey _ => .ok none
  | .listServedModelIds _ _ => .ok o.served
  | .loadVendoredFeed => .ok o.vendored
  | .writeAudit _ _ => .ok ()
  | .runAlerts => .ok ()
  | .listAnthropicModels _ _ => .error .other
  | .scrapeDoDocs => match o.docs with
    | some scraped => .ok scraped
    | none => .error .other
  | .fetchPricingFeed => .error .other
  | .probe _ => .error .other

theorem CatalogDb.insertable_of_inserted {db : CatalogDb} {v : ModelValues} {ids : List Uuid} {id : Uuid}
    (h : db.inserted v ids = some id) : db.Insertable v id := by
  have hid := List.find?_some h
  cases hrow : v.toRow id with
  | none => simp [hrow] at hid
  | some row =>
      simp only [hrow, Bool.and_eq_true, decide_eq_true_eq] at hid
      exact ⟨row, hrow, hid.1, hid.2⟩

theorem CatalogDb.conflicts_of_conflict {db : CatalogDb} {v : ModelValues} {ids : List Uuid}
    {row : CatalogModel} (h : db.conflict v ids = some row) : db.Conflicts v row := by
  obtain ⟨new, hnew, hfound⟩ := Option.bind_eq_some_iff.1 h
  obtain ⟨id, -, hrow⟩ := List.exists_of_findSome?_eq_some hnew
  exact ⟨id, new, hrow, hfound⟩

omit [Formats] in
theorem CatalogDb.latestPrice_argmax (db : CatalogDb) (modelId : Uuid) :
    db.LatestPrice modelId
      ((db.modelPricing.filter fun p => p.modelId = modelId).argmax PriceRow.effectiveFrom) := by
  cases hmax : (db.modelPricing.filter fun p => p.modelId = modelId).argmax PriceRow.effectiveFrom with
  | none =>
      intro p hp hid
      have hmem : p ∈ db.modelPricing.filter fun p => p.modelId = modelId :=
        List.mem_filter.2 ⟨hp, decide_eq_true hid⟩
      rw [List.argmax_eq_none.1 hmax] at hmem
      cases hmem
  | some row =>
      obtain ⟨hmem, hid⟩ := List.mem_filter.1 (List.argmax_mem (Option.mem_def.2 hmax))
      refine ⟨hmem, of_decide_eq_true hid, fun p hp hp' => ?_⟩
      exact List.le_of_mem_argmax (List.mem_filter.2 ⟨hp, decide_eq_true hp'⟩) (Option.mem_def.2 hmax)

/-- These are answers that a database may give. -/
theorem CatalogDb.answers_reply (o : Outside) (db : CatalogDb) (e : CatalogOp) :
    db.Answers e (reply o db e) := by
  cases e with
  | findModels => exact List.Perm.refl _
  | findModelsBySource source => exact List.Perm.refl _
  | findByCanonicalId canonicalId => rfl
  | findById id => rfl
  | insertModel v =>
      simp only [reply]
      cases hid : db.inserted v o.ids with
      | none => trivial
      | some id => exact CatalogDb.insertable_of_inserted hid
  | insertOrUpdate v set =>
      simp only [reply]
      cases hid : db.inserted v o.ids with
      | some id => exact Or.inl (CatalogDb.insertable_of_inserted hid)
      | none =>
          cases hrow : db.conflict v o.ids with
          | none => trivial
          | some row =>
              dsimp only
              split
              · next hset =>
                  refine Or.inr ⟨row, CatalogDb.conflicts_of_conflict hrow, rfl, ?_⟩
                  exact Option.isSome_iff_ne_none.1 hset
              · trivial
  | insertOrNothing v =>
      simp only [reply]
      cases hid : db.inserted v o.ids with
      | some id => exact CatalogDb.insertable_of_inserted hid
      | none =>
          cases hrow : db.conflict v o.ids with
          | none => trivial
          | some row => exact ⟨row, CatalogDb.conflicts_of_conflict hrow⟩
  | updateModel id set =>
      simp only [reply, succeed]
      split
      · next hset => exact Option.isSome_iff_ne_none.1 hset
      · trivial
  | deleteModel id =>
      simp only [reply, succeed]
      split
      · next hall => exact fun p hp => of_decide_eq_true (List.all_eq_true.1 hall p hp)
      · trivial
  | latestPrice modelId => exact db.latestPrice_argmax modelId
  | insertPrice v =>
      simp only [reply, succeed]
      split
      · next hboth =>
          obtain ⟨hrow, hid⟩ := Bool.and_eq_true_iff.1 hboth
          exact ⟨Option.isSome_iff_ne_none.1 hrow, hid⟩
      · trivial
  | findPolicyByDefault modelId =>
      simp only [reply]
      cases hfound : db.policies.find? fun p => p.defaultModelId = modelId with
      | none =>
          intro p hp hid
          simpa [hid] using List.find?_eq_none.1 hfound p hp
      | some p => exact ⟨List.mem_of_find?_eq_some hfound, by simpa using List.find?_some hfound⟩
  | findPolicies => exact List.Perm.refl _
  | _ => trivial

end

/-! ### Sample rows -/

def opusKey : String := "anthropic/claude-opus-4-5"

/-- The entry of a model under a bare key: dollars per token, 5 and 25 for a million. -/
def opusEntry : Json :=
  .obj [(js "litellm_provider", .str (js "anthropic")), (js "mode", .str (js "chat")),
    (js "max_input_tokens", .num 200000), (js "max_output_tokens", .num 64000),
    (js "input_cost_per_token", .num (5 / 1000000)), (js "output_cost_per_token", .num (25 / 1000000)),
    (js "supports_vision", .bool true)]

/-- A model whose context window is not published, only a price. -/
def miniEntry : Json :=
  .obj [(js "litellm_provider", .str (js "openai")), (js "mode", .str (js "chat")),
    (js "input_cost_per_token", .num (1 / 1000000))]

def haikuEntry : Json :=
  .obj [(js "litellm_provider", .str (js "anthropic")), (js "max_tokens", .num 150000),
    (js "input_cost_per_token", .num (1 / 1000000)), (js "deprecation_date", .str (js "2027-06-30"))]

def smallFeed : Feed where
  entries := [(js "claude-opus-4-5", opusEntry), (js "gpt-mini", miniEntry), (js "claude-haiku", haikuEntry)]
  nodup := by decide

theorem smallFeed_js : ∀ entry ∈ (parseFeed (@perMtok dollarFormats) smallFeed).1,
    ∃ t, entry.canonicalId = js t := by
  have hids : (parseFeed (@perMtok dollarFormats) smallFeed).1.map SyncedModel.canonicalId =
      [opusKey, "openai/gpt-mini", "anthropic/claude-haiku"].map js := by
    decide +kernel
  intro entry hentry
  have hmem := hids ▸ List.mem_map_of_mem hentry
  obtain ⟨t, -, ht⟩ := List.mem_map.1 hmem
  exact ⟨t, ht.symm⟩

/-- A row as it was before the feed changed. -/
def opusRow : CatalogModel where
  id := ⟨"ab01", by decide⟩
  canonicalId := opusKey
  providerKind := .anthropic
  displayName := "claude-opus-4-5"
  contextWindow := 100000
  maxOutput := none
  capabilities := {}
  capabilityOverrides := {}
  status := .active
  deprecationDate := none
  source := .synced
  thirdPartyHosted := false
  retentionNote := none

def opusPrice : PriceRow := ⟨opusRow.id, 3, some 4000000, some 25000000, none, none⟩

/-- A synced row that the feed no longer has. -/
def goneRow : CatalogModel :=
  { opusRow with id := ⟨"ab02", by decide⟩, canonicalId := "anthropic/claude-2", displayName := "claude-2" }

def standing : Outside where
  now := 9
  ids := [⟨"d1", by decide⟩, ⟨"d2", by decide⟩]
  vendored := smallFeed
  served := [js "openai-gpt-5"]

end Catalog

end VibeRouter
