import VibeRouter.Catalog.Reply
import VibeRouter.Catalog.Rows
import VibeRouter.Catalog.Views
import VibeRouter.Lib.Pool

/-! # Who owns what in the catalog

Any number of syncs, refreshes, discoveries and edits run at once, each statement between any two of
another; statements fail, providers and pages answer anything.  A row that no operator has edited
meanwhile is still there and is what its owner has made of it (`catalog_owned`): nobody but an operator
changes its name or its overrides, a row of an operator is left alone, a synced row that the feed does
not have is only flagged, a discovered row only gets its placeholders filled and capabilities added,
and prices are appended and never changed, those of a discovered row only when a source of prices has
another one.  Operators do not edit what the feed manages. -/

namespace VibeRouter

open Effects

namespace Catalog

/-! ### The jobs -/

inductive Task
  | sync (sources : Option Bool)
  | refresh (firmId : Uuid) (withFeed : Bool)
  | discover (provider : ProviderRow)
  | scrape (firmId : Uuid)
  | create (input : Option Json)
  | update (modelId : Uuid) (input : Option Json)
  | override (modelId : Uuid) (overrides : Option Json)
  | probe (modelId : Uuid) (apply : Bool) (firmId : Uuid)
  | retire (modelId : Uuid)

namespace Task

def actor : Task → Actor
  | sync _ => .automation
  | refresh _ _ => .automation
  | discover _ => .automation
  | scrape _ => .automation
  | _ => .operator

/-- The program of a job; of its result only the effects matter. -/
def run {α : Type} (c : Job Unit α) : Prog CatalogOp CatalogOp.Answer Unit :=
  (c ()).bind fun _ => .ret ()

def prog [Formats] : Task → Prog CatalogOp CatalogOp.Answer Unit
  | sync sources => run (runCatalogSync sources)
  | refresh firmId withFeed => run (refreshCatalog firmId withFeed)
  | discover provider => run (discoverModels provider)
  | scrape firmId => run (scrapeDocs firmId)
  | create input => run (createCustomModel input)
  | update modelId input => run (updateModel modelId input)
  | override modelId overrides => run (setCapabilityOverrides modelId overrides)
  | probe modelId apply firmId => run (probeModel modelId apply firmId)
  | retire modelId => run (retireCustomModel modelId)

end Task

/-! ### The system -/

instance (set : ModelSet) : Decidable (KeepsBase set) := by
  unfold KeepsBase
  infer_instance

/-- The tables, the ids whose specs, prices or row an operator has written, those whose overrides an
operator has written, and what the sources of prices have answered. -/
structure Books where
  db : CatalogDb
  edited : List Uuid := []
  overridden : List Uuid := []
  heard : List Heard := []

/-- The ids that a statement is an edit of. -/
def edits : (e : CatalogOp) → e.Answer → List Uuid
  | .updateModel id set, .ok () => if KeepsBase set then [] else [id]
  | .insertPrice v, .ok () => [v.modelId]
  | .deleteModel id, .ok () => [id]
  | _, _ => []

/-- The ids whose overrides a statement writes. -/
def overrides : (e : CatalogOp) → e.Answer → List Uuid
  | .updateModel id set, .ok () => if set.capabilityOverrides = none then [] else [id]
  | _, _ => []

section
variable [Formats]

/-- The tables after a statement; what an operator writes is noted, and what a source of prices says. -/
def Books.after (B : Books) (actor : Actor) (e : CatalogOp) (r : e.Answer) : Books where
  db := B.db.after e r
  edited := if actor = .operator then B.edited ++ edits e r else B.edited
  overridden := if actor = .operator then B.overridden ++ overrides e r else B.overridden
  heard := B.heard ++ View.hears e r

/-- Jobs over one catalog; the policies may change at any time. -/
def catalog (vendored : Feed) : System ℕ CatalogOp CatalogOp.Answer Unit Books View where
  env := learning vendored
  handler _ B q e r B' := B.db.Answers e r ∧ B' = B.after q.actor e r
  start _ _ p q := ∃ task : Task, p = task.prog ∧ q = { actor := task.actor }
  drift B B' := ∃ policies, B' = { B with db := { B.db with policies } }

theorem Task.wp_run {vendored : Feed} {α : Type} {c : Job Unit α} (actor : Actor)
    (hc : Issues vendored c { actor } fun _ _ => True) :
    (run c).wp (learning vendored) (Justified vendored)
      (fun _ q' => ({ actor } : View) ≤ q') { actor } := hc.prog ()

/-- Every job issues justified statements only. -/
theorem Task.wp_prog {vendored : Feed} (task : Task) :
    task.prog.wp (learning vendored) (Justified vendored)
      (fun _ q' => ({ actor := task.actor } : View) ≤ q') { actor := task.actor } := by
  cases task with
  | sync sources => exact wp_run .automation (issues_runCatalogSync rfl)
  | refresh firmId withFeed => exact wp_run .automation (issues_refreshCatalog rfl)
  | discover provider => exact wp_run .automation (issues_discoverModels rfl)
  | scrape firmId => exact wp_run .automation (issues_scrapeDocs rfl)
  | create input => exact wp_run .operator (issues_createCustomModel rfl)
  | update modelId input => exact wp_run .operator (issues_updateModel rfl)
  | override modelId overrides => exact wp_run .operator (issues_setCapabilityOverrides rfl)
  | probe modelId apply firmId => exact wp_run .operator (issues_probeModel rfl)
  | retire modelId => exact wp_run .operator (issues_retireCustomModel rfl)

/-! ### What stays of a row -/

def CatalogModel.specs (m : CatalogModel) : ℤ × Option ℤ × Capabilities × Option String :=
  (m.contextWindow, m.maxOutput, m.capabilities, m.deprecationDate)

/-- A discovered row has had its placeholders filled and capabilities added. -/
structure FilledFrom (a b : CatalogModel) : Prop where
  status : b.status = a.status
  deprecationDate : b.deprecationDate = a.deprecationDate
  contextWindow : a.contextWindow ≠ DISCOVERED_CONTEXT_WINDOW → b.contextWindow = a.contextWindow
  maxOutput : a.maxOutput ≠ none → b.maxOutput = a.maxOutput
  capabilities : ∀ key, b.capabilities.get key = a.capabilities.get key ∨
    b.capabilities.get key = some true

/-- What automation may have made of the row `a`. -/
structure RowKept (vendored : Feed) (a b : CatalogModel) : Prop where
  id : b.id = a.id
  canonicalId : b.canonicalId = a.canonicalId
  providerKind : b.providerKind = a.providerKind
  displayName : b.displayName = a.displayName
  source : b.source = a.source
  custom : a.source = .custom → b.specs = a.specs ∧ b.status = a.status
  synced : a.source = .synced → ¬Curated vendored a.canonicalId →
    b.specs = a.specs ∧ (b.status = a.status ∨ b.status = .deprecated)
  provider : a.source = .provider → ¬Curated vendored a.canonicalId → FilledFrom a b
  tag : b.tag = a.tag ∨
    ∃ hosting, hostingOf a.canonicalId = some hosting ∧ b.tag = (true, some hosting.retentionNote)

variable {vendored : Feed} {a b m : CatalogModel}

theorem RowKept.refl (vendored : Feed) (a : CatalogModel) : RowKept vendored a a where
  id := rfl
  canonicalId := rfl
  providerKind := rfl
  displayName := rfl
  source := rfl
  custom _ := ⟨rfl, rfl⟩
  synced _ _ := ⟨rfl, Or.inl rfl⟩
  provider _ _ := ⟨rfl, rfl, fun _ => rfl, fun _ => rfl, fun _ => Or.inl rfl⟩
  tag := Or.inl rfl

omit [Formats] in
/-- An update of a row that fills in what another reading of the row lacked. -/
theorem FilledFrom.fill {set : ModelSet} {b' : CatalogModel} (hb : FilledFrom a b)
    (hm : FilledFrom a m) (hfills : Fills m set) (hb' : Changes set b b') : FilledFrom a b' where
  status := by
    rw [hb'.status, hfills.status]
    exact hb.status
  deprecationDate := (hb'.deprecationDate hfills.deprecationDate).trans hb.deprecationDate
  contextWindow hne := by
    have hnone : set.contextWindow = none := by
      by_contra hsome
      obtain ⟨c, hc⟩ := Option.ne_none_iff_exists'.1 hsome
      have hplaceholder := hfills.contextWindow c hc
      rw [hm.contextWindow hne] at hplaceholder
      exact hne hplaceholder
    exact (hb'.contextWindow hnone).trans (hb.contextWindow hne)
  maxOutput hne := by
    have hnone : set.maxOutput = none := by
      by_contra hsome
      obtain ⟨c, hc⟩ := Option.ne_none_iff_exists'.1 hsome
      have hunset := hfills.maxOutput c hc
      rw [hm.maxOutput hne] at hunset
      exact hne hunset
    exact (hb'.maxOutput hnone).trans (hb.maxOutput hne)
  capabilities key := by
    rw [hb'.capabilities]
    cases hcaps : set.capabilities with
    | none => exact hb.capabilities key
    | some caps =>
        rcases hfills.capabilities caps hcaps key with hsame | hon
        · show caps.get key = _ ∨ caps.get key = _
          rw [hsame]
          exact hm.capabilities key
        · exact Or.inr hon

/-- An update by automation, decided from another reading of the row. -/
theorem RowKept.automatic {set : ModelSet} {b' : CatalogModel} (hb : RowKept vendored a b)
    (hm : RowKept vendored a m) (hset : AutomaticSet vendored m set) (hb' : Changes set b b') :
    RowKept vendored a b' := by
  have hcustom : a.source ≠ .custom := by
    intro h
    rcases hset with ⟨hnot, -⟩ | ⟨hprovider, -⟩
    · exact hnot (hm.source.trans h)
    · rw [hm.source, h] at hprovider
      cases hprovider
  have hname : set.displayName = none := by
    rcases hset with ⟨-, -, hname, -⟩ | ⟨-, hfills⟩
    · exact hname
    · exact hfills.displayName
  refine ⟨hb'.id.trans hb.id, hb'.canonicalId.trans hb.canonicalId,
    hb'.providerKind.trans hb.providerKind, (hb'.displayName hname).trans hb.displayName,
    hb'.source.trans hb.source, fun h => absurd h hcustom, ?_, ?_, hb'.tag ▸ hb.tag⟩
  · intro hsynced hnot
    rcases hset with ⟨-, hcurated, -⟩ | ⟨hprovider, -⟩
    · rw [hm.canonicalId] at hcurated
      exact absurd hcurated hnot
    · rw [hm.source, hsynced] at hprovider
      cases hprovider
  · intro hprovider hnot
    rcases hset with ⟨-, hcurated, -⟩ | ⟨-, hfills⟩
    · rw [hm.canonicalId] at hcurated
      exact absurd hcurated hnot
    · exact (hb.provider hprovider hnot).fill (hm.provider hprovider hnot) hfills hb'

/-- An update that sets nothing but overrides. -/
theorem RowKept.overrides {set : ModelSet} {b' : CatalogModel} (hb : RowKept vendored a b)
    (hset : KeepsBase set) (hb' : Changes set b b') : RowKept vendored a b' := by
  unfold KeepsBase at hset
  have hcontext : b'.contextWindow = b.contextWindow := hb'.contextWindow (by rw [hset])
  have hmax : b'.maxOutput = b.maxOutput := hb'.maxOutput (by rw [hset])
  have hdate : b'.deprecationDate = b.deprecationDate := hb'.deprecationDate (by rw [hset])
  have hname : b'.displayName = b.displayName := hb'.displayName (by rw [hset])
  have hcaps : b'.capabilities = b.capabilities := by
    rw [hb'.capabilities, hset]
    rfl
  have hstatus : b'.status = b.status := by
    rw [hb'.status, hset]
    rfl
  have hspecs : b'.specs = b.specs := by
    unfold CatalogModel.specs
    rw [hcontext, hmax, hdate, hcaps]
  refine ⟨hb'.id.trans hb.id, hb'.canonicalId.trans hb.canonicalId,
    hb'.providerKind.trans hb.providerKind, hname.trans hb.displayName,
    hb'.source.trans hb.source, ?_, ?_, ?_, hb'.tag ▸ hb.tag⟩
  · rw [hspecs, hstatus]
    exact hb.custom
  · rw [hspecs, hstatus]
    exact hb.synced
  · intro hprovider hnot
    obtain ⟨h₁, h₂, h₃, h₄, h₅⟩ := hb.provider hprovider hnot
    exact ⟨hstatus.trans h₁, hdate.trans h₂, fun hne => hcontext.trans (h₃ hne),
      fun hne => hmax.trans (h₄ hne), hcaps ▸ h₅⟩

/-- The tag that a discovery writes is the one that the id calls for. -/
theorem RowKept.tagged {note : String} {hosting : ThirdPartyHosting} (hb : RowKept vendored a b)
    (hhosting : hostingOf b.canonicalId = some hosting) (hnote : note = hosting.retentionNote) :
    RowKept vendored a (CatalogDb.tagRow note b) := by
  obtain ⟨h₁, h₂, h₃, h₄, h₅, h₆, h₇, h₈, -⟩ := hb
  refine ⟨h₁, h₂, h₃, h₄, h₅, h₆, h₇, ?_, Or.inr ⟨hosting, h₂ ▸ hhosting, ?_⟩⟩
  · intro hprovider hnot
    obtain ⟨g₁, g₂, g₃, g₄, g₅⟩ := h₈ hprovider hnot
    exact ⟨g₁, g₂, g₃, g₄, g₅⟩
  · rw [hnote]
    rfl

/-- A synced row that the feed does not have may be flagged. -/
theorem RowKept.flagged (hb : RowKept vendored a b) (hsynced : a.source = .synced) :
    RowKept vendored a { b with status := .deprecated } := by
  refine ⟨hb.id, hb.canonicalId, hb.providerKind, hb.displayName, hb.source, ?_, ?_, ?_, hb.tag⟩
  · intro hcustom
    rw [hsynced] at hcustom
    cases hcustom
  · intro _ hnot
    exact ⟨(hb.synced hsynced hnot).1, Or.inr rfl⟩
  · intro hprovider
    rw [hsynced] at hprovider
    cases hprovider

/-! ### What is known of a row -/

/-- An id of the feed that the table stores as this one is this one. -/
def Apart (vendored : Feed) (canonicalId : String) : Prop :=
  ∀ entry ∈ (parseFeed perMtok vendored).1, Utf8.text entry.canonicalId = canonicalId →
    entry.canonicalId = js canonicalId

/-- The table keeps ids that are texts as they are. -/
theorem apart_of_texts (h : ∀ entry ∈ (parseFeed perMtok vendored).1, ∃ t, entry.canonicalId = js t)
    (canonicalId : String) : Apart vendored canonicalId := by
  intro entry hentry hstored
  obtain ⟨t, ht⟩ := h entry hentry
  rw [ht, Utf8.text_js] at hstored
  rw [ht, hstored]

/-- A price of the feed for the row `a`. -/
def FromFeed (vendored : Feed) (a : CatalogModel) (p : PriceRow) : Prop :=
  ∃ entry ∈ (parseFeed perMtok vendored).1, entry.canonicalId = js a.canonicalId ∧
    ∃ now, PriceValues.toRow ⟨a.id, now, entry.pricing⟩ = some p

/-- A price for the row `a` that a source has offered. -/
def FromSource (heard : List Heard) (a : CatalogModel) (p : PriceRow) : Prop :=
  ∃ latest pricing now, Offers heard a.canonicalId latest pricing ∧
    PriceValues.toRow ⟨a.id, now, pricing⟩ = some p

/-- A source has offered another price for the row `a` than the latest one of these tables. -/
def Repriced (db : CatalogDb) (heard : List Heard) (a : CatalogModel) : Prop :=
  ∃ latest pricing, db.LatestPrice a.id latest ∧ Offers heard a.canonicalId latest pricing

/-- Prices that automation may have appended for the row `a`. -/
structure PricesKept (vendored : Feed) (db₀ : CatalogDb) (heard : List Heard) (a : CatalogModel)
    (new : List PriceRow) : Prop where
  custom : a.source = .custom → new = []
  synced : a.source = .synced → ¬Curated vendored a.canonicalId → new = []
  curated : Curated vendored a.canonicalId → ∀ p ∈ new, FromFeed vendored a p
  offered : ¬Curated vendored a.canonicalId → ∀ p ∈ new, FromSource heard a p
  repriced : ¬Curated vendored a.canonicalId → new = [] ∨ Repriced db₀ heard a

/-- What has become of the row `a` and of its prices. -/
structure Kept (vendored : Feed) (db₀ : CatalogDb) (B : Books) (a : CatalogModel) : Prop where
  row : ∃ b ∈ B.db.models, RowKept vendored a b ∧
    (a.id ∉ B.overridden → b.capabilityOverrides = a.capabilityOverrides)
  prices : ∃ new, B.db.pricesOf a.id = db₀.pricesOf a.id ++ new ∧
    PricesKept vendored db₀ B.heard a new

/-- Of any row: its overrides are an operator's, and its prices come behind one another. -/
structure Alive (db₀ : CatalogDb) (B : Books) (a : CatalogModel) : Prop where
  row : ∃ b ∈ B.db.models, b.id = a.id ∧
    (a.id ∉ B.overridden → b.capabilityOverrides = a.capabilityOverrides)
  prices : ∃ new, B.db.pricesOf a.id = db₀.pricesOf a.id ++ new

/-- What a job has read of the row `a` when the sources of prices have said `heard`. -/
structure Seen (vendored : Feed) (db₀ : CatalogDb) (heard : List Heard) (a : CatalogModel)
    (q : View) : Prop where
  rows : ∀ m ∈ q.rows, m.id = a.id → RowKept vendored a m
  listings : ∀ l ∈ q.listings, a.canonicalId ∈ l
  ids : a.id ∉ q.ids
  latest : ¬Curated vendored a.canonicalId → ∀ l, (a.id, l) ∈ q.latest →
    db₀.LatestPrice a.id l ∨ Repriced db₀ heard a
  heard : q.heard ⊆ heard

variable {db₀ : CatalogDb} {B : Books} {heard : List Heard} {q : View}

theorem FromSource.mono {heard' : List Heard} {p : PriceRow} (h : FromSource heard a p)
    (hle : heard ⊆ heard') : FromSource heard' a p := by
  obtain ⟨latest, pricing, now, hoffers, hrow⟩ := h
  exact ⟨latest, pricing, now, hoffers.mono hle, hrow⟩

theorem Repriced.mono {heard' : List Heard} (h : Repriced db₀ heard a) (hle : heard ⊆ heard') :
    Repriced db₀ heard' a := by
  obtain ⟨latest, pricing, hlatest, hoffers⟩ := h
  exact ⟨latest, pricing, hlatest, hoffers.mono hle⟩

theorem PricesKept.mono {heard' : List Heard} {new : List PriceRow}
    (h : PricesKept vendored db₀ heard a new) (hle : heard ⊆ heard') :
    PricesKept vendored db₀ heard' a new where
  custom := h.custom
  synced := h.synced
  curated := h.curated
  offered hnot p hp := (h.offered hnot p hp).mono hle
  repriced hnot := (h.repriced hnot).imp_right fun hother => hother.mono hle

theorem Seen.mono {heard' : List Heard} (h : Seen vendored db₀ heard a q) (hle : heard ⊆ heard') :
    Seen vendored db₀ heard' a q where
  rows := h.rows
  listings := h.listings
  ids := h.ids
  latest hnot l hl := (h.latest hnot l hl).imp_right fun hother => hother.mono hle
  heard := List.Subset.trans h.heard hle

/-- The latest price of the row `a` is what it was, or a source has offered another one. -/
theorem Kept.latest (h : Kept vendored db₀ B a) (hnot : ¬Curated vendored a.canonicalId)
    {l : Option PriceRow} (hl : B.db.LatestPrice a.id l) :
    db₀.LatestPrice a.id l ∨ Repriced db₀ B.heard a := by
  obtain ⟨new, hnew, hprices⟩ := h.prices
  rcases hprices.repriced hnot with rfl | hother
  · rw [List.append_nil] at hnew
    exact Or.inl ((latestPrice_congr hnew l).1 hl)
  · exact Or.inr hother

/-- The row that has become of `a` is the one with its id. -/
theorem Kept.rowKept (h : Kept vendored db₀ B a) (hkeyed : B.db.Keyed) (hm : m ∈ B.db.models)
    (hid : m.id = a.id) : RowKept vendored a m := by
  obtain ⟨b, hb, hkept, -⟩ := h.row
  rw [Rows.eq_of_key hkeyed.ids hm hb (hid.trans hkept.id.symm)]
  exact hkept

/-- The id that an insertion answers is not the id of a row that is still there. -/
theorem Kept.fresh {v : ModelValues} {id : Uuid} (h : Kept vendored db₀ B a)
    (hnew : B.db.Insertable v id) : a.id ≠ id := by
  obtain ⟨b, hb, hkept, -⟩ := h.row
  rw [← hkept.id]
  exact hnew.ne_id hb

/-- Nor does an insertion that runs into a row answer the id of one that was listed before. -/
theorem Kept.fresh_upsert {v : ModelValues} {set : ModelSet} {id : Uuid}
    (h : Kept vendored db₀ B a) (hapart : Apart vendored a.canonicalId) (hkeyed : B.db.Keyed)
    (hseen : Seen vendored db₀ B.heard a q) (hok : Justified vendored q (.insertOrUpdate v set))
    (hans : B.db.Answers (.insertOrUpdate v set) (.ok id)) : a.id ≠ id := by
  rcases hans with hnew | ⟨found, hfound, rfl, -⟩
  · exact h.fresh hnew
  · intro hid
    obtain ⟨-, -, entry, hentry, hvalue, l, hl, hnot⟩ := hok
    obtain ⟨hmem, hcanonical⟩ := hfound.found
    rw [(h.rowKept hkeyed hmem hid.symm).canonicalId, hvalue] at hcanonical
    exact hnot a.canonicalId (hseen.listings l hl) (hapart entry hentry hcanonical.symm).symm

theorem Kept.notMem_upserted {e : CatalogOp} {r : e.Answer} (h : Kept vendored db₀ B a)
    (hapart : Apart vendored a.canonicalId) (hkeyed : B.db.Keyed)
    (hseen : Seen vendored db₀ B.heard a q) (hok : Justified vendored q e)
    (hans : B.db.Answers e r) : a.id ∉ upserted e r := by
  cases e with
  | insertOrUpdate v set =>
      cases r with
      | error err => exact List.not_mem_nil
      | ok id =>
          intro hmem
          exact h.fresh_upsert hapart hkeyed hseen hok hans (List.mem_singleton.1 hmem)
  | _ => exact List.not_mem_nil

/-- What a job reads next, it reads of the tables as they are. -/
theorem Seen.next {e : CatalogOp} {r : e.Answer} (hseen : Seen vendored db₀ B.heard a q)
    (h : Kept vendored db₀ B a) (hapart : Apart vendored a.canonicalId) (hkeyed : B.db.Keyed)
    (hok : Justified vendored q e) (hans : B.db.Answers e r) :
    Seen vendored db₀ (B.heard ++ View.hears e r) a (q.next e r) := by
  have hsame := hseen.mono (List.subset_append_left B.heard (View.hears e r))
  have hheard : (q.next e r).heard ⊆ B.heard ++ View.hears e r := by
    rw [q.heard_next]
    exact List.append_subset.2 ⟨hsame.heard, List.subset_append_right _ _⟩
  have hread : ∀ new : List CatalogModel, new ⊆ B.db.models →
      ∀ m ∈ q.rows ++ new, m.id = a.id → RowKept vendored a m := by
    intro new hnew m hm hid
    rcases List.mem_append.1 hm with hm | hm
    · exact hseen.rows m hm hid
    · exact h.rowKept hkeyed (hnew hm) hid
  cases e with
  | findModels =>
      cases r with
      | error err => exact { hsame with heard := hheard }
      | ok rows =>
          have hperm : rows.Perm B.db.models := hans
          refine { hsame with rows := hread rows hperm.subset, listings := ?_, heard := hheard }
          intro l hl
          rcases List.mem_append.1 hl with hl | hl
          · exact hseen.listings l hl
          · obtain ⟨b, hb, hkept, -⟩ := h.row
            rw [List.mem_singleton.1 hl, ← hkept.canonicalId]
            exact List.mem_map_of_mem (hperm.mem_iff.2 hb)
  | findModelsBySource source =>
      cases r with
      | error err => exact { hsame with heard := hheard }
      | ok rows =>
          have hperm : rows.Perm (B.db.models.filter fun row => row.source = source) := hans
          have hsubset : rows ⊆ B.db.models := fun m hm => (List.mem_filter.1 (hperm.mem_iff.1 hm)).1
          exact { hsame with rows := hread rows hsubset, heard := hheard }
  | findByCanonicalId canonicalId =>
      cases r with
      | error err => exact { hsame with heard := hheard }
      | ok found =>
          cases found with
          | none => exact { hsame with heard := hheard }
          | some row =>
              have hfound : some row = B.db.findModel (Utf8.text canonicalId) := hans
              have hmem := (Rows.mem_of_find hfound.symm).1
              exact { hsame with rows := hread [row] (by simpa using hmem), heard := hheard }
  | findById id =>
      cases r with
      | error err => exact { hsame with heard := hheard }
      | ok found =>
          cases found with
          | none => exact { hsame with heard := hheard }
          | some row =>
              have hfound : some row = B.db.findById id := hans
              have hmem := (Rows.mem_of_find hfound.symm).1
              exact { hsame with rows := hread [row] (by simpa using hmem), heard := hheard }
  | insertModel v =>
      cases r with
      | error err => exact { hsame with heard := hheard }
      | ok id =>
          refine { hsame with ids := ?_, heard := hheard }
          intro hid
          rcases List.mem_append.1 hid with hid | hid
          · exact hseen.ids hid
          · exact h.fresh hans (List.mem_singleton.1 hid)
  | insertOrUpdate v set =>
      cases r with
      | error err => exact { hsame with heard := hheard }
      | ok id =>
          refine { hsame with ids := ?_, heard := hheard }
          intro hid
          rcases List.mem_append.1 hid with hid | hid
          · exact hseen.ids hid
          · exact h.fresh_upsert hapart hkeyed hseen hok hans (List.mem_singleton.1 hid)
  | latestPrice modelId =>
      cases r with
      | error err => exact { hsame with heard := hheard }
      | ok found =>
          refine { hsame with latest := ?_, heard := hheard }
          intro hnot l hl
          rcases List.mem_append.1 hl with hl | hl
          · exact hsame.latest hnot l hl
          · obtain ⟨rfl, rfl⟩ := Prod.mk.inj (List.mem_singleton.1 hl)
            exact (h.latest hnot hans).imp_right fun hother =>
              hother.mono (List.subset_append_left _ _)
  | _ => exact { hsame with heard := hheard }

/-! ### One statement -/

omit [Formats] in
theorem deleted_subset (e : CatalogOp) (r : e.Answer) : deleted e r ⊆ edits e r := by
  unfold deleted
  split
  · exact List.Subset.refl _
  · exact List.nil_subset _

/-- An operator deletes what it has edited, and automation deletes nothing. -/
theorem notMem_deleted {e : CatalogOp} {r : e.Answer}
    (hok : Justified vendored q e) (hedit : q.actor = .operator → a.id ∉ edits e r) :
    a.id ∉ deleted e r := by
  cases e with
  | deleteModel id => exact fun hmem => hedit hok.1 (deleted_subset _ r hmem)
  | _ => exact List.not_mem_nil

/-- What a justified statement makes of the row that has become of `a`. -/
theorem RowKept.effect {e : CatalogOp} {r : e.Answer} (hb : RowKept vendored a b)
    (hseen : Seen vendored db₀ B.heard a q) (hok : Justified vendored q e) (hans : B.db.Answers e r)
    (hedit : q.actor = .operator → a.id ∉ edits e r)
    (hfresh : a.id ∉ upserted e r) : RowKept vendored a (effect e r b) := by
  cases e with
  | insertOrUpdate v set =>
      cases r with
      | error err => exact hb
      | ok id =>
          have hne := List.ne_of_not_mem_cons hfresh
          rw [← hb.id] at hne
          show RowKept vendored a (if b.id = id then set.apply b else b)
          rw [if_neg hne]
          exact hb
  | updateModel id set =>
      cases r with
      | error err => exact hb
      | ok u =>
          show RowKept vendored a (if b.id = id then set.apply b else b)
          split
          · next hid =>
              obtain ⟨f, hf⟩ := Option.ne_none_iff_exists'.1 (show set.change ≠ none from hans)
              have hchanges := changes_of_change hf b
              unfold ModelSet.apply
              rw [hf]
              unfold Justified at hok
              cases hactor : q.actor with
              | automation =>
                  rw [hactor] at hok
                  obtain ⟨m, hm, hmid, hset⟩ := hok
                  have hmkept := hseen.rows m hm (hmid.trans (hid.symm.trans hb.id))
                  exact hb.automatic hmkept hset hchanges
              | operator =>
                  have hbase : KeepsBase set := by
                    by_contra hnot
                    apply hedit hactor
                    show a.id ∈ if KeepsBase set then [] else [id]
                    rw [if_neg hnot, ← hid, hb.id]
                    exact List.mem_singleton_self _
                  exact hb.overrides hbase hchanges
          · exact hb
  | tagThirdParty canonicalId note =>
      cases r with
      | error err => exact hb
      | ok u =>
          show RowKept vendored a
            (if b.canonicalId = Utf8.text canonicalId then CatalogDb.tagRow note b else b)
          split
          · next hid =>
              obtain ⟨-, t, rfl, hosting, hhosting, hnote⟩ := hok
              rw [Utf8.text_js] at hid
              exact hb.tagged (hid ▸ hhosting) hnote
          · exact hb
  | deprecateModels ids =>
      cases r with
      | error err => exact hb
      | ok u =>
          show RowKept vendored a (CatalogDb.deprecateRow ids b)
          rcases deprecateRow_eq ids b with hsame | ⟨hid, -, hflag⟩
          · rw [hsame]
            exact hb
          · rw [hflag]
            obtain ⟨-, hids⟩ := hok
            obtain ⟨m, hm, hmid, hsynced, -⟩ := hids b.id hid
            have hmkept := hseen.rows m hm (hmid.trans hb.id)
            exact hb.flagged (hmkept.source.symm.trans hsynced)
  | _ => exact hb

/-- Only an operator writes overrides. -/
theorem overrides_effect {e : CatalogOp} {r : e.Answer} (hok : Justified vendored q e)
    (hoverrides : q.actor = .operator → b.id ∉ overrides e r) :
    (effect e r b).capabilityOverrides = b.capabilityOverrides := by
  cases e with
  | insertOrUpdate v set =>
      cases r with
      | error err => rfl
      | ok id =>
          show (if b.id = id then set.apply b else b).capabilityOverrides = _
          split
          · exact ModelSet.apply_overrides hok.2.1 b
          · rfl
  | updateModel id set =>
      cases r with
      | error err => rfl
      | ok u =>
          show (if b.id = id then set.apply b else b).capabilityOverrides = _
          split
          · next hid =>
              apply ModelSet.apply_overrides
              unfold Justified at hok
              cases hactor : q.actor with
              | automation =>
                  rw [hactor] at hok
                  obtain ⟨m, -, -, ⟨-, -, -, hnone⟩ | ⟨-, hfills⟩⟩ := hok
                  · exact hnone
                  · exact hfills.capabilityOverrides
              | operator =>
                  by_contra hsome
                  apply hoverrides hactor
                  show b.id ∈ if set.capabilityOverrides = none then [] else [id]
                  rw [if_neg hsome, ← hid]
                  exact List.mem_singleton_self _
          · rfl
  | tagThirdParty canonicalId note =>
      cases r with
      | error err => rfl
      | ok u =>
          show (if b.canonicalId = Utf8.text canonicalId then CatalogDb.tagRow note b
            else b).capabilityOverrides = _
          split <;> rfl
  | deprecateModels ids =>
      cases r with
      | error err => rfl
      | ok u =>
          show (CatalogDb.deprecateRow ids b).capabilityOverrides = _
          unfold CatalogDb.deprecateRow
          split <;> rfl
  | _ => rfl

/-- A price that automation may append. -/
theorem PricesKept.concat {new : List PriceRow} {p : PriceRow} {now : ℕ}
    {pricing : Pricing} (h : PricesKept vendored db₀ heard a new)
    (hseen : Seen vendored db₀ heard a q) (hm : m ∈ q.rows) (hmid : m.id = a.id)
    (hprice : PriceOf vendored q m pricing) (hrow : PriceValues.toRow ⟨a.id, now, pricing⟩ = some p) :
    PricesKept vendored db₀ heard a (new ++ [p]) := by
  have hmkept := hseen.rows m hm hmid
  have hoffered : ¬Curated vendored a.canonicalId → ∃ latest, (a.id, latest) ∈ q.latest ∧
      Offers heard a.canonicalId latest pricing := by
    intro hnot
    rw [← hmkept.canonicalId] at hnot
    obtain ⟨latest, hlatest, hoffers⟩ := hprice.offered hnot
    rw [hmid] at hlatest
    rw [hmkept.canonicalId] at hoffers
    exact ⟨latest, hlatest, hoffers.mono hseen.heard⟩
  constructor
  · intro hcustom
    exact absurd (hmkept.source.trans hcustom) hprice.source
  · intro hsynced hnot
    have hcurated := hprice.synced (hmkept.source.trans hsynced)
    rw [hmkept.canonicalId] at hcurated
    exact absurd hcurated hnot
  · intro hcurated p' hp'
    rcases List.mem_append.1 hp' with hp' | hp'
    · exact h.curated hcurated p' hp'
    · rw [← hmkept.canonicalId] at hcurated
      obtain ⟨entry, hentry, hcanonical, rfl⟩ := hprice.curated hcurated
      rw [List.mem_singleton.1 hp']
      exact ⟨entry, hentry, hcanonical.trans (by rw [hmkept.canonicalId]), now, hrow⟩
  · intro hnot p' hp'
    rcases List.mem_append.1 hp' with hp' | hp'
    · exact h.offered hnot p' hp'
    · obtain ⟨latest, -, hoffers⟩ := hoffered hnot
      rw [List.mem_singleton.1 hp']
      exact ⟨latest, pricing, now, hoffers, hrow⟩
  · intro hnot
    obtain ⟨latest, hlatest, hoffers⟩ := hoffered hnot
    rcases hseen.latest hnot latest hlatest with hwas | hother
    · exact Or.inr ⟨latest, pricing, hwas, hoffers⟩
    · exact Or.inr hother

/-- A justified statement appends only prices that may be appended. -/
theorem PricesKept.after {e : CatalogOp} {r : e.Answer} {new : List PriceRow}
    (h : PricesKept vendored db₀ heard a new) (hseen : Seen vendored db₀ heard a q)
    (hok : Justified vendored q e) (hedit : q.actor = .operator → a.id ∉ edits e r) :
    PricesKept vendored db₀ heard a (new ++ CatalogDb.appended e r a.id) := by
  have hsame : PricesKept vendored db₀ heard a (new ++ []) := by
    rw [List.append_nil]
    exact h
  cases e with
  | insertPrice v =>
      cases r with
      | error err => exact hsame
      | ok u =>
          show PricesKept vendored db₀ heard a (new ++ if v.modelId = a.id then v.toRow.toList else [])
          split
          · next hid =>
              unfold Justified at hok
              rcases hok with hmem | hok
              · rw [hid] at hmem
                exact absurd hmem hseen.ids
              cases hactor : q.actor with
              | operator =>
                  have hmem : a.id ∈ edits (.insertPrice v) (.ok u) := by
                    rw [← hid]
                    exact List.mem_singleton_self _
                  exact absurd hmem (hedit hactor)
              | automation =>
                  rw [hactor] at hok
                  obtain ⟨m, hm, hmid, hprice⟩ := hok
                  cases hrow : v.toRow with
                  | none => exact hsame
                  | some p =>
                      have hnew : PriceValues.toRow ⟨a.id, v.effectiveFrom, v.pricing⟩ = some p := by
                        rw [← hid]
                        exact hrow
                      exact h.concat hseen hm (hmid.trans hid) hprice hnew
          · exact hsame
  | _ => exact hsame

/-- What is not edited after a statement is not edited by it. -/
theorem notMem_of_edited {e : CatalogOp} {r : e.Answer} {actor : Actor} {id : Uuid}
    (h : id ∉ (B.after actor e r).edited) : actor = .operator → id ∉ edits e r := by
  intro hactor hmem
  apply h
  unfold Books.after
  dsimp only
  rw [if_pos hactor]
  exact List.mem_append_right _ hmem

theorem notMem_of_overridden {e : CatalogOp} {r : e.Answer} {actor : Actor} {id : Uuid}
    (h : id ∉ (B.after actor e r).overridden) :
    id ∉ B.overridden ∧ (actor = .operator → id ∉ overrides e r) := by
  unfold Books.after at h
  dsimp only at h
  split at h
  · exact ⟨fun hmem => h (List.mem_append_left _ hmem), fun _ hmem => h (List.mem_append_right _ hmem)⟩
  · next hactor => exact ⟨h, fun hoperator => absurd hoperator hactor⟩

/-- One statement of a job, and a row that is not edited by it. -/
theorem Alive.after {e : CatalogOp} {r : e.Answer} (h : Alive db₀ B a) (hok : Justified vendored q e)
    (hedit : a.id ∉ (B.after q.actor e r).edited) : Alive db₀ (B.after q.actor e r) a := by
  have hdeleted := notMem_deleted (a := a) hok (notMem_of_edited hedit)
  constructor
  · obtain ⟨b, hb, hid, hoverrides⟩ := h.row
    refine ⟨effect e r b, CatalogDb.mem_after hb (hid ▸ hdeleted), (effect_id e r b).trans hid, ?_⟩
    intro hnot
    obtain ⟨hbefore, hnow⟩ := notMem_of_overridden hnot
    rw [overrides_effect hok (hid ▸ hnow)]
    exact hoverrides hbefore
  · obtain ⟨new, hnew⟩ := h.prices
    refine ⟨new ++ CatalogDb.appended e r a.id, ?_⟩
    show (B.db.after e r).pricesOf a.id = _
    rw [CatalogDb.pricesOf_after hdeleted, hnew, List.append_assoc]

theorem Kept.after {e : CatalogOp} {r : e.Answer} (h : Kept vendored db₀ B a)
    (hapart : Apart vendored a.canonicalId) (hkeyed : B.db.Keyed)
    (hseen : Seen vendored db₀ B.heard a q) (hok : Justified vendored q e)
    (hans : B.db.Answers e r) (hedit : a.id ∉ (B.after q.actor e r).edited) :
    Kept vendored db₀ (B.after q.actor e r) a := by
  have hnotEdit := notMem_of_edited hedit
  have hfresh := h.notMem_upserted hapart hkeyed hseen hok hans
  have hdeleted := notMem_deleted (a := a) hok hnotEdit
  constructor
  · obtain ⟨b, hb, hkept, hoverrides⟩ := h.row
    refine ⟨effect e r b, CatalogDb.mem_after hb (hkept.id ▸ hdeleted),
      hkept.effect hseen hok hans hnotEdit hfresh, ?_⟩
    intro hnot
    obtain ⟨hbefore, hnow⟩ := notMem_of_overridden hnot
    rw [overrides_effect hok (hkept.id ▸ hnow)]
    exact hoverrides hbefore
  · obtain ⟨new, hnew, hprices⟩ := h.prices
    refine ⟨new ++ CatalogDb.appended e r a.id, ?_,
      (hprices.after hseen hok hnotEdit).mono (List.subset_append_left _ _)⟩
    show (B.db.after e r).pricesOf a.id = _
    rw [CatalogDb.pricesOf_after hdeleted, hnew, List.append_assoc]

/-! ### Runs -/

/-- What holds in every reachable state. -/
structure Inv (vendored : Feed) (db₀ : CatalogDb) (B : Books) (L : ℕ → Option View) : Prop where
  keyed : B.db.Keyed
  alive : ∀ a ∈ db₀.models, a.id ∉ B.edited → Alive db₀ B a
  synced : ∀ a ∈ db₀.models, Apart vendored a.canonicalId → a.source = .synced → a.id ∉ B.edited
  kept : ∀ a ∈ db₀.models, Apart vendored a.canonicalId → a.id ∉ B.edited → Kept vendored db₀ B a
  seen : ∀ i q, L i = some q → ∀ a ∈ db₀.models, Apart vendored a.canonicalId → a.id ∉ B.edited →
    Seen vendored db₀ B.heard a q

/-- Operators edit no synced row. -/
theorem notMem_edits {e : CatalogOp} {r : e.Answer} (hseen : Seen vendored db₀ B.heard a q)
    (hok : Justified vendored q e) (hactor : q.actor = .operator) (hsynced : a.source = .synced) :
    a.id ∉ edits e r := by
  have hrow : ∀ m ∈ q.rows, m.source ≠ .synced → m.id ≠ a.id := by
    intro m hm hsource hid
    exact hsource ((hseen.rows m hm hid).source.trans hsynced)
  cases e with
  | updateModel id set =>
      cases r with
      | error err => exact List.not_mem_nil
      | ok u =>
          show a.id ∉ if KeepsBase set then [] else [id]
          split
          · exact List.not_mem_nil
          · next hnot =>
              unfold Justified at hok
              rw [hactor] at hok
              rcases hok with hbase | ⟨m, hm, rfl, hsource⟩
              · exact absurd hbase hnot
              · intro hmem
                exact hrow m hm hsource (List.mem_singleton.1 hmem).symm
  | insertPrice v =>
      cases r with
      | error err => exact List.not_mem_nil
      | ok u =>
          intro hmem
          have hid : a.id = v.modelId := List.mem_singleton.1 hmem
          unfold Justified at hok
          rw [hactor] at hok
          rcases hok with hgiven | ⟨m, hm, hmid, hsource⟩
          · rw [← hid] at hgiven
            exact hseen.ids hgiven
          · exact hrow m hm hsource (hmid.trans hid.symm)
  | deleteModel id =>
      cases r with
      | error err => exact List.not_mem_nil
      | ok u =>
          intro hmem
          obtain ⟨-, m, hm, hmid, hcustom⟩ := hok
          refine hrow m hm ?_ (hmid.trans (List.mem_singleton.1 hmem).symm)
          rw [hcustom]
          intro h
          cases h
  | _ => exact List.not_mem_nil

/-- What was edited stays edited. -/
theorem edited_mono {e : CatalogOp} {r : e.Answer} {actor : Actor} {id : Uuid}
    (h : id ∉ (B.after actor e r).edited) : id ∉ B.edited := by
  intro hmem
  apply h
  unfold Books.after
  dsimp only
  split
  · exact List.mem_append_left _ hmem
  · exact hmem

theorem Inv.act {L : ℕ → Option View} {i : ℕ} {e : CatalogOp} {r : e.Answer}
    (h : Inv vendored db₀ B L) (hq : L i = some q) (hok : Justified vendored q e)
    (hans : B.db.Answers e r) :
    Inv vendored db₀ (B.after q.actor e r) (Function.update L i (some (q.next e r))) where
  keyed := h.keyed.after hans
  alive a ha hedit := (h.alive a ha (edited_mono hedit)).after hok hedit
  synced a ha hapart hsynced := by
    have hbefore := h.synced a ha hapart hsynced
    unfold Books.after
    dsimp only
    split
    · next hactor =>
        intro hmem
        rcases List.mem_append.1 hmem with hmem | hmem
        · exact hbefore hmem
        · exact notMem_edits (h.seen i q hq a ha hapart hbefore) hok hactor hsynced hmem
    · exact hbefore
  kept a ha hapart hedit := by
    have hbefore := edited_mono hedit
    have hseen := h.seen i q hq a ha hapart hbefore
    exact (h.kept a ha hapart hbefore).after hapart h.keyed hseen hok hans hedit
  seen j q' hq' a ha hapart hedit := by
    have hbefore := edited_mono hedit
    by_cases hj : j = i
    · subst hj
      rw [Function.update_self] at hq'
      cases hq'
      have hkept := h.kept a ha hapart hbefore
      exact (h.seen j q hq a ha hapart hbefore).next hkept hapart h.keyed hok hans
    · rw [Function.update_of_ne hj] at hq'
      exact (h.seen j q' hq' a ha hapart hbefore).mono (List.subset_append_left _ _)

theorem Inv.spawn {L : ℕ → Option View} {i : ℕ} (h : Inv vendored db₀ B L) (actor : Actor) :
    Inv vendored db₀ B (Function.update L i (some { actor })) where
  keyed := h.keyed
  alive := h.alive
  synced := h.synced
  kept := h.kept
  seen j q hq a ha hapart hedit := by
    by_cases hj : j = i
    · subst hj
      rw [Function.update_self] at hq
      cases hq
      exact ⟨fun m hm => absurd hm List.not_mem_nil, fun l hl => absurd hl List.not_mem_nil,
        List.not_mem_nil, fun _ l hl => absurd hl List.not_mem_nil, List.nil_subset _⟩
    · rw [Function.update_of_ne hj] at hq
      exact h.seen j q hq a ha hapart hedit

theorem Inv.drift {L : ℕ → Option View} (h : Inv vendored db₀ B L) (policies : List PolicyRecord) :
    Inv vendored db₀ { B with db := { B.db with policies } } L where
  keyed := ⟨h.keyed.ids, h.keyed.canonicalIds⟩
  alive a ha hedit := ⟨(h.alive a ha hedit).row, (h.alive a ha hedit).prices⟩
  synced := h.synced
  kept a ha hapart hedit := ⟨(h.kept a ha hapart hedit).row, (h.kept a ha hapart hedit).prices⟩
  seen := h.seen

theorem preserves_inv (vendored : Feed) (db₀ : CatalogDb) :
    System.Preserves (catalog vendored) (fun _ _ _ => True) (Justified vendored) (fun _ _ => True)
      (Inv vendored db₀) where
  start_wp i B p q hstart := by
    obtain ⟨task, rfl, rfl⟩ := hstart
    apply System.wp_view
    exact Prog.wp_mono (Task.wp_prog task) fun _ _ _ => trivial
  spawn i B L p q hinv _ hstart := by
    obtain ⟨task, -, rfl⟩ := hstart
    exact hinv.spawn task.actor
  rely i B L q e r B' _ _ _ _ := trivial
  act i B L q e r B' hinv hq hok _ hhandler := by
    obtain ⟨hans, rfl⟩ := hhandler
    exact hinv.act hq hok hans
  drift B B' L hinv hdrift := by
    obtain ⟨policies, rfl⟩ := hdrift
    exact hinv.drift policies

theorem inv_initial {db₀ : CatalogDb} (hkeyed : db₀.Keyed) :
    Inv vendored db₀ { db := db₀ } fun _ => none where
  keyed := hkeyed
  alive a ha _ := ⟨⟨a, ha, rfl, fun _ => rfl⟩, [], (List.append_nil _).symm⟩
  synced a _ _ _ := List.not_mem_nil
  kept a ha _ _ := {
    row := ⟨a, ha, RowKept.refl vendored a, fun _ => rfl⟩
    prices := ⟨[], (List.append_nil _).symm, fun _ => rfl, fun _ _ => rfl,
      fun _ p hp => absurd hp List.not_mem_nil, fun _ p hp => absurd hp List.not_mem_nil,
      fun _ => Or.inl rfl⟩ }
  seen i q hq := by cases hq

/-- **Who owns what.**  In whatever way syncs, refreshes, discoveries and edits interleave, no operator
edits a synced row, and a row that no operator has edited is still there, is what automation may have
made of it, has the overrides it had unless an operator has written them, and has the prices it had and
behind them those that automation may append. -/
theorem catalog_owned {vendored : Feed} {db₀ : CatalogDb} (hkeyed : db₀.Keyed)
    {P : Pool ℕ CatalogOp CatalogOp.Answer Unit Books View}
    (hP : (catalog vendored).Reachable { db := db₀ } P) {a : CatalogModel} (ha : a ∈ db₀.models)
    (hapart : Apart vendored a.canonicalId) :
    (a.source = .synced → a.id ∉ P.shared.edited) ∧
    (a.id ∉ P.shared.edited → Kept vendored db₀ P.shared a) := by
  have hinv := (System.invariant (preserves_inv vendored db₀) (inv_initial hkeyed) hP).1
  exact ⟨hinv.synced a ha hapart, hinv.kept a ha hapart⟩

end

/-! ### A sync with edits in between -/

local instance sampleFormats : Formats := dollarFormats

/-- A model that was discovered. -/
def kimiRow : CatalogModel :=
  { opusRow with
    id := ⟨"c3", by decide⟩, canonicalId := "digitalocean/kimi-k3", providerKind := .digitalocean,
    displayName := "kimi-k3", contextWindow := 8192, capabilities := DISCOVERED_CAPABILITIES,
    source := .provider }

/-- A model of an operator. -/
def officeRow : CatalogModel :=
  { opusRow with
    id := ⟨"c4", by decide⟩, canonicalId := "ollama/qwen3", providerKind := .local, displayName := "qwen3",
    source := .custom }

def ownedDb : CatalogDb :=
  { models := [opusRow, goneRow, kimiRow, officeRow], modelPricing := [opusPrice] }

def gradient : ProviderRow where
  id := ⟨"e1", by decide⟩
  firmId := ⟨"e2", by decide⟩
  kind := .digitalocean
  label := "DigitalOcean"
  baseUrl := "https://inference.do-ai.run/v1"
  authType := .api_key

def visionOn : Json := .obj [(js "vision", .bool true)]

def largerContext : Json := .obj [(js "contextWindow", .num 9000)]

abbrev CatalogPool : Type := Pool ℕ CatalogOp CatalogOp.Answer Unit Books View

def ownedAnswer (o : Outside) (_ : ℕ) (B : Books) (q : View) (e : CatalogOp) : e.Answer × Books :=
  (reply o B.db e, B.after q.actor e (reply o B.db e))

theorem ownedAnswer_sound (o : Outside) : System.Sound (catalog o.vendored) (ownedAnswer o) := by
  intro i B q e
  refine ⟨?_, B.db.answers_reply o e, rfl⟩
  cases e with
  | findModelsBySource source => exact fun row hrow => of_decide_eq_true (List.mem_filter.1 hrow).2
  | findByCanonicalId canonicalId =>
      show Told o.vendored (.findByCanonicalId canonicalId) (.ok (B.db.findModel (Utf8.text canonicalId)))
      cases hfound : B.db.findModel (Utf8.text canonicalId) with
      | none => trivial
      | some row => exact (Rows.mem_of_find hfound).2
  | findById id =>
      show Told o.vendored (.findById id) (.ok (B.db.findById id))
      cases hfound : B.db.findById id with
      | none => trivial
      | some row => exact (Rows.mem_of_find hfound).2
  | loadVendoredFeed => rfl
  | _ => trivial

/-- A job and who has it run. -/
def launch (i : ℕ) (task : Task) : Action ℕ CatalogOp CatalogOp.Answer Unit Books View :=
  .spawn i task.prog { actor := task.actor }

/-- A sync has read the rows when operators override a capability of a discovered model and of a synced
one, edit a model of their own and try to edit the synced one; then it goes on, and a discovery follows. -/
def workday : List (Action ℕ CatalogOp CatalogOp.Answer Unit Books View) :=
  [launch 0 (.sync none), .run 0 4,
    launch 1 (.override kimiRow.id (some visionOn)), .run 1 1,
    launch 2 (.override opusRow.id (some visionOn)), .run 2 1,
    launch 3 (.update officeRow.id (some largerContext)), .run 3 3,
    launch 4 (.update opusRow.id (some largerContext)), .run 4 3,
    .run 0 12, launch 5 (.discover gradient), .run 5 9]

def evening : CatalogPool :=
  (System.initial { db := ownedDb } : Pool ..).exec View.next (ownedAnswer standing) workday

theorem evening_written : evening.shared.edited = [officeRow.id] ∧
    evening.shared.overridden = [kimiRow.id, opusRow.id] := by
  decide +kernel

theorem evening_reachable : (catalog smallFeed).Reachable { db := ownedDb } evening :=
  System.reachable_exec (ownedAnswer_sound standing) .refl
    ⟨rfl, ⟨_, rfl, rfl⟩, rfl, ⟨_, rfl, rfl⟩, rfl, ⟨_, rfl, rfl⟩, rfl, ⟨_, rfl, rfl⟩, rfl, ⟨_, rfl, rfl⟩, rfl,
      ⟨_, rfl, rfl⟩, trivial⟩

/-- The sync has written its row, also where an operator has meanwhile overridden a capability of it, and
the discovered row is as it was but for its overrides. -/
theorem evening_owned :
    evening.shared.db.models.map (fun m => (m.canonicalId, m.contextWindow, m.status)) =
      [(opusKey, 200000, .active), ("anthropic/claude-2", 100000, .deprecated),
        ("digitalocean/kimi-k3", 8192, .active), ("ollama/qwen3", 9000, .active),
        ("anthropic/claude-haiku", 150000, .active), ("digitalocean/openai-gpt-5", 8192, .active)] ∧
    opusRow.id ∉ evening.shared.edited ∧ Kept smallFeed ownedDb evening.shared opusRow ∧
    Kept smallFeed ownedDb evening.shared kimiRow := by
  have hkeyed : ownedDb.Keyed := ⟨by decide, by decide⟩
  obtain ⟨hsynced, hopus⟩ :=
    catalog_owned hkeyed evening_reachable List.mem_cons_self (apart_of_texts smallFeed_js opusRow.canonicalId)
  obtain ⟨-, hkimi⟩ := catalog_owned hkeyed evening_reachable (a := kimiRow)
    (List.mem_cons_of_mem _ (List.mem_cons_of_mem _ List.mem_cons_self))
    (apart_of_texts smallFeed_js kimiRow.canonicalId)
  have hedited := hsynced rfl
  refine ⟨by decide +kernel, hedited, hopus hedited, hkimi ?_⟩
  rw [evening_written.1]
  decide

end Catalog

end VibeRouter
