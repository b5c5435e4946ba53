import VibeRouter.Catalog.Edits
import VibeRouter.Lib.Knowledge

/-! # What the jobs know when they write

A job decides what to write from rows that it has read before, and the tables may have changed since.
A `View` is what a job has read, and `Justified` says which statements what it has read allows it:
automation writes the rows of the feed, fills the placeholders of discovered rows and appends prices
that differ, operators write what the feed does not manage.  Every job of the catalog issues only
justified statements. -/

namespace VibeRouter

open Effects

namespace Catalog

/-! ### Views -/

inductive Actor
  | automation | operator
deriving DecidableEq

/-- What a source of prices has answered: the models of the documentation, or the live feed. -/
inductive Heard
  | docs (scraped : List ScrapedModel)
  | feed (feed : Feed)

/-- The rows that a job has read, the canonical ids of the whole table each time it has read it, the
ids that its insertions have answered, the latest prices it has been told and what it has heard of the
sources of prices. -/
structure View where
  actor : Actor
  rows : List CatalogModel := []
  listings : List (List String) := []
  ids : List Uuid := []
  latest : List (Uuid × Option PriceRow) := []
  heard : List Heard := []

/-- More is known. -/
structure View.Le (q q' : View) : Prop where
  actor : q.actor = q'.actor
  rows : q.rows ⊆ q'.rows
  listings : q.listings ⊆ q'.listings
  ids : q.ids ⊆ q'.ids
  latest : q.latest ⊆ q'.latest
  heard : q.heard ⊆ q'.heard

instance : Preorder View where
  le := View.Le
  le_refl q := ⟨rfl, List.Subset.refl _, List.Subset.refl _, List.Subset.refl _, List.Subset.refl _,
    List.Subset.refl _⟩
  le_trans q q' q'' h h' := ⟨h.actor.trans h'.actor, List.Subset.trans h.rows h'.rows,
    List.Subset.trans h.listings h'.listings, List.Subset.trans h.ids h'.ids,
    List.Subset.trans h.latest h'.latest, List.Subset.trans h.heard h'.heard⟩

namespace View

variable {q q' : View} {row : CatalogModel}

theorem actor_eq (h : q ≤ q') : q'.actor = q.actor := (Le.actor h).symm

theorem rows_subset (h : q ≤ q') (hrow : row ∈ q.rows) : row ∈ q'.rows := Le.rows h hrow

theorem listings_subset (h : q ≤ q') {l : List String} (hl : l ∈ q.listings) : l ∈ q'.listings :=
  Le.listings h hl

theorem ids_subset (h : q ≤ q') {id : Uuid} (hid : id ∈ q.ids) : id ∈ q'.ids := Le.ids h hid

theorem heard_subset (h : q ≤ q') {source : Heard} (hheard : source ∈ q.heard) : source ∈ q'.heard :=
  Le.heard h hheard

/-- What an answer of a source of prices says. -/
def hears : (e : CatalogOp) → e.Answer → List Heard
  | .scrapeDoDocs, .ok scraped => [.docs scraped]
  | .fetchPricingFeed, .ok feed => [.feed feed]
  | _, _ => []

/-- What an answer adds. -/
def next (q : View) : (e : CatalogOp) → e.Answer → View
  | .findModels, .ok rows =>
      { q with rows := q.rows ++ rows
               listings := q.listings ++ [rows.map CatalogModel.canonicalId] }
  | .findModelsBySource _, .ok rows => { q with rows := q.rows ++ rows }
  | .findByCanonicalId _, .ok (some row) => { q with rows := q.rows ++ [row] }
  | .findById _, .ok (some row) => { q with rows := q.rows ++ [row] }
  | .insertModel _, .ok id => { q with ids := q.ids ++ [id] }
  | .insertOrUpdate _ _, .ok id => { q with ids := q.ids ++ [id] }
  | .latestPrice modelId, .ok found => { q with latest := q.latest ++ [(modelId, found)] }
  | e, r => { q with heard := q.heard ++ hears e r }

theorem le_next (q : View) (e : CatalogOp) (r : e.Answer) : q ≤ q.next e r := by
  have hsame := le_refl q
  unfold next
  split
  · exact { hsame with rows := List.subset_append_left _ _
                       listings := List.subset_append_left _ _ }
  · exact { hsame with rows := List.subset_append_left _ _ }
  · exact { hsame with rows := List.subset_append_left _ _ }
  · exact { hsame with rows := List.subset_append_left _ _ }
  · exact { hsame with ids := List.subset_append_left _ _ }
  · exact { hsame with ids := List.subset_append_left _ _ }
  · exact { hsame with latest := List.subset_append_left _ _ }
  · exact { hsame with heard := List.subset_append_left _ _ }

/-- What has been heard stays, and what is heard next comes behind it. -/
theorem heard_next (q : View) (e : CatalogOp) (r : e.Answer) :
    (q.next e r).heard = q.heard ++ hears e r := by
  unfold next
  split <;> first | rfl | exact (List.append_nil _).symm

end View

/-! ### What is allowed -/

/-- The hosting that a canonical id calls for. -/
def hostingOf (canonicalId : String) : Option ThirdPartyHosting :=
  if (DO_NAMESPACE ++ js "/").isPrefixOf (js canonicalId) then
    thirdPartyHostingFor ((js canonicalId).drop (DO_NAMESPACE.length + 1))
  else none

/-- An update that fills the placeholders of a row, and nothing else. -/
structure Fills (row : CatalogModel) (set : ModelSet) : Prop where
  displayName : set.displayName = none
  capabilityOverrides : set.capabilityOverrides = none
  deprecationDate : set.deprecationDate = none
  status : set.status = none
  contextWindow : ∀ c, set.contextWindow = some c → row.contextWindow = DISCOVERED_CONTEXT_WINDOW
  maxOutput : ∀ m, set.maxOutput = some m → row.maxOutput = none
  capabilities : ∀ caps, set.capabilities = some caps →
    ∀ key, caps.get key = row.capabilities.get key ∨ caps.get key = some true

/-- An update of the overrides alone. -/
def KeepsBase (set : ModelSet) : Prop := set = { capabilityOverrides := set.capabilityOverrides }

section
variable [Formats] (vendored : Feed)

/-- The vendored feed has an entry for the id. -/
def Curated (canonicalId : String) : Prop := js canonicalId ∈ feedIds vendored

/-- The documentation has another price for a model than the latest one. -/
def OffersDocs (canonicalId : String) (latest : Option PriceRow) (pricing : Pricing)
    (scraped : List ScrapedModel) : Prop :=
  ∃ entry ∈ scraped, "digitalocean/" ++ entry.modelId = canonicalId ∧ ∃ p, entry.pricing = some p ∧
    pricing = p.toPricing ∧ latest.all (fun row => scrapedDiffers row p) = true

/-- The live feed has another price for a model than the latest one, and a whole one. -/
def OffersFeed (canonicalId : String) (latest : Option PriceRow) (pricing : Pricing)
    (feed : Feed) : Prop :=
  ∃ entry ∈ (parseFeed perMtok feed).1, entry.canonicalId = js canonicalId ∧
    usablePrice entry.pricing = true ∧ pricing = entry.pricing ∧
    latest.all (fun row => pricesDiffer row entry.pricing) = true

/-- A source that has been heard offers the price, and the latest one is another. -/
def Offers (heard : List Heard) (canonicalId : String) (latest : Option PriceRow)
    (pricing : Pricing) : Prop :=
  ∃ source ∈ heard, match source with
    | .docs scraped => OffersDocs canonicalId latest pricing scraped
    | .feed feed => OffersFeed canonicalId latest pricing feed

/-- A price that automation may append for a row: for a row of the feed it is the feed's, and for any
other one that a source offers. -/
structure PriceOf (q : View) (row : CatalogModel) (pricing : Pricing) : Prop where
  source : row.source ≠ .custom
  curated : Curated vendored row.canonicalId → ∃ entry ∈ (parseFeed perMtok vendored).1,
    entry.canonicalId = js row.canonicalId ∧ pricing = entry.pricing
  synced : row.source = .synced → Curated vendored row.canonicalId
  offered : ¬Curated vendored row.canonicalId →
    ∃ latest, (row.id, latest) ∈ q.latest ∧ Offers q.heard row.canonicalId latest pricing

/-- An update of a row by automation: the feed writes the specs of its own rows. -/
def AutomaticSet (row : CatalogModel) (set : ModelSet) : Prop :=
  row.source ≠ .custom ∧ Curated vendored row.canonicalId ∧ set.displayName = none ∧
      set.capabilityOverrides = none ∨
    row.source = .provider ∧ Fills row set

/-- The statements that a view allows. -/
def Justified (q : View) : CatalogOp → Prop
  | .updateModel id set => match q.actor with
    | .automation => ∃ row ∈ q.rows, row.id = id ∧ AutomaticSet vendored row set
    | .operator => KeepsBase set ∨ ∃ row ∈ q.rows, row.id = id ∧ row.source ≠ .synced
  | .insertModel v => q.actor = .operator ∧ v.source = .custom
  | .insertOrUpdate v set => q.actor = .automation ∧ set.capabilityOverrides = none ∧
      ∃ entry ∈ (parseFeed perMtok vendored).1, v.canonicalId = entry.canonicalId ∧
        ∃ l ∈ q.listings, ∀ t ∈ l, js t ≠ entry.canonicalId
  | .tagThirdParty canonicalId note => q.actor = .automation ∧ ∃ t, canonicalId = js t ∧
      ∃ hosting, hostingOf t = some hosting ∧ note = hosting.retentionNote
  | .deprecateModels ids => q.actor = .automation ∧ ∀ id ∈ ids, ∃ row ∈ q.rows, row.id = id ∧
      row.source = .synced ∧ ¬Curated vendored row.canonicalId
  | .deleteModel id => q.actor = .operator ∧ ∃ row ∈ q.rows, row.id = id ∧ row.source = .custom
  | .insertPrice v => v.modelId ∈ q.ids ∨ match q.actor with
    | .automation => ∃ row ∈ q.rows, row.id = v.modelId ∧ PriceOf vendored q row v.pricing
    | .operator => ∃ row ∈ q.rows, row.id = v.modelId ∧ row.source ≠ .synced
  | _ => True

/-- What is known of an answer: it is about what was asked for, and the vendored feed is one file. -/
def Told : (e : CatalogOp) → e.Answer → Prop
  | .findModelsBySource source, .ok rows => ∀ row ∈ rows, row.source = source
  | .findByCanonicalId canonicalId, .ok (some row) => row.canonicalId = Utf8.text canonicalId
  | .findById id, .ok (some row) => row.id = id
  | .loadVendoredFeed, .ok feed => feed = vendored
  | _, _ => True

/-- The surroundings of a job, as far as the job can tell. -/
def learning : Env CatalogOp CatalogOp.Answer View where
  allows _ e r := Told vendored e r
  next := View.next

end

/-! ### Rules -/

section
variable [Formats] {vendored : Feed} {S T α β : Type} {q : View}

theorem Offers.mono {heard heard' : List Heard} {canonicalId : String} {latest : Option PriceRow}
    {pricing : Pricing} (h : Offers heard canonicalId latest pricing) (hle : heard ⊆ heard') :
    Offers heard' canonicalId latest pricing := by
  obtain ⟨source, hsource, hoffers⟩ := h
  exact ⟨source, hle hsource, hoffers⟩

theorem PriceOf.mono {q' : View} {row : CatalogModel} {pricing : Pricing}
    (h : PriceOf vendored q row pricing) (hle : q ≤ q') : PriceOf vendored q' row pricing where
  source := h.source
  curated := h.curated
  synced := h.synced
  offered hnot := by
    obtain ⟨latest, hlatest, hoffers⟩ := h.offered hnot
    exact ⟨latest, View.Le.latest hle hlatest, hoffers.mono (View.Le.heard hle)⟩

/-- What a view allows, one that knows more allows. -/
theorem Justified.mono {q' : View} {e : CatalogOp} (h : Justified vendored q e) (hle : q ≤ q') :
    Justified vendored q' e := by
  cases e with
  | updateModel id set =>
      unfold Justified at h ⊢
      rw [View.actor_eq hle]
      cases hactor : q.actor with
      | automation =>
          rw [hactor] at h
          obtain ⟨row, hrow, hset⟩ := h
          exact ⟨row, View.rows_subset hle hrow, hset⟩
      | operator =>
          rw [hactor] at h
          rcases h with h | ⟨row, hrow, hsource⟩
          · exact Or.inl h
          · exact Or.inr ⟨row, View.rows_subset hle hrow, hsource⟩
  | insertModel v => exact ⟨(View.actor_eq hle).trans h.1, h.2⟩
  | insertOrUpdate v set =>
      obtain ⟨hactor, hset, entry, hentry, hid, l, hl, hnot⟩ := h
      exact ⟨(View.actor_eq hle).trans hactor, hset, entry, hentry, hid, l,
        View.listings_subset hle hl, hnot⟩
  | tagThirdParty canonicalId note => exact ⟨(View.actor_eq hle).trans h.1, h.2⟩
  | deprecateModels ids =>
      obtain ⟨hactor, hids⟩ := h
      refine ⟨(View.actor_eq hle).trans hactor, fun id hid => ?_⟩
      obtain ⟨row, hrow, hsynced⟩ := hids id hid
      exact ⟨row, View.rows_subset hle hrow, hsynced⟩
  | deleteModel id =>
      obtain ⟨hactor, row, hrow, hcustom⟩ := h
      exact ⟨(View.actor_eq hle).trans hactor, row, View.rows_subset hle hrow, hcustom⟩
  | insertPrice v =>
      unfold Justified at h ⊢
      rw [View.actor_eq hle]
      rcases h with h | h
      · exact Or.inl (View.ids_subset hle h)
      · right
        cases hactor : q.actor with
        | automation =>
            rw [hactor] at h
            obtain ⟨row, hrow, hid, hprice⟩ := h
            exact ⟨row, View.rows_subset hle hrow, hid, hprice.mono hle⟩
        | operator =>
            rw [hactor] at h
            obtain ⟨row, hrow, hsource⟩ := h
            exact ⟨row, View.rows_subset hle hrow, hsource⟩
  | _ => trivial

/-- From `q` on, a job issues justified statements only, and what it returns satisfies `post`. -/
abbrev Issues (vendored : Feed) (c : Job S α) (q : View) (post : α → View → Prop) : Prop :=
  c.Learns (learning vendored) (Justified vendored) q post

theorem issues_op {e : CatalogOp} {post : e.Answer → View → Prop} (hok : Justified vendored q e)
    (h : ∀ r, Told vendored e r → post r (q.next e r)) :
    Issues vendored (Job.op e : Job S e.Answer) q post :=
  Code.learns_perform hok fun r hr => ⟨q.le_next e r, h r hr⟩

theorem issues_await {c : Job S (Except Thrown α)} {post : α → View → Prop}
    (hc : Issues vendored c q fun r q' => ∀ a, r = .ok a → post a q') :
    Issues vendored (Job.await c) q post := by
  refine hc.bind fun r q' hle hpost => ?_
  exact Code.learns_ofExcept hpost

/-- An operation whose answer is not used further. -/
theorem issues_await_op {c : Job S (Except Thrown α)} (hc : Issues vendored c q fun _ _ => True) :
    Issues vendored (Job.await c) q fun _ _ => True :=
  issues_await (hc.mono fun _ _ _ _ _ _ => trivial)

theorem issues_perform {e : CatalogOp} (hok : Justified vendored q e) :
    Issues vendored (Job.op e : Job S e.Answer) q fun _ _ => True := issues_op hok fun _ _ => trivial

theorem issues_note {f : S → S} {post : Unit → View → Prop} (h : post () q) :
    Issues vendored (Job.note f) q post := Code.learns_write h

theorem issues_when {b : Bool} {c : Job S Unit}
    (hc : b = true → Issues vendored c q fun _ _ => True) :
    Issues vendored (Job.when b c) q fun _ _ => True := by
  unfold Job.when
  split
  · next hb => exact hc hb
  · exact Code.learns_pure trivial

theorem issues_whenSome {o : Option β} {c : β → Job S Unit}
    (hc : ∀ b, o = some b → Issues vendored (c b) q fun _ _ => True) :
    Issues vendored (Job.whenSome o c) q fun _ _ => True := by
  unfold Job.whenSome
  split
  · next b => exact hc b rfl
  · exact Code.learns_pure trivial

theorem issues_reporting {c : Job T Unit} {report : T} {post : T → View → Prop}
    (hc : Issues vendored c q fun _ _ => True) (h : ∀ t q', q ≤ q' → post t q') :
    Issues vendored (Job.reporting c report : Job S T) q post :=
  hc.lift fun _ _ t q' _ hle _ => h t q' hle

/-! ### Prices -/

/-- The latest price of a model is known from then on. -/
theorem issues_latestPrice (modelId : Uuid) :
    Issues vendored (Job.await (Job.op (.latestPrice modelId)) : Job S (Option PriceRow)) q
      fun latest q' => (modelId, latest) ∈ q'.latest := by
  apply issues_await
  refine issues_op ?_ ?_
  · trivial
  rintro r - latest rfl
  exact List.mem_append_right _ (List.mem_singleton_self _)

theorem issues_appendPricing {modelId : Uuid} {p : Pricing} {now : ℕ} {post : Bool → View → Prop}
    (hok : ∀ latest q', q ≤ q' → (modelId, latest) ∈ q'.latest →
      latest.all (fun row => pricesDiffer row p) = true →
      Justified vendored q' (.insertPrice ⟨modelId, now, p⟩))
    (h : ∀ b q', q ≤ q' → post b q') :
    Issues vendored (appendPricingIfChanged modelId p now : Job S Bool) q post := by
  unfold appendPricingIfChanged
  apply Code.Learns.bind
  · exact issues_latestPrice modelId
  · intro latest q' hle hlatest
    dsimp only
    split
    · exact Code.learns_pure (h _ _ hle)
    · next hdiffers =>
        rw [Bool.or_eq_true, not_or, Bool.not_eq_true', Bool.not_eq_false] at hdiffers
        apply Code.Learns.andThen
        · exact issues_await_op (issues_perform (hok latest q' hle hlatest hdiffers.1))
        · intro _ q'' hle'
          exact Code.learns_pure (h _ _ (hle.trans hle'))

/-! ### The sync -/

/-- What is known of an entry when its turn comes. -/
structure Ready (vendored : Feed) (q : View) (entry : SyncedModel) (current : Option CatalogModel) :
    Prop where
  actor : q.actor = .automation
  mem : entry ∈ (parseFeed perMtok vendored).1
  found : ∀ row, current = some row → row ∈ q.rows ∧ js row.canonicalId = entry.canonicalId
  absent : current = none → ∃ l ∈ q.listings, ∀ t ∈ l, js t ≠ entry.canonicalId

theorem Ready.mono {q' : View} {entry : SyncedModel} {current : Option CatalogModel}
    (h : Ready vendored q entry current) (hle : q ≤ q') : Ready vendored q' entry current where
  actor := (View.actor_eq hle).trans h.actor
  mem := h.mem
  found row hrow := ⟨View.rows_subset hle (h.found row hrow).1, (h.found row hrow).2⟩
  absent hnone := by
    obtain ⟨l, hl, hnot⟩ := h.absent hnone
    exact ⟨l, View.listings_subset hle hl, hnot⟩

theorem Ready.curated {entry : SyncedModel} {row : CatalogModel}
    (h : Ready vendored q entry (some row)) : Curated vendored row.canonicalId := by
  unfold Curated feedIds
  rw [(h.found row rfl).2]
  exact List.mem_map_of_mem h.mem

/-- The price of an entry may be appended for its row. -/
theorem Ready.price {entry : SyncedModel} {row : CatalogModel} {now : ℕ}
    (h : Ready vendored q entry (some row)) (hsource : row.source ≠ .custom) :
    Justified vendored q (.insertPrice ⟨row.id, now, entry.pricing⟩) := by
  unfold Justified
  rw [h.actor]
  exact Or.inr ⟨row, (h.found row rfl).1, rfl,
    { source := hsource
      curated := fun _ => ⟨entry, h.mem, (h.found row rfl).2.symm, rfl⟩
      synced := fun _ => h.curated
      offered := fun hnot => absurd h.curated hnot }⟩

/-- Its specs may be written to the row. -/
theorem Ready.set {entry : SyncedModel} {row : CatalogModel}
    (h : Ready vendored q entry (some row)) (hsource : row.source ≠ .custom) :
    Justified vendored q (.updateModel row.id (entry.set row)) := by
  unfold Justified
  rw [h.actor]
  exact ⟨row, (h.found row rfl).1, rfl, Or.inl ⟨hsource, h.curated, rfl, rfl⟩⟩

theorem issues_syncPrice {entry : SyncedModel} {known : Bool} {modelId : Uuid} {now : ℕ}
    (hok : Justified vendored q (.insertPrice ⟨modelId, now, entry.pricing⟩)) :
    Issues vendored (syncPrice entry known modelId now) q fun _ _ => True := by
  unfold syncPrice
  apply Code.Learns.andThen
  · exact issues_appendPricing (fun _ _ hle _ _ => hok.mono hle) fun _ _ _ => trivial
  · intro appended q' _
    split <;> exact issues_note trivial

/-- An insertion tells the id of its row. -/
theorem issues_insertOrUpdate {v : ModelValues} {set : ModelSet}
    (hok : Justified vendored q (.insertOrUpdate v set)) :
    Issues vendored (Job.await (Job.op (.insertOrUpdate v set)) : Job S Uuid) q fun id q' =>
      id ∈ q'.ids := by
  apply issues_await
  refine issues_op hok ?_
  rintro r - id rfl
  exact List.mem_append_right _ (List.mem_singleton_self id)

theorem issues_syncOneModel {entry : SyncedModel} {current : Option CatalogModel} {now : ℕ}
    (h : Ready vendored q entry current) :
    Issues vendored (syncOneModel entry current now) q fun _ _ => True := by
  unfold syncOneModel
  cases current with
  | some row =>
      dsimp only
      split
      · exact issues_note trivial
      · next hsource =>
          split
          · apply Code.Learns.andThen
            · exact issues_await_op (issues_perform (h.set hsource))
            · intro _ q' hle
              apply Code.Learns.andThen
              · exact issues_note trivial
              · intro _ q'' hle'
                exact issues_syncPrice ((h.price hsource).mono (hle.trans hle'))
          · exact issues_syncPrice (h.price hsource)
  | none =>
      dsimp only
      split
      · exact issues_note trivial
      · next contextWindow _ =>
          apply Code.Learns.bind
          · exact issues_insertOrUpdate ⟨h.actor, rfl, entry, h.mem, rfl, h.absent rfl⟩
          · intro id q' _ hid
            apply Code.Learns.andThen
            · exact issues_note trivial
            · intro _ q'' hle'
              exact issues_syncPrice (Or.inl (View.ids_subset hle' hid))

theorem issues_syncEntries {byCanonical : JsMap JsString CatalogModel} {now : ℕ}
    {entries : List SyncedModel}
    (h : ∀ entry ∈ entries, Ready vendored q entry (byCanonical.get entry.canonicalId)) :
    Issues vendored (syncEntries byCanonical now entries) q fun _ _ => True := by
  induction entries generalizing q with
  | nil => exact Code.learns_pure trivial
  | cons entry rest ih =>
      unfold syncEntries
      apply Code.Learns.andThen
      · apply Code.Learns.handle
        · exact issues_syncOneModel (h entry List.mem_cons_self)
        · intro err q' _
          exact issues_note trivial
      · intro _ q' hle
        exact ih fun e he => (h e (List.mem_cons_of_mem _ he)).mono hle

/-- A reading of the whole table. -/
theorem issues_findModels :
    Issues vendored (Job.await (Job.op .findModels) : Job S (List CatalogModel)) q fun rows q' =>
      rows ⊆ q'.rows ∧ rows.map CatalogModel.canonicalId ∈ q'.listings := by
  apply issues_await
  refine issues_op ?_ ?_
  · trivial
  rintro r - rows rfl
  exact ⟨List.subset_append_right _ _, List.mem_append_right _ (List.mem_singleton_self _)⟩

/-- What a map of all rows says of an id. -/
theorem ready_of_listing {entry : SyncedModel} {existing : List CatalogModel}
    (hactor : q.actor = .automation) (hrows : existing ⊆ q.rows)
    (hlisted : existing.map CatalogModel.canonicalId ∈ q.listings)
    (hentry : entry ∈ (parseFeed perMtok vendored).1) :
    Ready vendored q entry
      ((JsMap.ofList (existing.map fun m => (js m.canonicalId, m))).get entry.canonicalId) where
  actor := hactor
  mem := hentry
  found row hrow := by
    obtain ⟨m, hm, heq⟩ := List.mem_map.1 (JsMap.mem_of_get_ofList hrow)
    obtain ⟨hid, rfl⟩ := Prod.mk.inj heq
    exact ⟨hrows hm, hid⟩
  absent hnone := by
    refine ⟨_, hlisted, fun t ht => ?_⟩
    obtain ⟨m, hm, rfl⟩ := List.mem_map.1 ht
    exact JsMap.key_ne_of_get_ofList hnone (List.mem_map.2 ⟨m, hm, rfl⟩)

/-- Synced rows that the feed does not have may be flagged. -/
theorem justified_vanished {existing : List CatalogModel} (hactor : q.actor = .automation)
    (hrows : existing ⊆ q.rows) :
    Justified vendored q (.deprecateModels
      ((vanished existing ((parseFeed perMtok vendored).1.map SyncedModel.canonicalId)).map
        CatalogModel.id)) := by
  refine ⟨hactor, fun id hid => ?_⟩
  obtain ⟨row, hrow, rfl⟩ := List.mem_map.1 hid
  obtain ⟨hmem, hgone⟩ := List.mem_filter.1 hrow
  simp only [Bool.and_eq_true, beq_iff_eq, Bool.not_eq_true'] at hgone
  obtain ⟨⟨hsynced, -⟩, hnot⟩ := hgone
  refine ⟨row, hrows hmem, rfl, hsynced, fun hcurated => ?_⟩
  have hcontains := List.contains_iff_mem.2 hcurated
  unfold feedIds at hcontains
  rw [hnot] at hcontains
  cases hcontains

theorem issues_syncCatalog {now : ℕ} (hactor : q.actor = .automation) :
    Issues vendored (syncCatalog vendored now) q fun _ _ => True := by
  unfold syncCatalog
  apply Code.Learns.andThen
  · exact issues_note trivial
  intro _ q₁ hle₁
  apply Code.Learns.bind
  · exact issues_findModels
  rintro existing q₂ hle₂ ⟨hrows, hlisted⟩
  have hactor₂ : q₂.actor = .automation := (View.actor_eq (hle₁.trans hle₂)).trans hactor
  apply Code.Learns.andThen
  · apply issues_syncEntries
    intro entry hentry
    exact ready_of_listing hactor₂ hrows hlisted hentry
  intro _ q₃ hle₃
  dsimp only
  split
  · exact Code.learns_pure trivial
  · apply Code.Learns.andThen
    · exact issues_await_op (issues_perform ((justified_vanished hactor₂ hrows).mono hle₃))
    · intro _ q₄ _
      exact issues_note trivial

/-! ### Discovery -/

omit [Formats] in
theorem fills_fillPlaceholders (row : CatalogModel) (contextWindow maxOutput : Option ℚ)
    (stated : Capabilities) : Fills row (fillPlaceholders row contextWindow maxOutput stated) where
  displayName := rfl
  capabilityOverrides := rfl
  deprecationDate := rfl
  status := rfl
  contextWindow c hc := by
    by_contra hnot
    unfold fillPlaceholders at hc
    rw [if_neg hnot] at hc
    cases hc
  maxOutput m hm := by
    by_contra hnot
    unfold fillPlaceholders at hm
    rw [if_neg hnot] at hm
    cases hm
  capabilities caps hcaps key := by
    have hall : caps = (additive row.capabilities stated).1 := by
      unfold fillPlaceholders at hcaps
      dsimp only at hcaps
      split at hcaps
      · exact (Option.some.inj hcaps).symm
      · cases hcaps
    rw [hall, get_additive]
    split
    · exact Or.inr rfl
    · exact Or.inl rfl

/-- A discovered row may be filled in. -/
theorem justified_fill {row : CatalogModel} {contextWindow maxOutput : Option ℚ}
    {stated : Capabilities} (hactor : q.actor = .automation) (hrow : row ∈ q.rows)
    (hsource : row.source = .provider) :
    Justified vendored q
      (.updateModel row.id (fillPlaceholders row contextWindow maxOutput stated)) := by
  unfold Justified
  rw [hactor]
  exact ⟨row, hrow, rfl, Or.inr ⟨hsource, fills_fillPlaceholders row _ _ _⟩⟩

theorem issues_insertDiscovered (insertions : List Insertion) :
    Issues vendored (insertDiscovered insertions) q fun _ _ => True := by
  induction insertions generalizing q with
  | nil => exact Code.learns_pure trivial
  | cons m rest ih =>
      unfold insertDiscovered
      apply Code.Learns.andThen
      · exact issues_await_op (issues_perform trivial)
      · intro row q' _
        apply Code.Learns.andThen
        · exact issues_note trivial
        · intro _ q'' _
          exact ih

omit [Formats] in
theorem hostingOf_namespaced {t : String} (h : DO_NAMESPACE ++ js "/" <+: js t) :
    hostingOf t = thirdPartyHostingFor ((js t).drop (DO_NAMESPACE.length + 1)) :=
  if_pos (List.isPrefixOf_iff_prefix.2 h)

theorem issues_tagKnown {existingById : JsMap JsString CatalogModel} {ids : List JsString}
    (hactor : q.actor = .automation)
    (h : ∀ canonicalId ∈ ids, ∃ t, canonicalId = js t ∧ DO_NAMESPACE ++ js "/" <+: js t) :
    Issues vendored (tagKnown existingById ids) q fun _ _ => True := by
  induction ids generalizing q with
  | nil => exact Code.learns_pure trivial
  | cons canonicalId rest ih =>
      have hrest := fun id hid => h id (List.mem_cons_of_mem canonicalId hid)
      obtain ⟨t, rfl, hprefix⟩ := h canonicalId List.mem_cons_self
      unfold tagKnown
      split
      · exact ih hactor hrest
      · next hosting hhosting =>
          have hok : Justified vendored q (.tagThirdParty (js t) hosting.retentionNote) :=
            ⟨hactor, t, rfl, hosting, (hostingOf_namespaced hprefix).trans hhosting, rfl⟩
          apply Code.Learns.andThen
          · exact issues_note trivial
          intro _ q₁ hle₁
          apply Code.Learns.andThen
          · apply issues_when
            intro _
            exact issues_await_op (issues_perform (hok.mono hle₁))
          · intro _ q₂ hle₂
            exact ih ((View.actor_eq (hle₁.trans hle₂)).trans hactor) hrest

omit [Formats] in
/-- The known models of a plan are rows of the catalog, under the namespace. -/
theorem known_text (served : List JsString) (existing : List CatalogModel) :
    ∀ canonicalId ∈ (planDiscovery served (existing.map fun m => js m.canonicalId)
      DO_NAMESPACE).alreadyKnown, ∃ t, canonicalId = js t ∧ DO_NAMESPACE ++ js "/" <+: js t := by
  intro canonicalId hknown
  have hplanned := planned served (existing.map fun m => js m.canonicalId) DO_NAMESPACE
  obtain ⟨hseen, hexisting⟩ := (hplanned.known canonicalId).1 hknown
  obtain ⟨m, -, rfl⟩ := List.mem_map.1 hexisting
  refine ⟨m.canonicalId, rfl, ?_⟩
  obtain ⟨raw, -, hraw⟩ := List.mem_filterMap.1 ((hplanned.ids _).1 hseen)
  unfold canonicalOf at hraw
  split at hraw
  · cases hraw
  · rw [← Option.some.inj hraw]
    exact List.prefix_append _ _

theorem issues_discoverDigitalOcean {provider : ProviderRow} {apiKey : Option String}
    (hactor : q.actor = .automation) :
    Issues vendored (discoverDigitalOceanModels provider apiKey) q fun _ _ => True := by
  unfold discoverDigitalOceanModels
  apply Code.Learns.andThen
  · exact issues_await_op (issues_perform trivial)
  intro served q₁ hle₁
  apply Code.Learns.andThen
  · exact issues_await_op (issues_perform trivial)
  intro existing q₂ hle₂
  dsimp only
  apply Code.Learns.andThen
  · exact issues_insertDiscovered _
  intro _ q₃ hle₃
  apply Code.Learns.andThen
  · apply issues_tagKnown
    · exact (View.actor_eq (hle₁.trans (hle₂.trans hle₃))).trans hactor
    · exact known_text served existing
  intro _ q₄ _
  exact issues_note trivial

theorem issues_discoverOne {m : AnthropicModel} {canonicalId : JsString} {row : Option CatalogModel}
    {curated : Bool} (hactor : q.actor = .automation) (hrow : ∀ r, row = some r → r ∈ q.rows) :
    Issues vendored (discoverOne m canonicalId row curated) q fun _ _ => True := by
  unfold discoverOne
  cases row with
  | none =>
      dsimp only
      split
      · exact issues_note trivial
      · apply Code.Learns.andThen
        · exact issues_await_op (issues_perform trivial)
        · intro inserted q' _
          exact issues_note trivial
  | some row =>
      dsimp only
      apply Code.Learns.andThen
      · exact issues_note trivial
      intro _ q₁ hle
      split
      · exact Code.learns_pure trivial
      · next hnot =>
          have hsource : row.source = .provider := by
            by_contra hother
            exact hnot (Or.inl hother)
          apply issues_when
          intro _
          exact issues_await_op (issues_perform
            ((justified_fill hactor (hrow row rfl) hsource).mono hle))

theorem issues_discoverEach {existing : JsMap JsString CatalogModel}
    {curatedIds : Option (List JsString)} {seen : List JsString} {served : List Json}
    (hactor : q.actor = .automation)
    (hrows : ∀ id row, existing.get id = some row → row ∈ q.rows) :
    Issues vendored (discoverEach existing curatedIds seen served) q fun _ _ => True := by
  induction served generalizing q seen with
  | nil => exact Code.learns_pure trivial
  | cons raw rest ih =>
      unfold discoverEach
      split
      · apply Code.Learns.andThen
        · exact issues_note trivial
        · intro _ q' hle
          exact ih ((View.actor_eq hle).trans hactor)
            fun id row hrow => View.rows_subset hle (hrows id row hrow)
      · dsimp only
        split
        · exact ih hactor hrows
        · apply Code.Learns.andThen
          · exact issues_discoverOne hactor fun row hrow => hrows _ row hrow
          · intro _ q' hle
            exact ih ((View.actor_eq hle).trans hactor)
              fun id row hrow => View.rows_subset hle (hrows id row hrow)

theorem issues_discoverAnthropic {provider : ProviderRow} {apiKey : Option String}
    {curatedIds : Option (List JsString)} (hactor : q.actor = .automation) :
    Issues vendored (discoverAnthropicModels provider apiKey curatedIds) q fun _ _ => True := by
  unfold discoverAnthropicModels
  apply Code.Learns.andThen
  · exact issues_await_op (issues_perform trivial)
  intro served q₁ hle₁
  apply Code.Learns.bind
  · exact issues_findModels
  rintro existing q₂ hle₂ ⟨hrows, -⟩
  apply issues_discoverEach
  · exact (View.actor_eq (hle₁.trans hle₂)).trans hactor
  · intro id row hrow
    obtain ⟨m, hm, heq⟩ := List.mem_map.1 (JsMap.mem_of_get_ofList hrow)
    obtain ⟨-, rfl⟩ := Prod.mk.inj heq
    exact hrows hm

theorem issues_discoverProvider {provider : ProviderRow} {apiKey : Option String}
    {curatedIds : Option (List JsString)} (hactor : q.actor = .automation) :
    Issues vendored (discoverProviderModels provider apiKey curatedIds) q fun _ _ => True := by
  unfold discoverProviderModels
  split
  · exact issues_discoverDigitalOcean hactor
  · exact issues_discoverAnthropic hactor
  · exact Code.learns_throw _

/-! ### The refresh -/

/-- A discovered row that the feed does not have may get a price that a source offers. -/
theorem justified_price {row : CatalogModel} {now : ℕ} {latest : Option PriceRow} {pricing : Pricing}
    (hactor : q.actor = .automation) (hrow : row ∈ q.rows) (hsource : row.source = .provider)
    (hnot : ¬Curated vendored row.canonicalId) (hlatest : (row.id, latest) ∈ q.latest)
    (hoffers : Offers q.heard row.canonicalId latest pricing) :
    Justified vendored q (.insertPrice ⟨row.id, now, pricing⟩) := by
  unfold Justified
  rw [hactor]
  refine Or.inr ⟨row, hrow, rfl, ?_, fun hcurated => absurd hcurated hnot, fun hsynced => ?_,
    fun _ => ⟨latest, hlatest, hoffers⟩⟩
  · rw [hsource]
    intro hcustom
    cases hcustom
  · rw [hsource] at hsynced
    cases hsynced

theorem issues_applySpecs {entry : ScrapedModel} {canonicalId : JsString} {row : CatalogModel}
    (hactor : q.actor = .automation) (hrow : row ∈ q.rows) (hsource : row.source = .provider) :
    Issues vendored (applySpecs entry canonicalId row) q fun _ _ => True := by
  unfold applySpecs
  apply issues_when
  intro _
  apply Code.Learns.andThen
  · exact issues_await_op (issues_perform (justified_fill hactor hrow hsource))
  · intro _ q' _
    exact issues_note trivial

theorem issues_applyPrice {scraped : List ScrapedModel} {entry : ScrapedModel} {p : ScrapedPricing}
    {canonicalId : JsString} {row : CatalogModel} (hactor : q.actor = .automation)
    (hheard : .docs scraped ∈ q.heard) (hentry : entry ∈ scraped) (hp : entry.pricing = some p)
    (hid : row.canonicalId = "digitalocean/" ++ entry.modelId) (hrow : row ∈ q.rows)
    (hsource : row.source = .provider) (hnot : ¬Curated vendored row.canonicalId) :
    Issues vendored (applyPrice p canonicalId row) q fun _ _ => True := by
  unfold applyPrice
  apply Code.Learns.bind
  · exact issues_latestPrice row.id
  intro latest q₁ hle₁ hlatest
  apply issues_when
  intro hdiffers
  have hoffers : Offers q₁.heard row.canonicalId latest p.toPricing :=
    ⟨.docs scraped, View.heard_subset hle₁ hheard, entry, hentry, hid.symm, p, hp, rfl, hdiffers⟩
  have hok : ∀ now, Justified vendored q₁ (.insertPrice ⟨row.id, now, p.toPricing⟩) := fun now =>
    justified_price ((View.actor_eq hle₁).trans hactor) (View.rows_subset hle₁ hrow) hsource hnot
      hlatest hoffers
  apply Code.Learns.andThen
  · exact issues_perform trivial
  intro now q₂ hle₂
  apply Code.Learns.andThen
  · exact issues_await_op (issues_perform ((hok now).mono hle₂))
  · intro _ q₃ _
    exact issues_note trivial

/-- A row found by its id. -/
theorem issues_findByCanonicalId (t : String) :
    Issues vendored (Job.await (Job.op (.findByCanonicalId (js t))) :
      Job S (Option CatalogModel)) q fun found q' =>
      ∀ row, found = some row → row ∈ q'.rows ∧ row.canonicalId = t := by
  apply issues_await
  refine issues_op ?_ ?_
  · trivial
  rintro r hr found rfl row rfl
  refine ⟨List.mem_append_right _ (List.mem_singleton_self row), ?_⟩
  have htext : row.canonicalId = Utf8.text (js t) := hr
  rw [htext, Utf8.text_js]

theorem issues_applyScrapedOne {scraped : List ScrapedModel} {entry : ScrapedModel}
    (hactor : q.actor = .automation) (hheard : .docs scraped ∈ q.heard) (hentry : entry ∈ scraped) :
    Issues vendored (applyScrapedOne (some (feedIds vendored)) entry) q fun _ _ => True := by
  unfold applyScrapedOne
  dsimp only
  apply Code.Learns.bind
  · exact issues_findByCanonicalId ("digitalocean/" ++ entry.modelId)
  intro found q₁ hle₁ hfound
  have hactor₁ := (View.actor_eq hle₁).trans hactor
  split
  · exact issues_note trivial
  next row =>
  obtain ⟨hrow, hid⟩ := hfound row rfl
  apply Code.Learns.andThen
  · exact issues_note trivial
  intro _ q₂ hle₂
  have hactor₂ := (View.actor_eq hle₂).trans hactor₁
  split
  · exact issues_note trivial
  next hnot =>
  rw [not_or, not_not] at hnot
  obtain ⟨hsource, hother⟩ := hnot
  have hcurated : ¬Curated vendored row.canonicalId := by
    intro hmem
    unfold Curated at hmem
    rw [hid, ← List.contains_iff_mem] at hmem
    exact hother hmem
  apply Code.Learns.andThen
  · exact issues_applySpecs hactor₂ (View.rows_subset hle₂ hrow) hsource
  · intro _ q₃ hle₃
    apply issues_whenSome
    intro p hp
    exact issues_applyPrice ((View.actor_eq hle₃).trans hactor₂)
      (View.heard_subset (hle₁.trans (hle₂.trans hle₃)) hheard) hentry hp hid
      (View.rows_subset (hle₂.trans hle₃) hrow) hsource hcurated

theorem issues_applyScraped {scraped entries : List ScrapedModel} (hactor : q.actor = .automation)
    (hheard : .docs scraped ∈ q.heard) (hentries : entries ⊆ scraped) :
    Issues vendored (applyScrapedToCatalog (some (feedIds vendored)) entries) q fun _ _ => True := by
  induction entries generalizing q with
  | nil => exact Code.learns_pure trivial
  | cons entry rest ih =>
      obtain ⟨hentry, hrest⟩ := List.cons_subset.1 hentries
      unfold applyScrapedToCatalog
      apply Code.Learns.andThen
      · exact issues_applyScrapedOne hactor hheard hentry
      · intro _ q' hle
        exact ih ((View.actor_eq hle).trans hactor) (View.heard_subset hle hheard) hrest

/-- What the documentation says is known from then on. -/
theorem issues_scrapeDoDocs :
    Issues vendored (Job.await (Job.op .scrapeDoDocs) : Job S (List ScrapedModel)) q
      fun scraped q' => .docs scraped ∈ q'.heard := by
  apply issues_await
  refine issues_op ?_ ?_
  · trivial
  rintro r - scraped rfl
  exact List.mem_append_right _ (List.mem_singleton_self _)

theorem issues_priceLive {feed : Feed} {entry : SyncedModel} {row : CatalogModel} {now : ℕ}
    (hactor : q.actor = .automation) (hheard : .feed feed ∈ q.heard)
    (hentry : entry ∈ (parseFeed perMtok feed).1) (hid : entry.canonicalId = js row.canonicalId)
    (hrow : row ∈ q.rows) (hsource : row.source = .provider)
    (hnot : ¬Curated vendored row.canonicalId) :
    Issues vendored (priceLive entry row now) q fun _ _ => True := by
  unfold priceLive
  dsimp only
  apply Code.Learns.andThen
  · apply issues_when
    intro _
    apply Code.Learns.andThen
    · exact issues_await_op (issues_perform (justified_fill hactor hrow hsource))
    · intro _ q' _
      exact issues_note trivial
  intro _ q₁ hle₁
  apply issues_when
  intro husable
  apply Code.Learns.andThen
  · apply issues_appendPricing
    · intro latest q₂ hle₂ hlatest hdiffers
      have hle := hle₁.trans hle₂
      exact justified_price ((View.actor_eq hle).trans hactor) (View.rows_subset hle hrow) hsource hnot
        hlatest ⟨.feed feed, View.heard_subset hle hheard, entry, hentry, hid, husable, rfl, hdiffers⟩
    · exact fun _ _ _ => trivial
  · intro appended q₂ _
    apply issues_when
    intro _
    exact issues_note trivial

/-- The entries of a feed by their ids. -/
abbrev byCanonicalId (feed : Feed) : JsMap JsString SyncedModel :=
  JsMap.ofList ((parseFeed perMtok feed).1.map fun e => (e.canonicalId, e))

theorem issues_priceRow {feed : Feed} {now : ℕ} {row : CatalogModel} (hactor : q.actor = .automation)
    (hheard : .feed feed ∈ q.heard) (hrow : row ∈ q.rows) (hsource : row.source = .provider) :
    Issues vendored (priceRow (byCanonicalId feed) (feedIds vendored) now row) q fun _ _ => True := by
  unfold priceRow
  apply issues_when
  intro hother
  have hnot : ¬Curated vendored row.canonicalId := by
    intro hmem
    unfold Curated at hmem
    rw [← List.contains_iff_mem] at hmem
    rw [hmem] at hother
    cases hother
  apply Code.Learns.andThen
  · exact issues_note trivial
  intro _ q₁ hle₁
  apply issues_whenSome
  intro entry hfound
  obtain ⟨e, hentry, heq⟩ := List.mem_map.1 (JsMap.mem_of_get_ofList hfound)
  obtain ⟨hid, rfl⟩ := Prod.mk.inj heq
  apply issues_when
  intro _
  apply Code.Learns.andThen
  · exact issues_note trivial
  · intro _ q₂ hle₂
    have hle := hle₁.trans hle₂
    exact issues_priceLive ((View.actor_eq hle).trans hactor) (View.heard_subset hle hheard) hentry hid
      (View.rows_subset hle hrow) hsource hnot

theorem issues_priceRows {feed : Feed} {now : ℕ} {rows : List CatalogModel}
    (hactor : q.actor = .automation) (hheard : .feed feed ∈ q.heard)
    (hrows : ∀ row ∈ rows, row ∈ q.rows ∧ row.source = .provider) :
    Issues vendored (priceRows (byCanonicalId feed) (feedIds vendored) now rows) q fun _ _ => True := by
  induction rows generalizing q with
  | nil => exact Code.learns_pure trivial
  | cons row rest ih =>
      obtain ⟨hrow, hrest⟩ := List.forall_mem_cons.1 hrows
      unfold priceRows
      apply Code.Learns.andThen
      · exact issues_priceRow hactor hheard hrow.1 hrow.2
      · intro _ q' hle
        exact ih ((View.actor_eq hle).trans hactor) (View.heard_subset hle hheard)
          fun row hmem => ⟨View.rows_subset hle (hrest row hmem).1, (hrest row hmem).2⟩

/-- What the live feed says is known from then on. -/
theorem issues_fetchPricingFeed :
    Issues vendored (Job.await (Job.op .fetchPricingFeed) : Job S Feed) q fun feed q' =>
      .feed feed ∈ q'.heard := by
  apply issues_await
  refine issues_op ?_ ?_
  · trivial
  rintro r - feed rfl
  exact List.mem_append_right _ (List.mem_singleton_self _)

theorem issues_applyLivePricing {feed : Feed} (hactor : q.actor = .automation)
    (hheard : .feed feed ∈ q.heard) :
    Issues vendored (applyLivePricing feed (feedIds vendored)) q fun _ _ => True := by
  unfold applyLivePricing
  dsimp only
  apply Code.Learns.andThen
  · exact issues_perform trivial
  intro now q₁ hle₁
  have hread : Issues vendored (Job.await (Job.op (.findModelsBySource .provider)) :
      Live (List CatalogModel)) q₁ fun rows q' => ∀ row ∈ rows, row ∈ q'.rows ∧
        row.source = .provider := by
    apply issues_await
    refine issues_op ?_ ?_
    · trivial
    rintro r hr rows rfl row hrow
    exact ⟨List.mem_append_right _ hrow, hr row hrow⟩
  apply Code.Learns.bind
  · exact hread
  · intro rows q₂ hle₂ hrows
    have hle := hle₁.trans hle₂
    exact issues_priceRows ((View.actor_eq hle).trans hactor) (View.heard_subset hle hheard) hrows

theorem issues_auditQuietly {event : String} {firmId : Uuid} :
    Issues vendored (auditQuietly event firmId : Job S Unit) q fun _ _ => True := by
  unfold auditQuietly
  apply Code.Learns.andThen
  · exact issues_perform trivial
  · intro _ q' _
    exact Code.learns_pure trivial

/-- The vendored feed is one file. -/
theorem issues_loadVendoredFeed :
    Issues vendored (Job.await (Job.op .loadVendoredFeed) : Job S Feed) q fun feed _ =>
      feed = vendored := by
  apply issues_await
  refine issues_op ?_ ?_
  · trivial
  rintro r hr feed rfl
  exact hr

theorem issues_loadCuratedIds :
    Issues vendored (loadCuratedIds : Job S (List JsString)) q fun ids _ =>
      ids = feedIds vendored := by
  unfold loadCuratedIds
  apply Code.Learns.bind
  · exact issues_loadVendoredFeed
  · rintro feed q' - rfl
    exact Code.learns_pure rfl

theorem issues_refreshProvider {curatedIds : Option (List JsString)} {provider : ProviderRow}
    (hactor : q.actor = .automation) :
    Issues vendored (refreshProvider curatedIds provider) q fun _ _ => True := by
  unfold refreshProvider
  apply Code.Learns.handle
  · apply Code.Learns.andThen
    · exact issues_await_op (issues_perform trivial)
    intro apiKey q₁ hle₁
    apply Code.Learns.andThen
    · exact issues_reporting (issues_discoverProvider ((View.actor_eq hle₁).trans hactor))
        fun _ _ _ => trivial
    intro result q₂ _
    apply Code.Learns.andThen
    · exact issues_note trivial
    intro _ q₃ _
    apply issues_when
    intro _
    exact issues_auditQuietly
  · intro err q' _
    exact issues_note trivial

theorem issues_refreshProviders {curatedIds : Option (List JsString)} {linked : List ProviderRow}
    (hactor : q.actor = .automation) :
    Issues vendored (refreshProviders curatedIds linked) q fun _ _ => True := by
  induction linked generalizing q with
  | nil => exact Code.learns_pure trivial
  | cons provider rest ih =>
      unfold refreshProviders
      apply Code.Learns.andThen
      · exact issues_refreshProvider hactor
      · intro _ q' hle
        exact ih ((View.actor_eq hle).trans hactor)

theorem issues_refreshDocs {auditFirmId : Option Uuid} (hactor : q.actor = .automation) :
    Issues vendored (refreshDocs (feedIds vendored) auditFirmId) q fun _ _ => True := by
  unfold refreshDocs
  apply Code.Learns.handle
  · apply Code.Learns.bind
    · exact issues_scrapeDoDocs
    intro scraped q₁ hle₁ hheard
    apply Code.Learns.andThen
    · exact issues_reporting (issues_applyScraped ((View.actor_eq hle₁).trans hactor) hheard
        (List.Subset.refl _)) fun _ _ _ => trivial
    intro docs q₂ _
    apply Code.Learns.andThen
    · exact issues_note trivial
    intro _ q₃ _
    apply issues_when
    intro _
    apply issues_whenSome
    intro firmId _
    exact issues_auditQuietly
  · intro err q' _
    exact issues_note trivial

theorem issues_refreshLive {auditFirmId : Option Uuid} (hactor : q.actor = .automation) :
    Issues vendored (refreshLive (feedIds vendored) auditFirmId) q fun _ _ => True := by
  unfold refreshLive
  apply Code.Learns.handle
  · apply Code.Learns.bind
    · exact issues_fetchPricingFeed
    intro feed q₁ hle₁ hheard
    apply Code.Learns.andThen
    · exact issues_reporting (issues_applyLivePricing ((View.actor_eq hle₁).trans hactor) hheard)
        fun _ _ _ => trivial
    intro live q₂ _
    apply Code.Learns.andThen
    · exact issues_note trivial
    intro _ q₃ _
    apply issues_when
    intro _
    apply issues_whenSome
    intro firmId _
    exact issues_auditQuietly
  · intro err q' _
    exact issues_note trivial

theorem issues_curatedOrSkip :
    Issues vendored curatedOrSkip q fun curatedIds _ =>
      ∀ ids, curatedIds = some ids → ids = feedIds vendored := by
  unfold curatedOrSkip
  apply Code.Learns.handle
  · apply Code.Learns.bind
    · exact issues_loadCuratedIds
    · rintro ids q' - rfl
      apply Code.learns_pure
      rintro ids ⟨⟩
      rfl
  · intro err q' _
    apply Code.Learns.andThen
    · exact issues_note trivial
    · intro _ q'' _
      apply Code.learns_pure
      rintro ids ⟨⟩

theorem issues_refreshProviderCatalog {firmId : Option Uuid} {withFeed : Bool}
    (hactor : q.actor = .automation) :
    Issues vendored (refreshProviderCatalog firmId withFeed) q fun _ _ => True := by
  unfold refreshProviderCatalog
  apply Code.Learns.bind
  · exact issues_curatedOrSkip
  intro curatedIds q₁ hle₁ hcurated
  have hactor₁ := (View.actor_eq hle₁).trans hactor
  apply Code.Learns.andThen
  · exact issues_await_op (issues_perform trivial)
  intro linked q₂ hle₂
  have hactor₂ := (View.actor_eq hle₂).trans hactor₁
  apply Code.Learns.andThen
  · exact issues_refreshProviders hactor₂
  intro _ q₃ hle₃
  have hactor₃ := (View.actor_eq hle₃).trans hactor₂
  dsimp only
  apply issues_whenSome
  intro ids hids
  obtain rfl := hcurated ids hids
  apply Code.Learns.andThen
  · exact Code.learns_read fun _ => trivial
  intro report q₄ hle₄
  have hactor₄ := (View.actor_eq hle₄).trans hactor₃
  apply Code.Learns.andThen
  · apply issues_when
    intro _
    exact issues_refreshDocs hactor₄
  · intro _ q₅ hle₅
    apply issues_when
    intro _
    exact issues_refreshLive ((View.actor_eq hle₅).trans hactor₄)

theorem issues_syncVendored {firmId : Option Uuid} (hactor : q.actor = .automation) :
    Issues vendored (syncVendored firmId : Job S DiffReport) q fun _ _ => True := by
  unfold syncVendored
  apply Code.Learns.bind
  · exact issues_loadVendoredFeed
  rintro feed q₁ hle₁ rfl
  apply Code.Learns.andThen
  · exact issues_perform trivial
  intro now q₂ hle₂
  have hactor₂ := (View.actor_eq (hle₁.trans hle₂)).trans hactor
  apply Code.Learns.andThen
  · exact issues_reporting (issues_syncCatalog hactor₂) fun _ _ _ => trivial
  intro report q₃ _
  apply Code.Learns.andThen
  · apply issues_whenSome
    intro firmId _
    exact issues_await_op (issues_perform trivial)
  intro _ q₄ _
  apply Code.Learns.andThen
  · exact issues_await_op (issues_perform trivial)
  · intro _ q₅ _
    exact Code.learns_pure trivial

theorem issues_runCatalogSync {refresh : Option Bool} (hactor : q.actor = .automation) :
    Issues vendored (runCatalogSync refresh : Job S (Option DiffReport)) q fun _ _ => True := by
  unfold runCatalogSync
  apply Code.Learns.andThen
  · exact issues_await_op (issues_perform trivial)
  intro firmId q₁ hle₁
  have hactor₁ := (View.actor_eq hle₁).trans hactor
  apply Code.Learns.andThen
  · apply issues_whenSome
    intro withFeed _
    apply Code.Learns.handle
    · apply Code.Learns.andThen
      · exact issues_reporting (issues_refreshProviderCatalog hactor₁) fun _ _ _ => trivial
      · intro _ q' _
        exact Code.learns_pure trivial
    · intro err q' _
      exact Code.learns_pure trivial
  intro _ q₂ hle₂
  apply Code.Learns.handle
  · apply Code.Learns.andThen
    · exact issues_syncVendored ((View.actor_eq hle₂).trans hactor₁)
    · intro report q' _
      exact Code.learns_pure trivial
  · intro err q' _
    apply Code.Learns.andThen
    · apply issues_whenSome
      intro firmId _
      exact issues_auditQuietly
    · intro _ q'' _
      exact Code.learns_pure trivial

theorem issues_discoverModels {provider : ProviderRow} (hactor : q.actor = .automation) :
    Issues vendored (discoverModels provider : Job S DiscoverResult) q fun _ _ => True := by
  unfold discoverModels
  apply Code.Learns.andThen
  · exact issues_await_op (issues_perform trivial)
  intro apiKey q₁ hle₁
  apply Code.Learns.bind
  · exact issues_loadCuratedIds
  intro curatedIds q₂ hle₂ _
  have hactor₂ := (View.actor_eq (hle₁.trans hle₂)).trans hactor
  apply Code.Learns.andThen
  · exact issues_reporting (issues_discoverProvider hactor₂) fun _ _ _ => trivial
  intro result q₃ _
  apply Code.Learns.andThen
  · apply issues_when
    intro _
    exact issues_await_op (issues_perform trivial)
  · intro _ q₄ _
    exact Code.learns_pure trivial

theorem issues_scrapeDocs {firmId : Uuid} (hactor : q.actor = .automation) :
    Issues vendored (scrapeDocs firmId : Job S ScrapeReport) q fun _ _ => True := by
  unfold scrapeDocs
  apply Code.Learns.bind
  · exact issues_scrapeDoDocs
  intro scraped q₁ hle₁ hheard
  apply Code.Learns.bind
  · exact issues_loadCuratedIds
  rintro curatedIds q₂ hle₂ rfl
  have hactor₂ := (View.actor_eq (hle₁.trans hle₂)).trans hactor
  apply Code.Learns.andThen
  · exact issues_reporting (issues_applyScraped hactor₂ (View.heard_subset hle₂ hheard)
      (List.Subset.refl _)) fun _ _ _ => trivial
  intro report q₃ _
  apply Code.Learns.andThen
  · exact issues_auditQuietly
  · intro _ q₄ _
    exact Code.learns_pure trivial

theorem issues_refreshCatalog {firmId : Uuid} {withFeed : Bool} (hactor : q.actor = .automation) :
    Issues vendored (refreshCatalog firmId withFeed :
      Job S (ProviderRefreshReport × Option DiffReport)) q fun _ _ => True := by
  unfold refreshCatalog
  apply Code.Learns.andThen
  · exact issues_reporting (issues_refreshProviderCatalog hactor) fun _ _ _ => trivial
  intro report q₁ hle₁
  apply Code.Learns.andThen
  · exact issues_runCatalogSync ((View.actor_eq hle₁).trans hactor)
  · intro sync q₂ _
    exact Code.learns_pure trivial

/-! ### Edits -/

theorem issues_accepted {α : Type} {what : String} {r : Except Zod.Issue α} :
    Issues vendored (accepted what r : Job S α) q fun _ _ => True := by
  unfold accepted
  split
  · exact Code.learns_pure trivial
  · exact Code.learns_throw _

theorem issues_insertPricing {modelId : Uuid} {pricing : Option PricingInput}
    (hok : ∀ p now, pricing = some p →
      Justified vendored q (.insertPrice ⟨modelId, now, p.toPricing⟩)) :
    Issues vendored (insertPricing modelId pricing : Job S Unit) q fun _ _ => True := by
  unfold insertPricing
  apply issues_whenSome
  intro p hp
  apply Code.Learns.andThen
  · exact issues_perform trivial
  · intro now q' hle
    exact issues_await_op (issues_perform ((hok p now hp).mono hle))

theorem issues_createCustomModel {input : Option Json} (hactor : q.actor = .operator) :
    Issues vendored (createCustomModel input : Job S Uuid) q fun _ _ => True := by
  unfold createCustomModel
  apply Code.Learns.andThen
  · exact issues_accepted
  intro m q₁ hle₁
  apply Code.Learns.andThen
  · exact issues_await_op (issues_perform trivial)
  intro existing q₂ hle₂
  split
  · exact Code.learns_throw _
  have hinsert : Issues vendored (Job.await (Job.op (.insertModel m.values)) : Job S Uuid) q₂
      fun id q' => id ∈ q'.ids := by
    apply issues_await
    refine issues_op ⟨(View.actor_eq (hle₁.trans hle₂)).trans hactor, rfl⟩ ?_
    rintro r - id rfl
    exact List.mem_append_right _ (List.mem_singleton_self id)
  apply Code.Learns.bind
  · exact hinsert
  intro id q₃ _ hid
  apply Code.Learns.andThen
  · exact issues_insertPricing fun p now _ => Or.inl hid
  · intro _ q₄ _
    exact Code.learns_pure trivial

/-- A row read by its id. -/
theorem issues_findById (id : Uuid) :
    Issues vendored (Job.await (Job.op (.findById id)) : Job S (Option CatalogModel)) q
      fun found q' => ∀ row, found = some row → row ∈ q'.rows ∧ row.id = id := by
  apply issues_await
  refine issues_op ?_ ?_
  · trivial
  rintro r hr found rfl row rfl
  exact ⟨List.mem_append_right _ (List.mem_singleton_self row), hr⟩

omit [Formats] in
/-- An edit of a synced row sets overrides only. -/
theorem keepsBase_of_synced {patch : UpdateModelInput} (h : patch.touchesBase = false) :
    KeepsBase patch.set ∧ patch.pricing = none := by
  unfold UpdateModelInput.touchesBase at h
  simp only [Bool.or_eq_false_iff, Option.isSome_eq_false_iff, Option.isNone_iff_eq_none] at h
  obtain ⟨⟨⟨hname, hcontext⟩, hmax⟩, hpricing⟩ := h
  refine ⟨?_, hpricing⟩
  unfold KeepsBase UpdateModelInput.set
  rw [hname, hcontext, hmax]
  rfl

theorem issues_updateModel {modelId : Uuid} {input : Option Json} (hactor : q.actor = .operator) :
    Issues vendored (updateModel modelId input : Job S CatalogModel) q fun _ _ => True := by
  unfold updateModel
  apply Code.Learns.andThen
  · exact issues_accepted
  intro patch q₁ hle₁
  apply Code.Learns.bind
  · exact issues_findById modelId
  intro model q₂ hle₂ hmodel
  have hactor₂ := (View.actor_eq (hle₁.trans hle₂)).trans hactor
  split
  · exact Code.learns_throw _
  next model =>
  obtain ⟨hrow, hid⟩ := hmodel model rfl
  split
  · exact Code.learns_throw _
  next hnot =>
  have hset : Justified vendored q₂ (.updateModel modelId patch.set) := by
    unfold Justified
    rw [hactor₂]
    by_cases hbase : patch.touchesBase = true
    · exact Or.inr ⟨model, hrow, hid, fun hsynced => hnot ⟨hbase, hsynced⟩⟩
    · exact Or.inl (keepsBase_of_synced (Bool.eq_false_iff.2 hbase)).1
  have hprice : ∀ p now, patch.pricing = some p →
      Justified vendored q₂ (.insertPrice ⟨modelId, now, p.toPricing⟩) := by
    intro p now hp
    unfold Justified
    rw [hactor₂]
    refine Or.inr ⟨model, hrow, hid, fun hsynced => hnot ⟨?_, hsynced⟩⟩
    by_contra hbase
    have hnone := (keepsBase_of_synced (Bool.eq_false_iff.2 hbase)).2
    rw [hp] at hnone
    cases hnone
  apply Code.Learns.andThen
  · apply issues_when
    intro _
    exact issues_await_op (issues_perform hset)
  intro _ q₃ hle₃
  apply Code.Learns.andThen
  · exact issues_insertPricing fun p now hp => (hprice p now hp).mono hle₃
  intro _ q₄ _
  apply Code.Learns.andThen
  · exact issues_await_op (issues_perform trivial)
  intro updated q₅ _
  split
  · exact Code.learns_throw _
  · exact Code.learns_pure trivial

/-- An update of overrides is allowed to operators. -/
theorem justified_overrides {id : Uuid} {caps : Capabilities} (hactor : q.actor = .operator) :
    Justified vendored q (.updateModel id { capabilityOverrides := some caps }) := by
  unfold Justified
  rw [hactor]
  exact Or.inl rfl

theorem issues_setCapabilityOverrides {modelId : Uuid} {overrides : Option Json}
    (hactor : q.actor = .operator) :
    Issues vendored (setCapabilityOverrides modelId overrides : Job S Unit) q fun _ _ => True := by
  unfold setCapabilityOverrides
  split
  · exact Code.learns_throw _
  · exact issues_await_op (issues_perform (justified_overrides hactor))

theorem issues_probeModel {modelId : Uuid} {apply : Bool} {firmId : Uuid}
    (hactor : q.actor = .operator) :
    Issues vendored (probeModel modelId apply firmId : Job S Capabilities) q fun _ _ => True := by
  unfold probeModel
  apply Code.Learns.andThen
  · exact issues_await_op (issues_perform trivial)
  intro model q₁ hle₁
  split
  · exact Code.learns_throw _
  next model =>
  apply Code.Learns.andThen
  · exact issues_await_op (issues_perform trivial)
  intro results q₂ hle₂
  dsimp only
  apply Code.Learns.andThen
  · apply issues_when
    intro _
    exact issues_await_op (issues_perform
      (justified_overrides ((View.actor_eq (hle₁.trans hle₂)).trans hactor)))
  intro _ q₃ _
  apply Code.Learns.andThen
  · exact issues_auditQuietly
  · intro _ q₄ _
    exact Code.learns_pure trivial

theorem issues_retireCustomModel {modelId : Uuid} (hactor : q.actor = .operator) :
    Issues vendored (retireCustomModel modelId : Job S Retired) q fun _ _ => True := by
  unfold retireCustomModel
  apply Code.Learns.bind
  · exact issues_findById modelId
  intro model q₁ hle₁ hmodel
  have hactor₁ := (View.actor_eq hle₁).trans hactor
  split
  · exact Code.learns_throw _
  next model =>
  obtain ⟨hrow, hid⟩ := hmodel model rfl
  split
  · exact Code.learns_throw _
  next hcustom =>
  rw [not_not] at hcustom
  have hsunset : Justified vendored q₁ (.updateModel modelId { status := some .sunset }) := by
    unfold Justified
    rw [hactor₁]
    refine Or.inr ⟨model, hrow, hid, fun hsynced => ?_⟩
    rw [hcustom] at hsynced
    cases hsynced
  have hdelete : Justified vendored q₁ (.deleteModel modelId) :=
    ⟨hactor₁, model, hrow, hid, hcustom⟩
  apply Code.Learns.andThen
  · exact issues_await_op (issues_perform trivial)
  intro referencing q₂ hle₂
  apply Code.Learns.andThen
  · unfold policiesToSearch
    split
    · exact Code.learns_pure trivial
    · exact issues_await_op (issues_perform trivial)
  intro all q₃ hle₃
  dsimp only
  split
  · apply Code.Learns.andThen
    · exact issues_await_op (issues_perform (hsunset.mono (hle₂.trans hle₃)))
    · intro _ q₄ _
      exact Code.learns_pure trivial
  · apply Code.Learns.andThen
    · exact issues_await_op (issues_perform (hdelete.mono (hle₂.trans hle₃)))
    · intro _ q₄ _
      exact Code.learns_pure trivial

end

end Catalog

end VibeRouter
