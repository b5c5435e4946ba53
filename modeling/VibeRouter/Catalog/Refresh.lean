import VibeRouter.Catalog.Discovery

/-! # The refresh of the catalog

Discovered models get their prices from the documentation of DigitalOcean or from the live feed of
prices, and never one whose id the vendored feed has.  A refresh runs the discovery of every linked
provider and then the two sources of prices; the nightly sync runs a refresh and then the sync of the
vendored feed.  A step that fails is reported and does not stop the ones behind it. -/

namespace VibeRouter

open Effects

namespace Catalog

variable [Formats]

/-! ### The documentation -/

structure ScrapeReport where
  scraped : ℕ
  matched : ℕ := 0
  capabilitiesUpdated : List JsString := []
  specsUpdated : List JsString := []
  pricingChanged : List JsString := []
  skippedCurated : List JsString := []
  unmatched : ℕ := 0
deriving DecidableEq

abbrev Scrape (α : Type) : Type := Job ScrapeReport α

def ScrapedPricing.toPricing (p : ScrapedPricing) : Pricing where
  inputPerMtok := some p.inputPerMtok
  outputPerMtok := some p.outputPerMtok
  cacheReadPerMtok := p.cacheReadPerMtok
  cacheWritePerMtok := none

/-- The latest price is not the one of the documentation; writes to the cache are not compared. -/
def scrapedDiffers (latest : PriceRow) (p : ScrapedPricing) : Bool :=
  !numEq latest.inputPerMtok (some p.inputPerMtok) ||
    !numEq latest.outputPerMtok (some p.outputPerMtok) ||
    !numEq latest.cacheReadPerMtok p.cacheReadPerMtok

/-- Capabilities and specs of a row that discovery has added. -/
def applySpecs (entry : ScrapedModel) (canonicalId : JsString) (row : CatalogModel) : Scrape Unit :=
  let set := fillPlaceholders row entry.contextWindow entry.maxOutput entry.capabilities
  Job.when (set ≠ {}) do
    Job.await (Job.op (.updateModel row.id set))
    Job.note fun r => { r with
      capabilitiesUpdated :=
        if set.capabilities.isSome then r.capabilitiesUpdated ++ [canonicalId]
        else r.capabilitiesUpdated
      specsUpdated :=
        if set.contextWindow.isSome || set.maxOutput.isSome then r.specsUpdated ++ [canonicalId]
        else r.specsUpdated }

def applyPrice (p : ScrapedPricing) (canonicalId : JsString) (row : CatalogModel) : Scrape Unit := do
  let latest ← Job.await (Job.op (.latestPrice row.id))
  Job.when (latest.all fun l => scrapedDiffers l p) do
    let now ← Job.op .now
    Job.await (Job.op (.insertPrice ⟨row.id, now, p.toPricing⟩))
    Job.note fun r => { r with pricingChanged := r.pricingChanged ++ [canonicalId] }

def applyScrapedOne (curatedIds : Option (List JsString)) (entry : ScrapedModel) : Scrape Unit := do
  let canonicalId := js ("digitalocean/" ++ entry.modelId)
  let found ← Job.await (Job.op (.findByCanonicalId canonicalId))
  match found with
  | none => Job.note fun r => { r with unmatched := r.unmatched + 1 }
  | some row => do
      Job.note fun r => { r with matched := r.matched + 1 }
      if row.source ≠ .provider ∨ (curatedIds.any fun ids => ids.contains canonicalId) then
        Job.note fun r => { r with skippedCurated := r.skippedCurated ++ [canonicalId] }
      else do
        applySpecs entry canonicalId row
        Job.whenSome entry.pricing fun p => applyPrice p canonicalId row

/-- The loop. -/
def applyScrapedToCatalog (curatedIds : Option (List JsString)) : List ScrapedModel → Scrape Unit
  | [] => pure ()
  | entry :: rest => do
      applyScrapedOne curatedIds entry
      applyScrapedToCatalog curatedIds rest

/-! ### The live feed of prices -/

structure LivePricingReport where
  candidates : ℕ := 0
  matched : ℕ := 0
  pricingChanged : List JsString := []
  specsUpdated : List JsString := []
deriving DecidableEq

abbrev Live (α : Type) : Type := Job LivePricingReport α

/-- Both of the main rates are published, and no rate is negative or not a number. -/
def usablePrice (p : Pricing) : Bool :=
  p.inputPerMtok.isSome && p.outputPerMtok.isSome &&
    [p.inputPerMtok, p.outputPerMtok, p.cacheReadPerMtok, p.cacheWritePerMtok].all fun v =>
      v.all fun text => (decimalOf text).any fun x => 0 ≤ x

/-- A discovered row and its entry in the feed. -/
def priceLive (entry : SyncedModel) (row : CatalogModel) (now : ℕ) : Live Unit := do
  let set := fillPlaceholders row entry.contextWindow entry.maxOutput {}
  Job.when (set ≠ {}) do
    Job.await (Job.op (.updateModel row.id set))
    Job.note fun r => { r with specsUpdated := r.specsUpdated ++ [js row.canonicalId] }
  Job.when (usablePrice entry.pricing) do
    let appended ← appendPricingIfChanged row.id entry.pricing now
    Job.when appended
      (Job.note fun r => { r with pricingChanged := r.pricingChanged ++ [js row.canonicalId] })

/-- The body of the loop. -/
def priceRow (byId : JsMap JsString SyncedModel) (curatedIds : List JsString) (now : ℕ)
    (row : CatalogModel) : Live Unit :=
  Job.when (!curatedIds.contains (js row.canonicalId)) do
    Job.note fun r => { r with candidates := r.candidates + 1 }
    Job.whenSome (byId.get (js row.canonicalId)) fun entry =>
      Job.when (entry.providerKind = .kind row.providerKind) do
        Job.note fun r => { r with matched := r.matched + 1 }
        priceLive entry row now

def priceRows (byId : JsMap JsString SyncedModel) (curatedIds : List JsString) (now : ℕ) :
    List CatalogModel → Live Unit
  | [] => pure ()
  | row :: rest => do
      priceRow byId curatedIds now row
      priceRows byId curatedIds now rest

def applyLivePricing (feed : Feed) (curatedIds : List JsString) : Live Unit := do
  let entries := (parseFeed perMtok feed).1
  let byId := JsMap.ofList (entries.map fun e => (e.canonicalId, e))
  let now ← Job.op .now
  let rows ← Job.await (Job.op (.findModelsBySource .provider))
  priceRows byId curatedIds now rows

/-! ### A refresh -/

structure ProviderRefreshReport where
  providers : List DiscoverResult := []
  failed : List (String × JsString) := []
  doDocs : Option ScrapeReport := none
  livePricing : Option LivePricingReport := none
  pricingErrors : List JsString := []
  reachedKinds : List ProviderKind := []
deriving DecidableEq

abbrev Refresh (α : Type) : Type := Job ProviderRefreshReport α

/-- `(err instanceof Error ? err.message : 'unknown error').slice(0, 200)`. -/
def reasonOf (err : Thrown) : JsString :=
  (js (match err with
    | .router e => e.message
    | .error message => message
    | .other => "unknown error")).take 200

/-- The canonical ids that the vendored feed carries. -/
def feedIds (feed : Feed) : List JsString :=
  (parseFeed perMtok feed).1.map SyncedModel.canonicalId

/-- `writeAudit(…).catch(() => {})`. -/
def auditQuietly {S : Type} (event : String) (firmId : Uuid) : Job S Unit := do
  let _ ← Job.op (.writeAudit event firmId)
  pure ()

/-- What is known of the vendored feed when its files can be read. -/
def loadCuratedIds {S : Type} : Job S (List JsString) := do
  let feed ← Job.await (Job.op .loadVendoredFeed)
  pure (feedIds feed)

def refreshProvider (curatedIds : Option (List JsString)) (provider : ProviderRow) : Refresh Unit :=
  let body : Refresh Unit := do
    let apiKey ← Job.await (Job.op (.getApiKey provider.id))
    let result ← Job.reporting (discoverProviderModels provider apiKey curatedIds) {}
    Job.note fun r => { r with
      providers := r.providers ++ [result], reachedKinds := r.reachedKinds ++ [provider.kind] }
    Job.when (result.discovered ≠ []) (auditQuietly "provider_models_discovered" provider.firmId)
  body.handle fun err =>
    Job.note fun r => { r with failed := r.failed ++ [(provider.label, reasonOf err)] }

def refreshProviders (curatedIds : Option (List JsString)) : List ProviderRow → Refresh Unit
  | [] => pure ()
  | provider :: rest => do
      refreshProvider curatedIds provider
      refreshProviders curatedIds rest

def refreshDocs (curatedIds : List JsString) (auditFirmId : Option Uuid) : Refresh Unit :=
  let body : Refresh Unit := do
    let scraped ← Job.await (Job.op .scrapeDoDocs)
    let docs ← Job.reporting (applyScrapedToCatalog (some curatedIds) scraped)
      { scraped := scraped.length }
    Job.note fun r => { r with doDocs := some docs }
    let changed := docs.capabilitiesUpdated ≠ [] ∨ docs.specsUpdated ≠ [] ∨ docs.pricingChanged ≠ []
    Job.when changed (Job.whenSome auditFirmId (auditQuietly "catalog_docs_scraped"))
  body.handle fun err =>
    Job.note fun r => { r with
      pricingErrors := r.pricingErrors ++ [js "DigitalOcean docs: " ++ reasonOf err] }

def refreshLive (curatedIds : List JsString) (auditFirmId : Option Uuid) : Refresh Unit :=
  let body : Refresh Unit := do
    let feed ← Job.await (Job.op .fetchPricingFeed)
    let live ← Job.reporting (applyLivePricing feed curatedIds) {}
    Job.note fun r => { r with livePricing := some live }
    Job.when (live.pricingChanged ≠ [] ∨ live.specsUpdated ≠ [])
      (Job.whenSome auditFirmId (auditQuietly "catalog_live_pricing_applied"))
  body.handle fun err =>
    Job.note fun r => { r with
      pricingErrors := r.pricingErrors ++ [js "pricing feed: " ++ reasonOf err] }

/-- The ids, or the note that the prices are left out. -/
def curatedOrSkip : Refresh (Option (List JsString)) :=
  let body : Refresh (Option (List JsString)) := do
    let ids ← loadCuratedIds
    pure (some ids)
  body.handle fun err => do
    Job.note fun r => { r with
      pricingErrors := r.pricingErrors ++
        [js "vendored feed unreadable; pricing refresh skipped (" ++ reasonOf err ++ js ")"] }
    pure none

/-- The models of every linked provider, and their prices; `withFeed` when the live feed has an
address. -/
def refreshProviderCatalog (firmId : Option Uuid) (withFeed : Bool) : Refresh Unit := do
  let curatedIds ← curatedOrSkip
  let linked ← Job.await (Job.op (.findLinkedProviders firmId))
  refreshProviders curatedIds linked
  let auditFirmId := firmId.or (linked.head?.map ProviderRow.firmId)
  Job.whenSome curatedIds fun ids => do
    let report ← Code.read
    Job.when (report.reachedKinds.contains .digitalocean) (refreshDocs ids auditFirmId)
    Job.when (report.reachedKinds.contains .anthropic && withFeed) (refreshLive ids auditFirmId)

/-! ### The nightly sync -/

/-- The vendored feed, the audit of its sync and the alerts. -/
def syncVendored {S : Type} (firmId : Option Uuid) : Job S DiffReport := do
  let feed ← Job.await (Job.op .loadVendoredFeed)
  let now ← Job.op .now
  let report ← Job.reporting (syncCatalog feed now) {}
  Job.whenSome firmId fun firmId =>
    Job.await (Job.op (.writeAudit "catalog_sync_completed" firmId))
  Job.await (Job.op .runAlerts)
  pure report

/-- `refresh` tells whether there is a resolver of keys, and whether the live feed has an address. -/
def runCatalogSync {S : Type} (refresh : Option Bool) : Job S (Option DiffReport) := do
  let firmId ← Job.await (Job.op .firmIdForAudit)
  Job.whenSome refresh fun withFeed =>
    (do let _ ← Job.reporting (refreshProviderCatalog none withFeed) {}).handle fun _ => pure ()
  (do let report ← syncVendored firmId
      pure (some report)).handle fun _ => do
    Job.whenSome firmId (auditQuietly "catalog_sync_failed")
    pure none

/-! ### Routes -/

/-- The route that discovers the models of a provider; the refresh that it sets off is a sync of its
own. -/
def discoverModels {S : Type} (provider : ProviderRow) : Job S DiscoverResult := do
  let apiKey ← Job.await (Job.op (.getApiKey provider.id))
  let curatedIds ← loadCuratedIds
  let result ← Job.reporting (discoverProviderModels provider apiKey (some curatedIds)) {}
  Job.when (result.discovered ≠ [])
    (Job.await (Job.op (.writeAudit "provider_models_discovered" provider.firmId)))
  pure result

/-- The route that reads the documentation. -/
def scrapeDocs {S : Type} (firmId : Uuid) : Job S ScrapeReport := do
  let scraped ← Job.await (Job.op .scrapeDoDocs)
  let curatedIds ← loadCuratedIds
  let report ← Job.reporting (applyScrapedToCatalog (some curatedIds) scraped)
    { scraped := scraped.length }
  auditQuietly "catalog_docs_scraped" firmId
  pure report

/-- The route that refreshes the catalog for a firm and then syncs the vendored feed. -/
def refreshCatalog {S : Type} (firmId : Uuid) (withFeed : Bool) :
    Job S (ProviderRefreshReport × Option DiffReport) := do
  let report ← Job.reporting (refreshProviderCatalog (some firmId) withFeed) {}
  let sync ← runCatalogSync none
  pure (report, sync)

end Catalog

end VibeRouter
