import VibeRouter.Catalog.Store

/-! # The sync of the vendored feed

`syncCatalog` brings the catalog in line with a feed: every entry is created or updated and its
price appended when it differs from the latest one, and synced models the feed no longer has are
flagged.  An entry that fails is reported and the next one is tried. -/

namespace VibeRouter

open Effects

namespace Catalog

variable [Formats]

/-! ### Prices -/

/-- `Number(a) === Number(b)`, or both are `null`: a stored price and the text of another. -/
def numEq (a : Option ℤ) (b : Option JsString) : Bool :=
  match a, b with
  | none, none => true
  | some millionths, some text => match decimalOf text with
    | some x => Formats.double (millionths / 1000000) = Formats.double x
    | none => false
  | _, _ => false

/-- Some price of an entry is not the stored one. -/
def pricesDiffer (latest : PriceRow) (p : Pricing) : Bool :=
  !numEq latest.inputPerMtok p.inputPerMtok || !numEq latest.outputPerMtok p.outputPerMtok ||
    !numEq latest.cacheReadPerMtok p.cacheReadPerMtok ||
    !numEq latest.cacheWritePerMtok p.cacheWritePerMtok

def hasAnyPrice (p : Pricing) : Bool :=
  p.inputPerMtok.isSome || p.outputPerMtok.isSome || p.cacheReadPerMtok.isSome ||
    p.cacheWritePerMtok.isSome

/-- Whether a row was appended. -/
def appendPricingIfChanged {S : Type} (modelId : Uuid) (p : Pricing) (now : ℕ) : Job S Bool := do
  let latest ← Job.await (Job.op (.latestPrice modelId))
  let differs := latest.all fun row => pricesDiffer row p
  if !differs || !hasAnyPrice p then pure false
  else do
    Job.await (Job.op (.insertPrice ⟨modelId, now, p⟩))
    pure true

/-! ### One entry -/

structure DiffReport where
  added : List JsString := []
  updated : List JsString := []
  pricingChanged : List JsString := []
  deprecated : List JsString := []
  skipped : List JsString := []
  unchanged : ℕ := 0
deriving DecidableEq

abbrev Sync (α : Type) : Type := Job DiffReport α

/-- What an entry adds when no row has its id. -/
def SyncedModel.values (entry : SyncedModel) (contextWindow : ℚ) : ModelValues where
  canonicalId := entry.canonicalId
  providerKind := entry.providerKind
  displayName := entry.displayName
  contextWindow := contextWindow
  maxOutput := entry.maxOutput
  capabilities := entry.capabilities
  deprecationDate := entry.deprecationDate
  source := .synced

/-- An entry without a context window leaves the base specs alone. -/
def nextContext (entry : SyncedModel) (current : CatalogModel) : ℚ :=
  entry.contextWindow.getD current.contextWindow

def nextMaxOutput (entry : SyncedModel) (current : CatalogModel) : Option ℚ :=
  if entry.contextWindow = none then current.maxOutput.map Int.cast else entry.maxOutput

/-- A row is not what its entry says. -/
def changed (entry : SyncedModel) (current : CatalogModel) : Bool :=
  (current.contextWindow : ℚ) ≠ nextContext entry current ||
    current.maxOutput.map (Int.cast : ℤ → ℚ) ≠ nextMaxOutput entry current ||
    current.capabilities ≠ entry.capabilities ||
    current.deprecationDate.map js ≠ entry.deprecationDate ||
    current.status == .deprecated

/-- Overrides are not touched. -/
def SyncedModel.set (entry : SyncedModel) (current : CatalogModel) : ModelSet where
  contextWindow := some (nextContext entry current)
  maxOutput := some (nextMaxOutput entry current)
  capabilities := some entry.capabilities
  deprecationDate := some entry.deprecationDate
  status := some .active

/-- The price of an entry, and what is counted when nothing of it has changed. -/
def syncPrice (entry : SyncedModel) (known : Bool) (modelId : Uuid) (now : ℕ) : Sync Unit := do
  let appended ← appendPricingIfChanged modelId entry.pricing now
  if appended then
    Job.note fun r => { r with pricingChanged := r.pricingChanged ++ [entry.canonicalId] }
  else Job.note fun r =>
    if known && !r.updated.contains entry.canonicalId && !r.added.contains entry.canonicalId then
      { r with unchanged := r.unchanged + 1 }
    else r

def syncOneModel (entry : SyncedModel) (current : Option CatalogModel) (now : ℕ) : Sync Unit :=
  match current with
  | some row =>
      if row.source = .custom then
        Job.note fun r => { r with unchanged := r.unchanged + 1 }
      else if changed entry row then do
        Job.await (Job.op (.updateModel row.id (entry.set row)))
        Job.note fun r => { r with updated := r.updated ++ [entry.canonicalId] }
        syncPrice entry true row.id now
      else syncPrice entry true row.id now
  | none => match entry.contextWindow with
    | none => Job.note fun r =>
        { r with skipped := r.skipped ++ [entry.canonicalId ++
            js " (enrich-only: no context window published; awaiting discovery)"] }
    | some contextWindow => do
        -- the feed may carry one model under two keys
        let id ← Job.await (Job.op (.insertOrUpdate (entry.values contextWindow)
          { contextWindow := some contextWindow, maxOutput := some entry.maxOutput }))
        Job.note fun r => { r with added := r.added ++ [entry.canonicalId] }
        syncPrice entry false id now

/-! ### The sync -/

/-- `err instanceof Error ? err.message : 'error'`. -/
def messageOf : Thrown → String
  | .router e => e.message
  | .error message => message
  | .other => "error"

/-- The loop: an entry that fails is reported. -/
def syncEntries (byCanonical : JsMap JsString CatalogModel) (now : ℕ) : List SyncedModel → Sync Unit
  | [] => pure ()
  | entry :: rest => do
      (syncOneModel entry (byCanonical.get entry.canonicalId) now).handle fun err =>
        Job.note fun r => { r with
          skipped := r.skipped ++ [entry.canonicalId ++ js (" (" ++ messageOf err ++ ")")] }
      syncEntries byCanonical now rest

/-- Synced models that the feed no longer has. -/
def vanished (existing : List CatalogModel) (feedIds : List JsString) : List CatalogModel :=
  existing.filter fun m => m.source == .synced && m.status == .active &&
    !feedIds.contains (js m.canonicalId)

/-- The report is what the sync leaves in its object. -/
def syncCatalog (feed : Feed) (now : ℕ) : Sync Unit := do
  let parsed := parseFeed perMtok feed
  Job.note fun r => { r with skipped := parsed.2 }
  let existing ← Job.await (Job.op .findModels)
  let byCanonical := JsMap.ofList (existing.map fun m => (js m.canonicalId, m))
  syncEntries byCanonical now parsed.1
  let gone := vanished existing (parsed.1.map SyncedModel.canonicalId)
  if gone.isEmpty then pure ()
  else do
    Job.await (Job.op (.deprecateModels (gone.map CatalogModel.id)))
    Job.note fun r => { r with
      deprecated := r.deprecated ++ gone.map fun m => js m.canonicalId }

end Catalog

end VibeRouter
