import VibeRouter.Catalog.Feed
import VibeRouter.Catalog.Probe
import VibeRouter.Db.Admin
import VibeRouter.Lib.Code
import VibeRouter.Lib.Rows

/-! # The tables of the catalog

`models` and `model_pricing` as the jobs of the catalog and its operators write them, with the
policies that bind models.  A statement is atomic.  What is given to a column is a value of the
language; a column that does not take it makes the statement fail, and any statement may fail
otherwise.  The jobs also ask the providers, the files of the feed and the pages of prices. -/

namespace VibeRouter

open Effects

namespace Catalog

/-! ### Rows -/

/-- A row of `models`. -/
structure CatalogModel where
  id : Uuid
  canonicalId : String
  providerKind : ProviderKind
  displayName : String
  contextWindow : ℤ
  maxOutput : Option ℤ
  capabilities : Capabilities
  capabilityOverrides : Capabilities
  status : ModelStatus
  deprecationDate : Option String
  source : ModelSource
  thirdPartyHosted : Bool
  retentionNote : Option String
deriving DecidableEq

/-- The columns a request reads. -/
def CatalogModel.toRow (m : CatalogModel) : ModelRow where
  id := m.id
  canonicalId := m.canonicalId
  providerKind := m.providerKind
  maxOutput := m.maxOutput
  capabilities := m.capabilities
  capabilityOverrides := m.capabilityOverrides
  status := m.status
  thirdPartyHosted := m.thirdPartyHosted

/-- A row of `model_pricing`; rates are millionths of a dollar for each million tokens. -/
structure PriceRow where
  modelId : Uuid
  effectiveFrom : ℕ
  inputPerMtok : Option ℤ
  outputPerMtok : Option ℤ
  cacheReadPerMtok : Option ℤ
  cacheWritePerMtok : Option ℤ
deriving DecidableEq

structure CatalogDb where
  models : List CatalogModel
  modelPricing : List PriceRow
  policies : List PolicyRecord := []

/-! ### Columns -/

/-- What is not part of the program: the nearest double of a number, a number as a text, and the date a
text denotes as the database writes it. -/
class Formats where
  double : ℚ → ℚ
  text : ℚ → JsString
  date : JsString → Option String

/-- Formats without digits or dates. -/
@[reducible] def plainFormats : Formats := ⟨id, fun _ => [], fun _ => none⟩

/-- What a nullable column stores. -/
def optionally {α β : Type} (column : α → Option β) : Option α → Option (Option β)
  | none => some none
  | some a => (column a).map some

/-- `text`. -/
def textColumn (s : JsString) : Option String := if s.contains 0 then none else some (Utf8.text s)

/-- `integer`. -/
def intColumn (x : ℚ) : Option ℤ :=
  if x.den = 1 ∧ -2147483648 ≤ x.num ∧ x.num ≤ 2147483647 then some x.num else none

/-- The digits of an exponent, which are the rest of a text. -/
def exponentOf : JsString → Option ℤ
  | [] => some 0
  | e :: rest =>
      if e = 101 ∨ e = 69 then
        match rest with
        | 45 :: ds => if ds ≠ [] ∧ ds.all JsString.isDigit then some (-(JsString.digitsValue ds : ℤ)) else none
        | 43 :: ds => if ds ≠ [] ∧ ds.all JsString.isDigit then some (JsString.digitsValue ds) else none
        | ds => if ds ≠ [] ∧ ds.all JsString.isDigit then some (JsString.digitsValue ds) else none
      else none

/-- The digits behind the point, and what follows them. -/
def fractionOf : JsString → JsString × JsString
  | 46 :: rest => (rest.takeWhile JsString.isDigit, rest.dropWhile JsString.isDigit)
  | rest => ([], rest)

def unsignedOf (s : JsString) : Option ℚ :=
  let whole := s.takeWhile JsString.isDigit
  let (fraction, rest) := fractionOf (s.dropWhile JsString.isDigit)
  if whole = [] ∧ fraction = [] then none
  else (exponentOf rest).map fun e =>
    (JsString.digitsValue (whole ++ fraction) : ℚ) * 10 ^ (e - (fraction.length : ℤ))

/-- The number a decimal text denotes; `none` is `NaN`, and what the database does not read. -/
def decimalOf : JsString → Option ℚ
  | 45 :: s => (unsignedOf s).map Neg.neg
  | 43 :: s => unsignedOf s
  | s => unsignedOf s

/-- The nearest whole number, the one further from zero of two. -/
def roundHalfAway (x : ℚ) : ℤ := if x < 0 then -(-x + 1 / 2).floor else (x + 1 / 2).floor

/-- The power of ten of the first digit. -/
def magnitude (x : ℚ) : ℤ :=
  let most : ℤ := (Nat.toDigits 10 x.num.natAbs).length - (Nat.toDigits 10 x.den).length
  if 10 ^ most ≤ |x| then most else most - 1

/-- The number that `x.toPrecision(digits)` denotes. -/
def toPrecision (digits : ℕ) (x : ℚ) : ℚ :=
  if x = 0 then 0
  else
    let unit : ℚ := 10 ^ (magnitude x + 1 - digits)
    roundHalfAway (x / unit) * unit

example : toPrecision 3 (1235 / 100000) = 124 / 10000 := by decide +kernel

/-- A price for each million tokens as a text: `String(Number((perToken * 1_000_000).toPrecision(12)))`. -/
def perMtok [Formats] (perToken : ℚ) : JsString :=
  Formats.text (Formats.double (toPrecision 12 (Formats.double (perToken * 1000000))))

/-- `numeric(14, 6)`. -/
def numericColumn (s : JsString) : Option ℤ :=
  (decimalOf s).bind fun x =>
    let millionths := roundHalfAway (x * 1000000)
    if millionths.natAbs < 10 ^ 14 then some millionths else none

/-- A value of the enumeration. -/
def FeedKind.column : FeedKind → Option ProviderKind
  | .kind k => some k
  | .inherited => none

/-! ### Values and statements -/

/-- The columns an insertion into `models` gives. -/
structure ModelValues where
  canonicalId : JsString
  providerKind : FeedKind
  displayName : JsString
  contextWindow : ℚ
  maxOutput : Option ℚ
  capabilities : Capabilities
  deprecationDate : Option JsString := none
  source : ModelSource
  thirdPartyHosted : Bool := false
  retentionNote : Option String := none

/-- The columns of `models` that an update sets. -/
structure ModelSet where
  displayName : Option JsString := none
  contextWindow : Option ℚ := none
  maxOutput : Option (Option ℚ) := none
  capabilities : Option Capabilities := none
  capabilityOverrides : Option Capabilities := none
  deprecationDate : Option (Option JsString) := none
  status : Option ModelStatus := none
deriving DecidableEq

/-- The columns an insertion into `model_pricing` gives. -/
structure PriceValues where
  modelId : Uuid
  effectiveFrom : ℕ
  pricing : Pricing

section
variable [Formats]

/-- The row an insertion adds; a row starts active and without overrides. -/
def ModelValues.toRow (v : ModelValues) (id : Uuid) : Option CatalogModel := do
  let canonicalId ← textColumn v.canonicalId
  let providerKind ← v.providerKind.column
  let displayName ← textColumn v.displayName
  let contextWindow ← intColumn v.contextWindow
  let maxOutput ← optionally intColumn v.maxOutput
  let deprecationDate ← optionally Formats.date v.deprecationDate
  pure
    { id, canonicalId, providerKind, displayName, contextWindow, maxOutput,
      capabilities := v.capabilities, capabilityOverrides := {}, status := .active,
      deprecationDate, source := v.source, thirdPartyHosted := v.thirdPartyHosted,
      retentionNote := v.retentionNote }

/-- What an update makes of a row. -/
def ModelSet.change (set : ModelSet) : Option (CatalogModel → CatalogModel) := do
  let displayName ← optionally textColumn set.displayName
  let contextWindow ← optionally intColumn set.contextWindow
  let maxOutput ← optionally (optionally intColumn) set.maxOutput
  let deprecationDate ← optionally (optionally Formats.date) set.deprecationDate
  pure fun row =>
    { row with
      displayName := displayName.getD row.displayName
      contextWindow := contextWindow.getD row.contextWindow
      maxOutput := maxOutput.getD row.maxOutput
      capabilities := set.capabilities.getD row.capabilities
      capabilityOverrides := set.capabilityOverrides.getD row.capabilityOverrides
      deprecationDate := deprecationDate.getD row.deprecationDate
      status := set.status.getD row.status }

end

def PriceValues.toRow (v : PriceValues) : Option PriceRow := do
  let inputPerMtok ← optionally numericColumn v.pricing.inputPerMtok
  let outputPerMtok ← optionally numericColumn v.pricing.outputPerMtok
  let cacheReadPerMtok ← optionally numericColumn v.pricing.cacheReadPerMtok
  let cacheWritePerMtok ← optionally numericColumn v.pricing.cacheWritePerMtok
  pure
    { modelId := v.modelId, effectiveFrom := v.effectiveFrom, inputPerMtok, outputPerMtok,
      cacheReadPerMtok, cacheWritePerMtok }

/-- A price as the documentation states it: with no rate for writes to the cache. -/
structure ScrapedPricing where
  inputPerMtok : JsString
  outputPerMtok : JsString
  cacheReadPerMtok : Option JsString

/-- A model as the documentation lists it. -/
structure ScrapedModel where
  modelId : String
  contextWindow : Option ℚ
  maxOutput : Option ℚ
  capabilities : Capabilities
  pricing : Option ScrapedPricing

inductive CatalogOp : Type
  | now
  | findModels
  | findModelsBySource (source : ModelSource)
  | findByCanonicalId (canonicalId : JsString)
  | findById (id : Uuid)
  | insertModel (v : ModelValues)
  | insertOrUpdate (v : ModelValues) (set : ModelSet)
  | insertOrNothing (v : ModelValues)
  | updateModel (id : Uuid) (set : ModelSet)
  | tagThirdParty (canonicalId : JsString) (retentionNote : String)
  | deprecateModels (ids : List Uuid)
  | deleteModel (id : Uuid)
  | latestPrice (modelId : Uuid)
  | insertPrice (v : PriceValues)
  | findPolicyByDefault (modelId : Uuid)
  | findPolicies
  | firmIdForAudit
  | findLinkedProviders (firmId : Option Uuid)
  | getApiKey (providerId : Uuid)
  | listServedModelIds (provider : ProviderRow) (apiKey : Option String)
  | listAnthropicModels (provider : ProviderRow) (apiKey : Option String)
  | loadVendoredFeed
  | scrapeDoDocs
  | fetchPricingFeed
  | probe (row : CatalogModel)
  | writeAudit (event : String) (firmId : Uuid)
  | runAlerts

namespace CatalogOp

/-- An insertion answers the id of the row, if there is one.  The alerts read the tables and write to
the audit log. -/
@[reducible] def Answer : CatalogOp → Type
  | now => ℕ
  | findModels => Except Thrown (List CatalogModel)
  | findModelsBySource _ => Except Thrown (List CatalogModel)
  | findByCanonicalId _ => Except Thrown (Option CatalogModel)
  | findById _ => Except Thrown (Option CatalogModel)
  | insertModel _ => Except Thrown Uuid
  | insertOrUpdate _ _ => Except Thrown Uuid
  | insertOrNothing _ => Except Thrown (Option Uuid)
  | updateModel _ _ => Except Thrown Unit
  | tagThirdParty _ _ => Except Thrown Unit
  | deprecateModels _ => Except Thrown Unit
  | deleteModel _ => Except Thrown Unit
  | latestPrice _ => Except Thrown (Option PriceRow)
  | insertPrice _ => Except Thrown Unit
  | findPolicyByDefault _ => Except Thrown (Option PolicyRecord)
  | findPolicies => Except Thrown (List PolicyRecord)
  | firmIdForAudit => Except Thrown (Option Uuid)
  | findLinkedProviders _ => Except Thrown (List ProviderRow)
  | getApiKey _ => Except Thrown (Option String)
  | listServedModelIds _ _ => Except Thrown (List JsString)
  | listAnthropicModels _ _ => Except Thrown (List Json)
  | loadVendoredFeed => Except Thrown Feed
  | scrapeDoDocs => Except Thrown (List ScrapedModel)
  | fetchPricingFeed => Except Thrown Feed
  | probe _ => Except Thrown (List ProbeResult)
  | writeAudit _ _ => Except Thrown Unit
  | runAlerts => Except Thrown Unit

end CatalogOp

namespace CatalogDb

variable (db : CatalogDb)

/-- The row with a canonical id. -/
def findModel (canonicalId : String) : Option CatalogModel :=
  Rows.find CatalogModel.canonicalId canonicalId db.models

def findById (id : Uuid) : Option CatalogModel := Rows.find CatalogModel.id id db.models

def addModel (row : CatalogModel) : CatalogDb := { db with models := db.models ++ [row] }

def addPrice (row : PriceRow) : CatalogDb := { db with modelPricing := db.modelPricing ++ [row] }

def updateById (id : Uuid) (f : CatalogModel → CatalogModel) : CatalogDb :=
  { db with models := Rows.update CatalogModel.id id f db.models }

def updateByCanonicalId (canonicalId : String) (f : CatalogModel → CatalogModel) : CatalogDb :=
  { db with models := Rows.update CatalogModel.canonicalId canonicalId f db.models }

/-- `deprecated`, but for the rows of operators. -/
def deprecateRow (ids : List Uuid) (row : CatalogModel) : CatalogModel :=
  if row.id ∈ ids ∧ row.source ≠ .custom then { row with status := .deprecated } else row

def deprecateModels (ids : List Uuid) : CatalogDb :=
  { db with models := db.models.map (deprecateRow ids) }

/-- The prices of a model go with it. -/
def deleteModel (id : Uuid) : CatalogDb :=
  { db with
    models := db.models.filter fun row => row.id ≠ id
    modelPricing := db.modelPricing.filter fun p => p.modelId ≠ id }

/-- The answers to `findFirst` for the latest price: there is no order among prices effective from
one moment. -/
def LatestPrice (modelId : Uuid) : Option PriceRow → Prop
  | none => ∀ p ∈ db.modelPricing, p.modelId ≠ modelId
  | some row => row ∈ db.modelPricing ∧ row.modelId = modelId ∧
      ∀ p ∈ db.modelPricing, p.modelId = modelId → p.effectiveFrom ≤ row.effectiveFrom

section
variable [Formats]

/-- What an insertion adds. -/
def insertRow (v : ModelValues) (id : Uuid) : CatalogDb :=
  match v.toRow id with
  | some row => db.addModel row
  | none => db

def insertPrice (v : PriceValues) : CatalogDb :=
  match v.toRow with
  | some row => db.addPrice row
  | none => db

def changeRow (id : Uuid) (set : ModelSet) : CatalogDb :=
  match set.change with
  | some f => db.updateById id f
  | none => db

def tagRow (note : String) (row : CatalogModel) : CatalogModel :=
  { row with thirdPartyHosted := true, retentionNote := some note }

/-- The tables after a statement; one that fails changes nothing. -/
def after : (e : CatalogOp) → e.Answer → CatalogDb
  | .insertModel v, .ok id => db.insertRow v id
  | .insertOrUpdate v set, .ok id =>
      if (db.findById id).isSome then db.changeRow id set else db.insertRow v id
  | .insertOrNothing v, .ok (some id) => db.insertRow v id
  | .updateModel id set, .ok () => db.changeRow id set
  | .tagThirdParty canonicalId note, .ok () =>
      db.updateByCanonicalId (Utf8.text canonicalId) (tagRow note)
  | .deprecateModels ids, .ok () => db.deprecateModels ids
  | .deleteModel id, .ok () => db.deleteModel id
  | .insertPrice v, .ok () => db.insertPrice v
  | _, _ => db

/-- The columns take the values of a new row, and its keys are not in use. -/
def Insertable (v : ModelValues) (id : Uuid) : Prop :=
  ∃ row, v.toRow id = some row ∧ db.findById id = none ∧ db.findModel row.canonicalId = none

/-- The columns take the values of a new row, but its canonical id is that of another row. -/
def Conflicts (v : ModelValues) (found : CatalogModel) : Prop :=
  ∃ id row, v.toRow id = some row ∧ db.findModel row.canonicalId = some found

/-- What a statement may answer. -/
def Answers : (e : CatalogOp) → e.Answer → Prop
  | .findModels, .ok rows => rows.Perm db.models
  | .findModelsBySource source, .ok rows => rows.Perm (db.models.filter fun row => row.source = source)
  | .findByCanonicalId canonicalId, .ok found => found = db.findModel (Utf8.text canonicalId)
  | .findById id, .ok found => found = db.findById id
  | .insertModel v, .ok id => db.Insertable v id
  | .insertOrUpdate v set, .ok id => db.Insertable v id ∨
      ∃ found, db.Conflicts v found ∧ found.id = id ∧ set.change ≠ none
  | .insertOrNothing v, .ok (some id) => db.Insertable v id
  | .insertOrNothing v, .ok none => ∃ found, db.Conflicts v found
  | .updateModel _ set, .ok () => set.change ≠ none
  | .deleteModel id, .ok () => ∀ p ∈ db.policies, p.defaultModelId ≠ id
  | .latestPrice modelId, .ok found => db.LatestPrice modelId found
  | .insertPrice v, .ok () => v.toRow ≠ none ∧ (db.findById v.modelId).isSome
  | .findPolicyByDefault modelId, .ok none => ∀ p ∈ db.policies, p.defaultModelId ≠ modelId
  | .findPolicyByDefault modelId, .ok (some p) => p ∈ db.policies ∧ p.defaultModelId = modelId
  | .findPolicies, .ok rows => rows.Perm db.policies
  | _, _ => True

end

/-- The keys of the tables. -/
structure Keyed : Prop where
  ids : (db.models.map CatalogModel.id).Nodup
  canonicalIds : (db.models.map CatalogModel.canonicalId).Nodup

end CatalogDb

/-- Surroundings in which any statement may fail. -/
def surroundings [Formats] : Env CatalogOp CatalogOp.Answer CatalogDb where
  allows db := db.Answers
  next db := db.after

/-- A job of the catalog, which fills in a report. -/
abbrev Job (S α : Type) : Type := Code CatalogOp CatalogOp.Answer S Thrown α

namespace Job

variable {S α : Type}

def op (e : CatalogOp) : Job S e.Answer := Code.perform e

/-- `await` a statement. -/
def await (c : Job S (Except Thrown α)) : Job S α := c >>= Code.ofExcept

/-- Note something in the report. -/
def note (f : S → S) : Job S Unit := Code.write f

/-- `if (b) { c }`. -/
def when (b : Bool) (c : Job S Unit) : Job S Unit := if b then c else pure ()

/-- `if (o) { c(o) }`. -/
def whenSome {β : Type} (o : Option β) (c : β → Job S Unit) : Job S Unit :=
  match o with
  | some b => c b
  | none => pure ()

/-- Run a job that fills in a report of its own, and return the report. -/
def reporting {T : Type} (c : Job T Unit) (report : T) : Job S T :=
  Code.lift ((c report).bind fun r => .ret (r.1.map fun _ => r.2))

end Job

end Catalog

end VibeRouter
