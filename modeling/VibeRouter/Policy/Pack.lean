import VibeRouter.Policy.Import

/-! # The default policy pack

`DEFAULT_PACK` lists the task classes of the applications that are known; `applyDefaultPack`
creates those that are missing and gives each one without a policy of the firm a default model,
chosen by `pickDefaultModel` for the entry of the pack. -/

namespace VibeRouter

open Effects Admin

/-! ### The entries -/

structure PackEntry extends ClassContract where
  key : String
  app : String
  description : String
  defaultMaxTokens : ℤ

/-- An entry that requires the capabilities `caps`. -/
def packEntry (key app description : String) (sensitivity : Sensitivity)
    (caps : List CapabilityKey) (defaultMaxTokens : ℤ) : PackEntry where
  sensitivity
  requires := .obj (caps.map fun cap => (js cap.text, .bool true))
  key
  app
  description
  defaultMaxTokens

def DEFAULT_PACK : List PackEntry :=
  [ packEntry "tb_classification" "vibe-tb" "Trial-balance account classification"
      .local_only [.json_schema] 2048,
    packEntry "tb_doc_extract" "vibe-tb" "Source-document field extraction"
      .cloud_deidentified [.json_schema, .vision] 4096,
    packEntry "tb_research_summary" "vibe-tb" "Public-guidance research summarization"
      .cloud_allowed [] 8192,
    packEntry "v1099_payee_match" "vibe-1099" "Vendor/payee record matching + dedupe assistance"
      .local_only [.json_schema] 2048,
    packEntry "v1099_w9_extract" "vibe-1099" "W-9 field extraction"
      .local_only [.json_schema, .vision] 2048,
    packEntry "v1099_correspondence" "vibe-1099" "Recipient correspondence drafting"
      .cloud_deidentified [] 2048,
    packEntry "mybooks_txn_categorize" "vibe-mybooks" "Bank transaction categorization"
      .local_only [.json_schema] 2048,
    packEntry "mybooks_receipt_extract" "vibe-mybooks" "Receipt/invoice OCR field extraction"
      .cloud_deidentified [.json_schema, .vision] 4096,
    packEntry "mybooks_bill_extract" "vibe-mybooks" "Vendor bill / invoice field extraction"
      .local_only [.json_schema, .vision] 4096,
    packEntry "mybooks_doc_classify" "vibe-mybooks" "Uploaded-document type classification"
      .local_only [.json_schema, .vision] 1024,
    packEntry "mybooks_statement_extract" "vibe-mybooks" "Bank-statement / check field extraction"
      .local_only [.json_schema, .vision] 32768,
    packEntry "mybooks_vendor_enrich" "vibe-mybooks" "Merchant / vendor enrichment"
      .local_only [.json_schema] 1024,
    packEntry "mybooks_chat" "vibe-mybooks" "Bookkeeping assistant / support chat"
      .local_only [] 2048,
    packEntry "mybooks_report_narrative" "vibe-mybooks" "Client-facing report narration"
      .local_only [] 1024,
    packEntry "payroll_anomaly_review" "vibe-payroll-time"
      "Payroll run anomaly detection narrative"
      .local_only [.json_schema] 4096,
    packEntry "taxresearch_chat" "vibe-tax-research"
      "Interactive tax research chat over public authority"
      .cloud_allowed [.tools] 8192,
    packEntry "taxresearch_memo_draft" "vibe-tax-research"
      "Client memo drafting from research threads"
      .cloud_deidentified [] 8192,
    packEntry "connect_doc_summarize" "vibe-connect" "Client-uploaded document summarization"
      .local_only [] 4096,
    packEntry "txconv_statement_parse" "vibe-tx-converter"
      "Bank statement structure detection assistance"
      .local_only [.json_schema] 32768,
    packEntry "tb_invoice_narrative" "vibe-time-billing" "Invoice line narrative polish"
      .cloud_deidentified [] 1024,
    packEntry "timebill_practice_analytics" "vibe-time-billing"
      "Practice analytics narratives + NL query (realization, pricing, capacity, anomalies)"
      .local_only [] 600,
    packEntry "timebill_support_chat" "vibe-time-billing"
      "KB-grounded staff/portal support chat + report parameter parsing"
      .local_only [] 1024,
    packEntry "timebill_file_naming" "vibe-time-billing"
      "Filename proposal from an uploaded document’s first pages (firm naming pattern)"
      .cloud_deidentified [.vision, .json_schema] 300 ]

/-- `DEFAULT_PACK.find((p) => p.key === key)`. -/
def findPackEntry (key : String) : Option PackEntry := DEFAULT_PACK.find? fun p => p.key = key

theorem findPackEntry_some {key : String} {entry : PackEntry} (h : findPackEntry key = some entry) :
    entry ∈ DEFAULT_PACK ∧ entry.key = key :=
  ⟨List.mem_of_find?_eq_some h, by simpa using List.find?_some h⟩

/-! ### The default model -/

/-- `Array.prototype.sort`.  A comparator that contradicts itself may leave any order. -/
structure ArraySort where
  sort : (ModelRecord → ModelRecord → ℤ) → List ModelRecord → List ModelRecord
  perm : ∀ compare rows, (sort compare rows).Perm rows

/-- Operator-registered models first, then the larger context window. -/
def compareModels (a b : ModelRecord) : ℤ :=
  if a.source ≠ b.source then if a.source = .custom then -1 else 1
  else (b.contextWindow : ℤ) - a.contextWindow

/-- The models that may be bound for a class without being asked for. -/
def capableModel (entry : ClassContract) (availableKinds : List ProviderKind) (m : ModelRecord) :
    Bool :=
  if m.status ≠ .active then false
  else if m.providerKind ∉ availableKinds then false
  else if m.thirdPartyHosted then false
  else
    let caps := effectiveCapabilities m.toModelRow
    if entry.wants .tools ∧ !caps .tools then false
    else if entry.wants .json_schema ∧ !caps .json_schema then false
    else if entry.wants .vision ∧ !caps .vision then false
    else true

/-- `capable`, of the local tier only if the entry is `local_only`. -/
def modelPool (entries : List ModelRecord) (entry : ClassContract)
    (availableKinds : List ProviderKind) : List ModelRecord :=
  let capable := entries.filter (capableModel entry availableKinds)
  if entry.sensitivity = .local_only then capable.filter fun m => isLocalKind m.providerKind
  else capable

def pickDefaultModel (array : ArraySort) (entries : List ModelRecord) (entry : ClassContract)
    (availableKinds : List ProviderKind) : Option ModelRecord :=
  let pool := modelPool entries entry availableKinds
  let locals := pool.filter fun m => isLocalKind m.providerKind
  let pick := fun list => (array.sort compareModels list).head?
  (pick locals).or (pick pool)

/-! ### Applying the pack -/

structure ApplyPackResult where
  classesCreated : ℕ := 0
  policiesCreated : ℕ := 0
  unresolved : List String := []

/-- The provider kinds a firm has configured. -/
def configuredKinds (providers : List ProviderRow) (firmId : Uuid) : List ProviderKind :=
  (providers.filter fun p => p.firmId = firmId ∧ p.deletedAt = none).map fun p => p.kind

/-- The values of a policy that binds one model. -/
def packPolicy (model : ModelRecord) : PolicyValues where
  defaultModelId := model.id
  allowedModelIds := [model.id]
  fallbackChain := []
  maxTokensOverride := none
  temperatureMin := none
  temperatureMax := none
  monthlyBudgetCents := none
  enabled := true
  acknowledgedModels := []
  acknowledgedAt := none

/-- The id of the class of an entry, and whether it was created. -/
def packClass (entry : PackEntry) : Admin (Uuid × Bool) := do
  match ← op (.findTaskClass entry.key) with
  | some tc => pure (tc.id, false)
  | none => do
      let id ← op (.insertTaskClass entry.toClassContract entry.key entry.app entry.description
        entry.defaultMaxTokens (some "default-pack"))
      pure (id, true)

/-- One pass of the loop of `applyDefaultPack`. -/
def applyPackEntry (array : ArraySort) (firmId : Uuid) (allModels : List ModelRecord)
    (availableKinds : List ProviderKind) (result : ApplyPackResult) (entry : PackEntry) :
    Admin ApplyPackResult := do
  let (id, created) ← packClass entry
  let result := { result with classesCreated := result.classesCreated + created.toNat }
  match ← op (.findPolicy firmId id) with
  | some _ => pure result
  | none =>
      match pickDefaultModel array allModels entry.toClassContract availableKinds with
      | none => pure { result with unresolved := result.unresolved ++ [entry.key] }
      | some model => do
          let _ ← op (.insertPolicy firmId id (packPolicy model))
          pure { result with policiesCreated := result.policiesCreated + 1 }

def applyPackEntries (array : ArraySort) (firmId : Uuid) (allModels : List ModelRecord)
    (availableKinds : List ProviderKind) :
    ApplyPackResult → List PackEntry → Admin ApplyPackResult
  | result, [] => pure result
  | result, entry :: entries => do
      let result ← applyPackEntry array firmId allModels availableKinds result entry
      applyPackEntries array firmId allModels availableKinds result entries

/-- `applyDefaultPack`; `providers` are the rows of that table. -/
def applyDefaultPack (array : ArraySort) (providers : List ProviderRow) (firmId : Uuid) :
    Admin ApplyPackResult := do
  let allModels ← op .allModels
  applyPackEntries array firmId allModels (configuredKinds providers firmId) {} DEFAULT_PACK

end VibeRouter
