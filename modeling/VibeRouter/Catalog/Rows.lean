import VibeRouter.Catalog.Store

/-! # What a statement does to the rows

A statement changes the rows that are there (`effect`), adds at most one and deletes at most one; no
statement changes a key.  The prices of a model are a list that grows at its end until the model is
deleted. -/

namespace VibeRouter

open Effects

namespace Catalog

/-! ### Updates -/

/-- The columns that tell who a row is for, and the tag. -/
def CatalogModel.tag (m : CatalogModel) : Bool × Option String := (m.thirdPartyHosted, m.retentionNote)

/-- What an update makes of a row. -/
structure Changes (set : ModelSet) (row row' : CatalogModel) : Prop where
  id : row'.id = row.id
  canonicalId : row'.canonicalId = row.canonicalId
  providerKind : row'.providerKind = row.providerKind
  source : row'.source = row.source
  tag : row'.tag = row.tag
  displayName : set.displayName = none → row'.displayName = row.displayName
  contextWindow : set.contextWindow = none → row'.contextWindow = row.contextWindow
  maxOutput : set.maxOutput = none → row'.maxOutput = row.maxOutput
  capabilities : row'.capabilities = set.capabilities.getD row.capabilities
  capabilityOverrides : row'.capabilityOverrides = set.capabilityOverrides.getD row.capabilityOverrides
  deprecationDate : set.deprecationDate = none → row'.deprecationDate = row.deprecationDate
  status : row'.status = set.status.getD row.status

theorem optionally_none {α β : Type} {column : α → Option β} {b : Option β}
    (h : optionally column none = some b) : b = none := (Option.some.inj h).symm

theorem intColumn_eq {x : ℚ} {n : ℤ} (h : intColumn x = some n) : (n : ℚ) = x := by
  unfold intColumn at h
  split at h
  · next hint =>
      cases h
      exact (Rat.den_eq_one_iff x).1 hint.1
  · cases h

theorem optionally_some {α β : Type} {column : α → Option β} {a : α} {b : Option β}
    (h : optionally column (some a) = some b) : ∃ c, column a = some c ∧ b = some c := by
  obtain ⟨c, hc, hb⟩ := Option.map_eq_some_iff.1 h
  exact ⟨c, hc, hb.symm⟩

/-- An integer column stores the number itself. -/
theorem intColumn_cast {x : Option ℚ} {n : Option ℤ} (h : optionally intColumn x = some n) :
    n.map (Int.cast : ℤ → ℚ) = x := by
  cases x with
  | none =>
      rw [optionally_none h]
      rfl
  | some x =>
      obtain ⟨c, hc, rfl⟩ := optionally_some h
      exact congrArg some (intColumn_eq hc)

section
variable [Formats]

theorem changes_of_change {set : ModelSet} {f : CatalogModel → CatalogModel}
    (h : set.change = some f) (row : CatalogModel) : Changes set row (f row) := by
  unfold ModelSet.change at h
  obtain ⟨displayName, hname, h⟩ := Option.bind_eq_some_iff.1 h
  obtain ⟨contextWindow, hcontext, h⟩ := Option.bind_eq_some_iff.1 h
  obtain ⟨maxOutput, hmax, h⟩ := Option.bind_eq_some_iff.1 h
  obtain ⟨deprecationDate, hdate, h⟩ := Option.bind_eq_some_iff.1 h
  cases Option.some.inj h
  refine ⟨rfl, rfl, rfl, rfl, rfl, ?_, ?_, ?_, rfl, rfl, ?_, rfl⟩
  · intro hnone
    rw [hnone] at hname
    rw [optionally_none hname]
    rfl
  · intro hnone
    rw [hnone] at hcontext
    rw [optionally_none hcontext]
    rfl
  · intro hnone
    rw [hnone] at hmax
    rw [optionally_none hmax]
    rfl
  · intro hnone
    rw [hnone] at hdate
    rw [optionally_none hdate]
    rfl

/-- Nothing changes where the columns do not take the values. -/
def ModelSet.apply (set : ModelSet) (row : CatalogModel) : CatalogModel :=
  match set.change with
  | some f => f row
  | none => row

theorem ModelSet.apply_id (set : ModelSet) (row : CatalogModel) : (set.apply row).id = row.id := by
  unfold ModelSet.apply
  split
  · next f h => exact (changes_of_change h row).id
  · rfl

theorem ModelSet.apply_canonicalId (set : ModelSet) (row : CatalogModel) :
    (set.apply row).canonicalId = row.canonicalId := by
  unfold ModelSet.apply
  split
  · next f h => exact (changes_of_change h row).canonicalId
  · rfl

theorem ModelSet.apply_overrides {set : ModelSet} (h : set.capabilityOverrides = none)
    (row : CatalogModel) : (set.apply row).capabilityOverrides = row.capabilityOverrides := by
  unfold ModelSet.apply
  split
  · next f hf =>
      rw [(changes_of_change hf row).capabilityOverrides, h]
      rfl
  · rfl

/-! ### Statements -/

/-- What a statement makes of a row that stays. -/
def effect : (e : CatalogOp) → e.Answer → CatalogModel → CatalogModel
  | .insertOrUpdate _ set, .ok id, row => if row.id = id then set.apply row else row
  | .updateModel id set, .ok (), row => if row.id = id then set.apply row else row
  | .tagThirdParty canonicalId note, .ok (), row =>
      if row.canonicalId = Utf8.text canonicalId then CatalogDb.tagRow note row else row
  | .deprecateModels ids, .ok (), row => CatalogDb.deprecateRow ids row
  | _, _, row => row

/-- No statement changes the id of a row. -/
theorem effect_id (e : CatalogOp) (r : e.Answer) (row : CatalogModel) : (effect e r row).id = row.id := by
  unfold effect
  split
  · split
    · exact ModelSet.apply_id _ _
    · rfl
  · split
    · exact ModelSet.apply_id _ _
    · rfl
  · split <;> rfl
  · unfold CatalogDb.deprecateRow
    split <;> rfl
  · rfl

/-- The ids whose rows a statement deletes. -/
def deleted : (e : CatalogOp) → e.Answer → List Uuid
  | .deleteModel id, .ok () => [id]
  | _, _ => []

/-- The ids whose rows an insertion has added or updated. -/
def upserted : (e : CatalogOp) → e.Answer → List Uuid
  | .insertOrUpdate _ _, .ok id => [id]
  | _, _ => []

omit [Formats] in
theorem deprecateRow_eq (ids : List Uuid) (row : CatalogModel) :
    CatalogDb.deprecateRow ids row = row ∨
      (row.id ∈ ids ∧ row.source ≠ .custom ∧
        CatalogDb.deprecateRow ids row = { row with status := .deprecated }) := by
  unfold CatalogDb.deprecateRow
  split
  · next h => exact Or.inr ⟨h.1, h.2, rfl⟩
  · exact Or.inl rfl

namespace CatalogDb

variable {db : CatalogDb} {row : CatalogModel}

theorem models_changeRow (db : CatalogDb) (id : Uuid) (set : ModelSet) :
    (db.changeRow id set).models = db.models.map fun row => if row.id = id then set.apply row else row := by
  unfold changeRow ModelSet.apply
  cases set.change with
  | some f => rfl
  | none => simp

omit [Formats] in
theorem models_insertPrice (db : CatalogDb) (v : PriceValues) :
    (db.insertPrice v).models = db.models := by
  unfold insertPrice
  cases v.toRow <;> rfl

omit [Formats] in
theorem modelPricing_insertPrice (db : CatalogDb) (v : PriceValues) :
    (db.insertPrice v).modelPricing = db.modelPricing ++ v.toRow.toList := by
  unfold insertPrice
  cases v.toRow with
  | some p => rfl
  | none => exact (List.append_nil _).symm

/-- An insertion adds a row with its id, or nothing. -/
theorem models_insertRow (db : CatalogDb) (v : ModelValues) (id : Uuid) :
    (db.insertRow v id).models = db.models ++ (v.toRow id).toList := by
  unfold insertRow
  cases v.toRow id with
  | some row => rfl
  | none => exact (List.append_nil _).symm

theorem toRow_id {v : ModelValues} {id : Uuid} (h : v.toRow id = some row) : row.id = id := by
  unfold ModelValues.toRow at h
  obtain ⟨canonicalId, -, h⟩ := Option.bind_eq_some_iff.1 h
  obtain ⟨providerKind, -, h⟩ := Option.bind_eq_some_iff.1 h
  obtain ⟨displayName, -, h⟩ := Option.bind_eq_some_iff.1 h
  obtain ⟨contextWindow, -, h⟩ := Option.bind_eq_some_iff.1 h
  obtain ⟨maxOutput, -, h⟩ := Option.bind_eq_some_iff.1 h
  obtain ⟨deprecationDate, -, h⟩ := Option.bind_eq_some_iff.1 h
  cases Option.some.inj h
  rfl

/-- The row an insertion would add is not there yet. -/
theorem Insertable.ne_id {v : ModelValues} {id : Uuid} (h : db.Insertable v id)
    (hrow : row ∈ db.models) : row.id ≠ id := by
  obtain ⟨_, _, hnone, _⟩ := h
  exact Rows.find_eq_none_iff.1 hnone row hrow

theorem toRow_canonicalId {v : ModelValues} {id : Uuid} (h : v.toRow id = some row) :
    row.canonicalId = Utf8.text v.canonicalId := by
  unfold ModelValues.toRow at h
  obtain ⟨canonicalId, hcolumn, h⟩ := Option.bind_eq_some_iff.1 h
  obtain ⟨providerKind, -, h⟩ := Option.bind_eq_some_iff.1 h
  obtain ⟨displayName, -, h⟩ := Option.bind_eq_some_iff.1 h
  obtain ⟨contextWindow, -, h⟩ := Option.bind_eq_some_iff.1 h
  obtain ⟨maxOutput, -, h⟩ := Option.bind_eq_some_iff.1 h
  obtain ⟨deprecationDate, -, h⟩ := Option.bind_eq_some_iff.1 h
  cases Option.some.inj h
  unfold textColumn at hcolumn
  split at hcolumn
  · cases hcolumn
  · exact (Option.some.inj hcolumn).symm

/-- A row in conflict has the canonical id that was to be added. -/
theorem Conflicts.found {v : ModelValues} (h : db.Conflicts v row) :
    row ∈ db.models ∧ row.canonicalId = Utf8.text v.canonicalId := by
  obtain ⟨id, new, hnew, hfound⟩ := h
  obtain ⟨hmem, hid⟩ := Rows.mem_of_find hfound
  exact ⟨hmem, hid.trans (toRow_canonicalId hnew)⟩

/-- A row that is not deleted stays, as the statement makes it. -/
theorem mem_after {e : CatalogOp} {r : e.Answer} (hrow : row ∈ db.models)
    (hkeep : row.id ∉ deleted e r) :
    effect e r row ∈ (db.after e r).models := by
  cases e with
  | insertModel v =>
      cases r with
      | error err => exact hrow
      | ok id =>
          show row ∈ (db.insertRow v id).models
          rw [models_insertRow]
          exact List.mem_append_left _ hrow
  | insertOrUpdate v set =>
      cases r with
      | error err => exact hrow
      | ok id =>
          show (if row.id = id then set.apply row else row) ∈
            (if (db.findById id).isSome then db.changeRow id set else db.insertRow v id).models
          split
          · rw [models_changeRow]
            exact List.mem_map_of_mem hrow
          · next hnone =>
              rw [Option.not_isSome_iff_eq_none] at hnone
              rw [if_neg (Rows.find_eq_none_iff.1 hnone row hrow), models_insertRow]
              exact List.mem_append_left _ hrow
  | insertOrNothing v =>
      cases r with
      | error err => exact hrow
      | ok found =>
          cases found with
          | none => exact hrow
          | some id =>
              show row ∈ (db.insertRow v id).models
              rw [models_insertRow]
              exact List.mem_append_left _ hrow
  | updateModel id set =>
      cases r with
      | error err => exact hrow
      | ok u =>
          show (if row.id = id then set.apply row else row) ∈ (db.changeRow id set).models
          rw [models_changeRow]
          exact List.mem_map_of_mem hrow
  | tagThirdParty canonicalId note =>
      cases r with
      | error err => exact hrow
      | ok u => exact List.mem_map_of_mem hrow
  | deprecateModels ids =>
      cases r with
      | error err => exact hrow
      | ok u => exact List.mem_map_of_mem hrow
  | deleteModel id =>
      cases r with
      | error err => exact hrow
      | ok u =>
          show row ∈ db.models.filter fun row => row.id ≠ id
          exact List.mem_filter.2 ⟨hrow, by simpa using List.ne_of_not_mem_cons hkeep⟩
  | insertPrice v =>
      cases r with
      | error err => exact hrow
      | ok u =>
          show row ∈ (db.insertPrice v).models
          rw [models_insertPrice]
          exact hrow
  | _ => exact hrow

/-! ### Keys -/

omit [Formats] in
theorem Keyed.map {f : CatalogModel → CatalogModel} (h : db.Keyed) (hid : ∀ row, (f row).id = row.id)
    (hcanonical : ∀ row, (f row).canonicalId = row.canonicalId) :
    Keyed { db with models := db.models.map f } := by
  constructor
  · show ((db.models.map f).map CatalogModel.id).Nodup
    rw [List.map_map]
    exact (List.map_congr_left fun row _ => hid row) ▸ h.ids
  · show ((db.models.map f).map CatalogModel.canonicalId).Nodup
    rw [List.map_map]
    exact (List.map_congr_left fun row _ => hcanonical row) ▸ h.canonicalIds

theorem Keyed.changeRow (h : db.Keyed) (id : Uuid) (set : ModelSet) : (db.changeRow id set).Keyed := by
  have hmap := h.map (f := fun row => if row.id = id then set.apply row else row)
    (fun row => by
      split
      · exact set.apply_id row
      · rfl)
    (fun row => by
      split
      · exact set.apply_canonicalId row
      · rfl)
  constructor
  · rw [models_changeRow]
    exact hmap.ids
  · rw [models_changeRow]
    exact hmap.canonicalIds

theorem Keyed.insertRow {v : ModelValues} {id : Uuid} (h : db.Keyed) (hnew : db.Insertable v id) :
    (db.insertRow v id).Keyed := by
  obtain ⟨row, hrow, hid, hcanonical⟩ := hnew
  have hrowId := toRow_id hrow
  constructor
  · rw [models_insertRow, hrow]
    apply Rows.nodup_append h.ids
    intro other hother
    rw [hrowId]
    exact Rows.find_eq_none_iff.1 hid other hother
  · rw [models_insertRow, hrow]
    exact Rows.nodup_append h.canonicalIds (Rows.find_eq_none_iff.1 hcanonical)

/-- The tables keep their keys. -/
theorem Keyed.after {e : CatalogOp} {r : e.Answer} (h : db.Keyed) (hans : db.Answers e r) :
    (db.after e r).Keyed := by
  cases e with
  | insertModel v =>
      cases r with
      | error err => exact h
      | ok id => exact h.insertRow hans
  | insertOrUpdate v set =>
      cases r with
      | error err => exact h
      | ok id =>
          show Keyed (if (db.findById id).isSome then db.changeRow id set else db.insertRow v id)
          split
          · exact h.changeRow id set
          · next hnone =>
              rw [Option.not_isSome_iff_eq_none] at hnone
              rcases hans with hnew | ⟨found, hfound, hid, -⟩
              · exact h.insertRow hnew
              · exact absurd hid (Rows.find_eq_none_iff.1 hnone found hfound.found.1)
  | insertOrNothing v =>
      cases r with
      | error err => exact h
      | ok found =>
          cases found with
          | none => exact h
          | some id => exact h.insertRow hans
  | updateModel id set =>
      cases r with
      | error err => exact h
      | ok u => exact h.changeRow id set
  | tagThirdParty canonicalId note =>
      cases r with
      | error err => exact h
      | ok u =>
          refine h.map (fun row => ?_) (fun row => ?_)
          · split <;> rfl
          · split <;> rfl
  | deprecateModels ids =>
      cases r with
      | error err => exact h
      | ok u =>
          refine h.map (fun row => ?_) (fun row => ?_)
          · unfold deprecateRow
            split <;> rfl
          · unfold deprecateRow
            split <;> rfl
  | deleteModel id =>
      cases r with
      | error err => exact h
      | ok u =>
          constructor
          · exact h.ids.sublist ((List.filter_sublist).map _)
          · exact h.canonicalIds.sublist ((List.filter_sublist).map _)
  | insertPrice v =>
      cases r with
      | error err => exact h
      | ok u =>
          constructor
          · show ((db.insertPrice v).models.map CatalogModel.id).Nodup
            rw [models_insertPrice]
            exact h.ids
          · show ((db.insertPrice v).models.map CatalogModel.canonicalId).Nodup
            rw [models_insertPrice]
            exact h.canonicalIds
  | _ => exact h

/-! ### Prices -/

/-- The prices of a model, in the order in which they were appended. -/
def pricesOf (db : CatalogDb) (id : Uuid) : List PriceRow :=
  db.modelPricing.filter fun p => p.modelId = id

/-- What a statement appends to the prices of a model. -/
def appended : (e : CatalogOp) → e.Answer → Uuid → List PriceRow
  | .insertPrice v, .ok (), id => if v.modelId = id then v.toRow.toList else []
  | _, _, _ => []

omit [Formats] in
theorem priceRow_modelId {v : PriceValues} {p : PriceRow} (h : v.toRow = some p) :
    p.modelId = v.modelId := by
  unfold PriceValues.toRow at h
  obtain ⟨input, -, h⟩ := Option.bind_eq_some_iff.1 h
  obtain ⟨output, -, h⟩ := Option.bind_eq_some_iff.1 h
  obtain ⟨read, -, h⟩ := Option.bind_eq_some_iff.1 h
  obtain ⟨write, -, h⟩ := Option.bind_eq_some_iff.1 h
  cases Option.some.inj h
  rfl

theorem pricesOf_after {e : CatalogOp} {r : e.Answer} {id : Uuid}
    (hkeep : id ∉ deleted e r) :
    (db.after e r).pricesOf id = db.pricesOf id ++ appended e r id := by
  have hsame : ∀ db' : CatalogDb, db'.modelPricing = db.modelPricing →
      db'.pricesOf id = db.pricesOf id ++ [] := by
    intro db' h
    rw [List.append_nil]
    unfold pricesOf
    rw [h]
  have hchange : ∀ id' set, (db.changeRow id' set).modelPricing = db.modelPricing := by
    intro id' set
    unfold changeRow
    split <;> rfl
  have hinsert : ∀ v id', (db.insertRow v id').modelPricing = db.modelPricing := by
    intro v id'
    unfold insertRow
    split <;> rfl
  cases e with
  | insertModel v =>
      cases r with
      | error err => exact hsame db rfl
      | ok id' => exact hsame _ (hinsert v id')
  | insertOrUpdate v set =>
      cases r with
      | error err => exact hsame db rfl
      | ok id' =>
          apply hsame (if (db.findById id').isSome then db.changeRow id' set else db.insertRow v id')
          split
          · exact hchange id' set
          · exact hinsert v id'
  | insertOrNothing v =>
      cases r with
      | error err => exact hsame db rfl
      | ok found =>
          cases found with
          | none => exact hsame db rfl
          | some id' => exact hsame _ (hinsert v id')
  | updateModel id' set =>
      cases r with
      | error err => exact hsame db rfl
      | ok u => exact hsame _ (hchange id' set)
  | deleteModel id' =>
      cases r with
      | error err => exact hsame db rfl
      | ok u =>
          have hne := List.ne_of_not_mem_cons hkeep
          show (db.modelPricing.filter fun p => p.modelId ≠ id').filter (fun p => p.modelId = id) = _
          rw [List.filter_filter]
          show _ = db.pricesOf id ++ []
          rw [List.append_nil]
          apply List.filter_congr
          intro p _
          by_cases hp : p.modelId = id
          · simp [hp, hne]
          · simp [hp]
  | insertPrice v =>
      cases r with
      | error err => exact hsame db rfl
      | ok u =>
          show pricesOf (db.insertPrice v) id =
            db.pricesOf id ++ if v.modelId = id then v.toRow.toList else []
          unfold pricesOf
          rw [modelPricing_insertPrice, List.filter_append]
          cases hp : v.toRow with
          | none => simp
          | some p =>
              have hmodel := priceRow_modelId hp
              by_cases hid : v.modelId = id
              · simp [hmodel, hid]
              · simp [hmodel, hid]
  | tagThirdParty canonicalId note => cases r <;> exact hsame _ rfl
  | deprecateModels ids => cases r <;> exact hsame _ rfl
  | _ => exact hsame db rfl

end CatalogDb

end

/-- The latest price of a model is one of its prices. -/
theorem latestPrice_congr {db db' : CatalogDb} {id : Uuid} (h : db'.pricesOf id = db.pricesOf id)
    (latest : Option PriceRow) : db'.LatestPrice id latest ↔ db.LatestPrice id latest := by
  have hmem : ∀ p, p ∈ db'.modelPricing ∧ p.modelId = id ↔ p ∈ db.modelPricing ∧ p.modelId = id := by
    intro p
    have hiff : p ∈ db'.pricesOf id ↔ p ∈ db.pricesOf id := by rw [h]
    unfold CatalogDb.pricesOf at hiff
    simpa [List.mem_filter] using hiff
  cases latest with
  | none =>
      constructor
      · intro hnone p hp hid
        exact hnone p ((hmem p).2 ⟨hp, hid⟩).1 hid
      · intro hnone p hp hid
        exact hnone p ((hmem p).1 ⟨hp, hid⟩).1 hid
  | some row =>
      constructor
      · rintro ⟨hrow, hid, hmost⟩
        refine ⟨((hmem row).1 ⟨hrow, hid⟩).1, hid, fun p hp hpid => ?_⟩
        exact hmost p ((hmem p).2 ⟨hp, hpid⟩).1 hpid
      · rintro ⟨hrow, hid, hmost⟩
        refine ⟨((hmem row).2 ⟨hrow, hid⟩).1, hid, fun p hp hpid => ?_⟩
        exact hmost p ((hmem p).1 ⟨hp, hpid⟩).1 hpid

end Catalog

end VibeRouter
