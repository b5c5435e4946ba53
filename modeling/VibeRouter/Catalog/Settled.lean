import VibeRouter.Catalog.Rows
import VibeRouter.Catalog.Sync

/-! # What a sync leaves of a feed

An entry of a feed is settled where a sync has nothing to write for it: its row says what the entry
says, and whatever is found to be its latest price is the entry's.  Where statements fail only when a
column does not take a value, a sync deals with every entry in tables that say of it what they said at
the start (`Dealt`, `wp_syncCatalog`).  It leaves the entry settled if and only if that was `Stable`
(`Handled.settled`, `Handled.stable`): what the columns take of it comes back out of them as it went
in, and the price that is appended becomes the latest. -/

namespace VibeRouter

open Effects

namespace Catalog

section

variable [Formats]

/-! ### What is settled -/

/-- The row that the listing of a sync has under an id. -/
def CatalogDb.listed (db : CatalogDb) (canonicalId : JsString) : Option CatalogModel :=
  Rows.find (fun m => js m.canonicalId) canonicalId db.models

/-- Every price is of a model that is there. -/
def CatalogDb.Linked (db : CatalogDb) : Prop := ∀ p ∈ db.modelPricing, ∃ row ∈ db.models, row.id = p.modelId

/-- No row is added for an entry: its context window is not published, or a column does not take a
value. -/
def Inert (entry : SyncedModel) : Prop :=
  ∀ c, entry.contextWindow = some c → ∀ id, (entry.values c).toRow id = none

/-- The id of an entry is a text. -/
def Textual (entry : SyncedModel) : Prop := ∃ t, entry.canonicalId = js t

/-- The date of an entry comes back out of its column as it went in. -/
def DateKept (entry : SyncedModel) : Prop :=
  ∀ t d, entry.deprecationDate = some t → Formats.date t = some d → js d = t

/-- No column takes a price. -/
def Refused (p : Pricing) : Prop := ∀ id now, (⟨id, now, p⟩ : PriceValues).toRow = none

/-- A price comes back out of its columns as it went in. -/
def RatesKept (p : Pricing) : Prop :=
  ∀ id now row, (⟨id, now, p⟩ : PriceValues).toRow = some row → pricesDiffer row p = false

/-- The latest price of a model is the one of its entry. -/
def current (p : Pricing) (latest : Option PriceRow) : Bool := latest.any fun row => !pricesDiffer row p

/-- Whatever is found to be the latest price of a model, no other is appended. -/
def PriceSettled (db : CatalogDb) (id : Uuid) (p : Pricing) : Prop :=
  hasAnyPrice p = false ∨ Refused p ∨ ∀ latest, db.LatestPrice id latest → current p latest = true

/-- A sync of the entry writes nothing: no row is there or added, or the row is an operator's or cannot
be changed, or it is as the entry says. -/
def Settled (db : CatalogDb) (entry : SyncedModel) : Prop :=
  match db.listed entry.canonicalId with
  | none => Inert entry
  | some row => row.source = .custom ∨ (changed entry row = true ∧ (entry.set row).change = none) ∨
      (changed entry row = false ∧ PriceSettled db row.id entry.pricing)

/-- The price of an entry is settled, or it comes back as it goes in and becomes the latest, whatever is
found to be the latest before it. -/
def PriceStable (db : CatalogDb) (now : ℕ) (id : Uuid) (p : Pricing) : Prop :=
  PriceSettled db id p ∨ (RatesKept p ∧ ∀ latest, db.LatestPrice id latest →
    current p latest = false ∧ ∀ row ∈ latest, row.effectiveFrom < now)

/-- What a sync at `now` writes for the entry, it has not to write again. -/
def Stable (db : CatalogDb) (now : ℕ) (entry : SyncedModel) : Prop :=
  match db.listed entry.canonicalId with
  | none => Inert entry ∨ (Textual entry ∧ DateKept entry ∧ RatesKept entry.pricing)
  | some row => row.source = .custom ∨ (changed entry row = true ∧ (entry.set row).change = none) ∨
      ((changed entry row = true → DateKept entry) ∧ PriceStable db now row.id entry.pricing)

/-- A statement fails only when a column does not take a value. -/
def Reliable (db : CatalogDb) : (e : CatalogOp) → e.Answer → Prop
  | .findModels, .error _ => False
  | .latestPrice _, .error _ => False
  | .deprecateModels _, .error _ => False
  | .updateModel _ set, .error _ => set.change = none
  | .insertOrUpdate v set, .error _ => set.change = none ∨ ∀ id, v.toRow id = none
  | .insertPrice v, .error _ => v.toRow = none ∨ db.findById v.modelId = none
  | _, _ => True

def reliably : Env CatalogOp CatalogOp.Answer CatalogDb where
  allows db e r := db.Answers e r ∧ Reliable db e r
  next db := db.after

/-- Of the prices that may be found to be the latest, one that `L` names is. -/
def Chosen (L : CatalogDb → Uuid → Option PriceRow → Prop) (db : CatalogDb) :
    (e : CatalogOp) → e.Answer → Prop
  | .latestPrice id, .ok latest => L db id latest
  | _, _ => True

def reading (L : CatalogDb → Uuid → Option PriceRow → Prop) : Env CatalogOp CatalogOp.Answer CatalogDb where
  allows db e r := reliably.allows db e r ∧ Chosen L db e r
  next db := db.after

/-! ### Columns -/

/-- The date column stores the text itself if and only if the date is kept. -/
theorem dateColumn_js {entry : SyncedModel} {d : Option String}
    (h : optionally Formats.date entry.deprecationDate = some d) :
    d.map js = entry.deprecationDate ↔ DateKept entry := by
  unfold DateKept
  cases hdate : entry.deprecationDate with
  | none =>
      rw [hdate] at h
      rw [optionally_none h]
      exact iff_of_true rfl fun _ _ ht => nomatch ht
  | some t =>
      rw [hdate] at h
      obtain ⟨c, hc, rfl⟩ := optionally_some h
      constructor
      · intro hjs t' d' ht' hd'
        cases ht'
        rw [hc] at hd'
        cases hd'
        exact Option.some.inj hjs
      · intro hkept
        exact congrArg some (hkept t c rfl hc)

omit [Formats] in
/-- The columns that an entry gives a row are those it gives it the next time. -/
theorem next_of_columns {entry : SyncedModel} {row row' : CatalogModel}
    (hcontext : (row'.contextWindow : ℚ) = nextContext entry row)
    (hmax : row'.maxOutput.map (Int.cast : ℤ → ℚ) = nextMaxOutput entry row) :
    nextContext entry row' = nextContext entry row ∧
      nextMaxOutput entry row' = nextMaxOutput entry row := by
  constructor
  · rw [← hcontext]
    unfold nextContext at hcontext ⊢
    cases hc : entry.contextWindow with
    | none => rfl
    | some c =>
        rw [hc] at hcontext
        exact hcontext.symm
  · rw [← hmax]
    unfold nextMaxOutput at hmax ⊢
    split
    · rfl
    · next hne =>
      rw [if_neg hne] at hmax
      exact hmax.symm

/-- A row whose columns are the entry's is as the entry says if and only if its date is the entry's. -/
theorem changed_of_columns {entry : SyncedModel} {row row' : CatalogModel} {d : Option String}
    (hcontext : (row'.contextWindow : ℚ) = nextContext entry row)
    (hmax : row'.maxOutput.map (Int.cast : ℤ → ℚ) = nextMaxOutput entry row)
    (hcaps : row'.capabilities = entry.capabilities)
    (hdate : optionally Formats.date entry.deprecationDate = some d) (hd : row'.deprecationDate = d)
    (hstatus : row'.status = .active) :
    (changed entry row' = false ↔ DateKept entry) ∧ entry.set row' = entry.set row := by
  obtain ⟨hnext, hnextMax⟩ := next_of_columns hcontext hmax
  constructor
  · rw [← dateColumn_js hdate, ← hd]
    unfold changed
    rw [hnext, hnextMax, ← hcontext, ← hmax, hcaps, hstatus]
    simp
  · unfold SyncedModel.set
    rw [hnext, hnextMax]

/-- The row that an update of an entry leaves is as the entry says if and only if the date is kept, and
another update of it would be taken too. -/
theorem changed_of_set {entry : SyncedModel} {row : CatalogModel} {f : CatalogModel → CatalogModel}
    (h : (entry.set row).change = some f) :
    (changed entry (f row) = false ↔ DateKept entry) ∧ (entry.set (f row)).change = some f := by
  have hchange := h
  unfold ModelSet.change at h
  obtain ⟨displayName, hname, h⟩ := Option.bind_eq_some_iff.1 h
  obtain ⟨contextWindow, hcontext, h⟩ := Option.bind_eq_some_iff.1 h
  obtain ⟨maxOutput, hmax, h⟩ := Option.bind_eq_some_iff.1 h
  obtain ⟨deprecationDate, hdate, h⟩ := Option.bind_eq_some_iff.1 h
  obtain ⟨n, hn, rfl⟩ := optionally_some hcontext
  obtain ⟨o, ho, rfl⟩ := optionally_some hmax
  obtain ⟨d, hd, rfl⟩ := optionally_some hdate
  have hf := Option.some.inj h
  have hcolumns : (changed entry (f row) = false ↔ DateKept entry) ∧ entry.set (f row) = entry.set row := by
    rw [← hf]
    exact changed_of_columns (intColumn_eq hn) (intColumn_cast ho) rfl hd rfl rfl
  exact ⟨hcolumns.1, hcolumns.2 ▸ hchange⟩

/-- The row that an insertion of an entry adds is as the entry says if and only if the date is kept, and
an update of it would be taken. -/
theorem changed_of_values {entry : SyncedModel} {c : ℚ} (hc : entry.contextWindow = some c) {id : Uuid}
    {row : CatalogModel} (h : (entry.values c).toRow id = some row) :
    (changed entry row = false ↔ DateKept entry) ∧ (entry.set row).change ≠ none ∧
      row.source = .synced := by
  unfold ModelValues.toRow at h
  obtain ⟨canonicalId, -, h⟩ := Option.bind_eq_some_iff.1 h
  obtain ⟨providerKind, -, h⟩ := Option.bind_eq_some_iff.1 h
  obtain ⟨displayName, -, h⟩ := Option.bind_eq_some_iff.1 h
  obtain ⟨contextWindow, hcontext, h⟩ := Option.bind_eq_some_iff.1 h
  obtain ⟨maxOutput, hmax, h⟩ := Option.bind_eq_some_iff.1 h
  obtain ⟨deprecationDate, hdate, h⟩ := Option.bind_eq_some_iff.1 h
  have hrow := Option.some.inj h
  have hnext : nextContext entry row = c := by
    unfold nextContext
    rw [hc]
    rfl
  have hnextMax : nextMaxOutput entry row = entry.maxOutput := if_neg (by rw [hc]; exact Option.some_ne_none c)
  have hcolumns : (changed entry row = false ↔ DateKept entry) ∧ entry.set row = entry.set row := by
    refine changed_of_columns (d := deprecationDate) ?_ ?_ (by rw [← hrow]; rfl) hdate (by rw [← hrow])
      (by rw [← hrow])
    · rw [hnext, ← hrow]
      exact intColumn_eq hcontext
    · rw [hnextMax, ← hrow]
      exact intColumn_cast hmax
  refine ⟨hcolumns.1, ?_, by rw [← hrow]; rfl⟩
  have hname : optionally textColumn none = some none := rfl
  have hcontext : optionally intColumn (some c) = some (some contextWindow) :=
    congrArg (Option.map some) hcontext
  have hmax : optionally (optionally intColumn) (some entry.maxOutput) = some (some maxOutput) :=
    congrArg (Option.map some) hmax
  have hdate : optionally (optionally Formats.date) (some entry.deprecationDate) =
      some (some deprecationDate) := congrArg (Option.map some) hdate
  unfold ModelSet.change SyncedModel.set
  rw [hnext, hnextMax]
  simp [hname, hcontext, hmax, hdate]

/-! ### Prices -/

variable {db db' db'' : CatalogDb} {id : Uuid} {p : Pricing} {now : ℕ}

omit [Formats] in
/-- The rates that are stored do not depend on the model or the moment. -/
theorem toRow_rates {row : PriceRow} (h : (⟨id, now, p⟩ : PriceValues).toRow = some row) (id' : Uuid)
    (now' : ℕ) : (⟨id', now', p⟩ : PriceValues).toRow =
      some { row with modelId := id', effectiveFrom := now' } := by
  unfold PriceValues.toRow at h ⊢
  obtain ⟨input, hinput, h⟩ := Option.bind_eq_some_iff.1 h
  obtain ⟨output, houtput, h⟩ := Option.bind_eq_some_iff.1 h
  obtain ⟨read, hread, h⟩ := Option.bind_eq_some_iff.1 h
  obtain ⟨write, hwrite, h⟩ := Option.bind_eq_some_iff.1 h
  cases Option.some.inj h
  simp [hinput, houtput, hread, hwrite]

omit [Formats] in
theorem effectiveFrom_of_toRow {row : PriceRow} (h : (⟨id, now, p⟩ : PriceValues).toRow = some row) :
    row.effectiveFrom = now := by
  have heq := (toRow_rates h id now).symm.trans h
  exact (congrArg PriceRow.effectiveFrom (Option.some.inj heq)).symm

omit [Formats] in
theorem refused_of_none (h : (⟨id, now, p⟩ : PriceValues).toRow = none) : Refused p := by
  intro id' now'
  by_contra hsome
  obtain ⟨row, hrow⟩ := Option.ne_none_iff_exists'.1 hsome
  rw [toRow_rates hrow id now] at h
  cases h

/-- One stored price that is the price of the entry tells of all. -/
theorem ratesKept_of_stored {row : PriceRow} (h : (⟨id, now, p⟩ : PriceValues).toRow = some row)
    (hsame : pricesDiffer row p = false) : RatesKept p := by
  intro id' now' row' hrow'
  rw [toRow_rates h id' now'] at hrow'
  cases hrow'
  exact hsame

theorem ratesKept_of_noPrice (h : hasAnyPrice p = false) : RatesKept p := by
  intro id now row hrow
  unfold hasAnyPrice at h
  simp only [Bool.or_eq_false_iff, Option.isSome_eq_false_iff, Option.isNone_iff_eq_none] at h
  obtain ⟨⟨⟨hinput, houtput⟩, hread⟩, hwrite⟩ := h
  unfold PriceValues.toRow at hrow
  rw [hinput, houtput, hread, hwrite] at hrow
  cases hrow
  unfold pricesDiffer
  rw [hinput, houtput, hread, hwrite]
  rfl

omit [Formats] in
/-- A price behind all others of its model is the latest. -/
theorem latestPrice_addPrice {db : CatalogDb} {p : PriceRow} {latest : Option PriceRow}
    (hearlier : ∀ p' ∈ db.modelPricing, p'.modelId = p.modelId → p'.effectiveFrom < p.effectiveFrom)
    (h : (db.addPrice p).LatestPrice p.modelId latest) : latest = some p := by
  have hp : p ∈ (db.addPrice p).modelPricing := List.mem_append_right _ (List.mem_singleton_self p)
  cases latest with
  | none => exact absurd rfl (h p hp)
  | some row =>
      obtain ⟨hrow, hid, hmost⟩ := h
      rcases List.mem_append.1 hrow with hrow | hrow
      · have hless := hearlier row hrow hid
        have hle := hmost p hp rfl
        omega
      · rw [List.mem_singleton.1 hrow]

/-- What appending a price, if it is not the latest one, makes of the tables. -/
inductive Priced (L : CatalogDb → Uuid → Option PriceRow → Prop) (db : CatalogDb) (id : Uuid) (p : Pricing)
    (now : ℕ) : CatalogDb → Prop
  | kept {latest : Option PriceRow} : db.LatestPrice id latest → L db id latest →
      hasAnyPrice p = false ∨ Refused p ∨ current p latest = true → Priced L db id p now db
  | appended {latest : Option PriceRow} {row : PriceRow} : db.LatestPrice id latest → L db id latest →
      current p latest = false → hasAnyPrice p = true →
      (⟨id, now, p⟩ : PriceValues).toRow = some row → Priced L db id p now (db.addPrice row)

variable {L : CatalogDb → Uuid → Option PriceRow → Prop}

theorem wp_appendPricing {S : Type} {s : S} (hrow : (db.findById id).isSome) :
    (appendPricingIfChanged id p now : Job S Bool).wp (reading L) (fun _ _ => True)
      (fun _ _ db' => Priced L db id p now db') s db := by
  unfold appendPricingIfChanged Job.await Job.op
  simp only [Code.wp_bind, Code.wp_perform, Code.wp_ofExcept]
  refine ⟨trivial, ?_⟩
  rintro (err | latest) ⟨⟨hlatest, hreliable⟩, hread⟩
  · exact hreliable.elim
  have hlatest : db.LatestPrice id latest := hlatest
  have hread : L db id latest := hread
  have hcurrent : (!latest.all fun row => pricesDiffer row p) = current p latest := by
    unfold current
    cases latest <;> rfl
  show Code.wp (reading L) _ (if (!latest.all fun row => pricesDiffer row p) || !hasAnyPrice p then _
    else _) _ s db
  rw [hcurrent]
  split
  · next hskip =>
    rw [Code.wp_pure]
    rw [Bool.or_eq_true, Bool.not_eq_true'] at hskip
    rcases hskip with hcurrent | hnone
    · exact .kept hlatest hread (Or.inr (Or.inr hcurrent))
    · exact .kept hlatest hread (Or.inl hnone)
  · next hgo =>
    rw [Bool.or_eq_true, Bool.not_eq_true', not_or, Bool.not_eq_true, Bool.not_eq_false] at hgo
    simp only [Code.wp_bind, Code.wp_perform, Code.wp_ofExcept]
    refine ⟨trivial, ?_⟩
    rintro (err | u) ⟨⟨hanswer, hreliable⟩, -⟩
    · rcases hreliable with hrefused | hmissing
      · exact .kept hlatest hread (Or.inr (Or.inl (refused_of_none hrefused)))
      · rw [hmissing] at hrow
        cases hrow
    · obtain ⟨hnot, -⟩ := hanswer
      obtain ⟨row, htoRow⟩ := Option.ne_none_iff_exists'.1 hnot
      have hafter : (reading L).next db (.insertPrice ⟨id, now, p⟩) (.ok u) = db.addPrice row := by
        show db.insertPrice _ = _
        unfold CatalogDb.insertPrice
        rw [htoRow]
      rw [hafter, Code.wp_pure]
      exact .appended hlatest hread hgo.1 hgo.2 htoRow

theorem Priced.models (h : Priced L db id p now db') : db'.models = db.models := by
  cases h with
  | kept => rfl
  | appended => rfl

/-- The price of a stable entry is settled. -/
theorem Priced.settled (hstable : PriceStable db now id p) (h : Priced L db id p now db') :
    PriceSettled db' id p := by
  cases h with
  | kept hlatest hread hwhy =>
      rcases hstable with hsettled | ⟨-, hother⟩
      · exact hsettled
      · rcases hwhy with hnone | hrefused | hcurrent
        · exact Or.inl hnone
        · exact Or.inr (Or.inl hrefused)
        · rw [(hother _ hlatest).1] at hcurrent
          cases hcurrent
  | @appended latest row hlatest hread hdiffers hany hrow =>
      rcases hstable with (hnone | hrefused | hcurrent) | ⟨hkept, hother⟩
      · rw [hany] at hnone
        cases hnone
      · rw [hrefused id now] at hrow
        cases hrow
      · rw [hcurrent latest hlatest] at hdiffers
        cases hdiffers
      · refine Or.inr (Or.inr fun l hl => ?_)
        have hmodel : row.modelId = id := CatalogDb.priceRow_modelId hrow
        rw [← hmodel] at hl
        have hlast : l = some row := by
          refine latestPrice_addPrice (fun p' hp' hid => ?_) hl
          rw [effectiveFrom_of_toRow hrow]
          cases latest with
          | none => exact absurd (hid.trans hmodel) (hlatest p' hp')
          | some most =>
              have hle := hlatest.2.2 p' hp' (hid.trans hmodel)
              have hlt := (hother (some most) hlatest).2 most rfl
              omega
        rw [hlast]
        unfold current
        rw [Option.any_some, hkept id now row hrow]
        rfl

/-- Where the price of an entry is settled after the latest price was one like its own if there was any
such, it has been stable. -/
theorem Priced.stable (h : Priced L db id p now db')
    (hL : ∀ l, L db id l → ∀ l', db.LatestPrice id l' → current p l' = true → current p l = true)
    (hsettled : PriceSettled db' id p) : PriceStable db now id p := by
  cases h with
  | kept => exact Or.inl hsettled
  | @appended latest row hlatest hread hdiffers hany hrow =>
      have hmodel : row.modelId = id := CatalogDb.priceRow_modelId hrow
      have hfrom : row.effectiveFrom = now := effectiveFrom_of_toRow hrow
      have hall : ∀ l, (db.addPrice row).LatestPrice id l → current p l = true := by
        rcases hsettled with hnone | hrefused | hall
        · rw [hany] at hnone
          cases hnone
        · rw [hrefused id now] at hrow
          cases hrow
        · exact hall
      have hother : ∀ l, db.LatestPrice id l → current p l = false := by
        intro l hl
        by_contra hcurrent
        rw [hL latest hread l hl (Bool.eq_true_of_not_eq_false hcurrent)] at hdiffers
        cases hdiffers
      -- a price that is not earlier would be found behind the one appended
      have hbefore : ∀ l, db.LatestPrice id l → ∀ most ∈ l, most.effectiveFrom < now := by
        rintro l hl most hmost
        cases hmost
        by_contra hlate
        have hstill : (db.addPrice row).LatestPrice id (some most) := by
          refine ⟨List.mem_append_left _ hl.1, hl.2.1, fun p' hp' hid => ?_⟩
          rcases List.mem_append.1 hp' with hp' | hp'
          · exact hl.2.2 p' hp' hid
          · rw [List.mem_singleton.1 hp', hfrom]
            exact Nat.le_of_not_lt hlate
        have hno := hall _ hstill
        rw [hother _ hl] at hno
        cases hno
      refine Or.inr ⟨?_, fun l hl => ⟨hother l hl, hbefore l hl⟩⟩
      have hlast : (db.addPrice row).LatestPrice id (some row) := by
        refine ⟨List.mem_append_right _ (List.mem_singleton_self row), hmodel, fun p' hp' hid => ?_⟩
        rcases List.mem_append.1 hp' with hp' | hp'
        · cases latest with
          | none => exact absurd hid (hlatest p' hp')
          | some most =>
              have hle := hlatest.2.2 p' hp' hid
              have hlt := hbefore (some most) hlatest most rfl
              omega
        · rw [List.mem_singleton.1 hp']
      have hcurrent := hall _ hlast
      unfold current at hcurrent
      rw [Option.any_some, Bool.not_eq_true'] at hcurrent
      exact ratesKept_of_stored hrow hcurrent

theorem PriceSettled.congr (h : PriceSettled db id p) (hsame : db'.pricesOf id = db.pricesOf id) :
    PriceSettled db' id p := by
  rcases h with hnone | hrefused | hcurrent
  · exact Or.inl hnone
  · exact Or.inr (Or.inl hrefused)
  · exact Or.inr (Or.inr fun l hl => hcurrent l ((latestPrice_congr hsame l).1 hl))

theorem PriceStable.congr (h : PriceStable db now id p) (hsame : db'.pricesOf id = db.pricesOf id) :
    PriceStable db' now id p := by
  rcases h with hsettled | ⟨hkept, hother⟩
  · exact Or.inl (hsettled.congr hsame)
  · exact Or.inr ⟨hkept, fun l hl => hother l ((latestPrice_congr hsame l).1 hl)⟩

/-! ### Rows -/

variable {row : CatalogModel} {key : JsString} {keys keys' : List JsString}

omit [Formats] in
theorem CatalogDb.Keyed.listing (h : db.Keyed) : (db.models.map fun m => js m.canonicalId).Nodup := by
  have hkeys := h.canonicalIds.map Utf8.js_injective
  rw [List.map_map] at hkeys
  exact hkeys

/-- Only the rows listed under these ids and their prices may be different. -/
structure Touches (keys : List JsString) (db db' : CatalogDb) : Prop where
  keyed : db'.Keyed
  linked : db'.Linked
  others : ∀ key ∉ keys, db'.listed key = db.listed key
  rows : ∀ row ∈ db'.models, row ∈ db.models ∨ js row.canonicalId ∈ keys
  kept : ∀ key ∉ keys, ∀ row, db.listed key = some row → db'.pricesOf row.id = db.pricesOf row.id

omit [Formats] in
theorem Touches.refl (hkeyed : db.Keyed) (hlinked : db.Linked) : Touches keys db db :=
  ⟨hkeyed, hlinked, fun _ _ => rfl, fun _ h => Or.inl h, fun _ _ _ _ => rfl⟩

omit [Formats] in
theorem Touches.trans (h : Touches keys db db') (h' : Touches keys' db' db'') :
    Touches (keys ++ keys') db db'' where
  keyed := h'.keyed
  linked := h'.linked
  others key hkey := by
    rw [List.mem_append, not_or] at hkey
    exact (h'.others key hkey.2).trans (h.others key hkey.1)
  rows row hrow := by
    rcases h'.rows row hrow with hrow | hmem
    · rcases h.rows row hrow with hrow | hmem
      · exact Or.inl hrow
      · exact Or.inr (List.mem_append_left _ hmem)
    · exact Or.inr (List.mem_append_right _ hmem)
  kept key hkey row hrow := by
    rw [List.mem_append, not_or] at hkey
    have hrow' := (h.others key hkey.1).trans hrow
    exact (h'.kept key hkey.2 row hrow').trans (h.kept key hkey.1 row hrow)

omit [Formats] in
theorem Touches.mono (h : Touches keys db db') (hsub : keys ⊆ keys') : Touches keys' db db' where
  keyed := h.keyed
  linked := h.linked
  others key hkey := h.others key fun hmem => hkey (hsub hmem)
  rows row hrow := (h.rows row hrow).imp_right fun hmem => hsub hmem
  kept key hkey := h.kept key fun hmem => hkey (hsub hmem)

omit [Formats] in
theorem Touches.again (h : Touches [key] db db') (h' : Touches [key] db' db'') : Touches [key] db db'' :=
  (h.trans h').mono (by simp)

omit [Formats] in
/-- Appending a price touches the prices of its model only. -/
theorem touches_addPrice (hkeyed : db.Keyed) (hlinked : db.Linked) (hrow : row ∈ db.models) {p : PriceRow}
    (hp : p.modelId = row.id) : Touches [js row.canonicalId] db (db.addPrice p) where
  keyed := ⟨hkeyed.ids, hkeyed.canonicalIds⟩
  linked p' hp' := by
    rcases List.mem_append.1 hp' with hp' | hp'
    · exact hlinked p' hp'
    · rw [List.mem_singleton.1 hp']
      exact ⟨row, hrow, hp.symm⟩
  others _ _ := rfl
  rows _ h := Or.inl h
  kept key hkey row' hrow' := by
    obtain ⟨hmem', hkey'⟩ := Rows.mem_of_find hrow'
    have hid : row'.id ≠ row.id := by
      intro hid
      rw [Rows.eq_of_key hkeyed.ids hmem' hrow hid] at hkey'
      exact hkey (List.mem_singleton.2 hkey'.symm)
    unfold CatalogDb.pricesOf CatalogDb.addPrice
    rw [List.filter_append, List.filter_cons_of_neg, List.filter_nil, List.append_nil]
    simp [hp, Ne.symm hid]

omit [Formats] in
/-- Updating a row touches that row only. -/
theorem touches_updateById (hkeyed : db.Keyed) (hlinked : db.Linked) (hrow : row ∈ db.models)
    {f : CatalogModel → CatalogModel} (hid : ∀ m, (f m).id = m.id)
    (hcanonical : ∀ m, (f m).canonicalId = m.canonicalId) :
    Touches [js row.canonicalId] db (db.updateById row.id f) ∧
      (db.updateById row.id f).listed (js row.canonicalId) = some (f row) := by
  have hlisted : ∀ key, (db.updateById row.id f).listed key =
      (db.listed key).map fun m => if m.id = row.id then f m else m := by
    intro key
    unfold CatalogDb.listed CatalogDb.updateById
    refine Rows.find_update ?_ db.models
    exact fun m => congrArg js (hcanonical m)
  have hkeys : (db.updateById row.id f).Keyed := by
    constructor
    · show ((Rows.update CatalogModel.id row.id f db.models).map CatalogModel.id).Nodup
      rw [Rows.map_update CatalogModel.id hid]
      exact hkeyed.ids
    · show ((Rows.update CatalogModel.id row.id f db.models).map CatalogModel.canonicalId).Nodup
      rw [Rows.map_update CatalogModel.canonicalId hcanonical]
      exact hkeyed.canonicalIds
  refine ⟨⟨hkeys, ?_, ?_, ?_, fun _ _ _ _ => rfl⟩, ?_⟩
  · intro p hp
    obtain ⟨m, hm, hmid⟩ := hlinked p hp
    refine ⟨if m.id = row.id then f m else m, List.mem_map_of_mem hm, ?_⟩
    split
    · exact (hid m).trans hmid
    · exact hmid
  · intro key hkey
    rw [hlisted]
    cases hfind : db.listed key with
    | none => rfl
    | some m =>
        obtain ⟨hm, hmkey⟩ := Rows.mem_of_find hfind
        have hne : m.id ≠ row.id := by
          intro heq
          rw [Rows.eq_of_key hkeyed.ids hm hrow heq] at hmkey
          exact hkey (List.mem_singleton.2 hmkey.symm)
        simp [hne]
  · intro m hm
    obtain ⟨m', hm', rfl⟩ := List.mem_map.1 hm
    split
    · next heq =>
      rw [Rows.eq_of_key hkeyed.ids hm' hrow heq, hcanonical]
      exact Or.inr (List.mem_singleton_self _)
    · exact Or.inl hm'
  · rw [hlisted, show db.listed (js row.canonicalId) = some row from Rows.find_of_mem hkeyed.listing hrow]
    simp

omit [Formats] in
/-- Adding a row touches that row only. -/
theorem touches_addModel (hkeyed : db.Keyed) (hlinked : db.Linked) (hid : db.findById row.id = none)
    (hnone : db.listed (js row.canonicalId) = none) :
    Touches [js row.canonicalId] db (db.addModel row) ∧
      (db.addModel row).listed (js row.canonicalId) = some row := by
  have hlisted : ∀ key, (db.addModel row).listed key =
      (db.listed key).or (if js row.canonicalId = key then some row else none) := fun key =>
    Rows.find_append db.models row
  have hnew : ∀ m ∈ db.models, m.canonicalId ≠ row.canonicalId := fun m hm heq =>
    Rows.find_eq_none_iff.1 hnone m hm (congrArg js heq)
  have hkeys : (db.addModel row).Keyed :=
    ⟨Rows.nodup_append hkeyed.ids (Rows.find_eq_none_iff.1 hid), Rows.nodup_append hkeyed.canonicalIds hnew⟩
  refine ⟨⟨hkeys, ?_, ?_, ?_, fun _ _ _ _ => rfl⟩, ?_⟩
  · intro p hp
    obtain ⟨m, hm, hmid⟩ := hlinked p hp
    exact ⟨m, List.mem_append_left _ hm, hmid⟩
  · intro key hkey
    rw [hlisted, if_neg fun heq => hkey (List.mem_singleton.2 heq.symm), Option.or_none]
  · intro m hm
    rcases List.mem_append.1 hm with hm | hm
    · exact Or.inl hm
    · rw [List.mem_singleton.1 hm]
      exact Or.inr (List.mem_singleton_self _)
  · rw [hlisted, hnone, if_pos rfl]
    rfl

theorem Priced.touches (h : Priced L db row.id p now db') (hkeyed : db.Keyed) (hlinked : db.Linked)
    (hrow : row ∈ db.models) : Touches [js row.canonicalId] db db' := by
  cases h with
  | kept => exact Touches.refl hkeyed hlinked
  | appended _ _ _ _ htoRow =>
      exact touches_addPrice hkeyed hlinked hrow (CatalogDb.priceRow_modelId htoRow)

/-! ### One entry -/

/-- What dealing with an entry makes of the tables. -/
inductive Dealt (L : CatalogDb → Uuid → Option PriceRow → Prop) (db : CatalogDb) (now : ℕ)
    (entry : SyncedModel) : CatalogDb → Prop
  | skipped : db.listed entry.canonicalId = none → Inert entry → Dealt L db now entry db
  | left {row : CatalogModel} : db.listed entry.canonicalId = some row →
      row.source = .custom ∨ (changed entry row = true ∧ (entry.set row).change = none) →
      Dealt L db now entry db
  | priced {row : CatalogModel} {db' : CatalogDb} : db.listed entry.canonicalId = some row →
      row.source ≠ .custom → changed entry row = false →
      Priced L db row.id entry.pricing now db' → Dealt L db now entry db'
  | updated {row : CatalogModel} {f : CatalogModel → CatalogModel} {db' : CatalogDb} :
      db.listed entry.canonicalId = some row → row.source ≠ .custom → changed entry row = true →
      (entry.set row).change = some f → Priced L (db.updateById row.id f) row.id entry.pricing now db' → Dealt L db now entry db'
  | added {c : ℚ} {row : CatalogModel} {db' : CatalogDb} : db.listed entry.canonicalId = none →
      entry.contextWindow = some c → (entry.values c).toRow row.id = some row →
      db.findById row.id = none → js row.canonicalId = entry.canonicalId →
      Priced L (db.addModel row) row.id entry.pricing now db' → Dealt L db now entry db'

variable {entry : SyncedModel}

/-- However it ends, the price of an entry is dealt with. -/
theorem wp_syncPrice (known : Bool) (report : DiffReport) (hrow : (db.findById id).isSome) :
    (syncPrice entry known id now).wp (reading L) (fun _ _ => True)
      (fun _ _ db' => Priced L db id entry.pricing now db') report db := by
  unfold syncPrice
  refine Code.wp_seq (wp_appendPricing hrow) ?_ ?_
  · intro appended _ db' h
    split <;> exact h
  · intro err _ db' h
    exact h

/-- Where a conflict could not be settled, there is none: no row can be added. -/
theorem inert_of_set {c : ℚ} (hc : entry.contextWindow = some c)
    (h : (⟨none, some c, some entry.maxOutput, none, none, none, none⟩ : ModelSet).change = none) :
    Inert entry := by
  intro c' hc' id
  rw [hc] at hc'
  cases hc'
  by_contra hsome
  obtain ⟨row, hrow⟩ := Option.ne_none_iff_exists'.1 hsome
  unfold ModelValues.toRow at hrow
  obtain ⟨canonicalId, -, hrow⟩ := Option.bind_eq_some_iff.1 hrow
  obtain ⟨providerKind, -, hrow⟩ := Option.bind_eq_some_iff.1 hrow
  obtain ⟨displayName, -, hrow⟩ := Option.bind_eq_some_iff.1 hrow
  obtain ⟨contextWindow, hcontext, hrow⟩ := Option.bind_eq_some_iff.1 hrow
  obtain ⟨maxOutput, hmax, hrow⟩ := Option.bind_eq_some_iff.1 hrow
  have hname : optionally textColumn none = some none := rfl
  have hdate : optionally (optionally Formats.date) none = some none := rfl
  have hcontext : optionally intColumn (some c) = some (some contextWindow) :=
    congrArg (Option.map some) hcontext
  have hmax : optionally (optionally intColumn) (some entry.maxOutput) = some (some maxOutput) :=
    congrArg (Option.map some) hmax
  unfold ModelSet.change at h
  simp [hname, hcontext, hmax, hdate] at h

/-- However it ends, an entry is dealt with. -/
theorem wp_syncOneModel (report : DiffReport) (htext : Textual entry ∨ Inert entry) (hkeyed : db.Keyed) :
    (syncOneModel entry (db.listed entry.canonicalId) now).wp (reading L) (fun _ _ => True)
      (fun _ _ db' => Dealt L db now entry db') report db := by
  generalize hcurrent : db.listed entry.canonicalId = current
  unfold syncOneModel
  cases current with
  | none =>
      dsimp only
      split
      · next hnone =>
        refine .skipped hcurrent fun c hc => ?_
        rw [hnone] at hc
        cases hc
      · next c hc =>
        unfold Job.await Job.op Job.note
        simp only [Code.wp_bind, Code.wp_perform, Code.wp_ofExcept, Code.wp_write]
        refine ⟨trivial, ?_⟩
        rintro (err | id) ⟨⟨hanswer, hreliable⟩, -⟩
        · refine .skipped hcurrent ?_
          rcases hreliable with hset | hrefused
          · exact inert_of_set hc hset
          · intro c' hc'
            rw [hc] at hc'
            cases hc'
            exact hrefused
        · have htextual : ∀ id' row, (entry.values c).toRow id' = some row →
              js row.canonicalId = entry.canonicalId := by
            intro id' row hrow
            rcases htext with ⟨t, ht⟩ | hinert
            · rw [CatalogDb.toRow_canonicalId hrow]
              show js (Utf8.text entry.canonicalId) = _
              rw [ht, Utf8.text_js]
            · rw [hinert c hc id'] at hrow
              cases hrow
          rcases hanswer with ⟨row, hrow, hfree, hnone⟩ | ⟨found, ⟨id', row, hrow, hfound⟩, -⟩
          · obtain rfl : row.id = id := CatalogDb.toRow_id hrow
            have hafter : (reading L).next db (.insertOrUpdate (entry.values c)
                { contextWindow := some c, maxOutput := some entry.maxOutput }) (.ok row.id) =
                db.addModel row := by
              show (if (db.findById row.id).isSome then _ else db.insertRow (entry.values c) row.id) = _
              rw [hfree]
              unfold CatalogDb.insertRow
              rw [hrow]
              rfl
            rw [hafter]
            have hthere : ((db.addModel row).findById row.id).isSome := by
              unfold CatalogDb.findById CatalogDb.addModel
              rw [Rows.find_append, if_pos rfl]
              simp
            refine Code.wp_mono (wp_syncPrice false _ hthere) fun _ _ db' hpriced => ?_
            exact .added hcurrent hc hrow hfree (htextual row.id row hrow) hpriced
          · obtain ⟨hmem, hid⟩ := Rows.mem_of_find hfound
            refine absurd ?_ (Rows.find_eq_none_iff.1 hcurrent found hmem)
            exact (congrArg js hid).trans (htextual id' row hrow)
  | some row =>
      obtain ⟨hrow, -⟩ := Rows.mem_of_find hcurrent
      have hthere : (db.findById row.id).isSome := by
        rw [show db.findById row.id = some row from Rows.find_of_mem hkeyed.ids hrow]
        rfl
      dsimp only
      split
      · next hcustom => exact .left hcurrent (Or.inl hcustom)
      · next hsource =>
        split
        · next hchanged =>
          unfold Job.await Job.op Job.note
          simp only [Code.wp_bind, Code.wp_perform, Code.wp_ofExcept, Code.wp_write]
          refine ⟨trivial, ?_⟩
          rintro (err | u) ⟨⟨hanswer, hreliable⟩, -⟩
          · exact .left hcurrent (Or.inr ⟨hchanged, hreliable⟩)
          · obtain ⟨f, hf⟩ := Option.ne_none_iff_exists'.1 hanswer
            have hafter : (reading L).next db (.updateModel row.id (entry.set row)) (.ok u) =
                db.updateById row.id f := by
              show db.changeRow row.id (entry.set row) = _
              unfold CatalogDb.changeRow
              rw [hf]
            rw [hafter]
            have hthere' : ((db.updateById row.id f).findById row.id).isSome := by
              unfold CatalogDb.findById CatalogDb.updateById
              rw [Rows.find_update fun m => (changes_of_change hf m).id, Option.isSome_map]
              exact hthere
            refine Code.wp_mono (wp_syncPrice true _ hthere') fun _ _ db' hpriced => ?_
            exact .updated hcurrent hsource hchanged hf hpriced
        · next hsame =>
          refine Code.wp_mono (wp_syncPrice true _ hthere) fun _ _ db' hpriced => ?_
          exact .priced hcurrent hsource (Bool.eq_false_of_not_eq_true hsame) hpriced

theorem Priced.listed (h : Priced L db id p now db') (key : JsString) : db'.listed key = db.listed key := by
  unfold CatalogDb.listed
  rw [h.models]

/-- The row of an entry after an update of it. -/
theorem listed_updateById (hkeyed : db.Keyed) (hlinked : db.Linked)
    (hrow : db.listed entry.canonicalId = some row) {f : CatalogModel → CatalogModel}
    (hf : (entry.set row).change = some f) :
    Touches [entry.canonicalId] db (db.updateById row.id f) ∧
      (db.updateById row.id f).listed entry.canonicalId = some (f row) := by
  obtain ⟨hmem, hkey⟩ := Rows.mem_of_find hrow
  have h := touches_updateById hkeyed hlinked hmem (fun m => (changes_of_change hf m).id)
    fun m => (changes_of_change hf m).canonicalId
  rw [hkey] at h
  exact h

omit [Formats] in
/-- The row of an entry after it has been added. -/
theorem listed_addModel (hkeyed : db.Keyed) (hlinked : db.Linked)
    (hnone : db.listed entry.canonicalId = none) (hfree : db.findById row.id = none)
    (hkey : js row.canonicalId = entry.canonicalId) :
    Touches [entry.canonicalId] db (db.addModel row) ∧
      (db.addModel row).listed entry.canonicalId = some row := by
  rw [← hkey] at hnone ⊢
  exact touches_addModel hkeyed hlinked hfree hnone

/-- Dealing with an entry touches its row only. -/
theorem Dealt.touches (h : Dealt L db now entry db') (hkeyed : db.Keyed) (hlinked : db.Linked) :
    Touches [entry.canonicalId] db db' := by
  cases h with
  | skipped => exact Touches.refl hkeyed hlinked
  | left => exact Touches.refl hkeyed hlinked
  | @priced row _ hrow _ _ hpriced =>
      obtain ⟨hmem, hkey⟩ := Rows.mem_of_find hrow
      rw [← hkey]
      exact hpriced.touches hkeyed hlinked hmem
  | @updated row f _ hrow _ _ hf hpriced =>
      obtain ⟨htouches, hfound⟩ := listed_updateById hkeyed hlinked hrow hf
      obtain ⟨hmem, hkey⟩ := Rows.mem_of_find hfound
      rw [← (changes_of_change hf row).id] at hpriced htouches hmem
      have hprice := hpriced.touches htouches.keyed htouches.linked hmem
      rw [hkey] at hprice
      exact htouches.again hprice
  | @added c row _ hnone _ _ hfree hkey hpriced =>
      obtain ⟨htouches, hfound⟩ := listed_addModel hkeyed hlinked hnone hfree hkey
      have hprice := hpriced.touches htouches.keyed htouches.linked (Rows.mem_of_find hfound).1
      rw [hkey] at hprice
      exact htouches.again hprice

omit [Formats] in
/-- A fresh row has no price. -/
theorem latestPrice_fresh (hlinked : db.Linked) (hfree : db.findById id = none) {latest : Option PriceRow}
    (h : (db.addModel row).LatestPrice id latest) : latest = none := by
  cases latest with
  | none => rfl
  | some p =>
      obtain ⟨m, hm, hid⟩ := hlinked p h.1
      exact absurd (hid.trans h.2.1) (Rows.find_eq_none_iff.1 hfree m hm)

/-- A stable entry is settled once it has been dealt with. -/
theorem Dealt.settled (h : Dealt L db now entry db') (hkeyed : db.Keyed) (hlinked : db.Linked)
    (hstable : Stable db now entry) : Settled db' entry := by
  unfold Stable at hstable
  unfold Settled
  cases h with
  | skipped hnone hinert =>
      rw [hnone]
      exact hinert
  | left hrow hwhy =>
      rw [hrow]
      exact hwhy.imp_right Or.inl
  | priced hrow hsource hsame hpriced =>
      rw [hrow] at hstable
      rw [hpriced.listed, hrow]
      rcases hstable with hcustom | ⟨hchanged, -⟩ | ⟨-, hprice⟩
      · exact absurd hcustom hsource
      · rw [hsame] at hchanged
        cases hchanged
      · exact Or.inr (Or.inr ⟨hsame, hpriced.settled hprice⟩)
  | @updated row f _ hrow hsource hchanged hf hpriced =>
      rw [hrow] at hstable
      rw [hpriced.listed, (listed_updateById hkeyed hlinked hrow hf).2]
      rcases hstable with hcustom | ⟨-, hrefused⟩ | ⟨hdate, hprice⟩
      · exact absurd hcustom hsource
      · rw [hf] at hrefused
        cases hrefused
      · have hstill : PriceStable (db.updateById row.id f) now row.id entry.pricing := hprice.congr rfl
        have hdone := hpriced.settled hstill
        rw [← (changes_of_change hf row).id] at hdone
        exact Or.inr (Or.inr ⟨(changed_of_set hf).1.2 (hdate hchanged), hdone⟩)
  | added hnone hc hadded hfree hkey hpriced =>
      rw [hnone] at hstable
      rw [hpriced.listed, (listed_addModel hkeyed hlinked hnone hfree hkey).2]
      rcases hstable with hinert | ⟨-, hdate, hkept⟩
      · rw [hinert _ hc] at hadded
        cases hadded
      · refine Or.inr (Or.inr ⟨(changed_of_values hc hadded).1.2 hdate, hpriced.settled ?_⟩)
        refine Or.inr ⟨hkept, fun latest hlatest => ?_⟩
        rw [latestPrice_fresh hlinked hfree hlatest]
        exact ⟨rfl, fun _ h => nomatch h⟩

/-- Prices like the one of the entry are found before others. -/
def Prefers (p : Pricing) (db : CatalogDb) (id : Uuid) (latest : Option PriceRow) : Prop :=
  ∀ latest', db.LatestPrice id latest' → current p latest' = true → current p latest = true

/-- Where an entry is settled after it has been dealt with, though a price like its own was found if there
was any, it has been stable. -/
theorem Dealt.stable (h : Dealt (Prefers entry.pricing) db now entry db') (hkeyed : db.Keyed)
    (hlinked : db.Linked) (hsettled : Settled db' entry) : Stable db now entry := by
  have hprefers : ∀ (q : CatalogDb) (id : Uuid) l, Prefers entry.pricing q id l → ∀ l', q.LatestPrice id l' →
      current entry.pricing l' = true → current entry.pricing l = true := fun _ _ _ hl => hl
  unfold Settled at hsettled
  unfold Stable
  cases h with
  | skipped hnone hinert =>
      rw [hnone]
      exact Or.inl hinert
  | left hrow hwhy =>
      rw [hrow]
      exact hwhy.imp_right Or.inl
  | priced hrow hsource hsame hpriced =>
      rw [hpriced.listed, hrow] at hsettled
      rw [hrow]
      rcases hsettled with hcustom | ⟨hchanged, -⟩ | ⟨-, hprice⟩
      · exact absurd hcustom hsource
      · rw [hsame] at hchanged
        cases hchanged
      · refine Or.inr (Or.inr ⟨fun hchanged => ?_, hpriced.stable (hprefers _ _) hprice⟩)
        rw [hsame] at hchanged
        cases hchanged
  | @updated row f _ hrow hsource hchanged hf hpriced =>
      rw [hpriced.listed, (listed_updateById hkeyed hlinked hrow hf).2] at hsettled
      rw [hrow]
      rcases hsettled with hcustom | ⟨-, hrefused⟩ | ⟨hsame, hprice⟩
      · exact absurd ((changes_of_change hf row).source.symm.trans hcustom) hsource
      · rw [(changed_of_set hf).2] at hrefused
        cases hrefused
      · rw [(changes_of_change hf row).id] at hprice
        have hstable := hpriced.stable (hprefers _ _) hprice
        exact Or.inr (Or.inr ⟨fun _ => (changed_of_set hf).1.1 hsame, hstable.congr rfl⟩)
  | @added c row _ hnone hc hadded hfree hkey hpriced =>
      rw [hpriced.listed, (listed_addModel hkeyed hlinked hnone hfree hkey).2] at hsettled
      rw [hnone]
      obtain ⟨hdate, htaken, hsource⟩ := changed_of_values hc hadded
      have htextual : Textual entry := ⟨row.canonicalId, hkey.symm⟩
      rcases hsettled with hcustom | ⟨-, hrefused⟩ | ⟨hsame, hprice⟩
      · rw [hsource] at hcustom
        cases hcustom
      · exact absurd hrefused htaken
      · refine Or.inr ⟨htextual, hdate.1 hsame, ?_⟩
        have hnoPrice : (db.addModel row).LatestPrice row.id none := by
          intro p hp hid
          obtain ⟨m, hm, hmid⟩ := hlinked p hp
          exact Rows.find_eq_none_iff.1 hfree m hm (hmid.trans hid)
        rcases hpriced.stable (hprefers _ _) hprice with (hnoRate | hrefused | hall) | ⟨hkept, -⟩
        · exact ratesKept_of_noPrice hnoRate
        · intro id now p hp
          rw [hrefused id now] at hp
          cases hp
        · cases hall none hnoPrice
        · exact hkept

/-! ### All entries -/

/-- The tables say the same of an entry. -/
structure Alike (entry : SyncedModel) (db db' : CatalogDb) : Prop where
  row : db'.listed entry.canonicalId = db.listed entry.canonicalId
  prices : ∀ row, db.listed entry.canonicalId = some row → db'.pricesOf row.id = db.pricesOf row.id

omit [Formats] in
theorem Alike.refl : Alike entry db db := ⟨rfl, fun _ _ => rfl⟩

omit [Formats] in
theorem Alike.trans (h : Alike entry db db') (h' : Alike entry db' db'') : Alike entry db db'' :=
  ⟨h'.row.trans h.row, fun row hrow => (h'.prices row (h.row.trans hrow)).trans (h.prices row hrow)⟩

omit [Formats] in
theorem Alike.symm (h : Alike entry db db') : Alike entry db' db :=
  ⟨h.row.symm, fun row hrow => (h.prices row (h.row.symm.trans hrow)).symm⟩

omit [Formats] in
theorem Touches.alike (h : Touches keys db db') (hkey : entry.canonicalId ∉ keys) : Alike entry db db' :=
  ⟨h.others _ hkey, h.kept _ hkey⟩

theorem Alike.settled (h : Alike entry db db') (hsettled : Settled db entry) : Settled db' entry := by
  unfold Settled at hsettled ⊢
  rw [h.row]
  cases hrow : db.listed entry.canonicalId with
  | none =>
      rw [hrow] at hsettled
      exact hsettled
  | some row =>
      rw [hrow] at hsettled
      exact hsettled.imp_right (Or.imp_right fun hdone => ⟨hdone.1, hdone.2.congr (h.prices row hrow)⟩)

theorem Alike.stable (h : Alike entry db db') (hstable : Stable db now entry) : Stable db' now entry := by
  unfold Stable at hstable ⊢
  rw [h.row]
  cases hrow : db.listed entry.canonicalId with
  | none =>
      rw [hrow] at hstable
      exact hstable
  | some row =>
      rw [hrow] at hstable
      exact hstable.imp_right (Or.imp_right fun hdone => ⟨hdone.1, hdone.2.congr (h.prices row hrow)⟩)

/-- An entry is dealt with between tables that say the same of it as those at the start and at the end. -/
def Handled (L : CatalogDb → Uuid → Option PriceRow → Prop) (db : CatalogDb) (now : ℕ)
    (entry : SyncedModel) (db' : CatalogDb) : Prop :=
  ∃ q q', q.Keyed ∧ q.Linked ∧ Alike entry db q ∧ Dealt L q now entry q' ∧ Alike entry q' db'

theorem Handled.settled (h : Handled L db now entry db') (hstable : Stable db now entry) :
    Settled db' entry := by
  obtain ⟨q, q', hkeyed, hlinked, hbefore, hdealt, hafter⟩ := h
  exact hafter.settled (hdealt.settled hkeyed hlinked (hbefore.stable hstable))

theorem Handled.stable (h : Handled (Prefers entry.pricing) db now entry db') (hsettled : Settled db' entry) :
    Stable db now entry := by
  obtain ⟨q, q', hkeyed, hlinked, hbefore, hdealt, hafter⟩ := h
  exact hbefore.symm.stable (hdealt.stable hkeyed hlinked (hafter.symm.settled hsettled))

/-- When the loop is over every entry has been handled. -/
theorem wp_syncEntries {byCanonical : JsMap JsString CatalogModel} (report : DiffReport)
    {entries : List SyncedModel} (htext : ∀ entry ∈ entries, Textual entry ∨ Inert entry)
    (hlisted : ∀ entry ∈ entries, byCanonical.get entry.canonicalId = db.listed entry.canonicalId)
    (hnodup : (entries.map SyncedModel.canonicalId).Nodup) (hkeyed : db.Keyed) (hlinked : db.Linked) :
    (syncEntries byCanonical now entries).wp (reading L) (fun _ _ => True)
      (fun r _ db' => r.isOk = true ∧ Touches (entries.map SyncedModel.canonicalId) db db' ∧
        ∀ entry ∈ entries, Handled L db now entry db') report db := by
  induction entries generalizing report db with
  | nil => exact ⟨rfl, Touches.refl hkeyed hlinked, fun _ h => absurd h List.not_mem_nil⟩
  | cons entry rest ih =>
      rw [List.forall_mem_cons] at htext hlisted
      rw [List.map_cons, List.nodup_cons] at hnodup
      have hfresh : ∀ e ∈ rest, e.canonicalId ∉ [entry.canonicalId] := by
        intro e he hmem
        rw [List.mem_singleton] at hmem
        exact hnodup.1 (hmem ▸ List.mem_map_of_mem he)
      have hrest : ∀ report' db', Dealt L db now entry db' →
          (syncEntries byCanonical now rest).wp (reading L) (fun _ _ => True)
            (fun r _ db'' => r.isOk = true ∧
              Touches ((entry :: rest).map SyncedModel.canonicalId) db db'' ∧
              ∀ e ∈ entry :: rest, Handled L db now e db'') report' db' := by
        intro report' db' hdealt
        have htouches := hdealt.touches hkeyed hlinked
        have hnow : ∀ e ∈ rest, byCanonical.get e.canonicalId = db'.listed e.canonicalId := fun e he =>
          (hlisted.2 e he).trans (htouches.others _ (hfresh e he)).symm
        refine Code.wp_mono (ih report' htext.2 hnow hnodup.2 htouches.keyed htouches.linked) ?_
        rintro r _ db'' ⟨hok, htouches', hhandled⟩
        refine ⟨hok, htouches.trans htouches', List.forall_mem_cons.2 ⟨?_, fun e he => ?_⟩⟩
        · exact ⟨db, db', hkeyed, hlinked, Alike.refl, hdealt, htouches'.alike hnodup.1⟩
        · obtain ⟨q, q', hq, hq', hbefore, hdealt', hafter⟩ := hhandled e he
          exact ⟨q, q', hq, hq', (htouches.alike (hfresh e he)).trans hbefore, hdealt', hafter⟩
      unfold syncEntries
      rw [hlisted.1, Code.wp_bind, Code.wp_handle]
      refine Code.wp_mono (wp_syncOneModel report htext.1 hkeyed) ?_
      rintro (err | u) report' db' hdealt
      · exact hrest _ db' hdealt
      · exact hrest _ db' hdealt

/-! ### A whole sync -/

/-- The entries of a feed. -/
def entriesOf (feed : Feed) : List SyncedModel := (parseFeed perMtok feed).1

variable {feed : Feed}

theorem nodup_entriesOf : ((entriesOf feed).map SyncedModel.canonicalId).Nodup := by
  have hparsed := parsed perMtok feed.entries
  unfold entriesOf parseFeed JsMap.values
  rw [List.map_map, List.map_map]
  refine (List.map_congr_left fun e he => ?_) ▸ JsMap.nodup _
  exact (canonicalId_of_mem perMtok hparsed he).symm

omit [Formats] in
/-- The listing has the row of each id. -/
theorem get_listing (hkeyed : db.Keyed) {existing : List CatalogModel} (hperm : existing.Perm db.models)
    (key : JsString) :
    (JsMap.ofList (existing.map fun m => (js m.canonicalId, m))).get key = db.listed key := by
  cases hfind : db.listed key with
  | none =>
      cases hget : (JsMap.ofList (existing.map fun m => (js m.canonicalId, m))).get key with
      | none => rfl
      | some m =>
          obtain ⟨m', hm', heq⟩ := List.mem_map.1 (JsMap.mem_of_get_ofList hget)
          obtain ⟨hkey, -⟩ := Prod.mk.inj heq
          exact absurd hkey (Rows.find_eq_none_iff.1 hfind m' (hperm.mem_iff.1 hm'))
  | some row =>
      obtain ⟨hrow, rfl⟩ := Rows.mem_of_find hfind
      apply JsMap.get_ofList
      · rw [List.map_map]
        exact (hperm.map fun m => js m.canonicalId).nodup_iff.2 hkeyed.listing
      · exact List.mem_map.2 ⟨row, hperm.mem_iff.2 hrow, rfl⟩

omit [Formats] in
theorem deprecateModels_nil (db : CatalogDb) : db.deprecateModels [] = db := by
  have hrow : CatalogDb.deprecateRow [] = id := by
    funext row
    simp [CatalogDb.deprecateRow]
  unfold CatalogDb.deprecateModels
  rw [hrow, List.map_id]

omit [Formats] in
/-- Flagging other rows says nothing of an entry. -/
theorem alike_deprecate {ids : List Uuid}
    (hids : ∀ row, db.listed entry.canonicalId = some row → row.id ∉ ids) :
    Alike entry db (db.deprecateModels ids) := by
  refine ⟨?_, fun _ _ => rfl⟩
  have hfind : (db.deprecateModels ids).listed entry.canonicalId =
      (db.listed entry.canonicalId).map (CatalogDb.deprecateRow ids) := by
    unfold CatalogDb.listed CatalogDb.deprecateModels Rows.find
    rw [List.find?_map]
    congr 2
    funext row
    rcases deprecateRow_eq ids row with heq | ⟨-, -, heq⟩
    · simp [heq]
    · simp [heq]
  rw [hfind]
  cases hrow : db.listed entry.canonicalId with
  | none => rfl
  | some row =>
      rcases deprecateRow_eq ids row with heq | ⟨hmem, -, -⟩
      · exact congrArg some heq
      · exact absurd hmem (hids row hrow)

/-- What a sync of a feed leaves. -/
structure Synced (L : CatalogDb → Uuid → Option PriceRow → Prop) (feed : Feed) (now : ℕ)
    (db db' : CatalogDb) : Prop where
  keyed : db'.Keyed
  handled : ∀ entry ∈ entriesOf feed, Handled L db now entry db'
  flagged : ∀ row ∈ db'.models, row.source = .synced → row.status = .active →
    js row.canonicalId ∈ (entriesOf feed).map SyncedModel.canonicalId

/-- What the loop and the flags behind it leave. -/
theorem synced_deprecate (hkeyed : db.Keyed) {existing : List CatalogModel}
    (hperm : existing.Perm db.models)
    (htouches : Touches ((entriesOf feed).map SyncedModel.canonicalId) db db')
    (hhandled : ∀ entry ∈ entriesOf feed, Handled L db now entry db') :
    Synced L feed now db (db'.deprecateModels
      ((vanished existing ((entriesOf feed).map SyncedModel.canonicalId)).map CatalogModel.id)) := by
  -- a row with the id of a row that has vanished is that row
  have hgone : ∀ m ∈ vanished existing ((entriesOf feed).map SyncedModel.canonicalId),
      js m.canonicalId ∉ (entriesOf feed).map SyncedModel.canonicalId ∧
        ∀ row ∈ db'.models, row.id = m.id → row = m := by
    intro m hm
    obtain ⟨hmem, hcond⟩ := List.mem_filter.1 hm
    simp only [Bool.and_eq_true, beq_iff_eq, Bool.not_eq_true'] at hcond
    have hnot : js m.canonicalId ∉ (entriesOf feed).map SyncedModel.canonicalId := by
      intro hin
      have hno := hcond.2
      rw [List.contains_iff_mem.2 hin] at hno
      cases hno
    refine ⟨hnot, fun row hrow hid => ?_⟩
    have hfind : db'.listed (js m.canonicalId) = some m := by
      rw [htouches.others _ hnot]
      exact Rows.find_of_mem hkeyed.listing (hperm.mem_iff.1 hmem)
    exact Rows.eq_of_key htouches.keyed.ids hrow (Rows.mem_of_find hfind).1 hid
  generalize hids : (vanished existing ((entriesOf feed).map SyncedModel.canonicalId)).map
    CatalogModel.id = ids
  constructor
  · have hdep : ∀ row, (CatalogDb.deprecateRow ids row).id = row.id ∧
        (CatalogDb.deprecateRow ids row).canonicalId = row.canonicalId := by
      intro row
      rcases deprecateRow_eq ids row with heq | ⟨-, -, heq⟩ <;> rw [heq] <;> exact ⟨rfl, rfl⟩
    exact htouches.keyed.map (fun row => (hdep row).1) fun row => (hdep row).2
  · intro entry hentry
    obtain ⟨q, q', hq, hq', hbefore, hdealt, hafter⟩ := hhandled entry hentry
    refine ⟨q, q', hq, hq', hbefore, hdealt, hafter.trans (alike_deprecate fun row hrow hmem => ?_)⟩
    rw [← hids] at hmem
    obtain ⟨m, hm, hid⟩ := List.mem_map.1 hmem
    obtain ⟨hnot, hsame⟩ := hgone m hm
    obtain ⟨hrowmem, hkey⟩ := Rows.mem_of_find hrow
    apply hnot
    rw [← hsame row hrowmem hid.symm]
    exact hkey ▸ List.mem_map_of_mem hentry
  · intro row hrow hsynced hactive
    obtain ⟨r, hr, rfl⟩ := List.mem_map.1 hrow
    rcases deprecateRow_eq ids r with heq | ⟨-, -, heq⟩
    · rw [heq] at hsynced hactive ⊢
      rcases htouches.rows r hr with hold | hdone
      · by_contra hnot
        have hvanished : r ∈ vanished existing ((entriesOf feed).map SyncedModel.canonicalId) := by
          refine List.mem_filter.2 ⟨hperm.mem_iff.2 hold, ?_⟩
          rw [hsynced, hactive]
          simpa using hnot
        have hdeprecated : CatalogDb.deprecateRow ids r = { r with status := .deprecated } := by
          apply if_pos
          rw [← hids, hsynced]
          exact ⟨List.mem_map_of_mem hvanished, by decide⟩
        rw [hdeprecated] at heq
        rw [← heq] at hactive
        cases hactive
      · exact hdone
    · rw [heq] at hactive
      cases hactive

/-- A sync handles all entries of the feed, and flags what the feed does not have. -/
theorem wp_syncCatalog (report : DiffReport) (htext : ∀ entry ∈ entriesOf feed, Textual entry ∨ Inert entry)
    (hkeyed : db.Keyed) (hlinked : db.Linked) :
    (syncCatalog feed now).wp (reading L) (fun _ _ => True) (fun _ _ db' => Synced L feed now db db')
      report db := by
  unfold syncCatalog Job.note
  rw [Code.wp_bind, Code.wp_write]
  unfold Job.await Job.op
  simp only [Code.wp_bind, Code.wp_perform, Code.wp_ofExcept]
  refine ⟨trivial, ?_⟩
  rintro (err | existing) ⟨⟨hanswer, hreliable⟩, -⟩
  · exact hreliable.elim
  have hperm : existing.Perm db.models := hanswer
  refine Code.wp_mono (wp_syncEntries _ htext (fun entry _ => get_listing hkeyed hperm entry.canonicalId)
    nodup_entriesOf hkeyed hlinked) ?_
  rintro (err | u) report₁ db₁ ⟨hok, htouches, hhandled⟩
  · cases hok
  have hsynced := synced_deprecate hkeyed hperm htouches hhandled
  show Code.wp (reading L) _ (if List.isEmpty (vanished existing ((entriesOf feed).map
    SyncedModel.canonicalId)) = true then _ else _) _ _ _
  split
  · next hempty =>
    rw [Code.wp_pure]
    rw [List.isEmpty_iff.1 hempty, List.map_nil, deprecateModels_nil] at hsynced
    exact hsynced
  · simp only [Code.wp_bind, Code.wp_perform, Code.wp_ofExcept, Code.wp_write]
    refine ⟨trivial, ?_⟩
    rintro (err | u) ⟨⟨-, hreliable⟩, -⟩
    · exact hreliable.elim
    · exact hsynced

end

end Catalog

end VibeRouter
