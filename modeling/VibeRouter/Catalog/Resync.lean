import Mathlib.Data.Fintype.EquivFin
import VibeRouter.Catalog.Reply
import VibeRouter.Catalog.Settled

/-! # A feed that is synced twice

A second sync of a feed writes nothing and reports no change if every entry is settled
(`idle_syncCatalog`), and reports a change in some run if one is not (`loud_syncCatalog`).  With what
the first sync leaves this says when syncing is idempotent: if and only if every entry of the feed is
stable (`sync_idempotent_iff`).  A price with more than six places is not. -/

namespace VibeRouter

open Effects

namespace Catalog

section

variable [Formats] {db : CatalogDb} {entry : SyncedModel} {id : Uuid} {p : Pricing} {now : ℕ}
  {report : DiffReport} {L : CatalogDb → Uuid → Option PriceRow → Prop} {feed : Feed}

/-! ### Where everything is settled -/

/-- A report of no change. -/
structure Quiet (report : DiffReport) : Prop where
  added : report.added = []
  updated : report.updated = []
  pricingChanged : report.pricingChanged = []
  deprecated : report.deprecated = []

/-- Whatever fails, the tables are never anything but `db`, and nothing is reported as changed. -/
abbrev Idle {α : Type} (c : Sync α) (db : CatalogDb) (report : DiffReport) : Prop :=
  c.wp surroundings (fun q _ => q = db) (fun _ report' q => q = db ∧ Quiet report') report db

theorem idle_syncPrice {known : Bool} (hprice : PriceSettled db id entry.pricing) (hquiet : Quiet report) :
    Idle (syncPrice entry known id now) db report := by
  unfold Idle syncPrice
  have hstill : Idle (Job.note fun r =>
      if known && !r.updated.contains entry.canonicalId && !r.added.contains entry.canonicalId then
        { r with unchanged := r.unchanged + 1 }
      else r) db report := by
    refine ⟨rfl, ?_⟩
    show Quiet (if _ then _ else report)
    split
    · exact ⟨hquiet.added, hquiet.updated, hquiet.pricingChanged, hquiet.deprecated⟩
    · exact hquiet
  unfold appendPricingIfChanged Job.await Job.op
  simp only [Code.wp_bind, Code.wp_perform, Code.wp_ofExcept]
  refine ⟨trivial, ?_⟩
  rintro (err | latest) hlatest
  · exact ⟨rfl, hquiet⟩
  show Code.wp surroundings _ _ _ report db
  split
  · exact hstill
  · next hgo =>
    rw [Bool.or_eq_true, Bool.not_eq_true', Bool.not_eq_true', not_or] at hgo
    simp only [Code.wp_bind, Code.wp_perform, Code.wp_ofExcept]
    refine ⟨trivial, ?_⟩
    rintro (err | u) hanswer
    · exact ⟨rfl, hquiet⟩
    · rcases hprice with hnone | hrefused | hcurrent
      · exact absurd hnone hgo.2
      · exact absurd (hrefused id now) hanswer.1
      · have hsame := hcurrent latest hlatest
        unfold current at hsame
        cases latest with
        | none => cases hsame
        | some row =>
            rw [Option.any_some, Bool.not_eq_true'] at hsame
            exact absurd hsame hgo.1

theorem idle_syncOneModel (hsettled : Settled db entry) (hquiet : Quiet report) :
    Idle (syncOneModel entry (db.listed entry.canonicalId) now) db report := by
  unfold Settled at hsettled
  generalize db.listed entry.canonicalId = current at hsettled ⊢
  unfold Idle syncOneModel
  cases current with
  | none =>
      have hinert : Inert entry := hsettled
      dsimp only
      split
      · exact ⟨rfl, hquiet.added, hquiet.updated, hquiet.pricingChanged, hquiet.deprecated⟩
      · next c hc =>
        unfold Job.await Job.op
        simp only [Code.wp_bind, Code.wp_perform, Code.wp_ofExcept]
        refine ⟨trivial, ?_⟩
        rintro (err | id) hanswer
        · exact ⟨rfl, hquiet⟩
        · rcases hanswer with ⟨row, hrow, -⟩ | ⟨found, ⟨id', row, hrow, -⟩, -⟩
          · rw [hinert c hc id] at hrow
            cases hrow
          · rw [hinert c hc id'] at hrow
            cases hrow
  | some row =>
      dsimp only
      split
      · exact ⟨rfl, hquiet.added, hquiet.updated, hquiet.pricingChanged, hquiet.deprecated⟩
      · next hsource =>
        rcases hsettled with hcustom | ⟨hchanged, hrefused⟩ | ⟨hsame, hprice⟩
        · exact absurd hcustom hsource
        · rw [if_pos hchanged]
          unfold Job.await Job.op
          simp only [Code.wp_bind, Code.wp_perform, Code.wp_ofExcept]
          refine ⟨trivial, ?_⟩
          rintro (err | u) hanswer
          · exact ⟨rfl, hquiet⟩
          · exact absurd hrefused hanswer
        · rw [if_neg (by rw [hsame]; decide)]
          exact idle_syncPrice hprice hquiet

/-- An entry that is settled is passed over by the loop. -/
theorem idle_handle (hsettled : Settled db entry) (hquiet : Quiet report) :
    ((syncOneModel entry (db.listed entry.canonicalId) now).handle fun err => Job.note fun r =>
      { r with skipped := r.skipped ++ [entry.canonicalId ++ js (" (" ++ messageOf err ++ ")")] }).wp
      surroundings (fun q _ => q = db) (fun r report' q => r.isOk = true ∧ q = db ∧ Quiet report')
      report db := by
  rw [Code.wp_handle]
  refine Code.wp_mono (idle_syncOneModel hsettled hquiet) ?_
  rintro (err | u) report' q ⟨rfl, hquiet'⟩
  · exact ⟨rfl, rfl, hquiet'.added, hquiet'.updated, hquiet'.pricingChanged, hquiet'.deprecated⟩
  · exact ⟨rfl, rfl, hquiet'⟩

theorem idle_syncEntries {byCanonical : JsMap JsString CatalogModel} {entries : List SyncedModel}
    (hlisted : ∀ entry ∈ entries, byCanonical.get entry.canonicalId = db.listed entry.canonicalId)
    (hsettled : ∀ entry ∈ entries, Settled db entry) (hquiet : Quiet report) :
    Idle (syncEntries byCanonical now entries) db report := by
  induction entries generalizing report with
  | nil => exact ⟨rfl, hquiet⟩
  | cons entry rest ih =>
      rw [List.forall_mem_cons] at hlisted hsettled
      unfold Idle syncEntries
      rw [hlisted.1, Code.wp_bind]
      refine Code.wp_mono (idle_handle hsettled.1 hquiet) ?_
      rintro (err | u) report' q ⟨hok, rfl, hquiet'⟩
      · cases hok
      · exact ih hlisted.2 hsettled.2 hquiet'

/-- Nothing has vanished where the feed has been synced. -/
theorem vanished_eq_nil
    (hflagged : ∀ row ∈ db.models, row.source = .synced → row.status = .active →
      js row.canonicalId ∈ (entriesOf feed).map SyncedModel.canonicalId)
    {existing : List CatalogModel} (hperm : existing.Perm db.models) :
    vanished existing ((entriesOf feed).map SyncedModel.canonicalId) = [] := by
  apply List.filter_eq_nil_iff.2
  intro row hrow hcond
  simp only [Bool.and_eq_true, beq_iff_eq, Bool.not_eq_true'] at hcond
  obtain ⟨⟨hsource, hstatus⟩, hnot⟩ := hcond
  have hmem := hflagged row (hperm.mem_iff.1 hrow) hsource hstatus
  rw [List.contains_iff_mem.2 hmem] at hnot
  cases hnot

theorem idle_syncCatalog (hkeyed : db.Keyed) (hsettled : ∀ entry ∈ entriesOf feed, Settled db entry)
    (hflagged : ∀ row ∈ db.models, row.source = .synced → row.status = .active →
      js row.canonicalId ∈ (entriesOf feed).map SyncedModel.canonicalId) :
    Idle (syncCatalog feed now) db {} := by
  unfold Idle syncCatalog Job.note
  rw [Code.wp_bind, Code.wp_write]
  unfold Job.await Job.op
  simp only [Code.wp_bind, Code.wp_perform, Code.wp_ofExcept]
  refine ⟨trivial, ?_⟩
  rintro (err | existing) hperm
  · exact ⟨rfl, rfl, rfl, rfl, rfl⟩
  refine Code.wp_mono (idle_syncEntries (fun entry _ => get_listing hkeyed hperm entry.canonicalId)
    hsettled ⟨rfl, rfl, rfl, rfl⟩) ?_
  rintro (err | u) report' q ⟨rfl, hquiet⟩
  · exact ⟨rfl, hquiet⟩
  · show Code.wp surroundings _ (if List.isEmpty (vanished existing ((entriesOf feed).map
      SyncedModel.canonicalId)) = true then _ else _) _ _ _
    rw [vanished_eq_nil hflagged hperm]
    exact ⟨rfl, hquiet⟩

/-! ### Where something is not settled -/

variable {V : Env CatalogOp CatalogOp.Answer CatalogDb}

/-- However it ends, some change has been reported. -/
abbrev Loud {α : Type} (V : Env CatalogOp CatalogOp.Answer CatalogDb) (c : Sync α) (db : CatalogDb)
    (report : DiffReport) : Prop :=
  c.wp V (fun _ _ => True) (fun _ report' _ => ¬ Quiet report') report db

omit [Formats] in
/-- What is counted or skipped makes no change. -/
theorem not_quiet_note {report' : DiffReport} (hloud : ¬ Quiet report) (hadded : report'.added = report.added)
    (hupdated : report'.updated = report.updated)
    (hpricing : report'.pricingChanged = report.pricingChanged)
    (hdeprecated : report'.deprecated = report.deprecated) : ¬ Quiet report' := fun h =>
  hloud ⟨hadded ▸ h.added, hupdated ▸ h.updated, hpricing ▸ h.pricingChanged, hdeprecated ▸ h.deprecated⟩

/-- A price unlike the one of the entry is found before others. -/
def Avoids (p : Pricing) (db : CatalogDb) (id : Uuid) (latest : Option PriceRow) : Prop :=
  ∀ latest', db.LatestPrice id latest' → current p latest' = false → current p latest = false

theorem loud_syncPrice {known : Bool} (hloud : ¬ Quiet report) :
    Loud V (syncPrice entry known id now) db report := by
  unfold Loud syncPrice appendPricingIfChanged Job.await Job.op
  simp only [Code.wp_bind, Code.wp_perform, Code.wp_ofExcept]
  refine ⟨trivial, ?_⟩
  rintro (err | latest) -
  · exact hloud
  show Code.wp V _ _ _ report _
  split
  · show ¬ Quiet (if _ then _ else report)
    split
    · exact not_quiet_note hloud rfl rfl rfl rfl
    · exact hloud
  · simp only [Code.wp_bind, Code.wp_perform, Code.wp_ofExcept]
    refine ⟨trivial, ?_⟩
    rintro (err | u) -
    · exact hloud
    · exact fun h => List.append_ne_nil_of_right_ne_nil _ (List.cons_ne_nil _ _) h.pricingChanged

/-- A price that is not settled is appended, where a price unlike it is found. -/
theorem loud_unsettledPrice {known : Bool} (hrow : (db.findById id).isSome)
    (hprice : ¬ PriceSettled db id entry.pricing) :
    Loud (reading (Avoids entry.pricing)) (syncPrice entry known id now) db report := by
  unfold PriceSettled at hprice
  rw [not_or, not_or, Bool.not_eq_false] at hprice
  obtain ⟨hany, htaken, hother⟩ := hprice
  obtain ⟨latest', hother⟩ := not_forall.1 hother
  rw [Classical.not_imp, Bool.not_eq_true] at hother
  unfold Loud syncPrice appendPricingIfChanged Job.await Job.op
  simp only [Code.wp_bind, Code.wp_perform, Code.wp_ofExcept]
  refine ⟨trivial, ?_⟩
  rintro (err | latest) ⟨⟨-, hreliable⟩, hread⟩
  · exact hreliable.elim
  have hdiffers : current entry.pricing latest = false := hread latest' hother.1 hother.2
  have hgo : ((!latest.all fun row => pricesDiffer row entry.pricing) || !hasAnyPrice entry.pricing) =
      false := by
    rw [hany]
    unfold current at hdiffers
    cases latest with
    | none => rfl
    | some row =>
        rw [Option.any_some] at hdiffers
        rw [Option.all_some, hdiffers]
        rfl
  show Code.wp _ _ (if _ = true then _ else _) _ report db
  rw [if_neg (by rw [hgo]; decide)]
  simp only [Code.wp_bind, Code.wp_perform, Code.wp_ofExcept]
  refine ⟨trivial, ?_⟩
  rintro (err | u) ⟨⟨-, hreliable⟩, -⟩
  · rcases hreliable with hrefused | hmissing
    · exact absurd (refused_of_none hrefused) htaken
    · rw [hmissing] at hrow
      cases hrow
  · exact fun h => List.append_ne_nil_of_right_ne_nil _ (List.cons_ne_nil _ _) h.pricingChanged

theorem loud_syncOneModel {current : Option CatalogModel} (hloud : ¬ Quiet report) :
    Loud V (syncOneModel entry current now) db report := by
  unfold Loud syncOneModel Job.await Job.op Job.note
  cases current with
  | none =>
      dsimp only
      split
      · exact not_quiet_note hloud rfl rfl rfl rfl
      · simp only [Code.wp_bind, Code.wp_perform, Code.wp_ofExcept, Code.wp_write]
        refine ⟨trivial, ?_⟩
        rintro (err | id) -
        · exact hloud
        · refine loud_syncPrice fun h => ?_
          exact List.append_ne_nil_of_right_ne_nil _ (List.cons_ne_nil _ _) h.added
  | some row =>
      dsimp only
      split
      · exact not_quiet_note hloud rfl rfl rfl rfl
      · split
        · simp only [Code.wp_bind, Code.wp_perform, Code.wp_ofExcept, Code.wp_write]
          refine ⟨trivial, ?_⟩
          rintro (err | u) -
          · exact hloud
          · refine loud_syncPrice fun h => ?_
            exact List.append_ne_nil_of_right_ne_nil _ (List.cons_ne_nil _ _) h.updated
        · exact loud_syncPrice hloud

/-- An entry that is not settled is reported. -/
theorem loud_unsettled (hkeyed : db.Keyed) (hsettled : ¬ Settled db entry) :
    Loud (reading (Avoids entry.pricing)) (syncOneModel entry (db.listed entry.canonicalId) now) db
      report := by
  unfold Settled at hsettled
  generalize hcurrent : db.listed entry.canonicalId = current at hsettled ⊢
  unfold Loud syncOneModel Job.await Job.op Job.note
  cases current with
  | none =>
      have hnot : ¬ Inert entry := hsettled
      dsimp only
      split
      · next hnone =>
        refine absurd (fun c hc => ?_) hnot
        rw [hnone] at hc
        cases hc
      · next c hc =>
        simp only [Code.wp_bind, Code.wp_perform, Code.wp_ofExcept, Code.wp_write]
        refine ⟨trivial, ?_⟩
        rintro (err | id) ⟨⟨-, hreliable⟩, -⟩
        · rcases hreliable with hset | hrefused
          · exact absurd (inert_of_set hc hset) hnot
          · refine absurd (fun c' hc' => ?_) hnot
            rw [hc] at hc'
            cases hc'
            exact hrefused
        · refine loud_syncPrice fun h => ?_
          exact List.append_ne_nil_of_right_ne_nil _ (List.cons_ne_nil _ _) h.added
  | some row =>
      obtain ⟨hrow, -⟩ := Rows.mem_of_find hcurrent
      have hthere : (db.findById row.id).isSome := by
        rw [show db.findById row.id = some row from Rows.find_of_mem hkeyed.ids hrow]
        rfl
      rw [not_or, not_or] at hsettled
      obtain ⟨hsource, hrefused, hsame⟩ := hsettled
      dsimp only
      rw [if_neg hsource]
      split
      · next hchanged =>
        simp only [Code.wp_bind, Code.wp_perform, Code.wp_ofExcept, Code.wp_write]
        refine ⟨trivial, ?_⟩
        rintro (err | u) ⟨⟨-, hreliable⟩, -⟩
        · exact absurd ⟨hchanged, hreliable⟩ hrefused
        · refine loud_syncPrice fun h => ?_
          exact List.append_ne_nil_of_right_ne_nil _ (List.cons_ne_nil _ _) h.updated
      · next hunchanged =>
        have hunchanged := Bool.eq_false_of_not_eq_true hunchanged
        exact loud_unsettledPrice hthere fun hprice => hsame ⟨hunchanged, hprice⟩

omit [Formats] in
/-- The loop goes on with a report of some change, however an entry ends. -/
theorem loud_handle {c : Sync Unit} (h : Loud V c db report) :
    Loud V (c.handle fun err => Job.note fun r =>
      { r with skipped := r.skipped ++ [entry.canonicalId ++ js (" (" ++ messageOf err ++ ")")] })
      db report := by
  unfold Loud
  rw [Code.wp_handle]
  refine Code.wp_mono h ?_
  rintro (err | u) report' q hloud
  · exact not_quiet_note hloud rfl rfl rfl rfl
  · exact hloud

theorem loud_syncEntries {byCanonical : JsMap JsString CatalogModel} {entries : List SyncedModel}
    (hloud : ¬ Quiet report) : Loud V (syncEntries byCanonical now entries) db report := by
  induction entries generalizing report db with
  | nil => exact hloud
  | cons entry rest ih =>
      unfold Loud syncEntries
      rw [Code.wp_bind]
      refine Code.wp_mono (loud_handle (loud_syncOneModel hloud)) ?_
      rintro (err | u) report' q hloud'
      · exact hloud'
      · exact ih hloud'

/-- The entries in front of the first one that is not settled are passed over, and that one is reported. -/
theorem loud_loop {entries : List SyncedModel} (hkeyed : db.Keyed)
    (hsome : ∃ entry ∈ entries, ¬ Settled db entry) :
    ∃ p, ∀ (byCanonical : JsMap JsString CatalogModel) (report : DiffReport),
      (∀ entry ∈ entries, byCanonical.get entry.canonicalId = db.listed entry.canonicalId) →
      Quiet report → Loud (reading (Avoids p)) (syncEntries byCanonical now entries) db report := by
  induction entries with
  | nil =>
      obtain ⟨entry, hentry, -⟩ := hsome
      cases hentry
  | cons entry rest ih =>
      by_cases hsettled : Settled db entry
      · have hlater : ∃ e ∈ rest, ¬ Settled db e := by
          obtain ⟨e, he, hnot⟩ := hsome
          rcases List.mem_cons.1 he with rfl | he
          · exact absurd hsettled hnot
          · exact ⟨e, he, hnot⟩
        obtain ⟨p, hrest⟩ := ih hlater
        refine ⟨p, fun byCanonical report hlisted hquiet => ?_⟩
        rw [List.forall_mem_cons] at hlisted
        unfold Loud syncEntries
        rw [hlisted.1, Code.wp_bind]
        have hallows : ∀ q e r, (reading (Avoids p)).allows q e r → surroundings.allows q e r :=
          fun _ _ _ h => h.1.1
        refine Code.wp_mono (Code.wp_narrow hallows rfl (fun _ _ _ => trivial)
          (idle_handle hsettled hquiet)) ?_
        rintro (err | u) report' q ⟨hok, rfl, hquiet'⟩
        · cases hok
        · exact hrest byCanonical report' hlisted.2 hquiet'
      · refine ⟨entry.pricing, fun byCanonical report hlisted _ => ?_⟩
        unfold Loud syncEntries
        rw [hlisted entry List.mem_cons_self, Code.wp_bind]
        refine Code.wp_mono (loud_handle (loud_unsettled hkeyed hsettled)) ?_
        rintro (err | u) report' q hloud
        · exact hloud
        · exact loud_syncEntries hloud

/-- A sync in tables in which some entry is not settled reports a change in some runs. -/
theorem loud_syncCatalog (hkeyed : db.Keyed) (hsome : ∃ entry ∈ entriesOf feed, ¬ Settled db entry) :
    ∃ p, Loud (reading (Avoids p)) (syncCatalog feed now) db {} := by
  obtain ⟨p, hloop⟩ := loud_loop hkeyed hsome
  refine ⟨p, ?_⟩
  unfold Loud syncCatalog Job.note
  rw [Code.wp_bind, Code.wp_write]
  unfold Job.await Job.op
  simp only [Code.wp_bind, Code.wp_perform, Code.wp_ofExcept]
  refine ⟨trivial, ?_⟩
  rintro (err | existing) ⟨⟨hanswer, hreliable⟩, -⟩
  · exact hreliable.elim
  have hperm : existing.Perm db.models := hanswer
  refine Code.wp_mono (hloop _ _ (fun entry _ => get_listing hkeyed hperm entry.canonicalId)
    ⟨rfl, rfl, rfl, rfl⟩) ?_
  rintro (err | u) report' q hloud
  · exact hloud
  · show Code.wp (reading (Avoids p)) _ (if List.isEmpty (vanished existing ((entriesOf feed).map
      SyncedModel.canonicalId)) = true then _ else _) _ _ _
    split
    · exact hloud
    · simp only [Code.wp_bind, Code.wp_perform, Code.wp_ofExcept, Code.wp_write]
      refine ⟨trivial, ?_⟩
      rintro (err | u) -
      · exact hloud
      · exact fun h => hloud ⟨h.added, h.updated, h.pricingChanged, (List.append_eq_nil_iff.1 h.deprecated).1⟩

/-! ### Runs -/

theorem toRow_anyId {v : ModelValues} {row : CatalogModel} (h : v.toRow id = some row) (id' : Uuid) :
    v.toRow id' = some { row with id := id' } := by
  unfold ModelValues.toRow at h ⊢
  obtain ⟨canonicalId, hcanonical, h⟩ := Option.bind_eq_some_iff.1 h
  obtain ⟨providerKind, hkind, h⟩ := Option.bind_eq_some_iff.1 h
  obtain ⟨displayName, hname, h⟩ := Option.bind_eq_some_iff.1 h
  obtain ⟨contextWindow, hcontext, h⟩ := Option.bind_eq_some_iff.1 h
  obtain ⟨maxOutput, hmax, h⟩ := Option.bind_eq_some_iff.1 h
  obtain ⟨deprecationDate, hdate, h⟩ := Option.bind_eq_some_iff.1 h
  cases Option.some.inj h
  simp [hcanonical, hkind, hname, hcontext, hmax, hdate]

omit [Formats] in
/-- There is always an id that no row has. -/
theorem exists_freeId (db : CatalogDb) : ∃ id, db.findById id = none := by
  have hwf : ∀ n, (String.ofList (List.replicate n 'a')).toList.all isHexChar = true := by
    intro n
    rw [String.toList_ofList, List.all_eq_true]
    intro c hc
    rw [List.eq_of_mem_replicate hc]
    decide
  have hinfinite : Infinite Uuid := by
    refine Infinite.of_injective (fun n : ℕ => ⟨String.ofList (List.replicate n 'a'), hwf n⟩) ?_
    intro n m h
    have htext := congrArg (fun u : HexText => u.text.toList.length) h
    simpa using htext
  obtain ⟨id, hid⟩ := Infinite.exists_notMem_finset (db.models.map CatalogModel.id).toFinset
  refine ⟨id, Rows.find_eq_none_iff.2 fun row hrow heq => hid ?_⟩
  rw [List.mem_toFinset, ← heq]
  exact List.mem_map_of_mem hrow

/-- Every statement has an answer without an unreliable failure. -/
theorem exists_answer (hL : ∀ db id, ∃ latest, db.LatestPrice id latest ∧ L db id latest) (db : CatalogDb)
    (e : CatalogOp) : ∃ r, (reading L).allows db e r := by
  cases e with
  | findModels => exact ⟨.ok db.models, ⟨List.Perm.refl _, trivial⟩, trivial⟩
  | latestPrice id =>
      obtain ⟨latest, hlatest, hread⟩ := hL db id
      exact ⟨.ok latest, ⟨hlatest, trivial⟩, hread⟩
  | deprecateModels ids => exact ⟨.ok (), ⟨trivial, trivial⟩, trivial⟩
  | updateModel id set =>
      by_cases hset : set.change = none
      · exact ⟨.error .other, ⟨trivial, hset⟩, trivial⟩
      · exact ⟨.ok (), ⟨hset, trivial⟩, trivial⟩
  | insertPrice v =>
      by_cases htaken : v.toRow ≠ none ∧ (db.findById v.modelId).isSome
      · exact ⟨.ok (), ⟨htaken, trivial⟩, trivial⟩
      · refine ⟨.error .other, ⟨trivial, ?_⟩, trivial⟩
        rw [not_and_or, not_ne_iff, Option.not_isSome_iff_eq_none] at htaken
        exact htaken
  | insertOrUpdate v set =>
      by_cases hrefused : ∀ id, v.toRow id = none
      · exact ⟨.error .other, ⟨trivial, Or.inr hrefused⟩, trivial⟩
      obtain ⟨id, hid⟩ := not_forall.1 hrefused
      obtain ⟨row, hrow⟩ := Option.ne_none_iff_exists'.1 hid
      obtain ⟨free, hfree⟩ := exists_freeId db
      have hnew := toRow_anyId hrow free
      cases hfind : db.findModel row.canonicalId with
      | none => exact ⟨.ok free, ⟨Or.inl ⟨_, hnew, hfree, hfind⟩, trivial⟩, trivial⟩
      | some found =>
          by_cases hset : set.change = none
          · exact ⟨.error .other, ⟨trivial, Or.inl hset⟩, trivial⟩
          · exact ⟨.ok found.id, ⟨Or.inr ⟨found, ⟨id, row, hrow, hfind⟩, rfl, hset⟩, trivial⟩, trivial⟩
  | now => exact ⟨0, ⟨trivial, trivial⟩, trivial⟩
  | _ => exact ⟨.error .other, ⟨trivial, trivial⟩, trivial⟩

omit [Formats] in
/-- Of the prices that may be found to be the latest, one with a property if there is such a one. -/
theorem exists_latest (db : CatalogDb) (id : Uuid) (P : Option PriceRow → Prop) :
    ∃ latest, db.LatestPrice id latest ∧ ∀ latest', db.LatestPrice id latest' → P latest' → P latest := by
  by_cases hsome : ∃ latest, db.LatestPrice id latest ∧ P latest
  · obtain ⟨latest, hlatest, hP⟩ := hsome
    exact ⟨latest, hlatest, fun _ _ _ => hP⟩
  · exact ⟨_, db.latestPrice_argmax id, fun latest' hlatest hP => absurd ⟨latest', hlatest, hP⟩ hsome⟩

/-- A sync comes to its end in runs that read what `L` names. -/
theorem exists_sync (hL : ∀ db id, ∃ latest, db.LatestPrice id latest ∧ L db id latest) (feed : Feed)
    (now : ℕ) (db : CatalogDb) : ∃ result db',
      Prog.Run (reading L) (syncCatalog feed now {}) db (.ret result) db' ∧
        Prog.Run reliably (syncCatalog feed now {}) db (.ret result) db' := by
  obtain ⟨result, db', hrun⟩ := Prog.exists_run (exists_answer hL) (syncCatalog feed now {}) db
  have hallows : ∀ q e r, (reading L).allows q e r → reliably.allows q e r := fun _ _ _ h => h.1
  exact ⟨result, db', hrun, hrun.widen hallows rfl⟩

/-- What a sync leaves, in every run in which a statement fails only when a column does not take a value. -/
theorem synced_of_run (htext : ∀ entry ∈ entriesOf feed, Textual entry ∨ Inert entry) (hkeyed : db.Keyed)
    (hlinked : db.Linked) {first : Except Thrown Unit × DiffReport} {db' : CatalogDb}
    (hfirst : Prog.Run reliably (syncCatalog feed now {}) db (.ret first) db') :
    Synced CatalogDb.LatestPrice feed now db db' := by
  have hallows : ∀ q e r, reliably.allows q e r → (reading CatalogDb.LatestPrice).allows q e r := by
    intro q e r h
    refine ⟨h, ?_⟩
    cases e with
    | latestPrice id =>
        cases r with
        | error err => trivial
        | ok latest => exact h.1
    | _ => trivial
  exact Prog.wp_run (wp_syncCatalog {} htext hkeyed hlinked) (hfirst.widen hallows rfl)

/-! ### Two syncs -/

/-- Of two syncs of a feed whose statements fail only when a column does not take a value, the second one
changes no table and reports nothing added, updated, repriced or deprecated. -/
def Idempotent (feed : Feed) (now now' : ℕ) (db : CatalogDb) : Prop :=
  ∀ first db', Prog.Run reliably (syncCatalog feed now {}) db (.ret first) db' →
    ∀ second db'', Prog.Run reliably (syncCatalog feed now' {}) db' (.ret second) db'' →
      db'' = db' ∧ Quiet second.2

/-- After a sync of stable entries another one never changes a table, whatever fails in it. -/
theorem resync_idle {now' : ℕ} (hkeyed : db.Keyed) (hlinked : db.Linked)
    (hstable : ∀ entry ∈ entriesOf feed, Stable db now entry)
    {first : Except Thrown Unit × DiffReport} {db' db'' : CatalogDb}
    (hfirst : Prog.Run reliably (syncCatalog feed now {}) db (.ret first) db')
    {p : Prog CatalogOp CatalogOp.Answer (Except Thrown Unit × DiffReport)}
    (hsecond : Prog.Run surroundings (syncCatalog feed now' {}) db' p db'') :
    db'' = db' ∧ ∀ second, p = .ret second → Quiet second.2 := by
  have htext : ∀ entry ∈ entriesOf feed, Textual entry ∨ Inert entry := by
    intro entry hentry
    have h := hstable entry hentry
    unfold Stable at h
    cases hrow : db.listed entry.canonicalId with
    | none =>
        rw [hrow] at h
        rcases h with hinert | ⟨htextual, -⟩
        · exact Or.inr hinert
        · exact Or.inl htextual
    | some row => exact Or.inl ⟨row.canonicalId, (Rows.mem_of_find hrow).2.symm⟩
  have hsynced := synced_of_run htext hkeyed hlinked hfirst
  have hrest := Prog.wp_run (idle_syncCatalog hsynced.keyed
    (fun entry hentry => (hsynced.handled entry hentry).settled (hstable entry hentry)) hsynced.flagged)
    hsecond
  cases p with
  | ret second =>
      refine ⟨hrest.1, ?_⟩
      rintro second' heq
      cases heq
      exact hrest.2
  | call e k =>
      refine ⟨hrest.1, ?_⟩
      rintro second heq
      cases heq

/-- Where syncing is idempotent, a sync leaves every entry settled. -/
theorem Idempotent.settled {now' : ℕ} (h : Idempotent feed now now' db) (hkeyed : db.Keyed)
    {first : Except Thrown Unit × DiffReport} {db' : CatalogDb}
    (hfirst : Prog.Run reliably (syncCatalog feed now {}) db (.ret first) db') :
    ∀ entry ∈ entriesOf feed, Settled db' entry := by
  by_contra hsome
  have hkeyed' : db'.Keyed := hfirst.preserves (fun q e r hq hans => hq.after hans.1) hkeyed
  obtain ⟨entry, hentry⟩ := not_forall.1 hsome
  have hchanges : ∃ p, Loud (reading (Avoids p)) (syncCatalog feed now') db' {} :=
    loud_syncCatalog hkeyed' ⟨entry, Classical.not_imp.1 hentry⟩
  obtain ⟨p, hloud⟩ := hchanges
  have hL : ∀ q id, ∃ latest, CatalogDb.LatestPrice q id latest ∧ Avoids p q id latest := fun q id =>
    exists_latest q id fun latest => current p latest = false
  obtain ⟨second, db'', hread, hsecond⟩ := exists_sync hL feed now' db'
  exact Prog.wp_run hloud hread (h first db' hfirst second db'' hsecond).2

/-- **When syncing is idempotent.**  A second sync of a feed changes no table and reports no change if and
only if every entry is stable; it then changes none at any point of its run, whatever fails in it. -/
theorem sync_idempotent_iff (feed : Feed) (now now' : ℕ) (hkeyed : db.Keyed) (hlinked : db.Linked) :
    (Idempotent feed now now' db ↔ ∀ entry ∈ entriesOf feed, Stable db now entry) ∧
      ((∀ entry ∈ entriesOf feed, Stable db now entry) → ∀ first db',
        Prog.Run reliably (syncCatalog feed now {}) db (.ret first) db' →
        ∀ p db'', Prog.Run surroundings (syncCatalog feed now' {}) db' p db'' →
          db'' = db' ∧ ∀ second, p = .ret second → Quiet second.2) := by
  refine ⟨⟨fun h => ?_, fun hstable first db' hfirst second db'' hsecond => ?_⟩,
    fun hstable first db' hfirst p db'' hsecond => resync_idle hkeyed hlinked hstable hfirst hsecond⟩
  · have hL : ∀ p q id, ∃ latest, CatalogDb.LatestPrice q id latest ∧ Prefers p q id latest := fun p q id =>
      exists_latest q id fun latest => current p latest = true
    have htext : ∀ entry ∈ entriesOf feed, Textual entry ∨ Inert entry := by
      intro entry hentry
      obtain ⟨first, db', -, hfirst⟩ := exists_sync (hL entry.pricing) feed now db
      have hsettled := h.settled hkeyed hfirst entry hentry
      unfold Settled at hsettled
      cases hrow : db'.listed entry.canonicalId with
      | none =>
          rw [hrow] at hsettled
          exact Or.inr hsettled
      | some row => exact Or.inl ⟨row.canonicalId, (Rows.mem_of_find hrow).2.symm⟩
    intro entry hentry
    obtain ⟨first, db', hread, hfirst⟩ := exists_sync (hL entry.pricing) feed now db
    have hsynced := Prog.wp_run (wp_syncCatalog (L := Prefers entry.pricing) {} htext hkeyed hlinked) hread
    exact (hsynced.handled entry hentry).stable (h.settled hkeyed hfirst entry hentry)
  · have hallows : ∀ q e r, reliably.allows q e r → surroundings.allows q e r := fun _ _ _ h => h.1
    have hsecond' : Prog.Run surroundings (syncCatalog feed now' {}) db' (.ret second) db'' :=
      hsecond.widen hallows rfl
    obtain ⟨hsame, hquiet⟩ := resync_idle hkeyed hlinked hstable hfirst hsecond'
    exact ⟨hsame, hquiet second rfl⟩

/-! ### Evaluating what is stable -/

omit [Formats] in
theorem forall_latest_iff {P : Option PriceRow → Prop} : (∀ latest, db.LatestPrice id latest → P latest) ↔
    ((∀ p ∈ db.modelPricing, p.modelId ≠ id) → P none) ∧
      ∀ row ∈ db.modelPricing, (row.modelId = id ∧
        ∀ p ∈ db.modelPricing, p.modelId = id → p.effectiveFrom ≤ row.effectiveFrom) → P (some row) := by
  constructor
  · exact fun h => ⟨fun hnone => h none hnone, fun row hrow hlatest => h (some row) ⟨hrow, hlatest⟩⟩
  · rintro ⟨hnone, hsome⟩ (- | row) hlatest
    · exact hnone hlatest
    · exact hsome row hlatest.1 hlatest.2

/-- An id to ask the columns with. -/
def anyId : Uuid := ⟨"00000000-0000-4000-8000-000000000000", by decide⟩

instance : Decidable (Inert entry) :=
  decidable_of_iff (∀ c ∈ entry.contextWindow, (entry.values c).toRow anyId = none) (by
    constructor
    · intro h c hc id
      by_contra hsome
      obtain ⟨row, hrow⟩ := Option.ne_none_iff_exists'.1 hsome
      have hnone := h c hc
      rw [toRow_anyId hrow anyId] at hnone
      cases hnone
    · exact fun h c hc => h c hc anyId)

instance : Decidable (Textual entry) :=
  decidable_of_iff (js (Utf8.text entry.canonicalId) = entry.canonicalId) (by
    constructor
    · exact fun h => ⟨_, h.symm⟩
    · rintro ⟨t, ht⟩
      rw [ht, Utf8.text_js])

instance : Decidable (DateKept entry) :=
  decidable_of_iff (∀ t ∈ entry.deprecationDate, ∀ d ∈ Formats.date t, js d = t)
    ⟨fun h t d ht hd => h t ht d hd, fun h t ht d hd => h t d ht hd⟩

instance : Decidable (Refused p) :=
  decidable_of_iff ((⟨anyId, 0, p⟩ : PriceValues).toRow = none)
    ⟨refused_of_none, fun h => h anyId 0⟩

instance : Decidable (RatesKept p) :=
  decidable_of_iff (∀ row ∈ (⟨anyId, 0, p⟩ : PriceValues).toRow, pricesDiffer row p = false) (by
    constructor
    · intro h id now row hrow
      exact ratesKept_of_stored (toRow_rates hrow anyId 0) (h _ (toRow_rates hrow anyId 0)) id now row hrow
    · exact fun h row hrow => h anyId 0 row hrow)

instance {P : Option PriceRow → Prop} [DecidablePred P] :
    Decidable (∀ latest, db.LatestPrice id latest → P latest) :=
  decidable_of_iff _ forall_latest_iff.symm

instance : Decidable (PriceSettled db id p) :=
  inferInstanceAs (Decidable (hasAnyPrice p = false ∨ Refused p ∨
    ∀ latest, db.LatestPrice id latest → current p latest = true))

instance : Decidable (PriceStable db now id p) :=
  inferInstanceAs (Decidable (PriceSettled db id p ∨ (RatesKept p ∧ ∀ latest, db.LatestPrice id latest →
    current p latest = false ∧ ∀ row ∈ latest, row.effectiveFrom < now)))

instance : Decidable (Stable db now entry) :=
  match hrow : db.listed entry.canonicalId with
  | none => decidable_of_iff (Inert entry ∨ (Textual entry ∧ DateKept entry ∧ RatesKept entry.pricing)) (by
      unfold Stable
      rw [hrow])
  | some row => decidable_of_iff (row.source = .custom ∨
      (changed entry row = true ∧ (entry.set row).change.isNone = true) ∨
      ((changed entry row = true → DateKept entry) ∧ PriceStable db now row.id entry.pricing)) (by
      unfold Stable
      rw [hrow]
      simp only [Option.isNone_iff_eq_none])

end

/-! ### Feeds of three models and of one -/

/-- A number with at most twelve places as a text. -/
def decimalText (x : ℚ) : String :=
  let units := (x * 10 ^ 12).num.natAbs
  let places := ((toString (10 ^ 12 + units % 10 ^ 12)).toList.drop 1).reverse.dropWhile (· = '0')
  toString (units / 10 ^ 12) ++
    if places.isEmpty then "" else String.ofList ('.' :: places.reverse)

local instance decimalFormats : Formats := { dollarFormats with text := fun x => js (decimalText x) }

/-- A price in places that the columns do not have: 0.1234567891 for a million tokens. -/
def costlyEntry : Json :=
  .obj [(js "litellm_provider", .str (js "anthropic")), (js "max_tokens", .num 150000),
    (js "input_cost_per_token", .num (1234567891 / 10 ^ 16))]

def costlyFeed : Feed where
  entries := [(js "claude-haiku", costlyEntry)]
  nodup := by decide

/-- The latest price of the first model is not the feed's any more, and the second model is gone. -/
def staleDb : CatalogDb := { models := [opusRow, goneRow], modelPricing := [opusPrice] }

def carryOut (db : CatalogDb) (e : CatalogOp) : e.Answer × CatalogDb :=
  (reply standing db e, db.after e (reply standing db e))

def syncAt (feed : Feed) (now : ℕ) (db : CatalogDb) : (Except Thrown Unit × DiffReport) × CatalogDb :=
  (syncCatalog feed now {}).eval carryOut db

/-- No statement of a sync has failed. -/
def succeeded : (e : CatalogOp) → e.Answer → Bool
  | .findModels, .error _ => false
  | .latestPrice _, .error _ => false
  | .deprecateModels _, .error _ => false
  | .updateModel _ _, .error _ => false
  | .insertOrUpdate _ _, .error _ => false
  | .insertPrice _, .error _ => false
  | _, _ => true

theorem reliable_of_succeeded {db : CatalogDb} {e : CatalogOp} {r : e.Answer} (h : succeeded e r = true) :
    Reliable db e r := by
  cases e with
  | findModels | latestPrice | deprecateModels | updateModel | insertOrUpdate | insertPrice =>
      cases r with
      | error err => cases h
      | ok a => trivial
  | _ => trivial

theorem syncAt_run {feed : Feed} {now : ℕ} {db : CatalogDb}
    (h : (syncCatalog feed now {}).checked (fun q e => succeeded e (reply standing q e)) carryOut db = true) :
    Prog.Run reliably (syncCatalog feed now {}) db (.ret (syncAt feed now db).1) (syncAt feed now db).2 := by
  refine Prog.run_eval_of_checked (fun q e => succeeded e (reply standing q e)) ?_ _ _ h
  exact fun q e h => ⟨⟨q.answers_reply standing e, reliable_of_succeeded h⟩, rfl⟩

example : perMtok (1234567891 / 10 ^ 16) = js "0.1234567891" := by decide +kernel

example : perMtok (25 / 1000000) = js "25" := by decide +kernel

/-- Each sync of the price with ten places finds the stored one changed and appends it again. -/
theorem costly_repriced : ∃ first db second db',
    Prog.Run reliably (syncCatalog costlyFeed 7 {}) ⟨[], [], []⟩ (.ret first) db ∧
    Prog.Run reliably (syncCatalog costlyFeed 12 {}) db (.ret second) db' ∧
    second.2.pricingChanged = [js "anthropic/claude-haiku"] ∧
    db'.modelPricing.map PriceRow.inputPerMtok = [some 123457, some 123457] ∧
    ¬ Idempotent costlyFeed 7 12 ⟨[], [], []⟩ := by
  have hfirst : Prog.Run reliably (syncCatalog costlyFeed 7 {}) ⟨[], [], []⟩
      (.ret (syncAt costlyFeed 7 ⟨[], [], []⟩).1) (syncAt costlyFeed 7 ⟨[], [], []⟩).2 :=
    syncAt_run (by decide +kernel)
  have hsecond : Prog.Run reliably (syncCatalog costlyFeed 12 {}) (syncAt costlyFeed 7 ⟨[], [], []⟩).2
      (.ret (syncAt costlyFeed 12 (syncAt costlyFeed 7 ⟨[], [], []⟩).2).1)
      (syncAt costlyFeed 12 (syncAt costlyFeed 7 ⟨[], [], []⟩).2).2 :=
    syncAt_run (by decide +kernel)
  have hreported : (syncAt costlyFeed 12 (syncAt costlyFeed 7 ⟨[], [], []⟩).2).1.2.pricingChanged =
      [js "anthropic/claude-haiku"] := by
    decide +kernel
  refine ⟨_, _, _, _, hfirst, hsecond, hreported, by decide +kernel, fun h => ?_⟩
  have hquiet := (h _ _ hfirst _ _ hsecond).2.pricingChanged
  rw [hreported] at hquiet
  cases hquiet

/-- The first sync updates a model, adds one and two prices and flags the one that is gone; all entries are
stable, so the second one does nothing. -/
theorem stale_resynced :
    (syncAt smallFeed 7 staleDb).1.2 =
      { added := [js "anthropic/claude-haiku"], updated := [js opusKey],
        pricingChanged := [js opusKey, js "anthropic/claude-haiku"], deprecated := [js "anthropic/claude-2"],
        skipped := [js "openai/gpt-mini" ++
          js " (enrich-only: no context window published; awaiting discovery)"] } ∧
    Idempotent smallFeed 7 12 staleDb ∧
    (syncAt smallFeed 12 (syncAt smallFeed 7 staleDb).2).2 = (syncAt smallFeed 7 staleDb).2 ∧
    Quiet (syncAt smallFeed 12 (syncAt smallFeed 7 staleDb).2).1.2 := by
  have hfirst : Prog.Run reliably (syncCatalog smallFeed 7 {}) staleDb (.ret (syncAt smallFeed 7 staleDb).1)
      (syncAt smallFeed 7 staleDb).2 := syncAt_run (by decide +kernel)
  have hsecond : Prog.Run reliably (syncCatalog smallFeed 12 {}) (syncAt smallFeed 7 staleDb).2
      (.ret (syncAt smallFeed 12 (syncAt smallFeed 7 staleDb).2).1)
      (syncAt smallFeed 12 (syncAt smallFeed 7 staleDb).2).2 := syncAt_run (by decide +kernel)
  have hlinked : staleDb.Linked := by
    intro p hp
    rw [List.mem_singleton.1 hp]
    exact ⟨opusRow, List.mem_cons_self, rfl⟩
  have hidempotent : Idempotent smallFeed 7 12 staleDb :=
    (sync_idempotent_iff smallFeed 7 12 ⟨by decide, by decide⟩ hlinked).1.2 (by decide +kernel)
  obtain ⟨hsame, hquiet⟩ := hidempotent _ _ hfirst _ _ hsecond
  exact ⟨by decide +kernel, hidempotent, hsame, hquiet⟩

end Catalog

end VibeRouter
