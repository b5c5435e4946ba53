import VibeRouter.Catalog.Ownership
import VibeRouter.Lib.JsonLines

/-! # What operators have set

An edit writes the columns it names and appends its price (`wp_updateModel`).  After it, in whatever way
syncs, refreshes and discoveries interleave, the row of an operator stays as it is but for its tag, and a
discovered row that the feed does not have keeps the name, the context window and the output cap that the
edit has set, unless they were the placeholders of a discovery, and its prices until a source of prices
has another one (`operator_edits_survive`). -/

namespace VibeRouter

open Effects

namespace Catalog

/-! ### What an edit writes -/

/-- The row has what an edit sets. -/
structure Written (patch : UpdateModelInput) (row : CatalogModel) : Prop where
  displayName : ∀ name, patch.displayName = some name → row.displayName = Utf8.text name
  contextWindow : ∀ c, patch.contextWindow = some c → row.contextWindow = c
  maxOutput : ∀ m, patch.maxOutput = some m → row.maxOutput = m
  capabilities : ∀ caps, patch.capabilities = some caps → row.capabilityOverrides = caps

section
variable [Formats] {patch : UpdateModelInput} {db db' : CatalogDb} {modelId : Uuid} {row : CatalogModel}

/-- An update writes what the edit sets. -/
theorem written_of_change {f : CatalogModel → CatalogModel} (h : patch.set.change = some f)
    (row : CatalogModel) : Written patch (f row) := by
  unfold ModelSet.change UpdateModelInput.set at h
  obtain ⟨displayName, hname, h⟩ := Option.bind_eq_some_iff.1 h
  obtain ⟨contextWindow, hcontext, h⟩ := Option.bind_eq_some_iff.1 h
  obtain ⟨maxOutput, hmax, h⟩ := Option.bind_eq_some_iff.1 h
  obtain ⟨deprecationDate, -, h⟩ := Option.bind_eq_some_iff.1 h
  cases Option.some.inj h
  constructor
  · intro name hset
    rw [hset] at hname
    obtain ⟨t, ht, rfl⟩ := optionally_some hname
    unfold textColumn at ht
    split at ht
    · cases ht
    · exact (Option.some.inj ht).symm
  · intro c hset
    rw [hset] at hcontext
    obtain ⟨n, hn, rfl⟩ := optionally_some hcontext
    exact Rat.intCast_injective (intColumn_eq hn)
  · intro m hset
    rw [hset] at hmax
    obtain ⟨o, ho, rfl⟩ := optionally_some hmax
    exact Option.map_injective Rat.intCast_injective (intColumn_cast ho)
  · intro caps hset
    show patch.capabilities.getD _ = _
    rw [hset]
    rfl

omit [Formats] in
/-- An edit that sets nothing but a price. -/
theorem written_of_empty (h : patch.set = {}) (row : CatalogModel) : Written patch row := by
  unfold UpdateModelInput.set at h
  simp only [ModelSet.mk.injEq, Option.map_eq_none_iff] at h
  obtain ⟨hname, hcontext, hmax, -, hcaps, -⟩ := h
  constructor
  · rintro name hset
    rw [hname] at hset
    cases hset
  · rintro c hset
    rw [hcontext] at hset
    cases hset
  · rintro m hset
    rw [hmax] at hset
    cases hset
  · rintro caps hset
    rw [hcaps] at hset
    cases hset

/-- What a completed edit has done: the row it answers is the one in the table, and its price is the last
one. -/
structure EditDone (patch : UpdateModelInput) (db : CatalogDb) (modelId : Uuid) (row : CatalogModel)
    (db' : CatalogDb) : Prop where
  mem : row ∈ db'.models
  id : row.id = modelId
  written : Written patch row
  price : ∀ p, patch.pricing = some p → ∃ now price,
    PriceValues.toRow ⟨modelId, now, p.toPricing⟩ = some price ∧
      db'.pricesOf modelId = db.pricesOf modelId ++ [price]

omit [Formats] in
theorem pricesOf_insertPrice {v : PriceValues} {price : PriceRow} (h : v.toRow = some price)
    (db : CatalogDb) : (db.insertPrice v).pricesOf v.modelId = db.pricesOf v.modelId ++ [price] := by
  have hmodel := CatalogDb.priceRow_modelId h
  unfold CatalogDb.pricesOf
  rw [CatalogDb.modelPricing_insertPrice, List.filter_append, h]
  simp [hmodel]

/-- The update of an edit. -/
theorem wp_setColumns (hfound : db.findById modelId = some row) :
    (Job.when (patch.set ≠ {}) (Job.await (Job.op (.updateModel modelId patch.set))) : Job Unit Unit).wp
      surroundings (fun _ _ => True)
      (fun r _ db₁ => r = .ok () → db₁.modelPricing = db.modelPricing ∧
        ∃ row', db₁.findById modelId = some row' ∧ Written patch row') () db := by
  unfold Job.when
  split
  · unfold Job.await Job.op
    simp only [Code.wp_bind, Code.wp_perform, Code.wp_ofExcept]
    refine ⟨trivial, ?_⟩
    rintro (err | u) hans
    · rintro ⟨⟩
    · intro _
      obtain ⟨f, hf⟩ := Option.ne_none_iff_exists'.1 (show patch.set.change ≠ none from hans)
      have hafter : surroundings.next db (.updateModel modelId patch.set) (.ok u) =
          db.updateById modelId f := by
        show db.changeRow modelId patch.set = _
        unfold CatalogDb.changeRow
        rw [hf]
      rw [hafter]
      refine ⟨rfl, f row, ?_, written_of_change hf row⟩
      have hid : ∀ m, (f m).id = m.id := fun m => (changes_of_change hf m).id
      show Rows.find CatalogModel.id modelId (Rows.update CatalogModel.id modelId f db.models) = _
      rw [Rows.find_update hid]
      have hfound' : Rows.find CatalogModel.id modelId db.models = some row := hfound
      rw [hfound']
      simp [(Rows.mem_of_find hfound').2]
  · next hempty =>
    rw [Code.wp_pure]
    intro _
    have hset : patch.set = {} := by simpa using hempty
    exact ⟨rfl, row, hfound, written_of_empty hset row⟩

/-- The price of an edit. -/
theorem wp_insertPricing :
    (insertPricing modelId patch.pricing : Job Unit Unit).wp surroundings (fun _ _ => True)
      (fun r _ db₁ => r = .ok () → db₁.models = db.models ∧ ∀ p, patch.pricing = some p →
        ∃ now price, PriceValues.toRow ⟨modelId, now, p.toPricing⟩ = some price ∧
          db₁.pricesOf modelId = db.pricesOf modelId ++ [price]) () db := by
  unfold insertPricing Job.whenSome
  cases hp : patch.pricing with
  | none =>
      dsimp only
      rw [Code.wp_pure]
      refine fun _ => ⟨rfl, ?_⟩
      rintro p ⟨⟩
  | some p =>
      dsimp only
      unfold Job.await Job.op
      simp only [Code.wp_bind, Code.wp_perform, Code.wp_ofExcept]
      refine ⟨trivial, fun now _ => ⟨trivial, ?_⟩⟩
      rintro (err | u) hans
      · rintro ⟨⟩
      · intro _
        obtain ⟨price, hprice⟩ := Option.ne_none_iff_exists'.1 hans.1
        refine ⟨CatalogDb.models_insertPrice db _, ?_⟩
        rintro p' ⟨⟩
        exact ⟨now, price, hprice, pricesOf_insertPrice hprice db⟩

theorem wp_updateModel (modelId : Uuid) (input : Option Json) (db : CatalogDb) :
    (updateModel modelId input : Job Unit CatalogModel).wp surroundings (fun _ _ => True)
      (fun r _ db' => ∀ row, r = .ok row → ∃ patch, updateModelSchema input = .ok patch ∧
        EditDone patch db modelId row db') () db := by
  unfold updateModel accepted reject
  rw [Code.wp_bind]
  cases hpatch : updateModelSchema input with
  | error issue =>
      rw [Code.wp_throw]
      rintro row ⟨⟩
  | ok patch =>
      rw [Code.wp_pure]
      unfold Job.await Job.op
      simp only [Code.wp_bind, Code.wp_perform, Code.wp_ofExcept]
      refine ⟨trivial, ?_⟩
      rintro (err | model) hmodel
      · rintro row ⟨⟩
      have hmodel : model = db.findById modelId := hmodel
      cases hfound : db.findById modelId with
      | none =>
          rw [hmodel, hfound]
          dsimp only
          rw [Code.wp_throw]
          rintro row ⟨⟩
      | some row =>
          rw [hmodel, hfound]
          dsimp only
          split
          · rw [Code.wp_throw]
            rintro row' ⟨⟩
          refine Code.wp_seq (wp_setColumns hfound) ?_ ?_
          · rintro u s db₁ hset
            obtain ⟨hprices, row₁, hfound₁, hwritten⟩ := hset rfl
            refine Code.wp_seq wp_insertPricing ?_ ?_
            · rintro u s db₂ hpriced
              obtain ⟨hmodels, hprice⟩ := hpriced rfl
              simp only [Code.wp_bind, Code.wp_perform, Code.wp_ofExcept]
              refine ⟨trivial, ?_⟩
              rintro (err | updated) hupdated
              · rintro row' ⟨⟩
              have hfound₂ : updated = some row₁ := by
                rw [← hfound₁, show updated = db₂.findById modelId from hupdated]
                unfold CatalogDb.findById
                rw [hmodels]
              rw [hfound₂]
              dsimp only
              rw [Code.wp_pure]
              rintro row' ⟨⟩
              have hmem := Rows.mem_of_find (hfound₂ ▸ hupdated).symm
              refine ⟨patch, rfl, hmem.1, hmem.2, hwritten, fun p hp => ?_⟩
              obtain ⟨now, price, hrow, happended⟩ := hprice p hp
              refine ⟨now, price, hrow, happended.trans ?_⟩
              unfold CatalogDb.pricesOf
              rw [hprices]
              rfl
            · rintro err s db₂ - row' ⟨⟩
          · rintro err s db₁ - row' ⟨⟩

/-! ### Ids that the feed does not have -/

variable {vendored : Feed}

/-- No id of the feed is stored as this one. -/
def Unlisted (vendored : Feed) (canonicalId : String) : Prop :=
  ∀ entry ∈ (parseFeed perMtok vendored).1, Utf8.text entry.canonicalId ≠ canonicalId

theorem Unlisted.apart {canonicalId : String} (h : Unlisted vendored canonicalId) :
    Apart vendored canonicalId := fun entry hentry hstored => absurd hstored (h entry hentry)

theorem Unlisted.not_curated {canonicalId : String} (h : Unlisted vendored canonicalId) :
    ¬Curated vendored canonicalId := by
  intro hcurated
  obtain ⟨entry, hentry, hid⟩ := List.mem_map.1 hcurated
  apply h entry hentry
  rw [hid, Utf8.text_js]

omit [Formats] in
/-- The ids that operators may give are in ASCII. -/
theorem isCanonicalId_ascii {s : JsString} (h : isCanonicalId s = true) : ∀ c ∈ s, c < 128 := by
  have hsplit : [47].intercalate (s.splitOn 47) = s := List.intercalate_splitOn 47
  unfold isCanonicalId at h
  split at h
  · next family native hparts =>
      simp only [Bool.and_eq_true, List.all_eq_true] at h
      obtain ⟨⟨⟨-, hfamily⟩, -⟩, hnative⟩ := h
      rw [hparts] at hsplit
      intro c hc
      rw [← hsplit] at hc
      have hcases : c ∈ family ∨ c = 47 ∨ c ∈ native := by simpa [List.intercalate] using hc
      rcases hcases with hc | rfl | hc
      · have hchar := hfamily c hc
        unfold isFamilyChar JsString.isDigit at hchar
        simp only [Bool.or_eq_true, Bool.and_eq_true, decide_eq_true_eq, beq_iff_eq] at hchar
        omega
      · decide
      · have hchar := hnative c hc
        unfold isIdChar isWordChar JsString.isDigit at hchar
        simp only [Bool.or_eq_true, Bool.and_eq_true, decide_eq_true_eq, beq_iff_eq] at hchar
        omega
  · cases h

/-- The feed has no other id that the table stores as one an operator has given. -/
theorem apart_of_isCanonicalId {canonicalId : String}
    (hunits : ∀ entry ∈ (parseFeed perMtok vendored).1, entry.canonicalId.Units)
    (h : isCanonicalId (js canonicalId) = true) : Apart vendored canonicalId := by
  intro entry hentry hstored
  rw [← hstored] at h ⊢
  refine (Utf8.js_text_of_kept (hunits entry hentry) fun hmem => ?_).symm
  have hsmall := isCanonicalId_ascii h _ hmem
  omega

/-! ### What automation leaves alone -/

/-- The row of an operator as it was, but for its overrides and its tag. -/
def Untouched (a b : CatalogModel) : Prop :=
  b = { a with capabilityOverrides := b.capabilityOverrides
               thirdPartyHosted := b.thirdPartyHosted
               retentionNote := b.retentionNote }

/-- Automation may give the row another tag only as a model that a third party hosts. -/
def TagTold (a b : CatalogModel) : Prop :=
  b.tag = a.tag ∨
    ∃ hosting, hostingOf a.canonicalId = some hosting ∧ b.tag = (true, some hosting.retentionNote)

/-- What is left of the row `a` of these tables, and of its prices. -/
structure Survives (vendored : Feed) (db : CatalogDb) (B : Books) (a : CatalogModel) : Prop where
  row : ∃ b ∈ B.db.models, b.id = a.id ∧
    (a.id ∉ B.overridden → b.capabilityOverrides = a.capabilityOverrides) ∧
    (a.source = .custom → isCanonicalId (js a.canonicalId) = true → Untouched a b ∧ TagTold a b) ∧
    (a.source = .provider → Unlisted vendored a.canonicalId →
      b.displayName = a.displayName ∧ FilledFrom a b)
  prices : ∃ new, B.db.pricesOf a.id = db.pricesOf a.id ++ new
  custom : a.source = .custom → isCanonicalId (js a.canonicalId) = true →
    B.db.pricesOf a.id = db.pricesOf a.id
  discovered : a.source = .provider → Unlisted vendored a.canonicalId →
    B.db.pricesOf a.id = db.pricesOf a.id ∨ Repriced db B.heard a

/-- What is left of an edit that has made the row `a` of a discovered model. -/
structure EditKept (patch : UpdateModelInput) (db : CatalogDb) (B : Books) (a : CatalogModel) :
    Prop where
  row : ∃ b ∈ B.db.models, b.id = a.id ∧
    (∀ name, patch.displayName = some name → b.displayName = Utf8.text name) ∧
    (∀ c, patch.contextWindow = some c → c ≠ DISCOVERED_CONTEXT_WINDOW → b.contextWindow = c) ∧
    (∀ m, patch.maxOutput = some (some m) → b.maxOutput = some m)
  prices : B.db.pricesOf a.id = db.pricesOf a.id ∨ Repriced db B.heard a

variable {B : Books} {a b : CatalogModel}

theorem RowKept.untouched (h : RowKept vendored a b) (hcustom : a.source = .custom) :
    Untouched a b := by
  obtain ⟨hspecs, hstatus⟩ := h.custom hcustom
  unfold CatalogModel.specs at hspecs
  simp only [Prod.mk.injEq] at hspecs
  obtain ⟨hcontext, hmax, hcaps, hdate⟩ := hspecs
  unfold Untouched
  cases b
  simp only [CatalogModel.mk.injEq]
  exact ⟨h.id, h.canonicalId, h.providerKind, h.displayName, hcontext, hmax, hcaps, trivial, hstatus,
    hdate, h.source, trivial, trivial⟩

theorem Inv.survives {L : ℕ → Option View} (h : Inv vendored db B L)
    (hunits : ∀ entry ∈ (parseFeed perMtok vendored).1, entry.canonicalId.Units) (ha : a ∈ db.models)
    (hedited : a.id ∉ B.edited) : Survives vendored db B a where
  row := by
    obtain ⟨b, hb, hid, hoverrides⟩ := (h.alive a ha hedited).row
    have hkept : Apart vendored a.canonicalId → RowKept vendored a b := fun hapart =>
      (h.kept a ha hapart hedited).rowKept h.keyed hb hid
    refine ⟨b, hb, hid, hoverrides, fun hcustom hchecked => ?_, fun hprovider hnot => ?_⟩
    · have hrow := hkept (apart_of_isCanonicalId hunits hchecked)
      exact ⟨hrow.untouched hcustom, hrow.tag⟩
    · have hrow := hkept hnot.apart
      exact ⟨hrow.displayName, hrow.provider hprovider hnot.not_curated⟩
  prices := (h.alive a ha hedited).prices
  custom hcustom hchecked := by
    obtain ⟨new, hnew, hprices⟩ := (h.kept a ha (apart_of_isCanonicalId hunits hchecked) hedited).prices
    rw [hnew, hprices.custom hcustom, List.append_nil]
  discovered _ hnot := by
    obtain ⟨new, hnew, hprices⟩ := (h.kept a ha hnot.apart hedited).prices
    refine (hprices.repriced hnot.not_curated).imp_left fun hnone => ?_
    rw [hnew, hnone, List.append_nil]

/-- What an edit has set stays while the row does. -/
theorem Survives.editKept (h : Survives vendored db B a) (hwritten : Written patch a)
    (hprovider : a.source = .provider) (hnot : Unlisted vendored a.canonicalId) :
    EditKept patch db B a where
  row := by
    obtain ⟨b, hb, hid, -, -, hdiscovered⟩ := h.row
    obtain ⟨hname', hfilled⟩ := hdiscovered hprovider hnot
    refine ⟨b, hb, hid, fun name hname => ?_, fun c hc hother => ?_, fun m hm => ?_⟩
    · exact hname'.trans (hwritten.displayName name hname)
    · have hset := hwritten.contextWindow c hc
      rw [hfilled.contextWindow (hset ▸ hother), hset]
    · have hset := hwritten.maxOutput (some m) hm
      rw [hfilled.maxOutput (by rw [hset]; exact Option.some_ne_none m), hset]
  prices := h.discovered hprovider hnot

/-- **Edits survive automation.**  Whatever syncs, refreshes and discoveries run, a row that no operator
edits meanwhile keeps its overrides and its prices, with new ones behind them at most; one of an operator's
own stays as it is but for its tag.  What a completed edit of a discovered model has set is kept, but for
placeholders, and its price until a source of prices has another one. -/
theorem operator_edits_survive
    (hunits : ∀ entry ∈ (parseFeed perMtok vendored).1, entry.canonicalId.Units) (hkeyed : db.Keyed)
    {P : Pool ℕ CatalogOp CatalogOp.Answer Unit Books View}
    (hP : (catalog vendored).Reachable { db } P) :
    (∀ a ∈ db.models, a.id ∉ P.shared.edited → Survives vendored db P.shared a) ∧
    ∀ db₀ modelId input row,
      Prog.Run surroundings ((updateModel modelId input : Job Unit CatalogModel) ()) db₀
        (.ret (.ok row, ())) db →
      ∃ patch, updateModelSchema input = .ok patch ∧ EditDone patch db₀ modelId row db ∧
        (row.source = .provider → Unlisted vendored row.canonicalId → modelId ∉ P.shared.edited →
          EditKept patch db P.shared row) := by
  have hinv := (System.invariant (preserves_inv vendored db) (inv_initial hkeyed) hP).1
  refine ⟨fun a ha hedited => hinv.survives hunits ha hedited, ?_⟩
  intro db₀ modelId input row hrun
  obtain ⟨patch, hpatch, hdone⟩ := Prog.post_of_run (wp_updateModel modelId input db₀) hrun row rfl
  refine ⟨patch, hpatch, hdone, fun hprovider hnot hedited => ?_⟩
  have hsurvives := hinv.survives hunits hdone.mem (hdone.id ▸ hedited)
  exact hsurvives.editKept hdone.written hprovider hnot

end

/-! ### A night after an edit -/

local instance editFormats : Formats := dollarFormats

/-- A model of an operator that a third party hosts. -/
def hostedRow : CatalogModel :=
  { officeRow with
    id := ⟨"c5", by decide⟩, canonicalId := "digitalocean/anthropic-opus", providerKind := .digitalocean,
    displayName := "anthropic-opus" }

def mixedDb : CatalogDb := { models := [kimiRow, hostedRow], modelPricing := [] }

/-- What the documentation says of the discovered model. -/
def kimiDocs : ScrapedModel := ⟨"kimi-k3", some 262144, some 16384, {}, some ⟨js "3", js "12", none⟩⟩

def documented : Outside :=
  { standing with now := 20, served := [js "anthropic-opus"], docs := some [kimiDocs] }

/-- An edit of the discovered model, and the tables behind it. -/
def editOf (input : Json) : (Except Thrown CatalogModel × Unit) × CatalogDb :=
  ((updateModel kimiRow.id (some input) : Job Unit CatalogModel) ()).eval
    (fun db e => (reply standing db e, db.after e (reply standing db e))) mixedDb

theorem editOf_run {input : Json} {row : CatalogModel}
    (h : (editOf input).1.1.toOption = some row) :
    Prog.Run surroundings ((updateModel kimiRow.id (some input) : Job Unit CatalogModel) ()) mixedDb
      (.ret (.ok row, ())) (editOf input).2 := by
  have hok : (editOf input).1 = (.ok row, ()) := by
    cases hresult : (editOf input).1.1 with
    | error err =>
        rw [hresult] at h
        cases h
    | ok row' =>
        rw [hresult] at h
        exact Prod.ext (hresult.trans (congrArg Except.ok (Option.some.inj h))) rfl
  rw [← hok]
  exact Prog.run_eval (fun db e => ⟨db.answers_reply standing e, rfl⟩) _ _

/-- A reading of the documentation, then a discovery, then a sync. -/
def night : List (Action ℕ CatalogOp CatalogOp.Answer Unit Books View) :=
  [launch 0 (.scrape gradient.firmId), .run 0 20, launch 1 (.discover gradient), .run 1 20,
    launch 2 (.sync none), .run 2 40]

def overnight (db : CatalogDb) : CatalogPool :=
  (System.initial { db } : Pool ..).exec View.next (ownedAnswer documented) night

theorem overnight_reachable (db : CatalogDb) :
    (catalog smallFeed).Reachable { db } (overnight db) :=
  System.reachable_exec (ownedAnswer_sound documented) .refl
    ⟨rfl, ⟨_, rfl, rfl⟩, rfl, ⟨_, rfl, rfl⟩, rfl, ⟨_, rfl, rfl⟩, trivial⟩

def specsOf (db : CatalogDb) : List (String × ℤ × Option ℤ × Bool) :=
  db.models.map fun m => (m.canonicalId, m.contextWindow, m.maxOutput, m.thirdPartyHosted)

def ratesOf (db : CatalogDb) : List (ℕ × Option ℤ) :=
  (db.pricesOf kimiRow.id).map fun p => (p.effectiveFrom, p.inputPerMtok)

theorem kimi_unlisted : Unlisted smallFeed kimiRow.canonicalId := by
  unfold Unlisted
  decide +kernel

/-- A name, specs of the operator's own, and the price that the documentation has. -/
def fullInput : Json :=
  .obj [(js "displayName", .str (js "Kimi K3")), (js "contextWindow", .num 9000),
    (js "maxOutput", .num 4096),
    (js "pricing", .obj [(js "inputPerMtok", .num 3), (js "outputPerMtok", .num 12)])]

def namedRow : CatalogModel :=
  { kimiRow with displayName := "Kimi K3", contextWindow := 9000, maxOutput := some 4096 }

/-- What the edit has set is there in the morning. -/
theorem named_survives :
    specsOf (overnight (editOf fullInput).2).shared.db =
      [("digitalocean/kimi-k3", 9000, some 4096, false), ("digitalocean/anthropic-opus", 100000, none, true),
        (opusKey, 200000, some 64000, false), ("anthropic/claude-haiku", 150000, none, false)] ∧
    ratesOf (overnight (editOf fullInput).2).shared.db = [(9, some 3000000)] ∧
    (∀ a ∈ (editOf fullInput).2.models,
      Survives smallFeed (editOf fullInput).2 (overnight (editOf fullInput).2).shared a) ∧
    ∃ patch, updateModelSchema (some fullInput) = .ok patch ∧
      EditKept patch (editOf fullInput).2 (overnight (editOf fullInput).2).shared namedRow := by
  have hkeyed : (editOf fullInput).2.Keyed := ⟨by decide +kernel, by decide +kernel⟩
  have hedited : (overnight (editOf fullInput).2).shared.edited = [] := by decide +kernel
  have hunits : ∀ entry ∈ (parseFeed perMtok smallFeed).1, entry.canonicalId.Units := by
    intro entry hentry
    obtain ⟨t, ht⟩ := smallFeed_js entry hentry
    rw [ht]
    exact js_units t
  obtain ⟨hrows, hedits⟩ := operator_edits_survive hunits hkeyed
    (overnight_reachable (editOf fullInput).2)
  obtain ⟨patch, hpatch, -, hkept⟩ := hedits mixedDb kimiRow.id (some fullInput) namedRow
    (editOf_run (by decide +kernel))
  refine ⟨by decide +kernel, by decide +kernel, fun a ha => hrows a ha ?_, patch, hpatch,
    hkept rfl kimi_unlisted ?_⟩
  · rw [hedited]
    exact List.not_mem_nil
  · rw [hedited]
    exact List.not_mem_nil

/-- The context window of a discovery, no output cap, and a price of the operator's own. -/
def resetInput : Json :=
  .obj [(js "contextWindow", .num 8192), (js "maxOutput", .null),
    (js "pricing", .obj [(js "inputPerMtok", .num 2), (js "outputPerMtok", .num 8)])]

/-- The night fills in the context window and the output cap that an operator has just set, puts the price
of the documentation in the place of the operator's, and tags the row of an operator's own model. -/
theorem night_overwrites :
    Prog.Run surroundings ((updateModel kimiRow.id (some resetInput) : Job Unit CatalogModel) ()) mixedDb
      (.ret (.ok kimiRow, ())) (editOf resetInput).2 ∧
    (catalog smallFeed).Reachable { db := (editOf resetInput).2 } (overnight (editOf resetInput).2) ∧
    (overnight (editOf resetInput).2).shared.edited = [] ∧ Unlisted smallFeed kimiRow.canonicalId ∧
    specsOf (editOf resetInput).2 =
      [("digitalocean/kimi-k3", 8192, none, false), ("digitalocean/anthropic-opus", 100000, none, false)] ∧
    ratesOf (editOf resetInput).2 = [(9, some 2000000)] ∧
    specsOf (overnight (editOf resetInput).2).shared.db =
      [("digitalocean/kimi-k3", 262144, some 16384, false),
        ("digitalocean/anthropic-opus", 100000, none, true),
        (opusKey, 200000, some 64000, false), ("anthropic/claude-haiku", 150000, none, false)] ∧
    ratesOf (overnight (editOf resetInput).2).shared.db = [(9, some 2000000), (20, some 3000000)] :=
  ⟨editOf_run (by decide +kernel), overnight_reachable _, by decide +kernel, kimi_unlisted,
    by decide +kernel, by decide +kernel, by decide +kernel, by decide +kernel⟩

end Catalog

end VibeRouter
