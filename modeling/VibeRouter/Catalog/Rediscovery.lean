import VibeRouter.Catalog.Discovery
import VibeRouter.Catalog.Rows

/-! # Models that are discovered twice

A discovery that comes to its end has a row for every model that is served, tagged where a third party
hosts it.  Another discovery of these models, or of some of them, then only reads and discovers nothing,
whatever fails in it (`discovery_settles`).  The ids that are served have to be texts: what the table makes
of another is the id of a different model. -/

namespace VibeRouter

open Effects

namespace Catalog

/-! ### What is discovered -/

/-- The third party that hosts a model of the namespace. -/
def hostingFor (canonicalId : JsString) : Option ThirdPartyHosting :=
  thirdPartyHostingFor (canonicalId.drop (DO_NAMESPACE.length + 1))

/-- The canonical ids of the models that are served. -/
def servedIds (served : List JsString) : List JsString := served.filterMap (canonicalOf DO_NAMESPACE)

/-- The row of a model is tagged if its hosting calls for it. -/
def HostingTold (row : CatalogModel) : Prop :=
  ∀ hosting, hostingFor (js row.canonicalId) = some hosting → tagged row hosting = true

/-- A model has its row. -/
def Discovered (db : CatalogDb) (canonicalId : JsString) : Prop :=
  ∃ row ∈ db.models, js row.canonicalId = canonicalId ∧ HostingTold row

/-- The provider serves these models. -/
def Serves (served : List JsString) : (e : CatalogOp) → e.Answer → Prop
  | .listServedModelIds _ _, .ok ids => ids = served
  | _, _ => True

/-- A statement that only reads. -/
def Reads : CatalogOp → Prop
  | .listServedModelIds _ _ | .findModels => True
  | _ => False

section
variable [Formats]

/-- Surroundings in which any statement may fail, with a provider that serves these models. -/
def serving (served : List JsString) : Env CatalogOp CatalogOp.Answer CatalogDb where
  allows db e r := db.Answers e r ∧ Serves served e r
  next db := db.after

variable {db db' : CatalogDb} {served : List JsString}

omit [Formats] in
theorem Discovered.mono {c : JsString} (h : Discovered db c)
    (hrows : ∀ row ∈ db.models, row ∈ db'.models) : Discovered db' c := by
  obtain ⟨row, hrow, hid, htold⟩ := h
  exact ⟨row, hrows row hrow, hid, htold⟩

omit [Formats] in
theorem tagged_tagRow (row : CatalogModel) (hosting : ThirdPartyHosting) :
    tagged (CatalogDb.tagRow hosting.retentionNote row) hosting = true := by
  simp [tagged, CatalogDb.tagRow]

omit [Formats] in
/-- Tagging a model: its row is discovered then, and the rows that were stay so. -/
theorem discovered_tagRow {t : String} {hosting : ThirdPartyHosting} {row : CatalogModel}
    (hhosting : hostingFor (js t) = some hosting) (hrow : row ∈ db.models)
    (htold : row.canonicalId = t ∨ HostingTold row) :
    Discovered (db.updateByCanonicalId t (CatalogDb.tagRow hosting.retentionNote))
      (js row.canonicalId) := by
  refine ⟨if row.canonicalId = t then CatalogDb.tagRow hosting.retentionNote row else row,
    List.mem_map_of_mem hrow, ?_, ?_⟩
  · split
    · rfl
    · rfl
  · split
    · next heq =>
        intro hosting' hcalls
        have hsame : hostingFor (js row.canonicalId) = some hosting' := hcalls
        rw [heq, hhosting] at hsame
        cases hsame
        exact tagged_tagRow row hosting
    · next hne => exact htold.resolve_left hne

/-- The columns of a row that is added. -/
theorem toRow_columns {v : ModelValues} {id : Uuid} {row : CatalogModel} (h : v.toRow id = some row) :
    row.canonicalId = Utf8.text v.canonicalId ∧ row.thirdPartyHosted = v.thirdPartyHosted ∧
      row.retentionNote = v.retentionNote := by
  unfold ModelValues.toRow at h
  obtain ⟨canonicalId, hcolumn, h⟩ := Option.bind_eq_some_iff.1 h
  obtain ⟨providerKind, -, h⟩ := Option.bind_eq_some_iff.1 h
  obtain ⟨displayName, -, h⟩ := Option.bind_eq_some_iff.1 h
  obtain ⟨contextWindow, -, h⟩ := Option.bind_eq_some_iff.1 h
  obtain ⟨maxOutput, -, h⟩ := Option.bind_eq_some_iff.1 h
  obtain ⟨deprecationDate, -, h⟩ := Option.bind_eq_some_iff.1 h
  cases Option.some.inj h
  unfold textColumn at hcolumn
  split at hcolumn
  · cases hcolumn
  · cases hcolumn
    exact ⟨rfl, rfl, rfl⟩

/-! ### The first discovery -/

/-- A planned insertion: its values say how the model is hosted, and its id is a text. -/
structure Plans (m : Insertion) : Prop where
  text : ∃ t, m.canonicalId = js t
  hosting : m.thirdPartyHosted = hostingFor m.canonicalId

omit [Formats] in
/-- The column keeps the id. -/
theorem Plans.js_text {m : Insertion} (h : Plans m) : js (Utf8.text m.canonicalId) = m.canonicalId := by
  obtain ⟨t, ht⟩ := h.text
  rw [ht, Utf8.text_js]

/-- The row of an insertion. -/
theorem hostingTold_toRow {m : Insertion} (hplans : Plans m) {id : Uuid} {row : CatalogModel}
    (h : m.values.toRow id = some row) : js row.canonicalId = m.canonicalId ∧ HostingTold row := by
  obtain ⟨hid, hflag, hnote⟩ := toRow_columns h
  have hjs : js row.canonicalId = m.canonicalId := by
    rw [hid]
    exact hplans.js_text
  refine ⟨hjs, fun hosting hcalls => ?_⟩
  rw [hjs, ← hplans.hosting] at hcalls
  unfold tagged
  rw [hflag, hnote]
  simp [Insertion.values, hcalls]

/-- The first loop adds a row for every model that is planned.  The rows it finds are those of `before`, and
those it has added. -/
theorem wp_insertDiscovered {plan : List Insertion} (hplans : ∀ m ∈ plan, Plans m)
    {before : List CatalogModel}
    (hnew : ∀ m ∈ plan, ∀ row ∈ before, js row.canonicalId ≠ m.canonicalId) (report : DiscoverResult)
    (hkeyed : db.Keyed) (hadded : ∀ row ∈ db.models, row ∈ before ∨ HostingTold row) :
    (insertDiscovered plan).wp (serving served) (fun _ _ => True)
      (fun r _ db' => r = .ok () → db'.Keyed ∧ (∀ row ∈ db.models, row ∈ db'.models) ∧
        ∀ m ∈ plan, Discovered db' m.canonicalId) report db := by
  induction plan generalizing report db with
  | nil => exact fun _ => ⟨hkeyed, fun _ h => h, fun _ h => absurd h List.not_mem_nil⟩
  | cons m rest ih =>
      rw [List.forall_mem_cons] at hplans hnew
      unfold insertDiscovered Job.await Job.op Job.note
      simp only [Code.wp_bind, Code.wp_perform, Code.wp_ofExcept, Code.wp_write]
      refine ⟨trivial, ?_⟩
      rintro (err | found) ⟨hanswer, -⟩
      · rintro ⟨⟩
      · cases found with
        | none =>
            -- the row in conflict is one that the loop has added
            obtain ⟨row, hconflict⟩ := hanswer
            obtain ⟨hrow, hid⟩ := hconflict.found
            have hjs : js row.canonicalId = m.canonicalId := by
              rw [hid]
              exact hplans.1.js_text
            have hdiscovered : Discovered db m.canonicalId := by
              rcases hadded row hrow with hold | htold
              · exact absurd hjs (hnew.1 row hold)
              · exact ⟨row, hrow, hjs, htold⟩
            refine Code.wp_mono (ih hplans.2 hnew.2 _ hkeyed hadded) ?_
            intro r _ db' hrest hok
            obtain ⟨hkeyed', hrows, hall⟩ := hrest hok
            exact ⟨hkeyed', hrows, List.forall_mem_cons.2 ⟨hdiscovered.mono hrows, hall⟩⟩
        | some id =>
            have hkeyed' : (db.insertRow m.values id).Keyed := hkeyed.insertRow hanswer
            obtain ⟨row, hrow, -⟩ := hanswer
            obtain ⟨hjs, htold⟩ := hostingTold_toRow hplans.1 hrow
            have hmodels : (db.insertRow m.values id).models = db.models ++ [row] := by
              rw [CatalogDb.models_insertRow, hrow]
              rfl
            have hgrown : ∀ r ∈ db.models, r ∈ (db.insertRow m.values id).models := by
              intro r hr
              rw [hmodels]
              exact List.mem_append_left _ hr
            have hdiscovered : Discovered (db.insertRow m.values id) m.canonicalId := by
              refine ⟨row, ?_, hjs, htold⟩
              rw [hmodels]
              exact List.mem_append_right _ (List.mem_singleton.2 rfl)
            have hadded' : ∀ r ∈ (db.insertRow m.values id).models, r ∈ before ∨ HostingTold r := by
              intro r hr
              rw [hmodels] at hr
              rcases List.mem_append.1 hr with hr | hr
              · exact hadded r hr
              · rw [List.mem_singleton.1 hr]
                exact Or.inr htold
            refine Code.wp_mono (ih hplans.2 hnew.2 _ hkeyed' hadded') ?_
            intro r _ db' hrest hok
            obtain ⟨hkeyed'', hrows, hall⟩ := hrest hok
            exact ⟨hkeyed'', fun r hr => hrows r (hgrown r hr),
              List.forall_mem_cons.2 ⟨hdiscovered.mono hrows, hall⟩⟩

/-- The second loop tags the models that the catalog had. -/
theorem wp_tagKnown {existingById : JsMap JsString CatalogModel} {known : List JsString}
    (hnodup : known.Nodup)
    (hlisted : ∀ c ∈ known, ∃ row ∈ db.models, existingById.get c = some row ∧ js row.canonicalId = c)
    (report : DiscoverResult) (hkeyed : db.Keyed) :
    (tagKnown existingById known).wp (serving served) (fun _ _ => True)
      (fun r _ db' => r = .ok () → db'.Keyed ∧ (∀ c, Discovered db c → Discovered db' c) ∧
        ∀ c ∈ known, Discovered db' c) report db := by
  induction known generalizing report db with
  | nil => exact fun _ => ⟨hkeyed, fun _ h => h, fun _ h => absurd h List.not_mem_nil⟩
  | cons c rest ih =>
      obtain ⟨hfresh, hdistinct⟩ := List.nodup_cons.1 hnodup
      rw [List.forall_mem_cons] at hlisted
      obtain ⟨row, hrow, hget, rfl⟩ := hlisted.1
      -- what the loop leaves alone is discovered
      have hskip : HostingTold row → ∀ report,
          (tagKnown existingById rest).wp (serving served) (fun _ _ => True)
            (fun r _ db' => r = .ok () → db'.Keyed ∧ (∀ c, Discovered db c → Discovered db' c) ∧
              ∀ c ∈ js row.canonicalId :: rest, Discovered db' c) report db := by
        intro htold report
        refine Code.wp_mono (ih hdistinct hlisted.2 report hkeyed) ?_
        intro r _ db' hrest hok
        obtain ⟨hkeyed', hkept, hall⟩ := hrest hok
        exact ⟨hkeyed', hkept, List.forall_mem_cons.2 ⟨hkept _ ⟨row, hrow, rfl, htold⟩, hall⟩⟩
      unfold tagKnown
      split
      · next hnone =>
          exact hskip (fun hosting hcalls => absurd (hcalls.symm.trans hnone) (Option.some_ne_none hosting))
            report
      · next hosting hsome =>
          have hcalls : hostingFor (js row.canonicalId) = some hosting := hsome
          rw [hget]
          unfold Job.note
          rw [Code.wp_bind, Code.wp_write]
          show Code.wp _ _ _ _ _ _
          cases htagged : tagged row hosting with
          | true =>
              have hquiet : (!(some row).any fun row => tagged row hosting) = false := by simp [htagged]
              rw [hquiet]
              refine hskip (fun hosting' hcalls' => ?_) _
              rw [hcalls] at hcalls'
              cases hcalls'
              exact htagged
          | false =>
              have hwrite : (!(some row).any fun row => tagged row hosting) = true := by simp [htagged]
              rw [hwrite]
              unfold Job.when Job.await Job.op
              rw [if_pos rfl]
              simp only [Code.wp_bind, Code.wp_perform, Code.wp_ofExcept]
              refine ⟨trivial, ?_⟩
              rintro (err | u) hanswer
              · rintro ⟨⟩
              · have hkeyed' := hkeyed.after hanswer.1
                have htagDb : db.after (.tagThirdParty (js row.canonicalId) hosting.retentionNote) (.ok u) =
                    db.updateByCanonicalId row.canonicalId (CatalogDb.tagRow hosting.retentionNote) := by
                  show db.updateByCanonicalId (Utf8.text (js row.canonicalId)) _ = _
                  rw [Utf8.text_js]
                have hlisted' : ∀ c ∈ rest, ∃ row' ∈ (db.after
                    (.tagThirdParty (js row.canonicalId) hosting.retentionNote) (.ok u)).models,
                    existingById.get c = some row' ∧ js row'.canonicalId = c := by
                  intro c hc
                  obtain ⟨row', hrow', hget', hjs'⟩ := hlisted.2 c hc
                  have hother : row'.canonicalId ≠ row.canonicalId := by
                    intro heq
                    rw [heq] at hjs'
                    exact hfresh (hjs' ▸ hc)
                  have huntouched : (if row'.canonicalId = row.canonicalId then
                      CatalogDb.tagRow hosting.retentionNote row' else row') = row' := if_neg hother
                  refine ⟨row', ?_, hget', hjs'⟩
                  rw [htagDb, ← huntouched]
                  exact List.mem_map_of_mem hrow'
                refine Code.wp_mono (ih hdistinct hlisted' _ hkeyed') ?_
                intro r _ db' hrest hok
                obtain ⟨hkeyed'', hkept, hall⟩ := hrest hok
                have hframe : ∀ row' ∈ db.models, row'.canonicalId = row.canonicalId ∨ HostingTold row' →
                    Discovered db' (js row'.canonicalId) := by
                  intro row' hrow' htold
                  apply hkept
                  show Discovered (db.after _ _) _
                  rw [htagDb]
                  exact discovered_tagRow hcalls hrow' htold
                refine ⟨hkeyed'', ?_, List.forall_mem_cons.2 ⟨hframe row hrow (Or.inl rfl), hall⟩⟩
                rintro _ ⟨row', hrow', rfl, htold⟩
                exact hframe row' hrow' (Or.inr htold)

omit [Formats] in
/-- The listing has the rows under their ids. -/
theorem get_ofRows (hkeyed : db.Keyed) {existing : List CatalogModel} (hperm : existing.Perm db.models)
    {row : CatalogModel} (hrow : row ∈ existing) :
    (JsMap.ofList (existing.map fun m => (js m.canonicalId, m))).get (js row.canonicalId) = some row := by
  apply JsMap.get_ofList
  · rw [List.map_map]
    have hnodup : (existing.map CatalogModel.canonicalId).Nodup :=
      (hperm.map CatalogModel.canonicalId).nodup_iff.2 hkeyed.canonicalIds
    have hkeys := hnodup.map Utf8.js_injective
    rw [List.map_map] at hkeys
    exact hkeys
  · exact List.mem_map.2 ⟨row, hrow, rfl⟩

omit [Formats] in
/-- A native id behind its namespace. -/
theorem hostingFor_native (name : JsString) :
    hostingFor (DO_NAMESPACE ++ js "/" ++ name) = thirdPartyHostingFor name := by
  have hlength : (DO_NAMESPACE ++ js "/").length = DO_NAMESPACE.length + 1 := rfl
  unfold hostingFor
  rw [← hlength, List.drop_left]

theorem wp_discoverDigitalOcean {provider : ProviderRow} {apiKey : Option String}
    (report : DiscoverResult) (htexts : ∀ c ∈ servedIds served, ∃ t, c = js t) (hkeyed : db.Keyed) :
    (discoverDigitalOceanModels provider apiKey).wp (serving served) (fun _ _ => True)
      (fun r _ db' => r = .ok () → db'.Keyed ∧ ∀ c ∈ servedIds served, Discovered db' c) report db := by
  unfold discoverDigitalOceanModels Job.await Job.op
  simp only [Code.wp_bind, Code.wp_perform, Code.wp_ofExcept]
  refine ⟨trivial, ?_⟩
  rintro (err | ids) ⟨-, hserves⟩
  · rintro ⟨⟩
  obtain rfl : ids = served := hserves
  refine ⟨trivial, ?_⟩
  rintro (err | existing) ⟨hperm, -⟩
  · rintro ⟨⟩
  have hplanned := planned ids (existing.map fun m => js m.canonicalId) DO_NAMESPACE
  have hplans : ∀ m ∈ (planDiscovery ids (existing.map fun m => js m.canonicalId) DO_NAMESPACE).toInsert,
      Plans m := by
    intro m hm
    have hseen := ((hplanned.inserted m.canonicalId).1 (List.mem_map_of_mem hm)).1
    obtain ⟨hid, hhosting⟩ := hplanned.values m hm
    refine ⟨htexts _ ((hplanned.ids _).1 hseen), ?_⟩
    rw [hid, hostingFor_native]
    exact hhosting
  have hnew : ∀ m ∈ (planDiscovery ids (existing.map fun m => js m.canonicalId) DO_NAMESPACE).toInsert,
      ∀ row ∈ db.models, js row.canonicalId ≠ m.canonicalId := by
    intro m hm row hrow heq
    apply ((hplanned.inserted m.canonicalId).1 (List.mem_map_of_mem hm)).2
    exact List.mem_map.2 ⟨row, hperm.mem_iff.2 hrow, heq⟩
  refine Code.wp_mono (wp_insertDiscovered hplans hnew report hkeyed fun _ h => Or.inl h) ?_
  rintro (err | u) report₁ db₁ hinserted
  · rintro ⟨⟩
  obtain ⟨hkeyed₁, hrows, hdone⟩ := hinserted rfl
  have hlisted : ∀ c ∈ (planDiscovery ids (existing.map fun m => js m.canonicalId)
      DO_NAMESPACE).alreadyKnown, ∃ row ∈ db₁.models,
        (JsMap.ofList (existing.map fun m => (js m.canonicalId, m))).get c = some row ∧
          js row.canonicalId = c := by
    intro c hc
    obtain ⟨row, hrow, rfl⟩ := List.mem_map.1 ((hplanned.known c).1 hc).2
    exact ⟨row, hrows row (hperm.mem_iff.1 hrow), get_ofRows hkeyed hperm hrow, rfl⟩
  refine Code.wp_mono (wp_tagKnown hplanned.nodupKnown hlisted report₁ hkeyed₁) ?_
  rintro (err | u) report₂ db₂ htagged
  · rintro ⟨⟩
  obtain ⟨hkeyed₂, hkept, hknown⟩ := htagged rfl
  intro _
  refine ⟨hkeyed₂, fun c hc => ?_⟩
  have hseen := (hplanned.ids c).2 hc
  by_cases hold : c ∈ existing.map fun m => js m.canonicalId
  · exact hknown c ((hplanned.known c).2 ⟨hseen, hold⟩)
  · obtain ⟨m, hm, rfl⟩ := List.mem_map.1 ((hplanned.inserted c).2 ⟨hseen, hold⟩)
    exact hkept _ (hdone m hm)

/-! ### The second discovery -/

/-- Nothing is tagged where all is discovered. -/
theorem idle_tagKnown {existing : List CatalogModel} (hkeyed : db.Keyed)
    (hperm : existing.Perm db.models) {known : List JsString}
    (hlisted : ∀ c ∈ known, c ∈ existing.map fun m => js m.canonicalId)
    (hdiscovered : ∀ c ∈ known, Discovered db c) {report : DiscoverResult}
    (hquiet : report.discovered = []) :
    (tagKnown (JsMap.ofList (existing.map fun m => (js m.canonicalId, m))) known).wp (serving served)
      (fun q e => q = db ∧ Reads e) (fun _ report' q => q = db ∧ report'.discovered = []) report db := by
  induction known generalizing report with
  | nil => exact ⟨rfl, hquiet⟩
  | cons c rest ih =>
      rw [List.forall_mem_cons] at hlisted hdiscovered
      unfold tagKnown
      split
      · exact ih hlisted.2 hdiscovered.2 hquiet
      · next hosting hsome =>
          obtain ⟨row, hrow, hjs, htold⟩ := hdiscovered.1
          have htagged : tagged row hosting = true := by
            apply htold
            rw [hjs]
            exact hsome
          have hget := get_ofRows hkeyed hperm (hperm.mem_iff.2 hrow)
          rw [hjs] at hget
          have hskip : (!(some row).any fun row => tagged row hosting) = false := by simp [htagged]
          rw [hget, hskip]
          exact ih hlisted.2 hdiscovered.2 hquiet

theorem idle_discoverDigitalOcean {provider : ProviderRow} {apiKey : Option String} (hkeyed : db.Keyed)
    (hdiscovered : ∀ c ∈ servedIds served, Discovered db c) :
    (discoverDigitalOceanModels provider apiKey).wp (serving served) (fun q e => q = db ∧ Reads e)
      (fun _ report q => q = db ∧ report.discovered = []) {} db := by
  unfold discoverDigitalOceanModels Job.await Job.op
  simp only [Code.wp_bind, Code.wp_perform, Code.wp_ofExcept]
  refine ⟨⟨trivial, trivial⟩, ?_⟩
  rintro (err | ids) ⟨-, hserves⟩
  · exact ⟨rfl, trivial⟩
  obtain rfl : ids = served := hserves
  refine ⟨⟨rfl, trivial⟩, ?_⟩
  rintro (err | existing) ⟨hperm, -⟩
  · exact ⟨rfl, trivial⟩
  have hplanned := planned ids (existing.map fun m => js m.canonicalId) DO_NAMESPACE
  have hnone : (planDiscovery ids (existing.map fun m => js m.canonicalId) DO_NAMESPACE).toInsert =
      [] := by
    rw [List.eq_nil_iff_forall_not_mem]
    intro m hm
    obtain ⟨hseen, hnew⟩ := (hplanned.inserted m.canonicalId).1 (List.mem_map_of_mem hm)
    obtain ⟨row, hrow, hjs, -⟩ := hdiscovered _ ((hplanned.ids _).1 hseen)
    exact hnew (List.mem_map.2 ⟨row, hperm.mem_iff.2 hrow, hjs⟩)
  dsimp only
  rw [hnone, insertDiscovered, Code.wp_pure]
  have hknown : ∀ c ∈ (planDiscovery ids (existing.map fun m => js m.canonicalId)
      DO_NAMESPACE).alreadyKnown, c ∈ existing.map fun m => js m.canonicalId := fun c hc =>
    ((hplanned.known c).1 hc).2
  have hthere : ∀ c ∈ (planDiscovery ids (existing.map fun m => js m.canonicalId)
      DO_NAMESPACE).alreadyKnown, Discovered db c := fun c hc =>
    hdiscovered c ((hplanned.ids c).1 ((hplanned.known c).1 hc).1)
  refine Code.wp_mono (idle_tagKnown hkeyed hperm hknown hthere (rfl : ({} : DiscoverResult).discovered = [])) ?_
  rintro (err | u) report q ⟨rfl, hquiet⟩
  · exact ⟨rfl, hquiet⟩
  · exact ⟨rfl, hquiet⟩

/-- **Discovering twice.**  A discovery that comes to its end leaves a row for every model that is served,
tagged where a third party hosts it.  A later one of no other models issues no statement but reads,
whatever fails in it, so no table changes, and it discovers nothing. -/
theorem discovery_settles {served' : List JsString} {provider provider' : ProviderRow}
    {apiKey apiKey' : Option String} {report out : DiscoverResult} {db₀ : CatalogDb}
    (htexts : ∀ c ∈ servedIds served, ∃ t, c = js t) (hkeyed : db₀.Keyed)
    (hfirst : Prog.Run (serving served) (discoverDigitalOceanModels provider apiKey report) db₀
      (.ret (.ok (), out)) db)
    (hsame : ∀ id ∈ served', id ∈ served)
    {p : Prog CatalogOp CatalogOp.Answer (Except Thrown Unit × DiscoverResult)}
    (hsecond : Prog.Run (serving served') (discoverDigitalOceanModels provider' apiKey' {}) db p db') :
    (∀ c ∈ servedIds served, Discovered db c) ∧ db' = db ∧ (∀ e k, p = .call e k → Reads e) ∧
      ∀ second, p = .ret second → second.2.discovered = [] := by
  have hleft : db.Keyed ∧ ∀ c ∈ servedIds served, Discovered db c :=
    Prog.wp_run (wp_discoverDigitalOcean report htexts hkeyed) hfirst rfl
  have hdiscovered : ∀ c ∈ servedIds served', Discovered db c := by
    intro c hc
    obtain ⟨id, hid, hcanonical⟩ := List.mem_filterMap.1 hc
    exact hleft.2 c (List.mem_filterMap.2 ⟨id, hsame id hid, hcanonical⟩)
  have hrest := Prog.wp_run (idle_discoverDigitalOcean hleft.1 hdiscovered) hsecond
  refine ⟨hleft.2, ?_⟩
  cases p with
  | ret second =>
      refine ⟨hrest.1, ?_, ?_⟩
      · rintro e k ⟨⟩
      · rintro _ ⟨⟩
        exact hrest.2
  | call e k =>
      refine ⟨hrest.1.1, ?_, ?_⟩
      · rintro _ _ ⟨⟩
        exact hrest.1.2
      · rintro second ⟨⟩

end

/-! ### A model that is not tagged yet -/

local instance hostedFormats : Formats := plainFormats

def hostedModel : CatalogModel where
  id := ⟨"e7", by decide⟩
  canonicalId := "digitalocean/openai-gpt-5"
  providerKind := .digitalocean
  displayName := "openai-gpt-5"
  contextWindow := 8192
  maxOutput := none
  capabilities := DISCOVERED_CAPABILITIES
  capabilityOverrides := {}
  status := .active
  deprecationDate := none
  source := .provider
  thirdPartyHosted := false
  retentionNote := none

def untaggedDb : CatalogDb := { models := [hostedModel], modelPricing := [] }

def hostedProvider : ProviderRow where
  id := ⟨"e8", by decide⟩
  firmId := ⟨"e9", by decide⟩
  kind := .digitalocean
  label := "DigitalOcean"
  baseUrl := "https://inference.do-ai.run/v1"
  authType := .api_key

/-- The provider serves the model; the clock stands still, and other statements fail. -/
def hostedAnswer (db : CatalogDb) (e : CatalogOp) : e.Answer := by
  cases e with
  | now => exact 0
  | findModels => exact .ok db.models
  | listServedModelIds provider apiKey => exact .ok [js "openai-gpt-5"]
  | tagThirdParty canonicalId note => exact .ok ()
  | _ => exact .error .other

def discoverHosted (db : CatalogDb) : (Except Thrown Unit × DiscoverResult) × CatalogDb :=
  (discoverDigitalOceanModels hostedProvider none {}).eval
    (fun q e => (hostedAnswer q e, q.after e (hostedAnswer q e))) db

theorem discoverHosted_run (db : CatalogDb) :
    Prog.Run (serving [js "openai-gpt-5"]) (discoverDigitalOceanModels hostedProvider none {}) db
      (.ret (discoverHosted db).1) (discoverHosted db).2 := by
  refine Prog.run_eval (fun q e => ⟨?_, rfl⟩) _ _
  cases e with
  | findModels => exact ⟨List.Perm.refl _, trivial⟩
  | listServedModelIds provider apiKey => exact ⟨trivial, rfl⟩
  | _ => exact ⟨trivial, trivial⟩

theorem discovery_settles_hosted :
    (discoverHosted untaggedDb).2.models = [CatalogDb.tagRow openaiNote hostedModel] ∧
      (discoverHosted (discoverHosted untaggedDb).2).2 = (discoverHosted untaggedDb).2 := by
  have hrun := discoverHosted_run untaggedDb
  have hended : (discoverHosted untaggedDb).1 = (.ok (), (discoverHosted untaggedDb).1.2) :=
    Prod.ext (by decide +kernel) rfl
  rw [hended] at hrun
  have htexts : ∀ c ∈ servedIds [js "openai-gpt-5"], ∃ t, c = js t := by
    have hids : servedIds [js "openai-gpt-5"] = [js "digitalocean/openai-gpt-5"] := by decide +kernel
    rw [hids]
    intro c hc
    exact ⟨_, List.mem_singleton.1 hc⟩
  have hkeyed : untaggedDb.Keyed := ⟨List.nodup_singleton _, List.nodup_singleton _⟩
  obtain ⟨-, hsame, -, -⟩ := discovery_settles htexts hkeyed hrun (fun _ h => h)
    (discoverHosted_run (discoverHosted untaggedDb).2)
  exact ⟨by decide +kernel, hsame⟩

end Catalog
end VibeRouter
