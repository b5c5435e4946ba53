import VibeRouter.Db.Tables
import VibeRouter.Resilience.Refinement

/-! # Repetitions in a fallback chain

A model that the fallback chain names twice is tried twice: the executor only leaves out the
primary.  The audit shows it, so the executor refines the chain for no policy that repeats a
known model (`refines_iff`), and a repeated model can even serve a request that the chain has
given up on (`repeated_model_serves`). -/

namespace VibeRouter

namespace Chain

open Effects Async Code

/-! ### Counting hops -/

/-- The audit entry of a hop. -/
def isHop : Op → Bool
  | .audit entry => match entry.event with
    | .fallback_hop _ _ _ => true
    | _ => false
  | _ => false

/-- Calm surroundings that count the hops in the audit. -/
def countHops (q : ℕ) (e : Op) : e.Answer × ℕ := (e.calm, if isHop e then q + 1 else q)

theorem oracle_countHops : Oracle countHops where
  lawful _ e := e.lawful_calm
  aborted _ := rfl
  timedOut _ := rfl
  adapter _ _ _ _ _ h := by
    cases h
    rfl

/-- The environment that answers so. -/
def counting : Env Op Op.Answer ℕ where
  allows _ e r := r = e.calm
  next q e _ := if isHop e then q + 1 else q

section
variable {S α : Type} {c : Async S α} {s : S} {q : ℕ}

/-- In calm surroundings, and without a hop in the audit. -/
abbrev Quiet (c : Async S α) (s : S) (post : Except Thrown α → S → Prop) : Prop :=
  c.Meets (fun e r => r = e.calm) (fun e => isHop e = false) s post

abbrev Counts (c : Async S α) (s : S) (q : ℕ) (post : Except Thrown α → S → ℕ → Prop) : Prop :=
  c.wp counting (fun _ _ => True) post s q

theorem Quiet.counts {post : Except Thrown α → S → Prop} (h : Quiet c s post) :
    Counts c s q fun r s' q' => post r s' ∧ q' = q := by
  refine h.wp (fun _ _ _ hr => hr) (J := (· = q)) rfl ?_ fun _ _ _ hpost hq => ⟨hpost, hq⟩
  rintro q' e rfl he
  refine ⟨trivial, fun r _ => ?_⟩
  simp [counting, he]

end

/-! ### The executor -/

variable [Platform] {deps : PipelineDeps} {cfg : ResilienceConfig} {s : PipelineCtx} {q : ℕ}

omit [Platform] in
theorem barCloudHop_quiet (auth : AuthContext) (effective : EffectivePolicy) (model : ModelRow) :
    Quiet (barCloudHop auth effective model) s fun _ s' => s'.auth = s.auth := by
  unfold barCloudHop
  simp only [meets_bind, meets_ctx]
  split
  · rfl
  · split
    · rfl
    · split
      · rfl
      · simp only [meets_bind, meets_assign, auditRequest, meets_op]
        exact ⟨rfl, fun _ _ => rfl⟩

omit [Platform] in
/-- Without a provider row. -/
theorem providerFor_quiet (ttlMs : ℕ) (firmId : Uuid) (kind : ProviderKind) :
    Quiet (PolicyEngine.providerFor ttlMs firmId kind) s fun r s' => r = .ok none ∧ s' = s := by
  unfold PolicyEngine.providerFor
  simp [isHop, PolicyEngine.fresh, Op.calm]

/-- Without provider rows no candidate can be routed. -/
theorem routeForModel_quiet (model : ModelRow) :
    Quiet (routeForModel deps model) s fun r s' => (∃ e, r = .error e) ∧ s'.auth = s.auth := by
  have hnone : ∀ e : Op, e.Within [] → isHop e = false := fun e h => absurd h.1 List.not_mem_nil
  simp only [routeForModel, meets_bind]
  refine (requireAuth_uses.weaken hnone).mono ?_
  rintro (e | auth) s' ⟨rfl, -⟩
  · exact ⟨⟨_, rfl⟩, rfl⟩
  refine (requireEffective_uses.weaken hnone).mono ?_
  rintro (e | effective) s' ⟨rfl, -⟩
  · exact ⟨⟨_, rfl⟩, rfl⟩
  simp only [meets_ctx, meets_ofExcept]
  cases modelViolation model effective (requiredCapabilities effective s'.envelope) with
  | error e => exact ⟨⟨_, rfl⟩, trivial⟩
  | ok violation =>
      cases violation with
      | some v => exact ⟨⟨_, rfl⟩, rfl⟩
      | none =>
          simp only [meets_bind]
          refine (barCloudHop_quiet auth effective model).mono ?_
          rintro (e | _) s'' hauth
          · exact ⟨⟨_, rfl⟩, hauth⟩
          refine (providerFor_quiet _ _ _).mono ?_
          rintro _ _ ⟨rfl, rfl⟩
          exact ⟨⟨_, rfl⟩, hauth⟩

omit [Platform] in
theorem auditFrom_counts (previousModel : String) (model : ModelRow) (reason : String)
    (h : s.auth.isSome = true) :
    Counts (auditFrom previousModel model reason) s q fun r s' q' =>
      r = .ok () ∧ s' = s ∧ q' = if previousModel = "" then q else q + 1 := by
  unfold auditFrom
  split
  · exact ⟨rfl, rfl, rfl⟩
  · obtain ⟨auth, hauth⟩ := Option.isSome_iff_exists.1 h
    simp only [auditHop, auditAs, wp_bind, wp_ctx, hauth, wp_op]
    exact ⟨trivial, fun _ _ => ⟨trivial, trivial, rfl⟩⟩

/-- A candidate is skipped, and audited unless it is the first. -/
theorem admitHop_counts (model : ModelRow) (lastErr : Option RouterError) (previousModel : String)
    (h : s.auth.isSome = true) :
    Counts (admitHop deps true model lastErr previousModel) s q fun r s' q' =>
      (∃ rerr, r = .ok (.skipped rerr)) ∧ s'.auth = s.auth ∧
        q' = if previousModel = "" then q else q + 1 := by
  simp only [admitHop, wp_bind, wp_outcome]
  refine wp_mono (routeForModel_quiet model).counts ?_
  rintro _ s' q' ⟨⟨⟨e, rfl⟩, hauth⟩, rfl⟩
  simp only [if_true, wp_bind]
  refine wp_mono (auditFrom_counts _ _ _ (hauth ▸ h)) ?_
  rintro _ s'' q'' ⟨rfl, rfl, hq⟩
  exact ⟨⟨_, rfl⟩, hauth, hq⟩

/-- All known candidates are skipped, each with an entry in the audit. -/
theorem hopLoop_counts {effective : EffectivePolicy}
    (hnamed : ∀ id m, effective.modelsById.get id = some m → m.canonicalId ≠ "")
    (ids : List Uuid) (lastErr : Option RouterError) {previousModel : String}
    (hprev : previousModel ≠ "") (h : s.auth.isSome = true) :
    Counts (hopLoop deps cfg effective ids lastErr previousModel) s q fun _ _ q' =>
      q' = q + (ids.filter fun id => (effective.modelsById.get id).isSome).length := by
  induction ids generalizing s q lastErr previousModel with
  | nil => rfl
  | cons id ids ih =>
      simp only [hopLoop, wp_bind, wp_op]
      refine ⟨trivial, ?_⟩
      rintro _ rfl
      simp only [Op.calm, Bool.false_eq_true, if_false]
      cases hm : effective.modelsById.get id with
      | none =>
          rw [List.filter_cons_of_neg (by simp [hm])]
          exact ih lastErr hprev h
      | some model =>
          rw [List.filter_cons_of_pos (by simp [hm]), List.length_cons]
          simp only [wp_bind]
          refine wp_mono (admitHop_counts model lastErr previousModel h) ?_
          rintro _ s' q' ⟨⟨rerr, rfl⟩, hauth, rfl⟩
          refine wp_mono (ih (some rerr) (hnamed id model hm) (hauth ▸ h)) ?_
          rintro _ _ q'' rfl
          rw [if_neg hprev]
          show q + 1 + _ = _
          omega

/-! ### When the executor refines the chain -/

variable {effective : EffectivePolicy} {primary : ModelRow} {c : PipelineCtx}

variable (deps cfg) in
/-- All of the fallback chain is skipped after the primary. -/
theorem hopLoop_counts_primary
    (hnamed : ∀ id m, effective.modelsById.get id = some m → m.canonicalId ≠ "")
    (hprimary : effective.modelsById.get primary.id = some primary) (ids : List Uuid)
    (h : c.auth.isSome = true) :
    Counts (hopLoop deps cfg effective (primary.id :: ids) none "") c q fun _ _ q' =>
      q' = q + (ids.filter fun id => (effective.modelsById.get id).isSome).length := by
  simp only [hopLoop, wp_bind, wp_op, hprimary]
  refine ⟨trivial, ?_⟩
  rintro _ rfl
  simp only [Op.calm, Bool.false_eq_true, if_false, wp_bind]
  refine wp_mono (admitHop_counts primary none "" h) ?_
  rintro _ s' q' ⟨⟨rerr, rfl⟩, hauth, rfl⟩
  exact hopLoop_counts hnamed ids (some rerr) (hnamed _ _ hprimary) (hauth ▸ h)

variable (deps cfg) in
theorem executeResilient_counts (hauth : c.auth.isSome = true) (heff : c.effective = some effective)
    (hsel : selectModel effective c.envelope = .ok primary)
    (hnamed : ∀ id m, effective.modelsById.get id = some m → m.canonicalId ≠ "") :
    Counts (executeResilient deps cfg) c q fun _ _ q' =>
      q' = q + (fallbacks effective primary).length := by
  simp only [executeResilient, requireEffective, wp_bind, wp_ctx, heff, wp_pure, wp_op, wp_ensure,
    wp_ofExcept, candidateModels_eq hsel]
  refine ⟨trivial, fun _ _ => ?_⟩
  refine wp_mono (hopLoop_counts_primary deps cfg hnamed (selectModel_known hsel) _ hauth) ?_
  rintro (e | lastErr | res) _ q' rfl
  · exact ⟨trivial, fun _ _ => rfl⟩
  · simp only [wp_bind, wp_op]
    refine ⟨trivial, ?_⟩
    rintro _ rfl
    exact ⟨trivial, fun _ _ => rfl⟩
  · exact ⟨trivial, fun _ _ => rfl⟩

variable (deps cfg) in
/-- The chain skips each known model once. -/
theorem run_counts (hauth : c.auth.isSome = true)
    (hsel : selectModel effective c.envelope = .ok primary)
    (hnamed : ∀ id m, effective.modelsById.get id = some m → m.canonicalId ≠ "") :
    ((run deps cfg effective primary).eval countHops c q).2 =
      q + (uniq (fallbacks effective primary)).length := by
  have hknown := selectModel_known hsel
  obtain ⟨ended, r, c', q', href, hcode, -⟩ := firstServed_refines deps cfg
    oracle_countHops effective
    (primary.id :: (uniq effective.policy.fallbackChain).filter (· ≠ primary.id)) [] "" c q
  rw [List.filterMap_cons_some hknown] at href
  have hcount := eval_of_wp (h := countHops) (hopLoop_counts_primary deps cfg
    (c := c) (q := q) hnamed hknown
    ((uniq effective.policy.fallbackChain).filter (· ≠ primary.id)) hauth) fun _ _ => ⟨rfl, rfl⟩
  replace hcode : (hopLoop deps cfg effective _ none "").eval countHops c q = _ := hcode
  rw [hcode] at hcount
  obtain rfl := hcount
  rw [fallbacks, ← uniq_filter, ← uniq_filter]
  have hopen : (countHops q (.openSignal cfg.totalTimeoutMs)).2 = q := rfl
  simp only [run, candidates, eval_bind, eval_op, hopen, href]
  cases ended <;> cases (countHops _ .timedOut).1 <;> rfl

/-- The executor refines the chain exactly when the fallback chain repeats no known model. -/
theorem refines_iff (hauth : c.auth.isSome = true) (heff : c.effective = some effective)
    (hsel : selectModel effective c.envelope = .ok primary)
    (hnamed : ∀ id m, effective.modelsById.get id = some m → m.canonicalId ≠ "") :
    Refines deps cfg effective primary c ↔ (fallbacks effective primary).Nodup := by
  refine ⟨fun href => ?_, refines_of_nodup heff hsel⟩
  obtain ⟨ended, r, c', q', hrun, hcode, -⟩ := href ℕ countHops 0 oracle_countHops
  have hchain := run_counts deps cfg (q := 0) hauth hsel hnamed
  have hexec := eval_of_wp (h := countHops)
    (executeResilient_counts deps cfg (q := 0) hauth heff hsel hnamed)
    fun _ _ => ⟨rfl, rfl⟩
  rw [hrun] at hchain
  rw [hcode] at hexec
  refine nodup_of_length_uniq ?_
  replace hchain : q' = _ := hchain
  replace hexec : q' = _ := hexec
  omega

end Chain

/-! ### A chain that repeats a model -/

namespace Sample

open Effects Chain

def chainConfig : ResilienceConfig := { totalTimeoutMs := 600000, streamIdleTimeoutMs := 60000 }

/-- A context whose policy falls back as `fallbackChain` says. -/
def chainCtx (fallbackChain : List Uuid) : PipelineCtx :=
  letI := platform
  admitted "r" fallbackChain

def hello (route : RouteDecision) : AIResponse :=
  { message := { content := js "hello" }, finishReason := .stop, usage := EMPTY_USAGE
    served := ⟨route.model.canonicalId, route.provider.id, 1⟩ }

/-- Providers that are unavailable for the first six calls. -/
def seventhServes (q : ℕ) : (e : Op) → e.Answer × ℕ
  | .execute _ route _ =>
      (if q < 6 then .error (.router { code := .provider_unavailable, message := "down" })
        else .ok (hello route), q + 1)
  | e => (tables.answer e, q)

theorem oracle_seventhServes : Oracle seventhServes where
  lawful q e := by
    have h := tables.lawful_answer e
    cases e with
    | execute c route env => trivial
    | _ => exact h
  aborted _ := rfl
  timedOut _ := rfl
  adapter q c route env err h := by
    unfold seventhServes at h
    dsimp only at h
    split at h
    · cases h
      rfl
    · cases h

/-- A chain that has run out of candidates. -/
def gaveUp : Except Thrown End → Bool
  | .ok (.exhausted _) => true
  | _ => false

end Sample

theorem sample_refines_iff :
    letI := Sample.platform
    Chain.Refines Sample.deps Sample.chainConfig (Sample.effective [Sample.localModelId])
        Sample.cloudModel (Sample.chainCtx [Sample.localModelId]) ↔
      (Chain.fallbacks (Sample.effective [Sample.localModelId]) Sample.cloudModel).Nodup := by
  let := Sample.platform
  have hsel : selectModel (Sample.effective [Sample.localModelId])
      (Sample.chainCtx [Sample.localModelId]).envelope = .ok Sample.cloudModel := by decide
  have hnamed : ∀ m ∈ (Sample.effective [Sample.localModelId]).modelsById.values,
      m.canonicalId ≠ "" := by decide
  exact Chain.refines_iff (by decide) (by rfl) hsel fun id m h =>
    hnamed m (JsMap.mem_values_of_get h)

namespace Sample

/-- A chain with the local model twice. -/
def repeatedRun : (Except Thrown Chain.End × PipelineCtx) × ℕ :=
  letI := platform
  (Chain.run deps chainConfig (effective [localModelId, localModelId]) cloudModel).eval seventhServes
    (chainCtx [localModelId, localModelId]) 0

/-- The executor for the same policy. -/
def repeatedExecution : (Except Thrown AIResponse × PipelineCtx) × ℕ :=
  letI := platform
  (executeResilient deps chainConfig).eval seventhServes (chainCtx [localModelId, localModelId]) 0

theorem repeatedRun_gaveUp : gaveUp repeatedRun.1.1 = true := by decide

theorem repeatedExecution_served : repeatedExecution.1.1.isOk = true := by decide

end Sample

/-- The second turn of a model answers after the chain has ended. -/
theorem repeated_model_serves :
    letI := Sample.platform
    ¬Chain.Refines Sample.deps Sample.chainConfig
      (Sample.effective [Sample.localModelId, Sample.localModelId]) Sample.cloudModel
      (Sample.chainCtx [Sample.localModelId, Sample.localModelId]) := by
  let := Sample.platform
  intro h
  obtain ⟨ended, r, c', q', hrun, hcode, hagrees⟩ :=
    h ℕ Sample.seventhServes 0 Sample.oracle_seventhServes
  have hended : Sample.gaveUp (.ok ended) = true := by
    rw [← Sample.repeatedRun_gaveUp]
    exact congrArg (fun r => Sample.gaveUp r.1.1) hrun.symm
  have hserved : r.isOk = true := by
    rw [← Sample.repeatedExecution_served]
    exact congrArg (fun r => r.1.1.isOk) hcode.symm
  cases ended with
  | exhausted errors =>
      replace hagrees : r = .error _ := hagrees
      rw [hagrees] at hserved
      cases hserved
  | served => cases hended
  | stopped => cases hended

end VibeRouter
