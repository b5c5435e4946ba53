import VibeRouter.Gateway.StageSpecs
import VibeRouter.Resilience.Executor

/-! # What the executors do

For each function of the executors that calls no adapter: which parts of the surroundings it
uses, and what it makes of the context. -/

namespace VibeRouter

open Effects Async Code

variable {L : (e : Op) → e.Answer → Prop} {A : Op → Prop} {s : PipelineCtx}

theorem auditAs_uses (model : Option String) (event : AuditEvent) :
    Uses L [.audit] (auditAs model event) s fun r s' => r = .ok () ∧ s' = s := by
  simp only [auditAs, meets_bind, meets_ctx]
  split <;> simp [Op.Within, Op.part, Op.WellKeyed]

theorem auditSoftFindings_uses (model : String) (soft : List SoftFinding) :
    Uses L [.audit] (auditSoftFindings model soft) s fun r s' => r = .ok () ∧ s' = s := by
  cases soft with
  | nil => exact ⟨rfl, rfl⟩
  | cons f fs => exact auditAs_uses _ _

theorem auditFrom_uses (previousModel : String) (model : ModelRow) (reason : String) :
    Uses L [.audit] (auditFrom previousModel model reason) s fun r s' => r = .ok () ∧ s' = s := by
  unfold auditFrom
  split
  · exact ⟨rfl, rfl⟩
  · exact auditAs_uses _ _

theorem auditClamp_uses (route : RouteDecision) :
    Uses L [.audit] (auditClamp route) s fun r s' => r = .ok () ∧ s' = s := by
  simp only [auditClamp, meets_bind, meets_ctx]
  split
  · split
    · exact ⟨rfl, rfl⟩
    · exact auditAs_uses _ _
  · exact ⟨rfl, rfl⟩

theorem recordHealth_uses (route : RouteDecision) (ok : Bool) :
    Uses L [.health] (recordHealth route ok) s fun r s' =>
      s' = s ∧ (s.auth.isSome = true → r = .ok ()) := by
  simp only [recordHealth, meets_bind, meets_ctx]
  split
  · simp [Op.Within, Op.part, Op.WellKeyed]
  · next h => simp [h]

theorem backOff_uses (attempt : ℕ) (rerr : RouterError) :
    Uses L [.clock, .signal] (backOff attempt rerr) s fun _ s' => s' = s := by
  unfold backOff
  split <;> simp [Op.Within, Op.part, Op.WellKeyed]

theorem backOff_ok (attempt : ℕ) (rerr : RouterError) :
    Uses L [.clock, .signal] (backOff attempt rerr) s fun r s' => (∃ b, r = .ok b) ∧ s' = s := by
  unfold backOff
  split <;> simp [Op.Within, Op.part, Op.WellKeyed]

theorem noteFailure_ok (route : RouteDecision) (givenUp : Bool) (h : s.auth.isSome = true) :
    Uses L [.breaker, .health] (noteFailure route givenUp) s fun r s' => r = .ok () ∧ s' = s := by
  unfold noteFailure
  split
  · exact ⟨rfl, rfl⟩
  · simp only [meets_bind, meets_op]
    refine ⟨by simp [Op.Within, Op.part, Op.WellKeyed], fun _ _ => ?_⟩
    exact (recordHealth_uses route false).call (by simp) fun _ _ hr => ⟨hr.2 (hr.1 ▸ h), hr.1⟩

theorem noteFailure_uses (route : RouteDecision) (givenUp : Bool) :
    Uses L [.breaker, .health] (noteFailure route givenUp) s fun _ s' => s' = s := by
  unfold noteFailure
  split
  · rfl
  · simp only [meets_bind, meets_op]
    refine ⟨by simp [Op.Within, Op.part, Op.WellKeyed], fun _ _ => ?_⟩
    exact (recordHealth_uses route false).call (by simp) fun _ _ h => h.1

theorem retryOrThrow_uses (attempt : ℕ) (rerr : RouterError) (aborted : Bool) :
    Uses L [.clock, .signal] (retryOrThrow attempt rerr aborted) s fun _ s' => s' = s := by
  unfold retryOrThrow
  split
  · rfl
  · split
    · rfl
    · simp only [meets_bind]
      refine (backOff_uses attempt rerr).mono ?_
      rintro (e | b) s' rfl
      · rfl
      · cases b <;> rfl

theorem afterFailure_uses (route : RouteDecision) (attempt : ℕ) (rerr : RouterError) :
    Uses L [.clock, .signal, .breaker, .health] (afterFailure route attempt rerr) s
      fun _ s' => s' = s := by
  simp only [afterFailure, meets_bind, meets_op]
  refine ⟨by simp [Op.Within, Op.part, Op.WellKeyed], fun aborted _ => ?_⟩
  refine (noteFailure_uses route aborted).call (by simp) ?_
  rintro (e | _) s' rfl
  · rfl
  · exact (retryOrThrow_uses attempt rerr aborted).weaken (Op.Within.widen (by simp))

theorem auditIfInvalid_uses (route : RouteDecision) (rerr : RouterError) :
    Uses L [.audit] (auditIfInvalid route rerr) s fun r s' => r = .ok () ∧ s' = s := by
  unfold auditIfInvalid
  split
  · exact auditAs_uses _ _
  · exact ⟨rfl, rfl⟩

theorem streamCatch_uses (route : RouteDecision) (err : Thrown) (contentSeen : Bool) :
    Uses L [.signal, .breaker, .health, .audit] (streamCatch route err contentSeen) s
      fun _ s' => s' = s := by
  simp only [streamCatch, meets_bind, meets_op]
  refine ⟨by simp [Op.Within, Op.part, Op.WellKeyed], fun idleFired _ => ?_⟩
  refine ⟨by simp [Op.Within, Op.part, Op.WellKeyed], fun aborted _ => ?_⟩
  refine (noteFailure_uses route _).call (by simp) ?_
  rintro (e | _) s' rfl
  · rfl
  · refine (auditIfInvalid_uses route _).call (by simp) ?_
    rintro _ s' ⟨rfl, rfl⟩
    dsimp only
    split <;> rfl

theorem enterHop_uses (route : RouteDecision) (lastErr : Option RouterError)
    (previousModel : String) :
    Uses L [.audit] (enterHop route lastErr previousModel) s fun r s' =>
      r = .ok () ∧ s' = { s with route := some route } := by
  simp only [enterHop, meets_bind]
  refine (auditFrom_uses _ _ _).mono ?_
  rintro _ s' ⟨rfl, rfl⟩
  refine (auditClamp_uses route).mono ?_
  rintro _ s' ⟨rfl, rfl⟩
  exact ⟨rfl, rfl⟩

/-! ### Generators -/

theorem meets_inGenerator {α : Type} (c : Stage α)
    {post : Except Abrupt α → PipelineCtx → Prop} :
    (inGenerator c).Meets (GenOp.laws L Yielded) (GenOp.within A) s post ↔
      c.Meets L A s fun r => post (r.mapError .thrown) :=
  meets_embed _ c

theorem meets_inGenerator_op (e : Op) {post : Except Abrupt e.Answer → PipelineCtx → Prop} :
    @Code.Meets _ _ PipelineCtx Abrupt (no_index e.Answer) (GenOp.laws L Yielded)
      (GenOp.within A) (inGenerator (op e)) s post ↔ A e ∧ ∀ r, L e r → post (.ok r) s := Iff.rfl

section
variable {Q : Type} {V : Env Op Op.Answer Q} {ok : Q → Op → Prop} {q : Q}

theorem wp_inGenerator {α : Type} (c : Stage α)
    {post : Except Abrupt α → PipelineCtx → Q → Prop} :
    (inGenerator c).wp (V.withYield Yielded) (okOps ok Yielded) post s q ↔
      c.wp V ok (fun r => post (r.mapError .thrown)) s q :=
  wp_embed _ c

theorem wp_inGenerator_op (e : Op) {post : Except Abrupt e.Answer → PipelineCtx → Q → Prop} :
    @Code.wp _ _ PipelineCtx Abrupt Q (no_index e.Answer) (V.withYield Yielded)
      (okOps ok Yielded) (inGenerator (op e)) post s q ↔
      ok q e ∧ ∀ r, V.allows q e r → post (.ok r) s (V.next q e r) := Iff.rfl

end

/-! ### The relay of a stream -/

/-- The operations of the relay of a stream. -/
inductive Op.Relays : Op → Prop
  | pull : Relays .pull
  | closeStream : Relays .closeStream
  | armIdle (ms : ℕ) : Relays (.armIdle ms)
  | clearTotalTimeout : Relays .clearTotalTimeout

section
variable (hA : ∀ e, Op.Relays e → A e)
include hA

theorem yieldChunk_meets (chunk : StreamChunk) :
    (yieldChunk chunk).Meets (GenOp.laws L Yielded) (GenOp.within A) s fun _ s' => s' = s := by
  simp only [yieldChunk, meets_bind, meets_read, meets_perform]
  refine ⟨trivial, fun resumed _ => ?_⟩
  cases resumed with
  | next => rfl
  | return_ =>
      simp only [meets_bind, meets_inGenerator_op]
      refine ⟨hA _ .closeStream, fun r _ => ?_⟩
      cases r <;> rfl

theorem yieldAll_meets (chunks : List StreamChunk) :
    (yieldAll chunks).Meets (GenOp.laws L Yielded) (GenOp.within A) s fun _ s' => s' = s := by
  induction chunks with
  | nil => rfl
  | cons chunk chunks ih =>
      simp only [yieldAll, meets_bind]
      refine (yieldChunk_meets hA chunk).mono ?_
      rintro (e | _ | e) s' rfl
      · rfl
      · exact ih
      · rfl

theorem commit_meets (contentSeen : Bool) :
    (commit contentSeen).Meets (GenOp.laws L Yielded) (GenOp.within A) s fun r s' =>
      r = .ok () ∧ s' = s := by
  unfold commit
  split
  · exact ⟨rfl, rfl⟩
  · exact ⟨hA _ .clearTotalTimeout, fun _ _ => ⟨rfl, rfl⟩⟩

theorem relayStream_meets (cfg : ResilienceConfig) (chunks : List StreamChunk)
    (contentSeen : Bool) (pending : List StreamChunk) :
    (relayStream cfg chunks contentSeen pending).Meets (GenOp.laws L Yielded) (GenOp.within A) s
      fun _ s' => s' = s := by
  induction chunks generalizing contentSeen pending with
  | nil =>
      simp only [relayStream, meets_bind, meets_inGenerator_op]
      refine ⟨hA _ .pull, fun r _ => ?_⟩
      cases r <;> rfl
  | cons chunk rest ih =>
      simp only [relayStream, meets_bind, meets_inGenerator_op]
      refine ⟨hA _ .pull, fun r _ => ?_⟩
      rcases r with e | _
      · rfl
      · simp only [meets_bind, meets_inGenerator_op]
        refine ⟨hA _ (.armIdle _), fun _ _ => ?_⟩
        split
        · exact ih _ _
        · rw [meets_bind]
          refine (commit_meets hA contentSeen).mono ?_
          rintro _ _ ⟨rfl, rfl⟩
          dsimp only
          rw [meets_bind]
          refine (yieldAll_meets hA _).mono ?_
          rintro (e | _ | e) s' rfl
          · rfl
          · exact ih _ _
          · rfl

end

/-! ### Whole executions -/

/-- The parts an execution uses. -/
def executorParts : List Op.Part :=
  [.clock, .engine, .audit, .vault, .adapter, .health, .signal, .breaker, .shed]

theorem executorParts_relays (e : Op) (h : e.Relays) : e.Within executorParts := by
  cases h <;> simp [Op.Within, Op.part, Op.WellKeyed, executorParts]

/-- The context after some hops. -/
def Rerouted (s s' : PipelineCtx) : Prop :=
  ∃ b route, s' = { s with cloudBlockAudited := b, route }

theorem Rerouted.refl (s : PipelineCtx) : Rerouted s s := ⟨s.cloudBlockAudited, s.route, rfl⟩

theorem Rerouted.trans {s s' s'' : PipelineCtx} (h : Rerouted s s') (h' : Rerouted s' s'') :
    Rerouted s s'' := by
  obtain ⟨_, _, rfl⟩ := h
  obtain ⟨b, route, rfl⟩ := h'
  exact ⟨b, route, rfl⟩

variable [Platform]

/-- Verification, when it is on, lets a response pass. -/
def Accepts (cfg : ResilienceConfig) (env : AIRequest) (res : AIResponse) : Prop :=
  cfg.verifyResponses = true → ∃ soft,
    verifyResponse res env cfg.schemaValidationDefault = .ok (none, soft)

theorem verifyHop_uses (cfg : ResilienceConfig) (route : RouteDecision) (res : AIResponse) :
    Uses L [.audit] (verifyHop cfg route res) s fun r s' => s' = s ∧
      (r = .ok () → ∃ soft,
        verifyResponse res (hopEnvelope route s) cfg.schemaValidationDefault = .ok (none, soft)) := by
  simp only [verifyHop, meets_bind, meets_ctx, meets_ofExcept]
  split
  · next r hr =>
    obtain ⟨finding, soft⟩ := r
    cases finding with
    | none => exact (auditSoftFindings_uses _ _).mono fun _ _ h => ⟨h.2, fun _ => ⟨soft, hr⟩⟩
    | some finding =>
        simp only [meets_bind]
        refine (auditAs_uses _ _).mono ?_
        rintro _ s' ⟨rfl, rfl⟩
        exact ⟨rfl, by simp⟩
  · exact ⟨trivial, by simp⟩

theorem verifyIfEnabled_uses (cfg : ResilienceConfig) (route : RouteDecision) (res : AIResponse) :
    Uses L [.audit] (verifyIfEnabled cfg route res) s fun r s' => s' = s ∧
      (r = .ok () → Accepts cfg (hopEnvelope route s) res) := by
  unfold verifyIfEnabled
  split
  · exact (verifyHop_uses cfg route res).mono fun _ _ h => ⟨h.1, fun hr _ => h.2 hr⟩
  · next h => exact ⟨rfl, fun _ hv => absurd hv h⟩

theorem admitHop_uses (deps : PipelineDeps) (hL : ∀ e r, L e r → e.Lawful r) (auditSkips : Bool)
    (model : ModelRow) (lastErr : Option RouterError) (previousModel : String) :
    Uses L [.clock, .engine, .audit, .vault, .breaker, .shed]
      (admitHop deps auditSkips model lastErr previousModel) s fun r s' =>
        (∃ b, s' = { s with cloudBlockAudited := b }) ∧
          ∀ route, r = .ok (.admitted route) → RouteFor s model route ∧
            ((∀ e r, L e r → PolicyEngine.KeyedAnswer e r) →
              route.provider.kind = model.providerKind) := by
  simp only [admitHop, meets_bind, meets_outcome]
  refine (routeForModel_uses deps hL model).call (by simp) ?_
  rintro (e | route) _ ⟨⟨b, rfl⟩, hroute⟩
  · dsimp only
    split
    · simp only [meets_bind]
      refine (auditFrom_uses _ _ _).call (by simp) ?_
      rintro _ s' ⟨rfl, rfl⟩
      exact ⟨⟨b, rfl⟩, by simp⟩
    · exact ⟨⟨b, rfl⟩, by simp⟩
  · simp only [meets_bind, meets_op]
    refine ⟨by simp [Op.Within, Op.part, Op.WellKeyed], fun allowed _ => ?_⟩
    split
    · simp only [meets_bind]
      refine (auditAs_uses _ _).call (by simp) ?_
      rintro _ s' ⟨rfl, rfl⟩
      exact ⟨⟨b, rfl⟩, by simp⟩
    · simp only [meets_bind, meets_op]
      refine ⟨by simp [Op.Within, Op.part, Op.WellKeyed], fun acquired _ => ?_⟩
      split
      · exact ⟨⟨b, rfl⟩, by simp⟩
      · refine ⟨⟨b, rfl⟩, ?_⟩
        rintro route' ⟨⟩
        exact hroute route rfl

theorem executeAttempt_uses (cfg : ResilienceConfig) (route : RouteDecision) :
    Uses L executorParts (executeAttempt cfg route) s fun _ s' => s' = s := by
  simp only [executeAttempt, meets_bind, meets_ctx, meets_await, meets_op]
  refine ⟨by simp [Op.Within, Op.part, Op.WellKeyed, executorParts], fun r _ => ?_⟩
  rcases r with e | res
  · trivial
  refine (verifyIfEnabled_uses cfg route res).call (by simp [executorParts]) ?_
  rintro (e | _) s' ⟨rfl, -⟩
  · rfl
  refine ⟨by simp [Op.Within, Op.part, Op.WellKeyed, executorParts], fun _ _ => ?_⟩
  refine (recordHealth_uses route true).call (by simp [executorParts]) ?_
  rintro (e | _) s' ⟨rfl, -⟩ <;> rfl

theorem retryLoop_uses (cfg : ResilienceConfig) (route : RouteDecision) (left attempt : ℕ)
    (lastErr : Option RouterError) :
    Uses L executorParts (retryLoop cfg route left attempt lastErr) s fun _ s' => s' = s := by
  induction left generalizing attempt lastErr with
  | zero => rfl
  | succ left ih =>
      simp only [retryLoop, meets_bind, meets_op]
      refine ⟨by simp [Op.Within, Op.part, Op.WellKeyed, executorParts], fun aborted _ => ?_⟩
      split
      · rfl
      · simp only [meets_bind, meets_outcome]
        refine (executeAttempt_uses cfg route).mono ?_
        rintro (e | res) s' rfl
        · simp only [meets_bind]
          refine (afterFailure_uses route attempt _).call (by simp [executorParts]) ?_
          rintro (e | _) s' rfl
          · rfl
          · exact ih _ _
        · rfl

theorem runHop_uses (cfg : ResilienceConfig) (route : RouteDecision)
    (lastErr : Option RouterError) (previousModel : String) :
    Uses L executorParts (runHop cfg route lastErr previousModel) s fun _ s' =>
      s' = { s with route := some route } := by
  simp only [runHop, meets_ensure, meets_bind, meets_outcome]
  refine (enterHop_uses route lastErr previousModel).call (by simp [executorParts]) ?_
  rintro _ s' ⟨rfl, rfl⟩
  refine (retryLoop_uses cfg route _ _ _).mono ?_
  rintro (e | res) s' rfl <;>
    simp [Op.Within, Op.part, Op.WellKeyed, executorParts]

variable (deps : PipelineDeps) (cfg : ResilienceConfig)

theorem hopLoop_uses (hL : ∀ e r, L e r → e.Lawful r) (effective : EffectivePolicy)
    (ids : List Uuid) (lastErr : Option RouterError) (previousModel : String) :
    Uses L executorParts (hopLoop deps cfg effective ids lastErr previousModel) s
      fun _ s' => Rerouted s s' := by
  induction ids generalizing s lastErr previousModel with
  | nil => exact Rerouted.refl s
  | cons id ids ih =>
      simp only [hopLoop, meets_bind, meets_op]
      refine ⟨by simp [Op.Within, Op.part, Op.WellKeyed, executorParts], fun aborted _ => ?_⟩
      split
      · exact Rerouted.refl s
      · split
        · exact ih _ _
        · rw [meets_bind]
          refine (admitHop_uses deps hL _ _ _ _).call (by simp [executorParts]) ?_
          rintro (e | ⟨route⟩ | rerr) _ ⟨⟨b, rfl⟩, -⟩
          · exact ⟨b, s.route, rfl⟩
          · dsimp only
            rw [meets_bind]
            refine (runHop_uses cfg route _ _).mono ?_
            have hstep : Rerouted s { s with cloudBlockAudited := b, route := some route } :=
              ⟨b, some route, rfl⟩
            rintro (e | ⟨rerr, _ | _⟩ | res) _ rfl
            · exact hstep
            · exact (ih _ _).mono fun _ _ h => hstep.trans h
            · exact hstep
            · exact hstep
          · exact (ih _ _).mono fun _ _ h => Rerouted.trans ⟨b, s.route, rfl⟩ h

theorem executeResilient_uses (hL : ∀ e r, L e r → e.Lawful r) :
    Uses L executorParts (executeResilient deps cfg) s fun _ s' => Rerouted s s' := by
  simp only [executeResilient, meets_bind, meets_ensure]
  refine requireEffective_uses.call (by simp) ?_
  rintro (e | effective) s' ⟨rfl, -⟩
  · exact Rerouted.refl _
  simp only [meets_op, meets_ctx, meets_ofExcept]
  have hdispose : (Op.disposeSignal).Within executorParts := by
    simp [Op.Within, Op.part, Op.WellKeyed, executorParts]
  refine ⟨by simp [Op.Within, Op.part, Op.WellKeyed, executorParts], fun _ _ => ?_⟩
  cases candidateModels effective s'.envelope with
  | error e => exact ⟨hdispose, fun _ _ => Rerouted.refl _⟩
  | ok ids =>
      refine (hopLoop_uses deps cfg hL effective ids none "").mono ?_
      rintro (e | lastErr | res) s'' h
      · exact ⟨hdispose, fun _ _ => h⟩
      · simp only [meets_bind, meets_op]
        refine ⟨by simp [Op.Within, Op.part, Op.WellKeyed, executorParts], fun timedOut _ => ?_⟩
        split <;> exact ⟨hdispose, fun _ _ => h⟩
      · exact ⟨hdispose, fun _ _ => h⟩

/-! ### Whole streams -/

/-- What a generator uses, with any consumer. -/
abbrev StreamUses {α : Type} (L : (e : Op) → e.Answer → Prop) (ps : List Op.Part)
    (g : Generator α) (s : PipelineCtx) (post : Except Abrupt α → PipelineCtx → Prop) : Prop :=
  g.Meets (GenOp.laws L Yielded) (GenOp.within (Op.Within ps)) s post

omit [Platform] in
theorem streamTry_uses (route : RouteDecision) (lastErr : Option RouterError)
    (previousModel : String) :
    StreamUses L executorParts (streamTry cfg route lastErr previousModel) s fun _ s' =>
      s' = { s with route := some route } := by
  simp only [streamTry, meets_bind, meets_inGenerator]
  refine (enterHop_uses route lastErr previousModel).call (by simp [executorParts]) ?_
  rintro _ s' ⟨rfl, rfl⟩
  refine ⟨by simp [Op.Within, Op.part, Op.WellKeyed, executorParts], fun chunks _ => ?_⟩
  refine (relayStream_meets executorParts_relays cfg chunks false []).mono ?_
  rintro (e | ⟨_ | _⟩ | _) s' rfl
  · rfl
  · rfl
  · exact ⟨⟨by simp [Op.part, executorParts], trivial⟩, fun _ _ => rfl⟩
  · rfl

omit [Platform] in
theorem streamHop_uses (route : RouteDecision) (lastErr : Option RouterError)
    (previousModel : String) :
    StreamUses L executorParts (streamHop cfg route lastErr previousModel) s fun _ s' =>
      s' = { s with route := some route } := by
  have hclose : (Op.closeHop).Within executorParts := ⟨by simp [Op.part, executorParts], trivial⟩
  have hrelease : (Op.shedRelease route.provider.id).Within executorParts :=
    ⟨by simp [Op.part, executorParts], trivial⟩
  simp only [streamHop, meets_bind, meets_inGenerator_op, meets_ensure]
  refine ⟨by simp [Op.Within, Op.part, Op.WellKeyed, executorParts], fun _ _ => ?_⟩
  refine (streamTry_uses cfg route lastErr previousModel).mono ?_
  rintro (e | ⟨seen⟩ | ⟨err, seen⟩) s' rfl
  · exact ⟨hclose, fun _ _ => ⟨hrelease, fun _ _ => rfl⟩⟩
  · exact ⟨hclose, fun _ _ => ⟨hrelease, fun _ _ => rfl⟩⟩
  · simp only [meets_bind, meets_inGenerator]
    refine (streamCatch_uses route err seen).call (by simp [executorParts]) ?_
    rintro (e | rerr) s' rfl
    · exact ⟨hclose, fun _ _ => ⟨hrelease, fun _ _ => rfl⟩⟩
    · exact ⟨hclose, fun _ _ => ⟨hrelease, fun _ _ => rfl⟩⟩

theorem streamLoop_uses (hL : ∀ e r, L e r → e.Lawful r) (effective : EffectivePolicy)
    (ids : List Uuid) (lastErr : Option RouterError) (previousModel : String) :
    StreamUses L executorParts (streamLoop deps cfg effective ids lastErr previousModel) s
      fun _ s' => Rerouted s s' := by
  induction ids generalizing s lastErr previousModel with
  | nil => exact Rerouted.refl s
  | cons id ids ih =>
      simp only [streamLoop, meets_bind, meets_inGenerator_op]
      refine ⟨by simp [Op.Within, Op.part, Op.WellKeyed, executorParts], fun aborted _ => ?_⟩
      split
      · exact Rerouted.refl s
      · split
        · exact ih _ _
        · rw [meets_bind, meets_inGenerator]
          refine (admitHop_uses deps hL _ _ _ _).call (by simp [executorParts]) ?_
          rintro (e | ⟨route⟩ | rerr) _ ⟨⟨b, rfl⟩, -⟩
          · exact ⟨b, s.route, rfl⟩
          · dsimp only [Except.mapError]
            rw [meets_bind]
            refine (streamHop_uses cfg route _ _).mono ?_
            have hstep : Rerouted s { s with cloudBlockAudited := b, route := some route } :=
              ⟨b, some route, rfl⟩
            rintro (e | _ | rerr) _ rfl
            · exact hstep
            · exact hstep
            · exact (ih _ _).mono fun _ _ h => hstep.trans h
          · exact (ih _ _).mono fun _ _ h => Rerouted.trans ⟨b, s.route, rfl⟩ h

theorem executeResilientStream_uses (hL : ∀ e r, L e r → e.Lawful r) :
    StreamUses L executorParts (executeResilientStream deps cfg) s fun _ s' => Rerouted s s' := by
  simp only [executeResilientStream, meets_bind, meets_ensure, meets_inGenerator]
  refine requireEffective_uses.call (by simp) ?_
  rintro (e | effective) s' ⟨rfl, -⟩
  · exact Rerouted.refl _
  dsimp only [Except.mapError]
  simp only [meets_op, meets_ctx, meets_ofExcept]
  have hdispose : (Op.disposeSignal).Within executorParts := by
    simp [Op.Within, Op.part, Op.WellKeyed, executorParts]
  refine ⟨by simp [Op.Within, Op.part, Op.WellKeyed, executorParts], fun _ _ => ?_⟩
  cases candidateModels effective s'.envelope with
  | error e => exact ⟨hdispose, fun _ _ => Rerouted.refl _⟩
  | ok ids =>
      refine (streamLoop_uses deps cfg hL effective ids none "").mono ?_
      rintro (e | _ | lastErr) s'' h
      · exact ⟨hdispose, fun _ _ => h⟩
      · exact ⟨hdispose, fun _ _ => h⟩
      · simp only [meets_bind, meets_inGenerator_op]
        refine ⟨by simp [Op.Within, Op.part, Op.WellKeyed, executorParts], fun timedOut _ => ?_⟩
        split <;> exact ⟨hdispose, fun _ _ => h⟩

end VibeRouter
