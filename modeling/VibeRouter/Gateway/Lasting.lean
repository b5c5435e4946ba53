import VibeRouter.Gateway.Calls

/-! # What a request keeps

The stages and the executors of a request change its context, but not which request it is: its
id, the time it arrived, whom it is for and whether it streams stay as they were, and no stage
notes an error.  `serveStages` are the stages of a request up to its adapter. -/

namespace VibeRouter

open Effects Async Code

/-- `c'` is the context of the same request as `c`. -/
structure SameRequest (c c' : PipelineCtx) : Prop where
  requestId : c'.requestId = c.requestId
  startedAt : c'.startedAt = c.startedAt
  stream : c'.envelope.stream = c.envelope.stream
  userId : c'.envelope.metadata.userId = c.envelope.metadata.userId
  auth : c'.auth = c.auth
  error : c'.error = c.error

namespace SameRequest

variable {c c' c'' : PipelineCtx}

theorem refl (c : PipelineCtx) : SameRequest c c := ⟨rfl, rfl, rfl, rfl, rfl, rfl⟩

theorem trans (h : SameRequest c c') (h' : SameRequest c' c'') : SameRequest c c'' where
  requestId := h'.requestId.trans h.requestId
  startedAt := h'.startedAt.trans h.startedAt
  stream := h'.stream.trans h.stream
  userId := h'.userId.trans h.userId
  auth := h'.auth.trans h.auth
  error := h'.error.trans h.error

theorem symm (h : SameRequest c c') : SameRequest c' c where
  requestId := h.requestId.symm
  startedAt := h.startedAt.symm
  stream := h.stream.symm
  userId := h.userId.symm
  auth := h.auth.symm
  error := h.error.symm

theorem of_rerouted (h : Rerouted c c') : SameRequest c c' := by
  obtain ⟨b, route, rfl⟩ := h
  exact ⟨rfl, rfl, rfl, rfl, rfl, rfl⟩

/-- The context of a hop is that of its request. -/
theorem rerouted (h : SameRequest c c') (b : Bool) (route : Option RouteDecision) :
    SameRequest c { c' with cloudBlockAudited := b, route } :=
  ⟨h.requestId, h.startedAt, h.stream, h.userId, h.auth, h.error⟩

theorem withPolicy (c : PipelineCtx) (effective : EffectivePolicy) :
    SameRequest c (c.withPolicy effective) := ⟨rfl, rfl, rfl, rfl, rfl, rfl⟩

end SameRequest

variable {L : (e : Op) → e.Answer → Prop} {s : PipelineCtx}

/-! ### scrub -/

theorem runScrubber_same (mode : ScrubberMode) (cloudPrimary : Bool) :
    Uses L [.audit] (runScrubber mode cloudPrimary) s fun _ s' => SameRequest s s' := by
  simp only [runScrubber, meets_bind, meets_ctx]
  split
  · split
    · cases cloudPrimary with
      | true => exact ⟨rfl, rfl, rfl, rfl, rfl, rfl⟩
      | false => exact ⟨rfl, rfl, rfl, rfl, rfl, rfl⟩
    · exact SameRequest.refl s
  · split
    · exact ⟨rfl, rfl, rfl, rfl, rfl, rfl⟩
    · exact SameRequest.refl s

theorem actOnReport_same (auth : AuthContext) (effective : EffectivePolicy) (mode : ScrubberMode)
    (cloudPrimary : Bool) (counts : List (String × ℕ)) :
    Uses L [.audit] (actOnReport auth effective mode cloudPrimary counts) s fun _ s' =>
      SameRequest s s' := by
  have haudit : ∀ event, Uses L [.audit] (auditRequest auth effective event) s fun _ s' =>
      SameRequest s s' := by
    intro event
    refine (auditRequest_uses auth effective event).mono ?_
    intro r s' h
    rw [h.2]
    exact SameRequest.refl s
  unfold actOnReport
  cases mode with
  | block =>
      dsimp only
      split
      · exact ⟨rfl, rfl, rfl, rfl, rfl, rfl⟩
      · simp only [meets_bind]
        refine (haudit _).mono ?_
        intro r s' h
        cases r <;> exact h
  | redact => exact haudit _
  | warn => exact haudit _

theorem stageScrub_same [Platform] : Uses L [.audit] stageScrub s fun _ s' => SameRequest s s' := by
  simp only [stageScrub, meets_bind]
  refine requireEffective_uses.call (by simp) ?_
  rintro (e | effective) s ⟨rfl, -⟩
  · exact SameRequest.refl s
  refine requireAuth_uses.call (by simp) ?_
  rintro (e | auth) s ⟨rfl, -⟩
  · exact SameRequest.refl s
  simp only [meets_ctx, meets_ofExcept]
  cases scrubTarget effective s.envelope with
  | error e => exact SameRequest.refl s
  | ok model =>
      dsimp only
      split
      · exact SameRequest.refl s
      · rw [meets_bind]
        refine (runScrubber_same _ _).mono ?_
        intro r s' h
        cases r with
        | error e => exact h
        | ok report =>
            dsimp only
            split
            · exact h
            · exact (actOnReport_same _ _ _ _ _).mono fun r s'' h' => h.trans h'

variable [Platform] (deps : PipelineDeps)

/-! ### route -/

theorem stageRoute_same (hL : ∀ e r, L e r → e.Lawful r) :
    Uses L [.clock, .engine, .audit, .vault] (stageRoute deps) s fun _ s' => SameRequest s s' := by
  simp only [stageRoute, meets_bind]
  refine requireEffective_uses.call (by simp) ?_
  rintro (e | effective) s ⟨rfl, -⟩
  · exact SameRequest.refl s
  refine requireAuth_uses.call (by simp) ?_
  rintro (e | auth) s ⟨rfl, -⟩
  · exact SameRequest.refl s
  simp only [meets_ctx, meets_ofExcept]
  cases selectModelWith effective s.envelope with
  | error e => exact SameRequest.refl s
  | ok selected =>
      dsimp only
      refine (auditUpgrade_uses _ _ _).call (by simp) ?_
      rintro r s ⟨rfl, rfl⟩
      refine (routePrimary_uses deps hL selected.1).mono ?_
      rintro r s' ⟨b, route, routeError, rfl, -⟩
      exact ⟨rfl, rfl, rfl, rfl, rfl, rfl⟩

/-! ### adapt -/

/-- The parts `stageAdapt` uses. -/
def adaptParts : List Op.Part :=
  [.clock, .engine, .audit, .vault, .adapter, .health, .signal, .breaker, .shed, .responses]

omit [Platform] in
theorem unrouted_same {α : Type} :
    Uses L adaptParts (unrouted : Stage α) s fun r s' => s' = s ∧ ∀ a, r ≠ .ok a := by
  simp only [unrouted, meets_bind, meets_ctx]
  split
  · exact ⟨rfl, by simp⟩
  · exact ⟨rfl, by simp⟩

omit [Platform] in
theorem serveCached_same (cacheKey : Option String) :
    Uses L [.clock, .responses] (serveCached cacheKey) s fun r s' => SameRequest s s' ∧
      (r = .ok true ∧ cacheKey.isSome = true ∧ s'.response.isSome = true ∨
        r = .ok false ∧ s' = s) := by
  unfold serveCached
  split
  · exact ⟨SameRequest.refl s, .inr ⟨rfl, rfl⟩⟩
  · simp only [meets_bind, meets_op]
    refine ⟨by simp [Op.Within, Op.part, Op.WellKeyed], fun hit _ => ?_⟩
    split
    · exact ⟨SameRequest.refl s, .inr ⟨rfl, rfl⟩⟩
    · simp only [meets_bind, meets_dateNow]
      refine ⟨by simp [Op.Within, Op.part, Op.WellKeyed], fun now _ => ?_⟩
      exact ⟨⟨rfl, rfl, rfl, rfl, rfl, rfl⟩, .inl ⟨rfl, rfl, rfl⟩⟩

theorem adaptResilient_same (hL : ∀ e r, L e r → e.Lawful r) (cfg : ResilienceConfig)
    (auth : AuthContext) (cacheKey : Option String) :
    Uses L adaptParts (adaptResilient deps cfg auth cacheKey) s fun r s' => SameRequest s s' ∧
      (r = .ok () → s'.response.isSome = true) := by
  simp only [adaptResilient, meets_bind]
  refine (executeResilient_uses deps cfg hL).call (by decide) ?_
  intro r s' h
  have hs := SameRequest.of_rerouted h
  cases r with
  | error e => exact ⟨hs, by simp⟩
  | ok res =>
      simp only [meets_assign, meets_ctx]
      have hres : SameRequest s { s' with response := some res } :=
        hs.trans ⟨rfl, rfl, rfl, rfl, rfl, rfl⟩
      split
      · exact ⟨by simp [Op.Within, Op.part, Op.WellKeyed, adaptParts], fun _ _ =>
          ⟨hres, fun _ => rfl⟩⟩
      · exact ⟨hres, fun _ => rfl⟩

omit [Platform] in
theorem adaptDirect_same (route : RouteDecision) (cacheKey : Option String) :
    Uses L adaptParts (adaptDirect route cacheKey) s fun r s' => SameRequest s s' ∧
      (r = .ok () → s'.response.isSome = true) := by
  simp only [adaptDirect, meets_bind, meets_ctx, meets_op]
  refine ⟨by simp [Op.Within, Op.part, Op.WellKeyed, adaptParts], fun r _ => ?_⟩
  cases r with
  | error e =>
      simp only [meets_bind]
      refine (recordHealth_uses route false).call (by decide) ?_
      rintro r s' ⟨rfl, -⟩
      cases r <;> exact ⟨SameRequest.refl _, by simp⟩
  | ok res =>
      simp only [meets_bind, meets_assign]
      have hres : SameRequest s { s with response := some res } := ⟨rfl, rfl, rfl, rfl, rfl, rfl⟩
      refine (recordHealth_uses route true).call (by decide) ?_
      rintro r s' ⟨rfl, -⟩
      cases r with
      | error e => exact ⟨hres, by simp⟩
      | ok _ =>
          dsimp only
          split
          · exact ⟨by simp [Op.Within, Op.part, Op.WellKeyed, adaptParts], fun _ _ =>
              ⟨hres, fun _ => rfl⟩⟩
          · exact ⟨hres, fun _ => rfl⟩

theorem executeResilientStream_adapts (hL : ∀ e r, L e r → e.Lawful r) (cfg : ResilienceConfig) :
    StreamUses L adaptParts (executeResilientStream deps cfg) s fun _ s' => Rerouted s s' := by
  have hparts : executorParts ⊆ adaptParts := by decide
  refine (executeResilientStream_uses deps cfg hL).weaken fun e he => ?_
  cases e with
  | op e => exact Op.Within.widen hparts e he
  | yield y => trivial

omit [Platform] in
theorem adapterRelay_uses (chunks : List StreamChunk) :
    StreamUses L adaptParts (adapterRelay chunks) s fun _ s' => s' = s := by
  have hrelays : ∀ e : Op, e.Relays → e.Within adaptParts := fun e h => by
    cases h <;> simp [Op.Within, Op.part, Op.WellKeyed, adaptParts]
  induction chunks with
  | nil =>
      simp only [adapterRelay, meets_bind, meets_inGenerator_op]
      refine ⟨hrelays _ .pull, fun r _ => ?_⟩
      cases r <;> rfl
  | cons chunk chunks ih =>
      simp only [adapterRelay, meets_bind, meets_inGenerator_op]
      refine ⟨hrelays _ .pull, fun r _ => ?_⟩
      cases r with
      | error e => rfl
      | ok _ =>
          simp only [meets_bind]
          refine (yieldChunk_meets hrelays chunk).mono ?_
          rintro (e | _ | e) s' rfl
          · rfl
          · exact ih
          · rfl

omit [Platform] in
theorem adapterStream_uses (route : RouteDecision) :
    StreamUses L adaptParts (adapterStream route) s fun _ s' => s' = s := by
  simp only [adapterStream, meets_bind, meets_read, meets_inGenerator_op]
  exact ⟨by simp [Op.Within, Op.part, Op.WellKeyed, adaptParts], fun chunks _ =>
    adapterRelay_uses chunks⟩

/-! ### The stages before the adapter -/

/-- The stages of a request up to its adapter. -/
def serveStages (bearerToken : Option String) : Stage (Option ResponseStream) := do
  stageAuth deps bearerToken
  stageResolveTaskClass
  stagePolicy deps
  stageBudget
  stageScrub
  stageRoute deps
  stageAdapt deps

/-- The ledger row of a request that does not stream is written when it has been served. -/
theorem stages_eq (bearerToken : Option String) :
    stages deps bearerToken = (do
      let stream ← serveStages deps bearerToken
      if (← ctx).envelope.stream then pure stream
      else do
        DbLedger.write
        emitTerminalAudit
        pure stream) := by
  simp only [stages, serveStages, Code.bind_assoc]

/-- The parts the stages before the adapter use. -/
def routeParts : List Op.Part := [.clock, .tokens, .limiter, .engine, .budgets, .vault, .audit]

/-- The stages before the adapter. -/
def routeStages (bearerToken : Option String) : Stage Unit := do
  stageAuth deps bearerToken
  stageResolveTaskClass
  stagePolicy deps
  stageBudget
  stageScrub
  stageRoute deps

theorem serveStages_eq (bearerToken : Option String) :
    serveStages deps bearerToken = (do
      routeStages deps bearerToken
      stageAdapt deps) := by
  simp only [serveStages, routeStages, Code.bind_assoc]

theorem routeStages_same (hL : ∀ e r, L e r → e.Lawful r) (bearerToken : Option String) :
    Uses L routeParts (routeStages deps bearerToken) s fun r s' =>
      (s' = s ∧ r ≠ .ok ()) ∨ ∃ auth, SameRequest (s.withAuth auth) s' := by
  simp only [routeStages, meets_bind]
  refine (stageAuth_uses deps bearerToken).call (by simp [routeParts]) ?_
  rintro (e | _) s₁ (⟨rfl, hr⟩ | ⟨auth, rfl⟩)
  · exact .inl ⟨rfl, by simp⟩
  · exact .inr ⟨auth, SameRequest.refl _⟩
  · exact absurd rfl hr
  refine stageResolveTaskClass_uses.call (by simp [routeParts]) ?_
  rintro (e | _) s₁ rfl
  · exact .inr ⟨auth, SameRequest.refl _⟩
  have hauth : SameRequest (s.withAuth auth) (s.withAuth auth) := SameRequest.refl _
  refine (stagePolicy_uses deps).call (by simp [routeParts]) ?_
  rintro r s₂ (⟨hr, tc, rfl⟩ | ⟨effective, rfl⟩)
  · have hkeep : SameRequest (s.withAuth auth) { s.withAuth auth with taskClass := tc } :=
      ⟨rfl, rfl, rfl, rfl, rfl, rfl⟩
    cases r with
    | error e => exact .inr ⟨auth, hkeep⟩
    | ok _ => exact absurd rfl hr
  have hpolicy := SameRequest.withPolicy (s.withAuth auth) effective
  cases r with
  | error e => exact .inr ⟨auth, hpolicy⟩
  | ok _ =>
      dsimp only
      refine stageBudget_uses.call (by simp [routeParts]) ?_
      rintro r s₃ ⟨ws, rfl⟩
      have hbudget : SameRequest (s.withAuth auth)
          { (s.withAuth auth).withPolicy effective with budgetWarnings := ws } :=
        hpolicy.trans ⟨rfl, rfl, rfl, rfl, rfl, rfl⟩
      cases r with
      | error e => exact .inr ⟨auth, hbudget⟩
      | ok _ =>
          dsimp only
          have haudit : [Op.Part.audit] ⊆ routeParts := by simp [routeParts]
          refine stageScrub_same.call haudit ?_
          intro r s₄ hscrub
          cases r with
          | error e => exact .inr ⟨auth, hbudget.trans hscrub⟩
          | ok _ =>
              dsimp only
              refine (stageRoute_same deps hL).call (by simp [routeParts]) ?_
              intro r s₅ hroute
              exact .inr ⟨auth, (hbudget.trans hscrub).trans hroute⟩

end VibeRouter
