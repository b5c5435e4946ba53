import VibeRouter.Gateway.PipelineSpecs

/-! # Calls of adapters

Between the stages and the adapters stand the two executors and the handler.  A property of
operations that holds of everything but calls, and of the calls a hop makes from a context that
satisfies `J`, holds of everything a request does; `CallRule` says what has to be shown. -/

namespace VibeRouter

open Effects Async Code

variable [Platform]

/-- `A` holds of what is no call. -/
structure Beside (A : Op → Prop) : Prop where
  aside : ∀ ps : List Op.Part, .adapter ∉ ps → ∀ e, e.Within ps → A e
  relays : ∀ e, e.Relays → A e

/-- `A` also holds of the calls of a hop to a model in `K` from a context in `J`; the executors
keep `J`. -/
structure CallRule (A : Op → Prop) (J : PipelineCtx → Prop) (K : ModelRow → Prop) : Prop
    extends Beside A where
  reroute : ∀ c b route, J c → J { c with cloudBlockAudited := b, route }
  call : ∀ c m route, J c → K m → RouteFor c m route → route.provider.kind = m.providerKind →
    A (.execute { c with route := some route } route (hopEnvelope route c)) ∧
      A (.openStream { c with route := some route } route (hopEnvelope route c))
  candidates : ∀ c effective ids, J c → c.effective = some effective →
    candidateModels effective c.envelope = .ok ids →
    ∀ id ∈ ids, ∀ m, effective.modelsById.get id = some m → K m

/-- A route does not depend on the route before it. -/
theorem RouteFor.reroute {c : PipelineCtx} {m : ModelRow} {route : RouteDecision}
    (h : RouteFor c m route) (b : Bool) (r : Option RouteDecision) :
    RouteFor { c with cloudBlockAudited := b, route := r } m route :=
  ⟨h.model_eq, h.effective, h.unbarred⟩

section
variable {L : (e : Op) → e.Answer → Prop} {A : Op → Prop} {J : PipelineCtx → Prop}
  {K : ModelRow → Prop} {s : PipelineCtx}

omit [Platform] in
/-- Code beside the adapters. -/
theorem Beside.of_uses (hrule : Beside A) {S α : Type} {c : Async S α} {s : S}
    {ps : List Op.Part} {post post' : Except Thrown α → S → Prop} (h : Uses L ps c s post)
    (hps : .adapter ∉ ps) (hpost : ∀ r s, post r s → post' r s) : c.Meets L A s post' :=
  (h.weaken (hrule.aside ps hps)).mono hpost

omit [Platform] in
/-- An operation beside the adapters. -/
theorem Beside.op (hrule : Beside A) {e : Op} (he : e.part ≠ .adapter)
    (hk : e.WellKeyed) : A e :=
  hrule.aside [e.part] (by simpa using he.symm) e ⟨List.mem_singleton_self _, hk⟩

/-- What a generator does. -/
abbrev Calls {α : Type} (L : (e : Op) → e.Answer → Prop) (A : Op → Prop) (g : Generator α)
    (s : PipelineCtx) (post : Except Abrupt α → PipelineCtx → Prop) : Prop :=
  g.Meets (GenOp.laws L Yielded) (GenOp.within A) s post

section
variable (hrule : Beside A)
include hrule

/-! ### Calls in hand -/

omit [Platform] in
theorem streamTry_calls (cfg : ResilienceConfig) {route : RouteDecision} (lastErr : Option RouterError)
    (previousModel : String)
    (h : A (.openStream { s with route := some route } route (hopEnvelope route s))) :
    Calls L A (streamTry cfg route lastErr previousModel) s fun _ s' =>
      s' = { s with route := some route } := by
  simp only [streamTry, meets_bind, meets_inGenerator]
  refine hrule.of_uses (enterHop_uses route lastErr previousModel) (by simp) ?_
  rintro _ s' ⟨rfl, rfl⟩
  refine ⟨h, fun chunks _ => ?_⟩
  refine (relayStream_meets hrule.relays cfg chunks false []).mono ?_
  rintro (e | ⟨_ | _⟩ | _) s' rfl
  · rfl
  · rfl
  · exact ⟨hrule.op (by simp [Op.part]) trivial, fun _ _ => rfl⟩
  · rfl

omit [Platform] in
theorem adapterRelay_calls (chunks : List StreamChunk) :
    Calls L A (adapterRelay chunks) s fun _ _ => True := by
  induction chunks generalizing s with
  | nil =>
      simp only [adapterRelay, meets_bind, meets_inGenerator_op]
      refine ⟨hrule.relays _ .pull, fun r _ => ?_⟩
      cases r <;> trivial
  | cons chunk chunks ih =>
      simp only [adapterRelay, meets_bind, meets_inGenerator_op]
      refine ⟨hrule.relays _ .pull, fun r _ => ?_⟩
      cases r with
      | error e => trivial
      | ok _ =>
          simp only [meets_bind]
          refine (yieldChunk_meets hrule.relays chunk).mono ?_
          rintro (e | _ | e) s' rfl
          · trivial
          · exact ih
          · trivial

omit [Platform] in
theorem adapterStream_calls {route : RouteDecision}
    (h : A (.openStream s route (clampToModel s.envelope route.model))) :
    Calls L A (adapterStream route) s fun _ _ => True := by
  simp only [adapterStream, meets_bind, meets_read, meets_inGenerator_op]
  exact ⟨h, fun chunks _ => adapterRelay_calls hrule chunks⟩

omit [Platform] in
theorem adaptDirect_calls {route : RouteDecision}
    (h : A (.execute s route (clampToModel s.envelope route.model))) (cacheKey : Option String) :
    (adaptDirect route cacheKey).Meets L A s fun _ _ => True := by
  simp only [adaptDirect, meets_bind, meets_ctx, meets_op]
  refine ⟨h, fun r _ => ?_⟩
  cases r with
  | error e =>
      simp only [meets_bind]
      refine hrule.of_uses (recordHealth_uses route false) (by simp) ?_
      rintro (e | _) s' - <;> trivial
  | ok res =>
      simp only [meets_bind, meets_assign]
      refine hrule.of_uses (recordHealth_uses route true) (by simp) ?_
      rintro (e | _) s' -
      · trivial
      · dsimp only
        split
        · exact ⟨hrule.op (by simp [Op.part]) trivial, fun _ _ => trivial⟩
        · trivial

variable (cfg : ResilienceConfig)

theorem executeAttempt_calls {route : RouteDecision}
    (h : A (.execute s route (hopEnvelope route s))) :
    (executeAttempt cfg route).Meets L A s fun _ s' => s' = s := by
  simp only [executeAttempt, meets_bind, meets_ctx, meets_await, meets_op]
  refine ⟨h, fun r _ => ?_⟩
  rcases r with e | res
  · trivial
  refine hrule.of_uses (verifyIfEnabled_uses cfg route res) (by simp) ?_
  rintro (e | _) s' ⟨rfl, -⟩
  · rfl
  refine ⟨hrule.op (by simp [Op.part]) trivial, fun _ _ => ?_⟩
  refine hrule.of_uses (recordHealth_uses route true) (by simp) ?_
  rintro (e | _) s' ⟨rfl, -⟩ <;> rfl

theorem retryLoop_calls {route : RouteDecision}
    (h : A (.execute s route (hopEnvelope route s))) (left attempt : ℕ)
    (lastErr : Option RouterError) :
    (retryLoop cfg route left attempt lastErr).Meets L A s fun _ s' => s' = s := by
  induction left generalizing attempt lastErr with
  | zero => rfl
  | succ left ih =>
      simp only [retryLoop, meets_bind, meets_op]
      refine ⟨hrule.op (by simp [Op.part]) trivial, fun aborted _ => ?_⟩
      split
      · rfl
      · simp only [meets_bind, meets_outcome]
        refine (executeAttempt_calls hrule cfg h).mono ?_
        rintro (e | res) s' rfl
        · simp only [meets_bind]
          refine hrule.of_uses (afterFailure_uses route attempt _) (by simp) ?_
          rintro (e | _) s' rfl
          · rfl
          · exact ih _ _
        · rfl

/-! ### The runner and the handler -/

variable (deps : PipelineDeps)

theorem runPipeline_calls (bearerToken : Option String)
    (h : (stages deps bearerToken).Meets L A s fun r _ => ∀ stream, r = .ok (some stream) →
      stream.GenMeets L A fun _ => True) :
    (runPipeline deps bearerToken).Meets L A s fun r _ => ∀ stream,
      r = .ok (some stream) → stream.GenMeets L A fun _ => True := by
  simp only [runPipeline, meets_handle]
  refine h.mono ?_
  rintro (e | stream) s' hstream
  · simp only [meets_bind, meets_assign]
    refine hrule.of_uses writeLogged_uses (by simp) ?_
    rintro _ _ ⟨rfl, rfl⟩
    refine hrule.of_uses emitTerminalAudit_uses (by simp) ?_
    rintro _ _ ⟨rfl, rfl⟩
    simp
  · exact hstream

theorem chatCompletions_calls (bearerToken : Option String)
    (h : (stages deps bearerToken).Meets L A s fun r _ => ∀ stream, r = .ok (some stream) →
      stream.GenMeets L A fun _ => True) :
    (chatCompletions deps bearerToken).Meets L A s fun _ _ => True := by
  simp only [chatCompletions, meets_handle, meets_bind]
  have hsend : ∀ (s : PipelineCtx) (e : Thrown),
      (op (.sendError (toRouterError e)) : Stage Unit).Meets L A s fun _ _ => True :=
    fun s e => ⟨hrule.op (by simp [Op.part]) trivial, fun _ _ => trivial⟩
  refine (runPipeline_calls hrule deps bearerToken h).mono ?_
  rintro (e | stream) s' hstream
  · exact hsend s' e
  simp only [respond, meets_bind, meets_ctx]
  split
  · split
    · exact hsend s' _
    · exact ⟨hrule.op (by simp [Op.part]) trivial, fun _ _ => trivial⟩
  · split
    · exact hsend s' _
    · refine (relay_meets (hrule.aside relayParts (by decide)) (hstream _ rfl)).mono ?_
      rintro (e | _) s'' -
      · exact hsend s'' e
      · trivial

end

section
variable (hrule : CallRule A J K) (deps : PipelineDeps) (cfg : ResilienceConfig)
include hrule

/-! ### The executors -/

theorem runHop_calls (h : J s) {m : ModelRow} {route : RouteDecision} (hm : K m) (hr : RouteFor s m route)
    (hkind : route.provider.kind = m.providerKind) (lastErr : Option RouterError)
    (previousModel : String) :
    (runHop cfg route lastErr previousModel).Meets L A s fun _ s' =>
      s' = { s with route := some route } := by
  simp only [runHop, meets_ensure, meets_bind, meets_outcome]
  refine hrule.of_uses (enterHop_uses route lastErr previousModel) (by simp) ?_
  rintro _ s' ⟨rfl, rfl⟩
  have hcall := hrule.call s m route h hm hr hkind
  refine (retryLoop_calls hrule.toBeside cfg hcall.1 _ _ _).mono ?_
  rintro (e | res) s' rfl
  · simp only [meets_bind, meets_op]
    exact ⟨hrule.op (by simp [Op.part]) trivial, fun _ _ => ⟨hrule.op (by simp [Op.part]) trivial, fun _ _ => rfl⟩⟩
  · exact ⟨hrule.op (by simp [Op.part]) trivial, fun _ _ => rfl⟩

theorem hopLoop_calls (hL : ∀ e r, L e r → e.Lawful r ∧ PolicyEngine.KeyedAnswer e r)
    (effective : EffectivePolicy) (h : J s) (ids : List Uuid)
    (hids : ∀ id ∈ ids, ∀ m, effective.modelsById.get id = some m → K m)
    (lastErr : Option RouterError) (previousModel : String) :
    (hopLoop deps cfg effective ids lastErr previousModel).Meets L A s fun _ s' => J s' := by
  induction ids generalizing s lastErr previousModel with
  | nil => exact h
  | cons id ids ih =>
      have hids' : ∀ id ∈ ids, ∀ m, effective.modelsById.get id = some m → K m :=
        fun id' hid' => hids id' (.tail _ hid')
      simp only [hopLoop, meets_bind, meets_op]
      refine ⟨hrule.op (by simp [Op.part]) trivial, fun aborted _ => ?_⟩
      split
      · exact h
      · split
        · exact ih h hids' _ _
        · next m hm =>
            rw [meets_bind]
            refine hrule.of_uses (admitHop_uses deps (fun e r hr => (hL e r hr).1) _ _ _ _)
              (by simp) ?_
            rintro (e | ⟨route⟩ | rerr) s' ⟨⟨b, rfl⟩, hroute⟩
            · exact hrule.reroute s b s.route h
            · obtain ⟨hr, hkind⟩ := hroute route rfl
              have h' : J { s with cloudBlockAudited := b } := hrule.reroute s b s.route h
              have h'' : J { s with cloudBlockAudited := b, route := some route } :=
                hrule.reroute s b (some route) h
              dsimp only
              rw [meets_bind]
              refine (runHop_calls hrule cfg h' (hids id (.head _) m hm)
                (hr.reroute b s.route) (hkind fun e r h => (hL e r h).2) _ _).mono ?_
              rintro (e | ⟨rerr, aborted⟩ | res) s' rfl
              · exact h''
              · cases aborted with
                | true => exact h''
                | false => exact ih h'' hids' _ _
              · exact h''
            · exact ih (hrule.reroute s b s.route h) hids' _ _

theorem executeResilient_calls (hL : ∀ e r, L e r → e.Lawful r ∧ PolicyEngine.KeyedAnswer e r)
    (h : J s) :
    (executeResilient deps cfg).Meets L A s fun _ _ => True := by
  simp only [executeResilient, meets_bind, meets_ensure]
  refine hrule.of_uses requireEffective_uses (by simp) ?_
  rintro (e | effective) s' ⟨rfl, heff⟩
  · trivial
  simp only [meets_op, meets_ctx, meets_ofExcept]
  refine ⟨hrule.op (by simp [Op.part]) trivial, fun _ _ => ?_⟩
  cases hids : candidateModels effective s'.envelope with
  | error e => exact ⟨hrule.op (by simp [Op.part]) trivial, fun _ _ => trivial⟩
  | ok ids =>
      refine (hopLoop_calls hrule deps cfg hL effective h ids
        (hrule.candidates s' effective ids h (heff _ rfl) hids) none "").mono ?_
      rintro (e | lastErr | res) s'' -
      · exact ⟨hrule.op (by simp [Op.part]) trivial, fun _ _ => trivial⟩
      · simp only [meets_bind, meets_op]
        refine ⟨hrule.op (by simp [Op.part]) trivial, fun timedOut _ => ?_⟩
        split <;> exact ⟨hrule.op (by simp [Op.part]) trivial, fun _ _ => trivial⟩
      · exact ⟨hrule.op (by simp [Op.part]) trivial, fun _ _ => trivial⟩

/-! ### The streaming executor -/

theorem streamHop_calls (h : J s) {m : ModelRow} {route : RouteDecision} (hm : K m) (hr : RouteFor s m route)
    (hkind : route.provider.kind = m.providerKind) (lastErr : Option RouterError)
    (previousModel : String) :
    Calls L A (streamHop cfg route lastErr previousModel) s fun _ s' =>
      s' = { s with route := some route } := by
  have hcall := hrule.call s m route h hm hr hkind
  simp only [streamHop, meets_bind, meets_inGenerator_op, meets_ensure]
  refine ⟨hrule.op (by simp [Op.part]) trivial, fun _ _ => ?_⟩
  refine (streamTry_calls hrule.toBeside cfg lastErr previousModel hcall.2).mono ?_
  rintro (e | ⟨seen⟩ | ⟨err, seen⟩) s' rfl
  · exact ⟨hrule.op (by simp [Op.part]) trivial, fun _ _ => ⟨hrule.op (by simp [Op.part]) trivial, fun _ _ => rfl⟩⟩
  · exact ⟨hrule.op (by simp [Op.part]) trivial, fun _ _ => ⟨hrule.op (by simp [Op.part]) trivial, fun _ _ => rfl⟩⟩
  · simp only [meets_bind, meets_inGenerator]
    refine hrule.of_uses (streamCatch_uses route err seen) (by simp) ?_
    rintro (e | rerr) s' rfl
    · exact ⟨hrule.op (by simp [Op.part]) trivial, fun _ _ => ⟨hrule.op (by simp [Op.part]) trivial, fun _ _ => rfl⟩⟩
    · exact ⟨hrule.op (by simp [Op.part]) trivial, fun _ _ => ⟨hrule.op (by simp [Op.part]) trivial, fun _ _ => rfl⟩⟩

theorem streamLoop_calls (hL : ∀ e r, L e r → e.Lawful r ∧ PolicyEngine.KeyedAnswer e r)
    (effective : EffectivePolicy) (h : J s) (ids : List Uuid)
    (hids : ∀ id ∈ ids, ∀ m, effective.modelsById.get id = some m → K m)
    (lastErr : Option RouterError) (previousModel : String) :
    Calls L A (streamLoop deps cfg effective ids lastErr previousModel) s fun _ _ => True := by
  induction ids generalizing s lastErr previousModel with
  | nil => trivial
  | cons id ids ih =>
      have hids' : ∀ id ∈ ids, ∀ m, effective.modelsById.get id = some m → K m :=
        fun id' hid' => hids id' (.tail _ hid')
      simp only [streamLoop, meets_bind, meets_inGenerator_op]
      refine ⟨hrule.op (by simp [Op.part]) trivial, fun aborted _ => ?_⟩
      split
      · trivial
      · split
        · exact ih h hids' _ _
        · next m hm =>
            rw [meets_bind, meets_inGenerator]
            refine hrule.of_uses (admitHop_uses deps (fun e r hr => (hL e r hr).1) _ _ _ _)
              (by simp) ?_
            rintro (e | ⟨route⟩ | rerr) s' ⟨⟨b, rfl⟩, hroute⟩
            · trivial
            · obtain ⟨hr, hkind⟩ := hroute route rfl
              have h' : J { s with cloudBlockAudited := b } := hrule.reroute s b s.route h
              have h'' : J { s with cloudBlockAudited := b, route := some route } :=
                hrule.reroute s b (some route) h
              dsimp only [Except.mapError]
              rw [meets_bind]
              refine (streamHop_calls hrule cfg h' (hids id (.head _) m hm)
                (hr.reroute b s.route) (hkind fun e r h => (hL e r h).2) _ _).mono ?_
              rintro (e | _ | rerr) s' rfl
              · trivial
              · trivial
              · exact ih h'' hids' _ _
            · exact ih (hrule.reroute s b s.route h) hids' _ _

theorem executeResilientStream_calls
    (hL : ∀ e r, L e r → e.Lawful r ∧ PolicyEngine.KeyedAnswer e r)
    (h : J s) :
    Calls L A (executeResilientStream deps cfg) s fun _ _ => True := by
  simp only [executeResilientStream, meets_bind, meets_ensure, meets_inGenerator]
  refine hrule.of_uses requireEffective_uses (by simp) ?_
  rintro (e | effective) s' ⟨rfl, heff⟩
  · trivial
  dsimp only [Except.mapError]
  simp only [meets_op, meets_ctx, meets_ofExcept]
  refine ⟨hrule.op (by simp [Op.part]) trivial, fun _ _ => ?_⟩
  cases hids : candidateModels effective s'.envelope with
  | error e => exact ⟨hrule.op (by simp [Op.part]) trivial, fun _ _ => trivial⟩
  | ok ids =>
      refine (streamLoop_calls hrule deps cfg hL effective h ids
        (hrule.candidates s' effective ids h (heff _ rfl) hids) none "").mono ?_
      rintro (e | _ | lastErr) s'' -
      · exact ⟨hrule.op (by simp [Op.part]) trivial, fun _ _ => trivial⟩
      · exact ⟨hrule.op (by simp [Op.part]) trivial, fun _ _ => trivial⟩
      · simp only [meets_bind, meets_inGenerator_op]
        refine ⟨hrule.op (by simp [Op.part]) trivial, fun timedOut _ => ?_⟩
        split <;> exact ⟨hrule.op (by simp [Op.part]) trivial, fun _ _ => trivial⟩

/-! ### The adapt stage -/

theorem adaptResilient_calls (hL : ∀ e r, L e r → e.Lawful r ∧ PolicyEngine.KeyedAnswer e r)
    (h : J s) (auth : AuthContext) (cacheKey : Option String) :
    (adaptResilient deps cfg auth cacheKey).Meets L A s fun _ _ => True := by
  simp only [adaptResilient, meets_bind]
  refine (executeResilient_calls hrule deps cfg hL h).mono ?_
  rintro (e | res) s' -
  · trivial
  · simp only [meets_assign, meets_ctx]
    split
    · exact ⟨hrule.op (by simp [Op.part]) trivial, fun _ _ => trivial⟩
    · trivial

theorem stageAdapt_calls (hL : ∀ e r, L e r → e.Lawful r ∧ PolicyEngine.KeyedAnswer e r)
    (h : J s) (hdirect : deps.resilience = none → ∀ route, s.route = some route →
      A (.execute s route (clampToModel s.envelope route.model)) ∧
        A (.openStream s route (clampToModel s.envelope route.model))) :
    (stageAdapt deps).Meets L A s fun r _ => ∀ stream, r = .ok (some stream) →
      stream.GenMeets L A fun _ => True := by
  simp only [stageAdapt, meets_bind]
  refine hrule.of_uses requireAuth_uses (by simp) ?_
  rintro (e | auth) s ⟨rfl, -⟩
  · simp
  simp only [meets_ctx]
  split
  · refine hrule.of_uses unrouted_uses (by simp) ?_
    exact fun r s' hr stream heq => absurd heq (hr _)
  rw [meets_bind]
  refine hrule.of_uses (serveCached_uses _) (by simp) ?_
  rintro r s' (rfl | ⟨rfl, rfl⟩)
  · simp
  dsimp only
  cases hres : deps.resilience with
  | some cfg =>
      simp only [Bool.false_eq_true, if_false]
      split
      · rw [meets_bind]
        refine (primeStream_meets (executeResilientStream_calls hrule deps cfg hL h)).mono ?_
        rintro (e | stream) s'' hstream
        · simp
        · rintro stream' ⟨⟩
          exact hstream stream rfl
      · rw [meets_bind]
        refine (adaptResilient_calls hrule deps cfg hL h auth _).mono ?_
        rintro (e | _) s'' -
        · simp
        · simp
  | none =>
      simp only [Bool.false_eq_true, if_false]
      cases hroute : s'.route with
      | none =>
          dsimp only
          refine hrule.of_uses unrouted_uses (by simp) ?_
          exact fun r s' hr stream heq => absurd heq (hr _)
      | some route =>
          obtain ⟨hexecute, hstream⟩ := hdirect hres route hroute
          dsimp only
          split
          · rintro stream ⟨⟩
            exact adapterStream_calls hrule.toBeside hstream
          · rw [meets_bind]
            refine (adaptDirect_calls hrule.toBeside hexecute _).mono ?_
            rintro (e | _) s'' -
            · simp
            · simp

end

end

end VibeRouter
