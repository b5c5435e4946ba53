import VibeRouter.Gateway.Gate
import VibeRouter.Gateway.Calls
import VibeRouter.Lib.Pool
import VibeRouter.Db.Tables

/-! # The data boundary

Every call of an adapter that a request makes respects the boundary of `Gate.lean`: first for
the executors, then for the pipeline and the handler, then for any number of requests that
share the provider cache of one gateway. -/

namespace VibeRouter

open Effects Async Code

section
variable [Platform] {q : AIRequest} {effective : EffectivePolicy} {model : ModelRow}
  {s : PipelineCtx} {L : (e : Op) → e.Answer → Prop}

omit [Platform] in
theorem bounded_beside : Beside (Op.Bounded q) where
  aside _ hps := Op.Within.bounded hps
  relays e h := by cases h <;> exact ⟨trivial, trivial⟩

/-- The calls of a request that has passed the gate. -/
theorem gate_callRule :
    CallRule (Op.Bounded q) (Gate q effective model) (Candidate effective model) where
  toBeside := bounded_beside
  reroute _ _ _ h := h.congr ⟨rfl, rfl, rfl, rfl⟩
  call c m route h hm hr hkind := by
    have h' : Gate q effective model { c with route := some route } := h.congr ⟨rfl, rfl, rfl, rfl⟩
    exact h'.bounded hm (hr.reroute c.cloudBlockAudited (some route)) hkind
  candidates c effective' ids h heff hids := by
    obtain rfl : effective' = effective := Option.some.inj (heff.symm.trans h.effective_eq)
    exact candidateModels_candidates h hids

variable (deps : PipelineDeps)

/-! ### The route -/

/-- A route to the selected model. -/
structure Routed (model : ModelRow) (c : PipelineCtx) : Prop where
  routed : ∃ route, c.route = some route ∧ RouteFor c model route ∧
    route.provider.kind = model.providerKind

theorem stageRoute_meets (hL : ∀ e r, L e r → e.Lawful r ∧ PolicyEngine.KeyedAnswer e r)
    (h : Gate q effective model s) :
    (stageRoute deps).Meets L (Op.Bounded q) s fun r s' => r = .ok () →
      Gate q effective model s' ∧ (deps.resilience = none → Routed model s') := by
  simp only [stageRoute, meets_bind]
  refine Op.Bounded.of_uses requireEffective_uses (by simp) ?_
  rintro (e | effective') s ⟨rfl, heff⟩
  · simp
  obtain rfl : effective' = effective :=
    Option.some.inj ((heff _ rfl).symm.trans h.effective_eq)
  refine Op.Bounded.of_uses requireAuth_uses (by simp) ?_
  rintro (e | auth) s ⟨rfl, -⟩
  · simp
  obtain ⟨up, hup⟩ := selectModel_eq_ok h.selected
  simp only [meets_ctx, meets_ofExcept, hup]
  refine Op.Bounded.of_uses (auditUpgrade_uses _ _ _) (by simp) ?_
  rintro _ s' ⟨rfl, rfl⟩
  refine Op.Bounded.of_uses (routePrimary_uses deps (fun e r h => (hL e r h).1) model)
    (by simp) ?_
  rintro r _ ⟨b, route, routeError, rfl, hroute⟩ hok
  refine ⟨h.congr ⟨rfl, rfl, rfl, rfl⟩, fun hnone => ?_⟩
  obtain ⟨rt, rfl, hr, hkind⟩ := hroute hok hnone
  exact ⟨rt, rfl, ⟨hr.model_eq, hr.effective, hr.unbarred⟩, hkind fun e r h => (hL e r h).2⟩

/-! ### A request -/

/-- The context of a request when it arrives. -/
structure Arrived (q : AIRequest) (c : PipelineCtx) : Prop where
  messages : c.envelope.messages = q.messages
  unscrubbed : c.cloudEnvelope = none

theorem stages_meets (hL : ∀ e r, L e r → e.Lawful r ∧ PolicyEngine.KeyedAnswer e r)
    (h : Arrived q s) (bearerToken : Option String) :
    (stages deps bearerToken).Meets L (Op.Bounded q) s fun r _ => ∀ stream, r = .ok (some stream) →
      stream.GenMeets L (Op.Bounded q) fun _ => True := by
  simp only [stages, meets_bind]
  refine Op.Bounded.of_uses (stageAuth_uses deps bearerToken) (by simp) ?_
  rintro (e | _) _ (⟨rfl, hr⟩ | ⟨auth, rfl⟩)
  · simp
  · simp
  · exact absurd rfl hr
  refine Op.Bounded.of_uses stageResolveTaskClass_uses (by simp) ?_
  rintro (e | _) _ rfl
  · simp
  refine Op.Bounded.of_uses (stagePolicy_uses deps) (by simp) ?_
  rintro (e | _) _ (⟨hr, -⟩ | ⟨effective, rfl⟩)
  · simp
  · simp
  · exact absurd rfl hr
  refine Op.Bounded.of_uses stageBudget_uses (by simp) ?_
  rintro (e | _) _ ⟨ws, rfl⟩
  · simp
  refine Op.Bounded.of_uses (stageScrub_uses h.messages h.unscrubbed) (by simp) ?_
  rintro (e | _) s' hgate
  · simp
  obtain ⟨effective, model, hgate⟩ := hgate rfl
  refine (stageRoute_meets deps hL hgate).mono ?_
  rintro (e | _) s'' hroute
  · simp
  obtain ⟨hgate', hrouted⟩ := hroute rfl
  have hdirect : deps.resilience = none → ∀ route, s''.route = some route →
      Op.Bounded q (.execute s'' route (clampToModel s''.envelope route.model)) ∧
        Op.Bounded q (.openStream s'' route (clampToModel s''.envelope route.model)) := by
    intro hnone route hroute
    obtain ⟨route', hroute', hr, hkind⟩ := hrouted hnone
    obtain rfl : route' = route := Option.some.inj (hroute'.symm.trans hroute)
    exact hgate'.bounded_direct hr hkind
  refine (stageAdapt_calls gate_callRule deps hL hgate' hdirect).mono ?_
  rintro (e | stream) s''' hstream
  · simp
  simp only [meets_ctx]
  split
  · exact fun stream' heq => hstream stream' (by rw [← heq])
  · simp only [meets_bind]
    refine Op.Bounded.of_uses DbLedger.write_uses (by simp) ?_
    rintro (e | _) _ rfl
    · simp
    refine Op.Bounded.of_uses emitTerminalAudit_uses (by simp) ?_
    rintro _ _ ⟨rfl, rfl⟩
    exact fun stream' heq => hstream stream' (by rw [← heq])

theorem chatCompletions_meets (hL : ∀ e r, L e r → e.Lawful r ∧ PolicyEngine.KeyedAnswer e r)
    (h : Arrived q s) (bearerToken : Option String) :
    (chatCompletions deps bearerToken).Meets L (Op.Bounded q) s fun _ _ => True :=
  chatCompletions_calls bounded_beside deps bearerToken (stages_meets deps hL h bearerToken)

/-! ### Requests that share a provider cache -/

/-- The provider cache of the policy engine. -/
abbrev ProviderCache : Type := JsMap String (Cached (Option ProviderRow))

/-- Rows are stored under the key of their firm and kind. -/
def ProviderCache.Keyed (m : ProviderCache) : Prop :=
  ∀ firmId kind entry row, m.get (PolicyEngine.providerKey firmId kind) = some entry →
    entry.value = some row → row.kind = kind

omit [Platform] in
theorem ProviderCache.keyed_empty : ProviderCache.Keyed .empty := by
  intro firmId kind entry row h
  simp at h

/-- Any number of requests of one gateway.  Each answer is arbitrary but for what the database
guarantees of its rows, and for the provider cache, which the requests share and an
administrator may clear at any time.  The local state of a request is what it asked. -/
def gateway : System ℕ Op Op.Answer (Except Thrown Unit × PipelineCtx) ProviderCache AIRequest where
  env := { allows := fun _ e r => e.Lawful r, next := fun q _ _ => q }
  handler _ m _ e r m' := match e with
    | .providerCacheGet key => r = m.get key ∧ m' = m
    | .providerCacheSet key entry => m' = m.set key entry
    | _ => m' = m
  start _ _ p q := ∃ bearerToken requestId startedAt,
    p = chatCompletions deps bearerToken (newPipelineCtx requestId startedAt q)
  drift _ m' := m' = .empty

/-- A property of operations that every request of a gateway keeps to, under a well keyed cache. -/
theorem gateway_preserves {A : AIRequest → Op → Prop} (hkeyed : ∀ q e, A q e → e.WellKeyed)
    (h : ∀ q bearerToken requestId startedAt,
      (chatCompletions deps bearerToken).Meets
        (fun e r => e.Lawful r ∧ PolicyEngine.KeyedAnswer e r) (A q)
        (newPipelineCtx requestId startedAt q) fun _ _ => True) :
    System.Preserves (gateway deps) (fun _ e r => PolicyEngine.KeyedAnswer e r) A
      (fun _ _ => True) fun m _ => m.Keyed where
  start_wp := by
    rintro i m p q ⟨bearerToken, requestId, startedAt, rfl⟩
    show (chatCompletions deps bearerToken).wp _ _ (fun _ _ _ => True) _ q
    refine (h q bearerToken requestId startedAt).wp (J := fun q' => q' = q) (fun _ _ _ h => h) rfl ?_
      fun _ _ _ _ _ => trivial
    rintro _ e rfl he
    exact ⟨he, fun _ _ => rfl⟩
  spawn _ _ _ _ _ h _ _ := h
  rely := by
    intro i m L q e r m' hm _ _ hh
    cases e with
    | providerCacheGet key =>
        rintro entry firmId kind hr rfl row hrow
        exact hm firmId kind entry row (hh.1 ▸ hr) hrow
    | _ => trivial
  act := by
    intro i m L q e r m' hm _ hok _ hh
    cases e with
    | providerCacheGet key => exact hh.2 ▸ hm
    | providerCacheSet key entry =>
        obtain ⟨firmId, kind, rfl, hrow⟩ := hkeyed q _ hok
        obtain rfl : m' = _ := hh
        intro firmId' kind' entry' row h hrow'
        rw [JsMap.get_set] at h
        split at h
        · next heq =>
            obtain ⟨-, rfl⟩ := PolicyEngine.providerKey_inj heq
            cases h
            exact (hrow row hrow').2
        · exact hm firmId' kind' entry' row h hrow'
    | _ => exact (show m' = m from hh) ▸ hm
  drift := by
    rintro m _ L hm rfl
    exact ProviderCache.keyed_empty

/-- **The data boundary.**  Whatever requests a gateway serves, and however their hops end, a
call of an adapter respects the boundary of the request it is made for. -/
theorem calls_respect_boundary {P : Pool ℕ Op Op.Answer (Except Thrown Unit × PipelineCtx)
      ProviderCache AIRequest} (hP : (gateway deps).Reachable .empty P) {i : ℕ} {e : Op}
    {k : e.Answer → Prog Op Op.Answer (Except Thrown Unit × PipelineCtx)} {q : AIRequest}
    (hi : P.thread i = some (.call e k, q)) : Egress q e := by
  have hpreserves := gateway_preserves deps (A := Op.Bounded) (fun _ _ h => h.1)
    fun q bearerToken requestId startedAt => chatCompletions_meets deps
      (s := newPipelineCtx requestId startedAt q) (fun _ _ h => h) ⟨rfl, rfl⟩ bearerToken
  exact ((System.invariant hpreserves ProviderCache.keyed_empty hP).2 i _ q hi).1.2

end

/-! ### A sample request -/

/-- Answers from the tables, with the provider cache as it is. -/
def Tables.gatewayAnswer (t : Tables) (_ : ℕ) (m : ProviderCache) (_ : AIRequest) :
    (e : Op) → e.Answer × ProviderCache
  | .providerCacheGet key => (m.get key, m)
  | .providerCacheSet key entry => ((), m.set key entry)
  | e => (t.answer e, m)

theorem Tables.gatewayAnswer_sound [Platform] (t : Tables) (deps : PipelineDeps) :
    System.Sound (gateway deps) t.gatewayAnswer := by
  intro i m q e
  have h := t.lawful_answer e
  cases e with
  | providerCacheGet key => exact ⟨trivial, rfl, rfl⟩
  | providerCacheSet key entry => exact ⟨trivial, rfl⟩
  | _ => exact ⟨h, rfl⟩

/-- A gateway with the tables that has run some steps of one request. -/
def Sample.calling (t : Tables) (q : AIRequest) (steps : ℕ) :
    Pool ℕ Op Op.Answer (Except Thrown Unit × PipelineCtx) ProviderCache AIRequest :=
  letI := platform
  (System.initial .empty).exec (gateway deps).env.next t.gatewayAnswer
    [.spawn 0 (chatCompletions deps (some token) (newPipelineCtx "r1" 0 q)) q, .run 0 steps]

theorem Sample.calling_reachable (t : Tables) (q : AIRequest) (steps : ℕ) :
    letI := platform
    (gateway deps).Reachable .empty (calling t q steps) := by
  let := platform
  exact System.reachable_exec (t.gatewayAnswer_sound deps) .refl
    ⟨rfl, ⟨some token, "r1", 0, rfl⟩, trivial⟩

/-- The provider whose adapter an operation calls. -/
def Op.calledProvider : Op → Option ProviderRow
  | .execute _ route _ | .openStream _ route _ => some route.provider
  | _ => none

theorem sample_call_respects_boundary :
    letI := Sample.platform
    ∃ (P : Pool ℕ Op Op.Answer (Except Thrown Unit × PipelineCtx) ProviderCache AIRequest) (e : Op)
      (k : e.Answer → Prog Op Op.Answer (Except Thrown Unit × PipelineCtx)) (q : AIRequest),
      (gateway Sample.deps).Reachable .empty P ∧ P.thread 0 = some (.call e k, q) ∧
        e.calledProvider = some Sample.cloudProvider ∧ Egress q e := by
  let := Sample.platform
  have hcall : ((Sample.calling Sample.tables (Sample.request "SSN 123-45-6789") 28).pending 0).bind
      Op.calledProvider = some Sample.cloudProvider := by decide
  obtain ⟨e, he, hprovider⟩ := Option.bind_eq_some_iff.1 hcall
  obtain ⟨k, q, hk⟩ := Pool.thread_of_pending he
  have hP := Sample.calling_reachable Sample.tables (Sample.request "SSN 123-45-6789") 28
  exact ⟨_, e, k, q, hP, hk, hprovider, calls_respect_boundary Sample.deps hP hk⟩

end VibeRouter
