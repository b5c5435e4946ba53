import VibeRouter.Gateway.Boundary

/-! # Limits

What an adapter is sent: the tokens a hop may produce are a function of the request, the policy
and the hop's own model (`ceiling`), and the temperature is that of the policy stage.  The
minimum of a policy is applied after the maxima, so it can undo them. -/

namespace VibeRouter

open Effects Async Code

/-! ### What is sent -/

/-- The ceiling of the class or the policy. -/
def tokenCap (effective : EffectivePolicy) : ℤ :=
  effective.policy.maxTokensOverride.getD effective.taskClass.defaultMaxTokens

/-- What a hop of the model may produce for the request `q`. -/
def ceiling (effective : EffectivePolicy) (q : AIRequest) (model : ModelRow) : ℤ :=
  let n := min (q.maxTokens.getD (tokenCap effective)) (tokenCap effective)
  match model.maxOutput with
  | some limit => if 0 < limit then min n limit else n
  | none => n

/-- The maxima of the policy and of the firm that are set. -/
def temperatureMaxima (effective : EffectivePolicy) : List ℚ :=
  effective.policy.temperatureMax.toList ++ effective.firmSettings.global_temperature_max.toList

/-- The policy's minimum is below the maxima. -/
def MinBelowMaxima (effective : EffectivePolicy) : Prop :=
  ∀ low, effective.policy.temperatureMin = some low → ∀ high ∈ temperatureMaxima effective, low ≤ high

/-- The tokens of a call are within the ceilings. -/
structure TokensWithin (effective : EffectivePolicy) (model : ModelRow) (env : AIRequest) : Prop where
  cap : ∃ n, env.maxTokens = some n ∧ n ≤ tokenCap effective
  model : ∀ n limit, env.maxTokens = some n → model.maxOutput = some limit → 0 < limit → n ≤ limit

/-- The temperature of a call is below the maxima. -/
def TemperatureWithin (effective : EffectivePolicy) (env : AIRequest) : Prop :=
  ∀ t, env.temperature = some t → ∀ high ∈ temperatureMaxima effective, t ≤ high

theorem ceiling_le_cap (effective : EffectivePolicy) (q : AIRequest) (model : ModelRow) :
    ceiling effective q model ≤ tokenCap effective := by
  unfold ceiling
  dsimp only
  split
  · split <;> omega
  · omega

theorem ceiling_le_model (effective : EffectivePolicy) (q : AIRequest) {model : ModelRow} {limit : ℤ}
    (h : model.maxOutput = some limit) (hpos : 0 < limit) : ceiling effective q model ≤ limit := by
  unfold ceiling
  rw [h]
  simp only [hpos, if_true]
  omega

theorem foldl_min_le (maxima : List ℚ) (t : ℚ) :
    maxima.foldl min t ≤ t ∧ ∀ high ∈ maxima, maxima.foldl min t ≤ high := by
  induction maxima generalizing t with
  | nil => exact ⟨le_rfl, by simp⟩
  | cons m maxima ih =>
      obtain ⟨hle, hmem⟩ := ih (min t m)
      refine ⟨hle.trans (min_le_left t m), fun high hhigh => ?_⟩
      obtain rfl | hhigh := List.mem_cons.1 hhigh
      · exact hle.trans (min_le_right t high)
      · exact hmem high hhigh

/-- The minimum undoes the maxima it exceeds, and no other. -/
theorem limitTemperature_le_iff (effective : EffectivePolicy) (t : ℚ) :
    (∀ high ∈ temperatureMaxima effective,
      limitTemperature effective.policy effective.firmSettings t ≤ high) ↔
      MinBelowMaxima effective := by
  have hmin := (foldl_min_le (temperatureMaxima effective) t).2
  unfold limitTemperature MinBelowMaxima
  cases hlow : effective.policy.temperatureMin with
  | none => exact ⟨fun _ => (by simp), fun _ => hmin⟩
  | some low =>
      constructor
      · rintro h _ ⟨⟩ high hhigh
        exact (le_max_right _ _).trans (h high hhigh)
      · intro h high hhigh
        exact max_le (hmin high hhigh) (h low rfl high hhigh)

/-! ### Envelopes of a request -/

/-- An envelope with the limits of the request `q`. -/
structure LimitedTo (effective : EffectivePolicy) (q env : AIRequest) : Prop where
  tokens : env.maxTokens = (applyLimits effective q).maxTokens
  temperature : env.temperature = (applyLimits effective q).temperature

/-- What a call of a hop is sent for the request `q`. -/
structure Sent (effective : EffectivePolicy) (q : AIRequest) (model : ModelRow) (env : AIRequest) :
    Prop where
  tokens : env.maxTokens = some (ceiling effective q model)
  temperature : env.temperature = (applyLimits effective q).temperature

theorem LimitedTo.clamp {effective : EffectivePolicy} {q env : AIRequest}
    (h : LimitedTo effective q env) (model : ModelRow) :
    Sent effective q model (clampToModel env model) := by
  have htokens : env.maxTokens =
      some (min (q.maxTokens.getD (tokenCap effective)) (tokenCap effective)) := h.tokens
  constructor
  · unfold clampToModel ceiling
    rw [htokens]
    cases model.maxOutput with
    | none => exact htokens
    | some limit =>
        dsimp only
        split
        · rw [htokens]
          split
          · congr 1
            omega
          · rfl
        · rw [if_pos (by omega)]
          show some limit = _
          congr 1
          omega
  · rw [← h.temperature]
    unfold clampToModel
    split
    · split <;> rfl
    · rfl

theorem Sent.tokensWithin {effective : EffectivePolicy} {q env : AIRequest} {model : ModelRow}
    (h : Sent effective q model env) : TokensWithin effective model env where
  cap := ⟨_, h.tokens, ceiling_le_cap effective q model⟩
  model n limit hn hlimit hpos := by
    obtain rfl : n = ceiling effective q model := Option.some.inj (hn.symm.trans h.tokens)
    exact ceiling_le_model effective q hlimit hpos

theorem Sent.temperatureWithin_iff {effective : EffectivePolicy} {q env : AIRequest}
    {model : ModelRow} (h : Sent effective q model env) :
    TemperatureWithin effective env ↔ q.temperature = none ∨ MinBelowMaxima effective := by
  unfold TemperatureWithin
  rw [h.temperature]
  cases hq : q.temperature with
  | none => simp [applyLimits, hq]
  | some t =>
      rw [← limitTemperature_le_iff effective t]
      simp [applyLimits, hq]

/-! ### Contexts -/

/-- From the policy stage on, the envelopes of a context have the limits of its request. -/
structure Limited (effective : EffectivePolicy) (q : AIRequest) (c : PipelineCtx) : Prop where
  effective_eq : c.effective = some effective
  envelope : LimitedTo effective q c.envelope
  cloudEnvelope : ∀ cloud, c.cloudEnvelope = some cloud → LimitedTo effective q cloud

/-- A call is sent what the limits of its request say. -/
def CallLimited (q : AIRequest) : Op → Prop
  | .execute c route env | .openStream c route env => ∃ effective, c.effective = some effective ∧
      Sent effective q route.model env
  | _ => True

def Op.Limited (q : AIRequest) (e : Op) : Prop := e.WellKeyed ∧ CallLimited q e

section
variable {effective : EffectivePolicy} {q : AIRequest} {c : PipelineCtx}
  {L : (e : Op) → e.Answer → Prop} {s : PipelineCtx}

theorem Limited.hop (h : Limited effective q c) (route : RouteDecision) :
    Sent effective q route.model (hopEnvelope route c) := by
  unfold hopEnvelope
  dsimp only
  split
  · next cloud hcloud =>
      split
      · exact h.envelope.clamp route.model
      · exact (h.cloudEnvelope cloud hcloud).clamp route.model
  · exact h.envelope.clamp route.model

theorem limited_beside : Beside (Op.Limited q) where
  aside ps hps e h := by
    refine ⟨h.2, ?_⟩
    cases e with
    | execute => exact absurd h.1 hps
    | openStream => exact absurd h.1 hps
    | _ => trivial
  relays e h := by cases h <;> exact ⟨trivial, trivial⟩

theorem limited_callRule [Platform] :
    CallRule (Op.Limited q) (Limited effective q) fun _ => True where
  toBeside := limited_beside
  reroute _ _ _ h := ⟨h.effective_eq, h.envelope, h.cloudEnvelope⟩
  call c m route h _ _ _ := by
    have hsent : Sent effective q route.model (hopEnvelope route { c with route := some route }) :=
      Limited.hop ⟨h.effective_eq, h.envelope, h.cloudEnvelope⟩ route
    exact ⟨⟨trivial, effective, h.effective_eq, hsent⟩, trivial, effective, h.effective_eq, hsent⟩
  candidates _ _ _ _ _ _ _ _ _ _ := trivial

theorem Limited.direct (h : Limited effective q c) (route : RouteDecision) :
    Op.Limited q (.execute c route (clampToModel c.envelope route.model)) ∧
      Op.Limited q (.openStream c route (clampToModel c.envelope route.model)) := by
  have hsent := h.envelope.clamp route.model
  exact ⟨⟨trivial, effective, h.effective_eq, hsent⟩, trivial, effective, h.effective_eq, hsent⟩

/-! ### The stages -/

theorem runScrubber_limited (h : Limited effective q s) (mode : ScrubberMode) (cloudPrimary : Bool) :
    Uses L [] (runScrubber mode cloudPrimary) s fun r s' => (∃ report, r = .ok report) ∧
      Limited effective q s' := by
  have hred : LimitedTo effective q (redactEnvelope s.envelope).1 :=
    ⟨h.envelope.tokens, h.envelope.temperature⟩
  unfold runScrubber
  simp only [meets_bind, meets_ctx]
  split
  · split
    · simp only [meets_bind, meets_assign]
      cases cloudPrimary with
      | true => exact ⟨⟨_, rfl⟩, h.effective_eq, hred, h.cloudEnvelope⟩
      | false => exact ⟨⟨_, rfl⟩, h.effective_eq, h.envelope, by rintro _ ⟨⟩; exact hred⟩
    · exact ⟨⟨_, rfl⟩, h⟩
  · split
    · exact ⟨⟨_, rfl⟩, h.effective_eq, h.envelope, h.cloudEnvelope⟩
    · exact ⟨⟨_, rfl⟩, h⟩

theorem stageScrub_limited [Platform] (h : Limited effective q s) :
    Uses L [.audit] stageScrub s fun r s' => r = .ok () → Limited effective q s' := by
  simp only [stageScrub, meets_bind]
  refine requireEffective_uses.call (by simp) ?_
  rintro (e | effective') s ⟨rfl, -⟩
  · simp
  refine requireAuth_uses.call (by simp) ?_
  rintro (e | auth) s ⟨rfl, -⟩
  · simp
  simp only [meets_ctx, meets_ofExcept]
  cases scrubTarget effective' s.envelope with
  | error e => simp
  | ok model =>
      dsimp only
      split
      · exact fun _ => h
      · simp only [meets_bind]
        refine (runScrubber_limited h _ _).call (by simp) ?_
        rintro _ s' ⟨⟨report, rfl⟩, h'⟩
        dsimp only
        split
        · exact fun _ => h'
        · refine (actOnReport_uses _ _ _ _ _).mono ?_
          rintro r s'' ⟨hkeep, hset⟩ hr
          by_cases hmode : effective'.firmSettings.scrubber_mode.getD .redact = .block
          · rw [hset hmode hr]
            exact ⟨h'.effective_eq, h'.envelope, h'.cloudEnvelope⟩
          · rw [hkeep hmode]
            exact h'

theorem stageRoute_limited [Platform] (deps : PipelineDeps) (hL : ∀ e r, L e r → e.Lawful r)
    (h : Limited effective q s) :
    Uses L [.clock, .engine, .audit, .vault] (stageRoute deps) s fun r s' => r = .ok () →
      Limited effective q s' := by
  simp only [stageRoute, meets_bind]
  refine requireEffective_uses.call (by simp) ?_
  rintro (e | effective') s ⟨rfl, -⟩
  · simp
  refine requireAuth_uses.call (by simp) ?_
  rintro (e | auth) s ⟨rfl, -⟩
  · simp
  simp only [meets_ctx, meets_ofExcept]
  cases selectModelWith effective' s.envelope with
  | error e => simp
  | ok selected =>
      refine (auditUpgrade_uses _ _ _).call (by simp) ?_
      rintro _ s' ⟨rfl, rfl⟩
      refine (routePrimary_uses deps hL _).mono ?_
      rintro r _ ⟨b, route, routeError, rfl, -⟩ _
      exact ⟨h.effective_eq, h.envelope, h.cloudEnvelope⟩

/-! ### A request -/

variable [Platform] (deps : PipelineDeps)

theorem stages_limited (hL : ∀ e r, L e r → e.Lawful r ∧ PolicyEngine.KeyedAnswer e r)
    (henv : s.envelope = q) (hcloud : s.cloudEnvelope = none) (bearerToken : Option String) :
    (stages deps bearerToken).Meets L (Op.Limited q) s fun r _ => ∀ stream, r = .ok (some stream) →
      stream.GenMeets L (Op.Limited q) fun _ => True := by
  have hbeside : Beside (Op.Limited q) := limited_beside
  simp only [stages, meets_bind]
  refine hbeside.of_uses (stageAuth_uses deps bearerToken) (by simp) ?_
  rintro (e | _) _ (⟨rfl, hr⟩ | ⟨auth, rfl⟩)
  · simp
  · simp
  · exact absurd rfl hr
  refine hbeside.of_uses stageResolveTaskClass_uses (by simp) ?_
  rintro (e | _) _ rfl
  · simp
  refine hbeside.of_uses (stagePolicy_uses deps) (by simp) ?_
  rintro (e | _) _ (⟨hr, -⟩ | ⟨effective, rfl⟩)
  · simp
  · simp
  · exact absurd rfl hr
  have hlimits : LimitedTo effective q ((s.withAuth auth).withPolicy effective).envelope := by
    rw [← henv]
    exact ⟨rfl, rfl⟩
  refine hbeside.of_uses stageBudget_uses (by simp) ?_
  rintro (e | _) _ ⟨ws, rfl⟩
  · simp
  refine hbeside.of_uses (stageScrub_limited
    ⟨rfl, hlimits, fun cloud h => by cases hcloud.symm.trans h⟩) (by simp) ?_
  rintro (e | _) s' hlimited
  · simp
  refine hbeside.of_uses (stageRoute_limited deps (fun e r h => (hL e r h).1) (hlimited rfl))
    (by simp) ?_
  rintro (e | _) s'' hlimited'
  · simp
  replace hlimited' := hlimited' rfl
  refine (stageAdapt_calls limited_callRule deps hL hlimited'
    fun _ route _ => hlimited'.direct route).mono ?_
  rintro (e | stream) s₃ hstream
  · simp
  simp only [meets_ctx]
  split
  · exact fun stream' heq => hstream stream' (by rw [← heq])
  · simp only [meets_bind]
    refine hbeside.of_uses DbLedger.write_uses (by simp) ?_
    rintro (e | _) _ rfl
    · simp
    refine hbeside.of_uses emitTerminalAudit_uses (by simp) ?_
    rintro _ _ ⟨rfl, rfl⟩
    exact fun stream' heq => hstream stream' (by rw [← heq])

/-- **Limits on every hop.**  Whatever requests a gateway serves, a call of an adapter is sent a
number of tokens within the ceilings of the policy and of the hop's model, which does not depend
on other hops; and a temperature within the maxima exactly if the request has none or the
minimum of the policy is below the maxima. -/
theorem calls_limited {P : Pool ℕ Op Op.Answer (Except Thrown Unit × PipelineCtx)
      ProviderCache AIRequest} (hP : (gateway deps).Reachable .empty P) {i : ℕ} {e : Op}
    {k : e.Answer → Prog Op Op.Answer (Except Thrown Unit × PipelineCtx)} {q : AIRequest}
    (hi : P.thread i = some (.call e k, q)) {c : PipelineCtx} {route : RouteDecision}
    {env : AIRequest} (he : e = .execute c route env ∨ e = .openStream c route env) :
    ∃ effective, c.effective = some effective ∧
      env.maxTokens = some (ceiling effective q route.model) ∧
      TokensWithin effective route.model env ∧
      (TemperatureWithin effective env ↔ q.temperature = none ∨ MinBelowMaxima effective) := by
  have hpreserves := gateway_preserves deps (A := Op.Limited) (fun _ _ h => h.1)
    fun q bearerToken requestId startedAt => chatCompletions_calls limited_beside deps bearerToken
      (stages_limited deps (s := newPipelineCtx requestId startedAt q) (fun _ _ h => h) rfl rfl
        bearerToken)
  have hcall := ((System.invariant hpreserves ProviderCache.keyed_empty hP).2 i _ q hi).1.2
  obtain ⟨effective, heff, hsent⟩ : ∃ effective, c.effective = some effective ∧
      Sent effective q route.model env := by
    obtain rfl | rfl := he
    · exact hcall
    · exact hcall
  exact ⟨effective, heff, hsent.tokens, hsent.tokensWithin, hsent.temperatureWithin_iff⟩

end

/-! ### A minimum above the maxima -/

/-- The context, the route and the envelope of a call of an adapter. -/
def Op.call? : Op → Option (PipelineCtx × RouteDecision × AIRequest)
  | .execute c route env => some (c, route, env)
  | _ => none

theorem Op.eq_of_call? {e : Op} {c : PipelineCtx} {route : RouteDecision} {env : AIRequest}
    (h : e.call? = some (c, route, env)) : e = .execute c route env := by
  cases e with
  | execute =>
      cases h
      rfl
  | _ => cases h

namespace Sample

/-- A request that carries a temperature. -/
def warmRequest : AIRequest := { request "hello" with temperature := some (1 / 5) }

/-- The policy asks for a temperature of at least 1/2, the firm allows 3/10. -/
def warmTables : Tables :=
  { tables with
    policies := [{ policy with temperatureMin := some (1 / 2) }]
    firms := [{ firm with settings := { global_temperature_max := some (3 / 10) } }] }

/-- The call of the request. -/
def warmCall : Option (PipelineCtx × RouteDecision × AIRequest) :=
  ((calling warmTables warmRequest 27).pending 0).bind Op.call?

theorem warmCall_temperature : warmCall.map (fun call => (call.2.2.temperature,
    call.1.effective.map temperatureMaxima)) = some (some (1 / 2), some [3 / 10]) := by
  decide +kernel

theorem exists_warmCall : ∃ (c : PipelineCtx) (route : RouteDecision) (env : AIRequest),
    ∃ k q, (calling warmTables warmRequest 27).thread 0 = some (.call (.execute c route env) k, q) ∧
      env.temperature = some (1 / 2) ∧ c.effective.map temperatureMaxima = some [3 / 10] := by
  obtain ⟨⟨c, route, env⟩, hcall, hvalues⟩ := Option.map_eq_some_iff.1 warmCall_temperature
  obtain ⟨e, he, hargs⟩ := Option.bind_eq_some_iff.1 hcall
  obtain rfl := Op.eq_of_call? hargs
  obtain ⟨k, q, hk⟩ := Pool.thread_of_pending he
  exact ⟨c, route, env, k, q, hk, congrArg Prod.fst hvalues, congrArg Prod.snd hvalues⟩

end Sample

theorem sample_calls_limited : ∃ (c : PipelineCtx) (route : RouteDecision) (env q : AIRequest)
    (effective : EffectivePolicy),
    c.effective = some effective ∧ env.maxTokens = some (ceiling effective q route.model) ∧
      TokensWithin effective route.model env ∧
      (TemperatureWithin effective env ↔ q.temperature = none ∨ MinBelowMaxima effective) := by
  let := Sample.platform
  obtain ⟨c, route, env, k, q, hk, -⟩ := Sample.exists_warmCall
  exact ⟨c, route, env, q, calls_limited Sample.deps
    (Sample.calling_reachable Sample.warmTables Sample.warmRequest 27) hk (.inl rfl)⟩

/-- The minimum of a policy takes a temperature above the maximum of the firm. -/
theorem minimum_exceeds_maximum :
    letI := Sample.platform
    ¬∀ (P : Pool ℕ Op Op.Answer (Except Thrown Unit × PipelineCtx) ProviderCache AIRequest) (i : ℕ)
      (c : PipelineCtx) (route : RouteDecision) (env : AIRequest)
      (k : Except Thrown AIResponse → Prog Op Op.Answer (Except Thrown Unit × PipelineCtx))
      (q : AIRequest), (gateway Sample.deps).Reachable .empty P →
        P.thread i = some (.call (.execute c route env) k, q) →
          ∃ effective, c.effective = some effective ∧ TemperatureWithin effective env := by
  let := Sample.platform
  intro h
  obtain ⟨c, route, env, k, q, hk, htemperature, hmaxima⟩ := Sample.exists_warmCall
  obtain ⟨effective, heff, hwithin⟩ := h _ 0 c route env k q
    (Sample.calling_reachable Sample.warmTables Sample.warmRequest 27) hk
  rw [heff] at hmaxima
  have hhigh : (3 / 10 : ℚ) ∈ temperatureMaxima effective := by
    rw [Option.some.inj hmaxima]
    exact List.mem_singleton_self _
  exact absurd (hwithin _ htemperature _ hhigh) (by decide +kernel)

end VibeRouter
