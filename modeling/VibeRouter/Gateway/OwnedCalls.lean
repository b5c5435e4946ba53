import VibeRouter.Gateway.Owned

/-! # What the execution of a request touches

From the executors on to the ledger and the relay: hops lead to providers of the firm, responses are
cached under its keys, and its spend is recorded.  With the stages this gives
`chatCompletions_owned`. -/

namespace VibeRouter

open Effects Async Code

variable {home : Homes} {F : Uuid} {L : (e : Op) → e.Answer → Prop} {s s' : PipelineCtx}
  [Platform] (deps : PipelineDeps)

/-! ### Hops -/

section
variable (hL : ∀ e r, L e r → home.Told e r)
include hL

theorem admitHop_owned (h : s.Of home F) (auditSkips : Bool) (model : ModelRow)
    (lastErr : Option RouterError) (previousModel : String) :
    Owns L home F (admitHop deps auditSkips model lastErr previousModel) s fun r s' =>
      (∃ b, s' = { s with cloudBlockAudited := b }) ∧
        ∀ route, r = .ok (.admitted route) → home.ofProvider route.provider.id = F := by
  simp only [admitHop, meets_bind, meets_outcome]
  refine (routeForModel_owned deps hL h model).mono ?_
  rintro (e | route) s' ⟨⟨b, hb⟩, hroute⟩
  · have h' : s'.Of home F := h.congr (by rw [hb]) (by rw [hb])
    dsimp only
    split
    · simp only [meets_bind]
      refine (auditFrom_owned h' _ _ _).mono ?_
      rintro _ s'' ⟨rfl, rfl⟩
      exact ⟨⟨b, hb⟩, by simp⟩
    · exact ⟨⟨b, hb⟩, by simp⟩
  · have h' : s'.Of home F := h.congr (by rw [hb]) (by rw [hb])
    have hprovider := hroute route rfl
    simp only [meets_bind, meets_op]
    refine ⟨hprovider, fun allowed _ => ?_⟩
    split
    · simp only [meets_bind]
      refine (auditAs_owned h' _ _).mono ?_
      rintro _ s'' ⟨rfl, rfl⟩
      exact ⟨⟨b, hb⟩, by simp⟩
    · simp only [meets_bind, meets_op]
      refine ⟨hprovider, fun acquired _ => ?_⟩
      split
      · exact ⟨⟨b, hb⟩, by simp⟩
      · refine ⟨⟨b, hb⟩, ?_⟩
        rintro route' ⟨⟩
        exact hprovider

end

section
variable {route : RouteDecision} (hroute : home.ofProvider route.provider.id = F)
include hroute

omit [Platform] in
theorem noteFailure_owned (h : s.Of home F) (givenUp : Bool) :
    Owns L home F (noteFailure route givenUp) s fun _ s' => s' = s := by
  unfold noteFailure
  split
  · rfl
  · simp only [meets_bind, meets_op]
    exact ⟨hroute, fun _ _ => recordHealth_owned h hroute false⟩

omit [Platform] in
theorem afterFailure_owned (h : s.Of home F) (attempt : ℕ) (rerr : RouterError) :
    Owns L home F (afterFailure route attempt rerr) s fun _ s' => s' = s := by
  simp only [afterFailure, meets_bind, meets_op]
  refine ⟨trivial, fun aborted _ => ?_⟩
  refine (noteFailure_owned hroute h aborted).mono ?_
  rintro (e | _) s' rfl
  · rfl
  · exact owns_of_uses (retryOrThrow_uses attempt rerr aborted) (by decide) fun _ _ h => h

omit hroute in
theorem verifyIfEnabled_owned (h : s.Of home F) (cfg : ResilienceConfig) (res : AIResponse) :
    Owns L home F (verifyIfEnabled cfg route res) s fun _ s' => s' = s := by
  unfold verifyIfEnabled
  split
  · simp only [verifyHop, meets_bind, meets_ctx, meets_ofExcept]
    split
    · next r hr =>
      obtain ⟨finding, soft⟩ := r
      cases finding with
      | none => exact (auditSoftFindings_owned h _ _).mono fun _ _ h => h.2
      | some finding =>
          simp only [meets_bind]
          refine (auditAs_owned h _ _).mono ?_
          rintro _ s' ⟨rfl, rfl⟩
          trivial
    · trivial
  · rfl

variable (cfg : ResilienceConfig)

theorem executeAttempt_owned (h : s.Of home F) :
    Owns L home F (executeAttempt cfg route) s fun _ s' => s' = s := by
  simp only [executeAttempt, meets_bind, meets_ctx, meets_await, meets_op]
  refine ⟨hroute, fun r _ => ?_⟩
  rcases r with e | res
  · trivial
  refine (verifyIfEnabled_owned h cfg res).mono ?_
  rintro (e | _) s' rfl
  · rfl
  refine ⟨hroute, fun _ _ => ?_⟩
  refine (recordHealth_owned h hroute true).mono ?_
  rintro (e | _) s' rfl <;> rfl

theorem retryLoop_owned (h : s.Of home F) (left attempt : ℕ) (lastErr : Option RouterError) :
    Owns L home F (retryLoop cfg route left attempt lastErr) s fun _ s' => s' = s := by
  induction left generalizing attempt lastErr with
  | zero => rfl
  | succ left ih =>
      simp only [retryLoop, meets_bind, meets_op]
      refine ⟨trivial, fun aborted _ => ?_⟩
      split
      · rfl
      · simp only [meets_bind, meets_outcome]
        refine (executeAttempt_owned hroute cfg h).mono ?_
        rintro (e | res) s' rfl
        · simp only [meets_bind]
          refine (afterFailure_owned hroute h attempt _).mono ?_
          rintro (e | _) s' rfl
          · rfl
          · exact ih _ _
        · rfl

omit [Platform] hroute in
theorem enterHop_owned (h : s.Of home F) (lastErr : Option RouterError) (previousModel : String) :
    Owns L home F (enterHop route lastErr previousModel) s fun r s' =>
      r = .ok () ∧ s' = { s with route := some route } := by
  simp only [enterHop, meets_bind]
  refine (auditFrom_owned h _ _ _).mono ?_
  rintro _ s' ⟨rfl, rfl⟩
  refine (auditClamp_owned h route).mono ?_
  rintro _ s' ⟨rfl, rfl⟩
  exact ⟨rfl, rfl⟩

omit [Platform] hroute in
/-- A context with a route to a provider of the firm. -/
theorem PipelineCtx.Of.enter (h : s.Of home F) (hroute : home.ofProvider route.provider.id = F) :
    { s with route := some route }.Of home F :=
  h.reroute (b := s.cloudBlockAudited) hroute

theorem runHop_owned (h : s.Of home F) (lastErr : Option RouterError) (previousModel : String) :
    Owns L home F (runHop cfg route lastErr previousModel) s fun _ s' => s'.Of home F := by
  simp only [runHop, meets_ensure, meets_bind, meets_outcome]
  refine (enterHop_owned h lastErr previousModel).mono ?_
  rintro _ s' ⟨rfl, rfl⟩
  have h' := h.enter hroute
  refine (retryLoop_owned hroute cfg h' _ _ _).mono ?_
  rintro (e | res) s' rfl
  · simp only [meets_bind, meets_op]
    exact ⟨trivial, fun _ _ => ⟨hroute, fun _ _ => h'⟩⟩
  · exact ⟨hroute, fun _ _ => h'⟩

omit [Platform] in
theorem streamCatch_owned (h : s.Of home F) (err : Thrown) (contentSeen : Bool) :
    Owns L home F (streamCatch route err contentSeen) s fun _ s' => s' = s := by
  simp only [streamCatch, meets_bind, meets_op]
  refine ⟨trivial, fun idleFired _ => ⟨trivial, fun aborted _ => ?_⟩⟩
  refine (noteFailure_owned hroute h _).mono ?_
  rintro (e | _) s' rfl
  · rfl
  · refine (auditIfInvalid_owned h route _).mono ?_
    rintro _ s' ⟨rfl, rfl⟩
    dsimp only
    split <;> rfl

omit [Platform] in
theorem streamTry_owned (h : s.Of home F) (lastErr : Option RouterError) (previousModel : String) :
    OwnsGen L home F (streamTry cfg route lastErr previousModel) s fun _ s' =>
      s' = { s with route := some route } := by
  simp only [streamTry, meets_bind, ownsGen_inGenerator]
  refine (enterHop_owned h lastErr previousModel).mono ?_
  rintro _ s' ⟨rfl, rfl⟩
  refine ⟨hroute, fun chunks _ => ?_⟩
  refine (relayStream_owned (h.enter hroute) cfg chunks false []).mono ?_
  rintro (e | ⟨_ | _⟩ | _) s' rfl
  · rfl
  · rfl
  · exact ⟨hroute, fun _ _ => rfl⟩
  · rfl

omit [Platform] in
theorem streamHop_owned (h : s.Of home F) (lastErr : Option RouterError) (previousModel : String) :
    OwnsGen L home F (streamHop cfg route lastErr previousModel) s
      fun _ s' => s'.Of home F := by
  have h' := h.enter hroute
  simp only [streamHop, meets_bind, ownsGen_op, meets_ensure]
  refine ⟨trivial, fun _ _ => ?_⟩
  refine (streamTry_owned hroute cfg h lastErr previousModel).mono ?_
  rintro (e | ⟨seen⟩ | ⟨err, seen⟩) s' rfl
  · exact ⟨trivial, fun _ _ => ⟨hroute, fun _ _ => h'⟩⟩
  · exact ⟨trivial, fun _ _ => ⟨hroute, fun _ _ => h'⟩⟩
  · simp only [meets_bind, ownsGen_inGenerator]
    refine (streamCatch_owned hroute h' err seen).mono ?_
    rintro (e | rerr) s' rfl
    · exact ⟨trivial, fun _ _ => ⟨hroute, fun _ _ => h'⟩⟩
    · exact ⟨trivial, fun _ _ => ⟨hroute, fun _ _ => h'⟩⟩

end

section
variable (hL : ∀ e r, L e r → home.Told e r)
include hL

variable (cfg : ResilienceConfig) (effective : EffectivePolicy)

theorem hopLoop_owned (h : s.Of home F) (ids : List Uuid) (lastErr : Option RouterError)
    (previousModel : String) :
    Owns L home F (hopLoop deps cfg effective ids lastErr previousModel) s
      fun _ s' => s'.Of home F := by
  induction ids generalizing s lastErr previousModel with
  | nil => exact h
  | cons id ids ih =>
      simp only [hopLoop, meets_bind, meets_op]
      refine ⟨trivial, fun aborted _ => ?_⟩
      split
      · exact h
      · split
        · exact ih h _ _
        · rw [meets_bind]
          refine (admitHop_owned deps hL h _ _ _ _).mono ?_
          rintro (e | ⟨route⟩ | rerr) s' ⟨⟨b, hb⟩, hroute⟩
          · exact h.congr (by rw [hb]) (by rw [hb])
          · have h' : s'.Of home F := h.congr (by rw [hb]) (by rw [hb])
            dsimp only
            rw [meets_bind]
            refine (runHop_owned (hroute route rfl) cfg h' _ _).mono ?_
            rintro (e | ⟨rerr, _ | _⟩ | res) s'' h''
            · exact h''
            · exact ih h'' _ _
            · exact h''
            · exact h''
          · exact ih (h.congr (by rw [hb]) (by rw [hb])) _ _

theorem streamLoop_owned (h : s.Of home F) (ids : List Uuid) (lastErr : Option RouterError)
    (previousModel : String) :
    OwnsGen L home F (streamLoop deps cfg effective ids lastErr previousModel) s
      fun _ s' => s'.Of home F := by
  induction ids generalizing s lastErr previousModel with
  | nil => exact h
  | cons id ids ih =>
      simp only [streamLoop, meets_bind, ownsGen_op]
      refine ⟨trivial, fun aborted _ => ?_⟩
      split
      · exact h
      · split
        · exact ih h _ _
        · rw [meets_bind, ownsGen_inGenerator]
          refine (admitHop_owned deps hL h _ _ _ _).mono ?_
          rintro (e | ⟨route⟩ | rerr) s' ⟨⟨b, hb⟩, hroute⟩
          · exact h.congr (by rw [hb]) (by rw [hb])
          · have h' : s'.Of home F := h.congr (by rw [hb]) (by rw [hb])
            dsimp only [Except.mapError]
            rw [meets_bind]
            refine (streamHop_owned (hroute route rfl) cfg h' _ _).mono ?_
            rintro (e | _ | rerr) s'' h''
            · exact h''
            · exact h''
            · exact ih h'' _ _
          · exact ih (h.congr (by rw [hb]) (by rw [hb])) _ _

theorem executeResilient_owned (h : s.Of home F) :
    Owns L home F (executeResilient deps cfg) s fun _ s' => s'.Of home F := by
  simp only [executeResilient, meets_bind, meets_ensure]
  refine owns_of_uses requireEffective_uses (by simp) ?_
  rintro (e | effective) s' ⟨rfl, -⟩
  · exact h
  simp only [meets_op, meets_ctx, meets_ofExcept]
  refine ⟨trivial, fun _ _ => ?_⟩
  cases candidateModels effective s'.envelope with
  | error e => exact ⟨trivial, fun _ _ => h⟩
  | ok ids =>
      refine (hopLoop_owned deps hL cfg effective h ids none "").mono ?_
      rintro (e | lastErr | res) s'' h''
      · exact ⟨trivial, fun _ _ => h''⟩
      · simp only [meets_bind, meets_op]
        refine ⟨trivial, fun timedOut _ => ?_⟩
        split <;> exact ⟨trivial, fun _ _ => h''⟩
      · exact ⟨trivial, fun _ _ => h''⟩

theorem executeResilientStream_owned (h : s.Of home F) :
    OwnsGen L home F (executeResilientStream deps cfg) s fun _ s' => s'.Of home F := by
  simp only [executeResilientStream, meets_bind, meets_ensure, ownsGen_inGenerator]
  refine owns_of_uses requireEffective_uses (by simp) ?_
  rintro (e | effective) s' ⟨rfl, -⟩
  · exact h
  dsimp only [Except.mapError]
  simp only [meets_op, meets_ctx, meets_ofExcept]
  refine ⟨trivial, fun _ _ => ?_⟩
  cases candidateModels effective s'.envelope with
  | error e => exact ⟨trivial, fun _ _ => h⟩
  | ok ids =>
      refine (streamLoop_owned deps hL cfg effective h ids none "").mono ?_
      rintro (e | _ | lastErr) s'' h''
      · exact ⟨trivial, fun _ _ => h''⟩
      · exact ⟨trivial, fun _ _ => h''⟩
      · simp only [meets_bind, ownsGen_op]
        refine ⟨trivial, fun timedOut _ => ?_⟩
        split <;> exact ⟨trivial, fun _ _ => h''⟩

end

/-! ### adapt -/

/-- A key of the response cache that is the firm's. -/
def ResponseKeyOf (F : Uuid) (cacheKey : Option String) : Prop :=
  ∀ key, cacheKey = some key → ∃ model h d, key = ResponseCache.key F model h d

theorem keyFor_owned {auth : AuthContext} (hauth : auth.Of home F) (c : PipelineCtx)
    (r : RouteDecision) : ResponseKeyOf F (keyFor deps auth c r) := by
  intro key hkey
  unfold keyFor at hkey
  split at hkey
  · cases hkey
  · split at hkey
    · cases hkey
    · cases hkey
      rw [hauth.firm]
      exact ⟨_, _, _, rfl⟩

theorem keyFor_bind_owned {auth : AuthContext} (hauth : auth.Of home F) (c c' : PipelineCtx) :
    ResponseKeyOf F (c'.route.bind (keyFor deps auth c)) := by
  cases hroute : c'.route with
  | none =>
      intro key hkey
      cases hkey
  | some route => exact keyFor_owned deps hauth c route

omit [Platform] in
theorem serveCached_owned {cacheKey : Option String} (hkey : ResponseKeyOf F cacheKey)
    (h : s.Of home F) :
    Owns L home F (serveCached cacheKey) s fun _ s' => s'.Of home F := by
  unfold serveCached
  split
  · exact h
  · next key =>
      simp only [meets_bind, meets_op]
      refine ⟨hkey key rfl, fun hit _ => ?_⟩
      split
      · exact h
      · simp only [meets_bind, meets_dateNow, meets_assign]
        exact ⟨trivial, fun now _ => h.congr rfl rfl⟩

theorem adaptResilient_owned (hL : ∀ e r, L e r → home.Told e r) (cfg : ResilienceConfig)
    {auth : AuthContext} (hauth : auth.Of home F) {cacheKey : Option String}
    (hkey : ResponseKeyOf F cacheKey) (h : s.Of home F) :
    Owns L home F (adaptResilient deps cfg auth cacheKey) s fun _ s' => s'.Of home F := by
  simp only [adaptResilient, meets_bind]
  refine (executeResilient_owned deps hL cfg h).mono ?_
  rintro (e | res) s' h'
  · exact h'
  simp only [meets_assign, meets_ctx]
  split
  · next key heq =>
    refine ⟨?_, fun _ _ => h'.congr rfl rfl⟩
    cases cacheKey with
    | some key' =>
        cases heq
        exact hkey key rfl
    | none => exact keyFor_bind_owned deps hauth _ { s' with response := some res } key heq
  · exact h'.congr rfl rfl

omit [Platform] in
theorem adaptDirect_owned {route : RouteDecision} (hroute : home.ofProvider route.provider.id = F)
    {cacheKey : Option String} (hkey : ResponseKeyOf F cacheKey) (h : s.Of home F) :
    Owns L home F (adaptDirect route cacheKey) s fun _ s' => s'.Of home F := by
  simp only [adaptDirect, meets_bind, meets_ctx, meets_op]
  refine ⟨hroute, fun r _ => ?_⟩
  cases r with
  | error e =>
      simp only [meets_bind]
      refine (recordHealth_owned h hroute false).mono ?_
      rintro (e | _) s' rfl <;> exact h
  | ok res =>
      have h' : PipelineCtx.Of home F { s with response := some res } := h.congr rfl rfl
      simp only [meets_bind, meets_assign]
      refine (recordHealth_owned h' hroute true).mono ?_
      rintro (e | _) s' rfl
      · exact h'
      · dsimp only
        split
        · next key => exact ⟨hkey key rfl, fun _ _ => h'⟩
        · exact h'

omit [Platform] in
theorem adapterStream_owned {route : RouteDecision}
    (hroute : home.ofProvider route.provider.id = F) (h : s.Of home F) :
    OwnsGen L home F (adapterStream route) s fun _ s' => s'.Of home F := by
  have hrelay : ∀ chunks, OwnsGen L home F (adapterRelay chunks) s
      fun _ s' => s' = s := by
    intro chunks
    induction chunks with
    | nil =>
        simp only [adapterRelay, meets_bind, ownsGen_op]
        refine ⟨trivial, fun r _ => ?_⟩
        cases r <;> rfl
    | cons chunk chunks ih =>
        simp only [adapterRelay, meets_bind, ownsGen_op]
        refine ⟨trivial, fun r _ => ?_⟩
        cases r with
        | error e => rfl
        | ok _ =>
            simp only [meets_bind]
            refine (yieldChunk_owned h chunk).mono ?_
            rintro (e | _ | e) s' rfl
            · rfl
            · exact ih
            · rfl
  simp only [adapterStream, meets_bind, meets_read, ownsGen_op]
  refine ⟨hroute, fun chunks _ => (hrelay chunks).mono ?_⟩
  rintro _ s' rfl
  exact h

/-- What is left of a stream concerns the firm. -/
abbrev StreamOf (L : (e : Op) → e.Answer → Prop) (home : Homes) (F : Uuid)
    (stream : ResponseStream) : Prop :=
  stream.wp (lawsOnly (GenOp.laws L Yielded)) (fun _ e => GenOwned home F e)
    (fun end_ _ => end_.2.Of home F) ()

omit [Platform] in
theorem follows_owned : Prog.Follows (lawsOnly L) (fun _ e => e.Owned home F)
    (lawsOnly (GenOp.laws L Yielded)) (fun _ e => GenOwned home F e) fun _ _ => True :=
  fun _ _ _ _ hok => ⟨hok, fun _ hr => ⟨hr, trivial⟩⟩

omit [Platform] in
theorem primeStream_owned {g : Generator Unit}
    (h : OwnsGen L home F g s fun _ s' => s'.Of home F) :
    Owns L home F (primeStream g) s fun r s' => s'.Of home F ∧
      ∀ stream, r = .ok stream → StreamOf L home F stream := by
  show ((g s).next.bind _).wp _ _ _ ()
  rw [Prog.wp_bind]
  refine Prog.wp_mono (follows_owned.next h trivial) ?_
  rintro (⟨r, s'⟩ | ⟨y, k⟩) _ ⟨_, hs, -⟩
  · rcases r with (e | _) | _
    · exact ⟨hs, by simp⟩
    · refine ⟨hs, ?_⟩
      rintro stream ⟨⟩
      exact hs
    · refine ⟨hs, ?_⟩
      rintro stream ⟨⟩
      exact hs
  · refine ⟨hs.1, ?_⟩
    rintro stream ⟨⟩
    exact hs

theorem stageAdapt_owned (hL : ∀ e r, L e r → home.Told e r) (h : s.Of home F) :
    Owns L home F (stageAdapt deps) s fun r s' => s'.Of home F ∧
      ∀ stream, r = .ok (some stream) → StreamOf L home F stream := by
  have hunrouted : ∀ t : PipelineCtx, t.Of home F →
      Owns L home F (unrouted : Stage (Option ResponseStream)) t fun r s' => s'.Of home F ∧
        ∀ stream, r = .ok (some stream) → StreamOf L home F stream := by
    intro t ht
    simp only [unrouted, meets_bind, meets_ctx]
    split
    · exact ⟨ht, by simp⟩
    · exact ⟨ht, by simp⟩
  simp only [stageAdapt, meets_bind]
  refine (requireAuth_owned h).mono ?_
  rintro (e | auth) s' ⟨rfl, hauth⟩
  · exact ⟨h, by simp⟩
  have hof := hauth auth rfl
  simp only [meets_ctx]
  split
  · exact hunrouted s' h
  have hkey := keyFor_bind_owned deps hof s' s'
  rw [meets_bind]
  refine (serveCached_owned hkey h).mono ?_
  rintro (e | hit) s'' h''
  · exact ⟨h'', by simp⟩
  cases hit with
  | true => exact ⟨h'', by simp⟩
  | false =>
      dsimp only
      cases deps.resilience with
      | some cfg =>
          simp only [Bool.false_eq_true, if_false]
          split
          · rw [meets_bind]
            refine (primeStream_owned (executeResilientStream_owned deps hL cfg h'')).mono ?_
            rintro (e | stream) s₁ ⟨h₁, hstream⟩
            · exact ⟨h₁, by simp⟩
            · refine ⟨h₁, ?_⟩
              rintro stream' ⟨⟩
              exact hstream stream rfl
          · rw [meets_bind]
            refine (adaptResilient_owned deps hL cfg hof hkey h'').mono ?_
            rintro (e | _) s₁ h₁ <;> exact ⟨h₁, by simp⟩
      | none =>
          simp only [Bool.false_eq_true, if_false]
          cases hroute : s'.route with
          | none => exact hunrouted s'' h''
          | some route =>
              have hprovider := h.route route hroute
              dsimp only
              split
              · refine ⟨h'', ?_⟩
                rintro stream ⟨⟩
                exact adapterStream_owned hprovider h
              · rw [meets_bind]
                refine (adaptDirect_owned hprovider (hroute ▸ hkey) h'').mono ?_
                rintro (e | _) s₁ h₁ <;> exact ⟨h₁, by simp⟩

/-! ### The ledger -/

section
variable {S : Type} {t : S}

omit [Platform] in
theorem incrementAll_owned (period : Period) (amount : ℤ) (scopes : List (BudgetScope × String))
    (h : ∀ scope ∈ scopes, ScopeOf F scope.2) :
    Owns L home F (incrementAll period amount scopes : Async S Unit) t fun _ t' => t' = t := by
  induction scopes with
  | nil => rfl
  | cons scope scopes ih =>
      obtain ⟨scope, ref⟩ := scope
      simp only [incrementAll, meets_bind, meets_await, meets_op]
      refine ⟨h _ List.mem_cons_self, fun r _ => ?_⟩
      cases r with
      | error e => trivial
      | ok _ => exact ih fun scope' hmem => h scope' (List.mem_cons_of_mem _ hmem)

omit [Platform] in
theorem spendScopes_owned (app : String) (userId : Option String) :
    ∀ scope ∈ spendScopes F app userId, ScopeOf F scope.2 := by
  intro scope hmem
  rcases List.mem_append.1 hmem with hmem | hmem
  · rcases List.mem_cons.1 hmem with rfl | hmem
    · exact scopeOf_scopeKey .firm F F.text
    · obtain rfl := List.mem_singleton.1 hmem
      exact scopeOf_scopeKey .app F app
  · split at hmem
    · split at hmem
      · cases hmem
      · obtain rfl := List.mem_singleton.1 hmem
        exact scopeOf_scopeKey .user F _
    · cases hmem

omit [Platform] in
theorem writeCtx_owned {c : PipelineCtx} (h : c.Of home F) :
    Owns L home F (DbLedger.writeCtx c : Async S Unit) t fun _ t' => t' = t := by
  unfold DbLedger.writeCtx
  split
  · rfl
  · next auth hauth =>
    have hfirm := (h.auth auth hauth).firm
    simp only [meets_bind]
    refine owns_of_uses (DbLedger.pricingOf_uses c) (by decide) ?_
    rintro (e | pricing) t' rfl
    · rfl
    simp only [DbLedger.insertRow, meets_bind, meets_await, meets_op, meets_dateNow]
    refine ⟨trivial, fun now _ => ⟨hfirm, fun r _ => ?_⟩⟩
    rcases r with e | inserted
    · trivial
    · dsimp only
      split
      · rw [hfirm]
        split
        · unfold recordSpend
          split
          · trivial
          · simp only [meets_bind, meets_dateNow]
            exact ⟨trivial, fun now _ => incrementAll_owned _ _ _ (spendScopes_owned _ _)⟩
        · trivial
      · trivial

end

omit [Platform] in
theorem writeLogged_owned (h : s.Of home F) :
    Owns L home F writeLogged s fun r s' => r = .ok () ∧ s' = s := by
  simp only [writeLogged, DbLedger.write, meets_bind, meets_outcome, meets_read]
  refine (writeCtx_owned h).mono ?_
  rintro r _ rfl
  exact ⟨rfl, rfl⟩

/-! ### The relay -/

omit [Platform] in
theorem relayLoop_owned (requestId model : String) {stream : ResponseStream}
    (h : StreamOf L home F stream) :
    Owns L home F (relayLoop requestId model stream) s fun r s' => s'.Of home F ∧ ∃ a, r = .ok a := by
  show ((stream.consume _ _).bind _).wp _ _ _ ()
  rw [Prog.wp_bind]
  refine Prog.wp_mono (follows_owned.consume (fun _ _ _ _ _ => ⟨trivial, trivial⟩) ?_ h trivial _) ?_
  · intro y t _ _ _ _
    refine ⟨trivial, fun aborted _ => ?_⟩
    cases aborted with
    | true => trivial
    | false => exact ⟨trivial, fun _ _ => trivial⟩
  · rintro ⟨⟨r, c⟩, t⟩ _ ⟨_, hc, -⟩
    exact ⟨hc, _, rfl⟩

theorem streamed_owned (h : s.Of home F) (t : RelayState) (model : String) (now : ℕ) :
    (s.streamed t model now).Of home F := by
  obtain ⟨response, hs⟩ := streamed_eq s t model now
  rw [hs]
  exact h.congr rfl rfl

theorem finishRelay_owned (h : s.Of home F) (model : String) (t : RelayState) :
    Owns L home F (finishRelay model t) s fun _ _ => True := by
  have hend : Owns L home F (noteEnd model t) s fun r s' => s'.Of home F := by
    simp only [noteEnd, meets_bind, meets_dateNow, meets_assign, meets_op]
    refine ⟨trivial, fun now _ => ⟨trivial, fun aborted _ => ?_⟩⟩
    have h' := streamed_owned h t model now
    split
    · exact h'.congr rfl rfl
    · simp only [meets_bind, meets_ctx]
      split
      · next route hroute =>
        split
        · refine (recordHealth_owned h' (h'.route route hroute) _).mono ?_
          rintro _ _ rfl
          exact h'
        · exact h'
      · exact h'
  simp only [finishRelay, meets_bind]
  refine hend.mono ?_
  rintro (e | _) s' h'
  · trivial
  refine (writeLogged_owned h').mono ?_
  rintro _ s' ⟨rfl, rfl⟩
  refine (emitTerminalAudit_owned h').mono ?_
  rintro _ s' ⟨rfl, rfl⟩
  exact ⟨trivial, fun _ _ => trivial⟩

theorem relay_owned {stream : ResponseStream} (h : StreamOf L home F stream) :
    Owns L home F (relay stream) s fun _ _ => True := by
  simp only [relay, meets_bind, meets_ctx, meets_op]
  refine ⟨trivial, fun _ _ => ?_⟩
  refine (relayLoop_owned _ _ h).mono ?_
  rintro _ s' ⟨h', ⟨ended, t⟩, rfl⟩
  refine owns_of_uses (afterLoop_uses ended) (by decide) ?_
  rintro _ s'' ⟨rfl, heq⟩
  have h'' : s''.Of home F := h'.congr (by rw [heq]) (by rw [heq])
  exact finishRelay_owned h'' _ _

/-! ### The request -/

section
variable (hL : ∀ e r, L e r → home.Told e r) {bearerToken : Option String}
  (hbearer : home.Bears F bearerToken)
include hL hbearer

theorem stages_owned (h : s.Of home F) :
    Owns L home F (stages deps bearerToken) s fun r s' => s'.Of home F ∧
      ∀ stream, r = .ok (some stream) → StreamOf L home F stream := by
  simp only [stages, meets_bind]
  refine (stageAuth_owned hL deps hbearer h).mono ?_
  rintro (e | _) s₁ h₁
  · exact ⟨h₁, by simp⟩
  refine owns_of_uses stageResolveTaskClass_uses (by simp) ?_
  rintro (e | _) _ rfl
  · exact ⟨h₁, by simp⟩
  refine (stagePolicy_owned deps h₁).mono ?_
  rintro (e | _) s₂ h₂
  · exact ⟨h₂, by simp⟩
  refine (stageBudget_owned h₂).mono ?_
  rintro (e | _) s₃ h₃
  · exact ⟨h₃, by simp⟩
  refine (stageScrub_owned h₃).mono ?_
  rintro (e | _) s₄ h₄
  · exact ⟨h₄, by simp⟩
  refine (stageRoute_owned deps hL h₄).mono ?_
  rintro (e | _) s₅ h₅
  · exact ⟨h₅, by simp⟩
  refine (stageAdapt_owned deps hL h₅).mono ?_
  rintro (e | stream) s₆ ⟨h₆, hstream⟩
  · exact ⟨h₆, by simp⟩
  simp only [meets_ctx]
  split
  · exact ⟨h₆, fun stream' heq => hstream stream' (by rw [← heq])⟩
  · simp only [meets_bind, DbLedger.write, meets_read]
    refine (writeCtx_owned h₆).mono ?_
    rintro (e | _) _ rfl
    · exact ⟨h₆, by simp⟩
    refine (emitTerminalAudit_owned h₆).mono ?_
    rintro _ _ ⟨rfl, rfl⟩
    exact ⟨h₆, fun stream' heq => hstream stream' (by rw [← heq])⟩

theorem runPipeline_owned (h : s.Of home F) :
    Owns L home F (runPipeline deps bearerToken) s fun r _ =>
      ∀ stream, r = .ok (some stream) → StreamOf L home F stream := by
  simp only [runPipeline, meets_handle]
  refine (stages_owned deps hL hbearer h).mono ?_
  rintro (e | stream) s' ⟨h', hstream⟩
  · have hfailed : PipelineCtx.Of home F { s' with error := some (toRouterError e) } :=
      h'.congr rfl rfl
    simp only [meets_bind, meets_assign]
    refine (writeLogged_owned hfailed).mono ?_
    rintro _ _ ⟨rfl, rfl⟩
    refine (emitTerminalAudit_owned hfailed).mono ?_
    rintro _ _ ⟨rfl, rfl⟩
    simp
  · exact hstream

/-- Everything a request does concerns the firm of its app token. -/
theorem chatCompletions_owned (h : s.Of home F) :
    Owns L home F (chatCompletions deps bearerToken) s fun _ _ => True := by
  simp only [chatCompletions, meets_handle, meets_bind]
  have hsend : ∀ (s : PipelineCtx) (e : Thrown),
      Owns L home F (op (.sendError (toRouterError e)) : Stage Unit) s fun _ _ => True :=
    fun s e => ⟨trivial, fun _ _ => trivial⟩
  refine (runPipeline_owned deps hL hbearer h).mono ?_
  rintro (e | stream) s' hstream
  · exact hsend s' e
  simp only [respond, meets_bind, meets_ctx]
  split
  · split
    · exact hsend s' _
    · exact ⟨trivial, fun _ _ => trivial⟩
  · split
    · exact hsend s' _
    · refine (relay_owned (hstream _ rfl)).mono ?_
      rintro (e | _) s'' -
      · exact hsend s'' e
      · trivial

end

end VibeRouter
