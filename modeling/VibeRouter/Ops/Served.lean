import VibeRouter.Db.Tables
import VibeRouter.Gateway.PipelineSpecs
import VibeRouter.Lib.Pool

/-! # What the response cache holds

Requests that share a response cache.  Each entry has an origin: the answer of an adapter that
the request which stored it had got last.  A request that missed the cache stores under the key
of its primary, whichever hop has answered.  So an entry fits its key, and a hit is an answer of
the model of the key, only as long as no other hop answers such a request
(`entries_fit`). -/

namespace VibeRouter

open Effects Async Code

namespace ResponseCache

variable {c : ResponseCache} {k k' : String} {now : ℕ} {entry : CacheEntry}

/-- A look-up adds no entry. -/
theorem get_entries (h : (c.get k now).2.entries.get k' = some entry) :
    c.entries.get k' = some entry := by
  unfold get at h
  split at h
  · exact h
  · next e he =>
      split at h
      · rw [JsMap.get_delete] at h
        split at h
        · cases h
        · exact h
      · rw [JsMap.get_set, JsMap.get_delete] at h
        split at h
        · next hk =>
            cases h
            exact hk ▸ he
        · exact h

theorem get_response {res : AIResponse} (h : (c.get k now).1 = some res) :
    ∃ entry, c.entries.get k = some entry ∧ entry.response = res := by
  unfold get at h
  split at h
  · cases h
  · next e he =>
      split at h
      · cases h
      · cases h
        exact ⟨e, he, rfl⟩

theorem evict_entries (h : c.evict.entries.get k' = some entry) : c.entries.get k' = some entry := by
  unfold evict at h
  split at h
  · rw [JsMap.get_delete] at h
    split at h
    · cases h
    · exact h
  · exact h

theorem set_entries {res : AIResponse} {ttl : ℚ} (httl : 0 < ttl)
    (h : (c.set k res ttl now).entries.get k' = some entry) :
    k' = k ∧ entry.response = res ∨ k' ≠ k ∧ c.entries.get k' = some entry := by
  unfold set at h
  rw [if_neg (not_le.2 httl)] at h
  dsimp only at h
  rw [JsMap.get_set] at h
  split at h
  · next hk =>
      cases h
      exact .inl ⟨hk, rfl⟩
  · next hk =>
      refine .inr ⟨hk, ?_⟩
      split at h
      · exact evict_entries h
      · exact h

end ResponseCache

/-! ### What a request has fetched -/

/-- The answer of an adapter to a call without streaming. -/
structure AdapterAnswer where
  ctx : PipelineCtx
  route : RouteDecision
  response : AIResponse

/-- What a request has fetched: the key it has looked up, and the last answer of an adapter. -/
structure Fetched where
  looked : Option String := none
  answered : Option AdapterAnswer := none

namespace Fetched

def next (q : Fetched) (e : Op) (r : e.Answer) : Fetched :=
  match e, r with
  | .responseGet key, _ => { q with looked := some key }
  | .execute c route _, .ok res => { q with answered := some ⟨c, route, res⟩ }
  | _, _ => q

end Fetched

/-- The answer belongs under the key: the key names the model that gave it, and it is an answer
of the local tier or the task class has its cloud answers cached. -/
def AdapterAnswer.Fits (a : AdapterAnswer) (key : String) : Prop :=
  (∃ firmId requestHash paramsDigest,
    key = ResponseCache.key firmId a.route.model.canonicalId requestHash paramsDigest) ∧
    (isLocalKind a.route.model.providerKind = true ∨ (requiresOf a.ctx).cache_cloud = true)

namespace Fetched

/-- What a request may store. -/
def Ok (q : Fetched) : Op → Prop
  | .responseSet key res ttl =>
      0 < ttl ∧ ∃ a, q.answered = some a ∧ a.response = res ∧ a.Fits key
  | _ => True

theorem next_of_other {q : Fetched} {e : Op} (r : e.Answer) (ha : e.part ≠ .adapter)
    (hr : e.part ≠ .responses) : next q e r = q := by
  cases e with
  | responseGet => exact absurd rfl hr
  | execute => exact absurd rfl ha
  | _ => rfl

theorem ok_of_other {q : Fetched} {e : Op} (hr : e.part ≠ .responses) : Ok q e := by
  cases e with
  | responseSet => exact absurd rfl hr
  | _ => trivial

end Fetched

section
variable [Platform] (deps : PipelineDeps)

/-- Any answer will do. -/
def Fetched.anything (_ : Fetched) (e : Op) (_ : e.Answer) : Prop := True

/-- A request that has looked up a key gets no acceptable answer but from a route that has this
key. -/
def Fetched.suits (q : Fetched) (e : Op) (r : e.Answer) : Prop :=
  match e, r with
  | .execute c route env, .ok res => ∀ key cfg auth, q.looked = some key →
      deps.resilience = some cfg → c.auth = some auth → Accepts cfg env res →
        keyFor deps auth c route = some key
  | _, _ => True

/-- The surroundings of a request. -/
def Fetched.env (permits : Fetched → (e : Op) → e.Answer → Prop) : Env Op Op.Answer Fetched where
  allows q e r := e.Lawful r ∧ permits q e r
  next := Fetched.next

/-! ### What requests do -/

variable {deps} {α : Type} {s : PipelineCtx} {q : Fetched}

omit [Platform] in
theorem Fetched.wp_of_uses {permits : Fetched → (e : Op) → e.Answer → Prop} {c : Stage α}
    {ps : List Op.Part} {post : Except Thrown α → PipelineCtx → Prop}
    (h : Uses Op.Lawful ps c s post) (ha : .adapter ∉ ps) (hr : .responses ∉ ps) :
    c.wp (Fetched.env permits) Fetched.Ok (fun r s' q' => post r s' ∧ q' = q) s q := by
  refine h.wp (fun _ _ _ hr => hr.1) (J := (· = q)) rfl ?_ fun _ _ _ hpost hq => ⟨hpost, hq⟩
  rintro _ e rfl he
  have ha' : e.part ≠ .adapter := fun heq => ha (heq ▸ he.1)
  have hr' : e.part ≠ .responses := fun heq => hr (heq ▸ he.1)
  exact ⟨Fetched.ok_of_other hr', fun r _ => Fetched.next_of_other r ha' hr'⟩

/-- The request has got a response: its route gave it last, and this route has the key the
request has looked up. -/
def Got (deps : PipelineDeps) (c : PipelineCtx) (q : Fetched) (res : AIResponse) : Prop :=
  ∃ route, c.route = some route ∧ q.answered = some ⟨c, route, res⟩ ∧
    ∀ key auth, q.looked = some key → c.auth = some auth → keyFor deps auth c route = some key

/-- Code that ends with what its route gave. -/
abbrev Fetches (deps : PipelineDeps) (c : Stage α) (s : PipelineCtx) (q : Fetched)
    (post : Except Thrown α → PipelineCtx → Fetched → Prop) : Prop :=
  c.wp (Fetched.env (Fetched.suits deps)) Fetched.Ok
    (fun r s' q' => s'.auth = s.auth ∧ q'.looked = q.looked ∧ post r s' q') s q

variable {cfg : ResilienceConfig} (hcfg : deps.resilience = some cfg) {route : RouteDecision}
include hcfg

theorem executeAttempt_fetches (hroute : s.route = some route) :
    Fetches deps (executeAttempt cfg route) s q fun r s' q' =>
      s' = s ∧ ∀ res, r = .ok res → Got deps s' q' res := by
  simp only [executeAttempt, wp_bind, wp_ctx, wp_await, wp_op]
  refine ⟨trivial, fun r hr => ?_⟩
  rcases r with e | res
  · exact ⟨trivial, rfl, trivial, by simp⟩
  refine wp_mono (Fetched.wp_of_uses (verifyIfEnabled_uses cfg route res) (by simp) (by simp)) ?_
  rintro (e | _) s' q' ⟨⟨rfl, hacc⟩, rfl⟩
  · exact ⟨rfl, rfl, rfl, by simp⟩
  refine ⟨trivial, fun _ _ => ?_⟩
  refine wp_mono (Fetched.wp_of_uses (recordHealth_uses route true) (by simp) (by simp)) ?_
  rintro (e | _) s'' q'' ⟨⟨rfl, -⟩, rfl⟩
  · exact ⟨rfl, rfl, rfl, by simp⟩
  · refine ⟨rfl, rfl, rfl, ?_⟩
    rintro _ ⟨⟩
    exact ⟨route, hroute, rfl, fun key auth hk ha => hr.2 key cfg auth hk hcfg ha (hacc rfl)⟩

theorem retryLoop_fetches (hroute : s.route = some route) (left attempt : ℕ)
    (lastErr : Option RouterError) :
    Fetches deps (retryLoop cfg route left attempt lastErr) s q fun r s' q' =>
      s' = s ∧ ∀ res, r = .ok res → Got deps s' q' res := by
  induction left generalizing q attempt lastErr with
  | zero => exact ⟨rfl, rfl, rfl, by simp⟩
  | succ left ih =>
      simp only [retryLoop, wp_bind, wp_op]
      refine ⟨trivial, fun aborted _ => ?_⟩
      cases aborted with
      | true => exact ⟨rfl, rfl, rfl, by simp⟩
      | false =>
          simp only [Bool.false_eq_true, if_false, wp_bind, wp_outcome]
          refine wp_mono (executeAttempt_fetches hcfg hroute) ?_
          rintro (e | res) s' q' ⟨-, hl, rfl, hgot⟩
          · simp only [wp_bind]
            refine wp_mono (Fetched.wp_of_uses (afterFailure_uses route attempt _) (by simp)
              (by simp)) ?_
            rintro (e | _) s'' q'' ⟨rfl, rfl⟩
            · exact ⟨rfl, hl, rfl, by simp⟩
            · refine wp_mono (ih _ _) ?_
              rintro r s3 q3 ⟨ha, hl', hpost⟩
              exact ⟨ha, hl'.trans hl, hpost⟩
          · exact ⟨rfl, hl, rfl, hgot⟩

theorem runHop_fetches (lastErr : Option RouterError) (previousModel : String) :
    Fetches deps (runHop cfg route lastErr previousModel) s q fun r s' q' =>
      ∀ res, r = .ok (.ok res) → Got deps s' q' res := by
  simp only [runHop, wp_ensure, wp_bind, wp_outcome]
  refine wp_mono (Fetched.wp_of_uses (enterHop_uses route lastErr previousModel) (by simp)
    (by simp)) ?_
  rintro _ s' q' ⟨⟨rfl, rfl⟩, rfl⟩
  refine wp_mono (retryLoop_fetches hcfg (s := { s with route := some route }) rfl _ _ _) ?_
  rintro (e | res) s'' q'' ⟨ha, hl, rfl, hgot⟩
  · simp only [wp_bind, wp_op]
    exact ⟨trivial, fun _ _ => ⟨trivial, fun _ _ => ⟨rfl, hl, by simp⟩⟩⟩
  · refine ⟨trivial, fun _ _ => ⟨rfl, hl, ?_⟩⟩
    rintro _ ⟨⟩
    exact hgot res rfl

theorem hopLoop_fetches (effective : EffectivePolicy) (ids : List Uuid)
    (lastErr : Option RouterError) (previousModel : String) :
    Fetches deps (hopLoop deps cfg effective ids lastErr previousModel) s q fun r s' q' =>
      ∀ res, r = .ok (.ok res) → Got deps s' q' res := by
  induction ids generalizing s q lastErr previousModel with
  | nil => exact ⟨rfl, rfl, by simp⟩
  | cons id ids ih =>
      simp only [hopLoop, wp_bind, wp_op]
      refine ⟨trivial, fun aborted _ => ?_⟩
      cases aborted with
      | true => exact ⟨rfl, rfl, by simp⟩
      | false =>
          simp only [Bool.false_eq_true, if_false]
          split
          · exact ih _ _
          · simp only [wp_bind]
            refine wp_mono (Fetched.wp_of_uses (admitHop_uses deps (fun _ _ h => h) _ _ _ _)
              (by simp) (by simp)) ?_
            rintro (e | ⟨route⟩ | rerr) _ q' ⟨⟨⟨b, rfl⟩, -⟩, rfl⟩
            · exact ⟨rfl, rfl, by simp⟩
            · simp only [wp_bind]
              refine wp_mono (runHop_fetches hcfg _ _) ?_
              rintro (e | ⟨rerr, _ | _⟩ | res) s'' q'' ⟨ha, hl, hgot⟩
              · exact ⟨ha, hl, by simp⟩
              · refine wp_mono (ih _ _) ?_
                rintro r s3 q3 ⟨ha', hl', hpost⟩
                exact ⟨ha'.trans ha, hl'.trans hl, hpost⟩
              · exact ⟨ha, hl, by simp⟩
              · refine ⟨ha, hl, ?_⟩
                rintro _ ⟨⟩
                exact hgot res rfl
            · exact ih _ _

theorem executeResilient_fetches :
    Fetches deps (executeResilient deps cfg) s q fun r s' q' =>
      ∀ res, r = .ok res → Got deps s' q' res := by
  simp only [executeResilient, wp_bind]
  refine wp_mono (Fetched.wp_of_uses requireEffective_uses (by simp) (by simp)) ?_
  rintro (e | effective) s' q' ⟨⟨rfl, -⟩, rfl⟩
  · exact ⟨rfl, rfl, by simp⟩
  simp only [wp_op, wp_ensure, wp_bind, wp_ctx, wp_ofExcept]
  refine ⟨trivial, fun _ _ => ?_⟩
  cases candidateModels effective s'.envelope with
  | error e => exact ⟨trivial, fun _ _ => ⟨trivial, rfl, by simp⟩⟩
  | ok ids =>
      refine wp_mono (hopLoop_fetches hcfg effective ids none "") ?_
      rintro (e | lastErr | res) s'' q'' ⟨ha, hl, hgot⟩
      · exact ⟨trivial, fun _ _ => ⟨ha, hl, by simp⟩⟩
      · simp only [wp_bind, wp_op]
        refine ⟨trivial, fun timedOut _ => ?_⟩
        cases timedOut <;> exact ⟨trivial, fun _ _ => ⟨ha, hl, by simp⟩⟩
      · refine ⟨trivial, fun _ _ => ⟨ha, hl, ?_⟩⟩
        rintro _ ⟨⟩
        exact hgot res rfl

omit hcfg

/-- A response that is stored under a key of its route. -/
theorem fits_of_keyFor {c : PipelineCtx} {auth : AuthContext} {key : String} {res : AIResponse}
    (h : keyFor deps auth c route = some key) :
    0 < cacheTtl c ∧ AdapterAnswer.Fits ⟨c, route, res⟩ key := by
  unfold keyFor at h
  split at h
  · cases h
  · next helig =>
      split at h
      · cases h
      · next htier =>
          cases h
          simp only [cacheEligible, Bool.not_eq_eq_eq_not, Bool.not_true, Bool.not_eq_false,
            Bool.and_eq_true, decide_eq_true_eq] at helig
          refine ⟨helig.2, ⟨auth.firmId, c.requestHash, paramsDigest c.envelope, rfl⟩, ?_⟩
          simpa [Decidable.or_iff_not_imp_left] using htier

theorem adaptResilient_fetches (hcfg : deps.resilience = some cfg) {auth : AuthContext}
    (hauth : s.auth = some auth) (cacheKey : Option String) (hq : q.looked = cacheKey) :
    (adaptResilient deps cfg auth cacheKey).wp (Fetched.env (Fetched.suits deps)) Fetched.Ok
      (fun _ _ _ => True) s q := by
  simp only [adaptResilient, wp_bind]
  refine wp_mono (executeResilient_fetches hcfg) ?_
  rintro (e | res) s' q' ⟨ha, hl, hgot⟩
  · trivial
  obtain ⟨route, hroute, hans, hkey⟩ := hgot res rfl
  simp only [wp_assign, wp_ctx]
  split
  · next key hk =>
      have hfor : keyFor deps auth s' route = some key := by
        cases cacheKey with
        | none =>
            rw [Option.orElse_none, hroute] at hk
            exact hk
        | some key' =>
            obtain rfl : key' = key := by simpa using hk
            exact hkey key' auth (hl.trans hq) (ha.trans hauth)
      obtain ⟨httl, hfits⟩ := fits_of_keyFor hfor
      exact ⟨⟨httl, _, hans, rfl, hfits⟩, fun _ _ => trivial⟩
  · trivial

theorem adaptDirect_fetches {auth : AuthContext} (cacheKey : Option String)
    (hkey : ∀ key, cacheKey = some key → keyFor deps auth s route = some key) :
    (adaptDirect route cacheKey).wp (Fetched.env (Fetched.suits deps)) Fetched.Ok
      (fun _ _ _ => True) s q := by
  simp only [adaptDirect, wp_bind, wp_ctx, wp_op]
  refine ⟨trivial, fun r _ => ?_⟩
  cases r with
  | error e =>
      simp only [wp_bind]
      refine wp_mono (Fetched.wp_of_uses (recordHealth_uses route false) (by simp) (by simp)) ?_
      rintro (e | _) s' q' - <;> trivial
  | ok res =>
      simp only [wp_bind, wp_assign]
      refine wp_mono (Fetched.wp_of_uses (recordHealth_uses route true) (by simp) (by simp)) ?_
      rintro (e | _) s' q' ⟨⟨rfl, -⟩, rfl⟩
      · trivial
      cases cacheKey with
      | none => trivial
      | some key =>
          obtain ⟨httl, hfits⟩ := fits_of_keyFor (hkey key rfl)
          exact ⟨⟨httl, _, rfl, rfl, hfits⟩, fun _ _ => trivial⟩

theorem serveCached_fetches (cacheKey : Option String) (hq : q.looked = none) :
    (serveCached cacheKey).wp (Fetched.env (Fetched.suits deps)) Fetched.Ok
      (fun r s' q' => r = .ok false → s' = s ∧ q'.looked = cacheKey) s q := by
  cases cacheKey with
  | none => exact fun _ => ⟨rfl, hq⟩
  | some key =>
      simp only [serveCached, wp_bind, wp_op]
      refine ⟨trivial, fun hit _ => ?_⟩
      cases hit with
      | none => exact fun _ => ⟨rfl, rfl⟩
      | some hit =>
          simp only [wp_bind, wp_dateNow]
          exact ⟨trivial, fun now _ => by simp⟩

theorem primeStream_fetches :
    (primeStream (executeResilientStream deps cfg)).wp (Fetched.env (Fetched.suits deps)) Fetched.Ok
      (fun _ _ _ => True) s q := by
  refine (primeStream_meets (executeResilientStream_uses deps cfg fun _ _ h => h)).wp
    (fun _ _ _ hr => hr.1) (J := fun _ => True) trivial ?_ fun _ _ _ _ _ => trivial
  intro q e _ he
  refine ⟨Fetched.ok_of_other fun heq => ?_, fun _ _ => trivial⟩
  exact absurd (heq ▸ he.1) (by decide)

theorem stageAdapt_fetches (hq : q.looked = none) :
    (stageAdapt deps).wp (Fetched.env (Fetched.suits deps)) Fetched.Ok (fun _ _ _ => True) s q := by
  simp only [stageAdapt, wp_bind]
  refine wp_mono (Fetched.wp_of_uses requireAuth_uses (by simp) (by simp)) ?_
  rintro (e | auth) s' q' ⟨⟨rfl, hauth⟩, rfl⟩
  · trivial
  simp only [wp_ctx]
  split
  · exact wp_mono (Fetched.wp_of_uses unrouted_uses (by simp) (by simp)) fun _ _ _ _ => trivial
  rw [wp_bind]
  refine wp_mono (serveCached_fetches _ hq) ?_
  rintro (e | _ | _) s'' q'' hmiss
  · trivial
  · obtain ⟨rfl, hlooked⟩ := hmiss rfl
    simp only [Bool.false_eq_true, if_false]
    cases hres : deps.resilience with
    | some cfg =>
        simp only
        split
        · rw [wp_bind]
          refine wp_mono primeStream_fetches ?_
          rintro (e | _) _ _ - <;> trivial
        · rw [wp_bind]
          refine wp_mono (adaptResilient_fetches hres (hauth _ rfl) _ hlooked) ?_
          rintro (e | _) _ _ - <;> trivial
    | none =>
        cases hroute : s''.route with
        | none =>
            exact wp_mono (Fetched.wp_of_uses unrouted_uses (by simp) (by simp))
              fun _ _ _ _ => trivial
        | some route =>
            simp only
            split
            · trivial
            · rw [wp_bind]
              refine wp_mono (adaptDirect_fetches _ fun key hk => hk) ?_
              rintro (e | _) _ _ - <;> trivial
  · trivial

/-! ### Requests that share the cache -/

/-- The cache, and as a ghost the origin of the entry last stored under each key. -/
structure Stored where
  cache : ResponseCache
  origin : String → Option AdapterAnswer

/-- An entry is what an adapter has answered to the request that stored it, and fits its key. -/
def Stored.Sound (σ : Stored) : Prop :=
  ∀ key entry, σ.cache.entries.get key = some entry →
    ∃ a, σ.origin key = some a ∧ a.response = entry.response ∧ a.Fits key

/-- A hit under a key of a model is an answer of that model. -/
def Stored.HitsAnswered (σ : Stored) : Prop :=
  ∀ firmId model requestHash paramsDigest now res,
    (σ.cache.get (ResponseCache.key firmId model requestHash paramsDigest) now).1 = some res →
      ∃ a, σ.origin (ResponseCache.key firmId model requestHash paramsDigest) = some a ∧
        a.response = res ∧ a.route.model.canonicalId = model

variable (deps)

/-- Requests in `stageAdapt`, with any contexts. -/
def adapting (permits : Fetched → (e : Op) → e.Answer → Prop) :
    System ℕ Op Op.Answer (Except Thrown (Option ResponseStream) × PipelineCtx) Stored Fetched where
  env := Fetched.env permits
  handler _ σ q e r σ' := match e, r with
    | .responseGet key, r => ∃ now, (r, σ') =
        ((σ.cache.get key now).1, { σ with cache := (σ.cache.get key now).2 })
    | .responseSet key res ttl, _ => ∃ now, σ' =
        ⟨σ.cache.set key res ttl now, Function.update σ.origin key q.answered⟩
    | _, _ => σ' = σ
  start _ _ p q := (∃ c, p = stageAdapt deps c) ∧ q = {}
  drift _ _ := False

variable {deps}

theorem adapting_preserves : System.Preserves (adapting deps (Fetched.suits deps))
    (fun _ _ _ => True) Fetched.Ok (fun _ _ => True) (fun σ _ => σ.Sound) where
  start_wp := by
    rintro i σ _ _ ⟨⟨c, rfl⟩, rfl⟩
    exact System.wp_view (stageAdapt_fetches rfl)
  spawn _ _ _ _ _ h _ _ := h
  rely _ _ _ _ _ _ _ _ _ _ _ := trivial
  act := by
    intro i σ L q e r σ' h _ hok _ hh
    cases e with
    | responseGet key =>
        obtain ⟨now, hnow⟩ := hh
        obtain ⟨-, rfl⟩ := Prod.mk.inj hnow
        exact fun key' entry he => h key' entry (ResponseCache.get_entries he)
    | responseSet key res ttl =>
        obtain ⟨now, rfl⟩ := hh
        obtain ⟨httl, a, hans, hres, hfits⟩ := hok
        intro key' entry he
        rcases ResponseCache.set_entries httl he with ⟨rfl, hr⟩ | ⟨hne, he'⟩
        · exact ⟨a, (Function.update_self ..).trans hans, hres.trans hr.symm, hfits⟩
        · obtain ⟨a', ho, ha'⟩ := h key' entry he'
          exact ⟨a', (Function.update_of_ne hne ..).trans ho, ha'⟩
    | _ => exact (show σ' = σ from hh) ▸ h
  drift _ _ _ _ h := h.elim

/-- **What the cache holds.**  In every run in which no hop but one with the key a request has
looked up gives this request an acceptable answer, every entry is an answer that fits its key,
and every hit is an answer of the model of its key. -/
theorem entries_fit {maxEntries : ℕ}
    {P : Pool ℕ Op Op.Answer (Except Thrown (Option ResponseStream) × PipelineCtx) Stored Fetched}
    (hP : (adapting deps (Fetched.suits deps)).Reachable ⟨⟨.empty, maxEntries⟩, fun _ => none⟩ P) :
    P.shared.Sound ∧ P.shared.HitsAnswered := by
  have h0 : Stored.Sound ⟨⟨.empty, maxEntries⟩, fun _ => none⟩ := by
    intro key entry he
    simp at he
  have hsound : P.shared.Sound := (System.invariant adapting_preserves h0 hP).1
  refine ⟨hsound, ?_⟩
  intro firmId model requestHash paramsDigest now res hhit
  obtain ⟨entry, he, rfl⟩ := ResponseCache.get_response hhit
  obtain ⟨a, ho, hres, ⟨f, h, d, hkey⟩, -⟩ := hsound _ entry he
  exact ⟨a, ho, hres, (ResponseCache.key_injective hkey).2.1.symm⟩

end

/-! ### An answer under the wrong key -/

namespace Sample

def cacheDeps : PipelineDeps := { deps with responseCache := true }

/-- A route of the cloud model. -/
def cloudRoute : RouteDecision :=
  { provider := cloudProvider, model := cloudModel, adapter := ⟨.anthropic⟩
    executeCtx :=
      { providerId := cloudProviderId, model := "claude-sonnet", baseUrl := cloudProvider.baseUrl
        apiKey := some "sk-key" } }

/-- A request of a task class whose cloud answers are cached, routed to the cloud model. -/
def cachingCtx : PipelineCtx :=
  letI := platform
  let tc := { taskClass with requires := { cache_ttl_s := some 60, cache_cloud := true } }
  { admitted "r" [] with
    taskClass := some tc
    effective := some { effective [localModelId] with taskClass := tc }
    route := some cloudRoute }

/-- The key of the cloud model for this request. -/
def cachingKey : String :=
  letI := platform
  ResponseCache.key firmId "claude-sonnet" cachingCtx.requestHash (paramsDigest cachingCtx.envelope)

/-- What the model of a route answers. -/
def responseOf (route : RouteDecision) : AIResponse :=
  { message := { content := js "hello" }, finishReason := .stop, usage := EMPTY_USAGE
    served := ⟨route.model.canonicalId, route.provider.id, 1⟩ }

/-- Which models answer: the local one, or the one that has the key looked up. -/
def answering (local_ : Bool) (q : Fetched) (c : PipelineCtx) (route : RouteDecision) : Bool :=
  letI := platform
  if local_ then route.model.canonicalId = "llama"
  else c.auth.bind (fun auth => keyFor cacheDeps auth c route) = q.looked

def cacheAnswer (local_ : Bool) (_ : ℕ) (σ : Stored) (q : Fetched) :
    (e : Op) → e.Answer × Stored
  | .responseGet key => ((σ.cache.get key 0).1, { σ with cache := (σ.cache.get key 0).2 })
  | .responseSet key res ttl =>
      ((), ⟨σ.cache.set key res ttl 0, Function.update σ.origin key q.answered⟩)
  | .execute c route _ =>
      (if answering local_ q c route then .ok (responseOf route)
        else .error (.router { code := .auth_error, message := "invalid x-api-key" }), σ)
  | e => (tables.answer e, σ)

theorem cacheAnswer_sound [Platform] (local_ : Bool) :
    System.Sound (adapting cacheDeps Fetched.anything) (cacheAnswer local_) := by
  intro i σ q e
  have h := tables.lawful_answer e
  cases e with
  | responseGet key => exact ⟨⟨trivial, trivial⟩, 0, rfl⟩
  | responseSet key res ttl => exact ⟨⟨trivial, trivial⟩, 0, rfl⟩
  | execute c route env => exact ⟨⟨trivial, trivial⟩, rfl⟩
  | _ => exact ⟨⟨h, trivial⟩, rfl⟩

theorem cacheAnswer_suits :
    letI := platform
    System.Sound (adapting cacheDeps (Fetched.suits cacheDeps)) (cacheAnswer false) := by
  let := platform
  intro i σ q e
  have h := tables.lawful_answer e
  cases e with
  | responseGet key => exact ⟨⟨trivial, trivial⟩, 0, rfl⟩
  | responseSet key res ttl => exact ⟨⟨trivial, trivial⟩, 0, rfl⟩
  | execute c route env =>
      refine ⟨⟨trivial, ?_⟩, rfl⟩
      simp only [cacheAnswer]
      split
      · next hans =>
          intro key cfg auth hk _ ha _
          simpa [answering, ha, hk] using hans
      · trivial
  | _ => exact ⟨⟨h, trivial⟩, rfl⟩

/-- One request, to its end. -/
def cachePool (local_ : Bool) :
    Pool ℕ Op Op.Answer (Except Thrown (Option ResponseStream) × PipelineCtx) Stored Fetched :=
  letI := platform
  (System.initial ⟨⟨.empty, 1000⟩, fun _ => none⟩).exec Fetched.next (cacheAnswer local_)
    [.spawn 0 (stageAdapt cacheDeps cachingCtx) {}, .run 0 100]

theorem cachePool_reachable {permits : Fetched → (e : Op) → e.Answer → Prop} {local_ : Bool}
    (h : letI := platform
      System.Sound (adapting cacheDeps permits) (cacheAnswer local_)) :
    letI := platform
    (adapting cacheDeps permits).Reachable ⟨⟨.empty, 1000⟩, fun _ => none⟩ (cachePool local_) := by
  let := platform
  exact System.reachable_exec h .refl ⟨rfl, ⟨⟨_, rfl⟩, rfl⟩, trivial⟩

end Sample

theorem sample_entries_fit :
    letI := Sample.platform
    (adapting Sample.cacheDeps (Fetched.suits Sample.cacheDeps)).Reachable
        ⟨⟨.empty, 1000⟩, fun _ => none⟩ (Sample.cachePool false) ∧
      (Sample.cachePool false).shared.cache.entries.size = 1 ∧
      (Sample.cachePool false).shared.Sound ∧ (Sample.cachePool false).shared.HitsAnswered := by
  let := Sample.platform
  have hP := Sample.cachePool_reachable Sample.cacheAnswer_suits
  exact ⟨hP, by decide +kernel, entries_fit hP⟩

/-- A fallback that answers for the primary is stored under the primary's key. -/
theorem fallback_under_primary_key :
    letI := Sample.platform
    ¬∀ P : Pool ℕ Op Op.Answer (Except Thrown (Option ResponseStream) × PipelineCtx) Stored Fetched,
      (adapting Sample.cacheDeps Fetched.anything).Reachable ⟨⟨.empty, 1000⟩, fun _ => none⟩ P →
        P.shared.Sound ∧ P.shared.HitsAnswered := by
  let := Sample.platform
  intro h
  obtain ⟨-, hhits⟩ := h _ (Sample.cachePool_reachable (Sample.cacheAnswer_sound true))
  have hstored : ((Sample.cachePool true).shared.cache.get Sample.cachingKey 0).1.isSome = true ∧
      ((Sample.cachePool true).shared.origin Sample.cachingKey).map
        (fun a => a.route.model.canonicalId) = some "llama" := by decide +kernel
  obtain ⟨hget, horigin⟩ := hstored
  obtain ⟨res, hres⟩ := Option.isSome_iff_exists.1 hget
  unfold Sample.cachingKey at hres horigin
  obtain ⟨a, ha, -, hmodel⟩ := hhits _ _ _ _ _ _ hres
  rw [ha] at horigin
  have hllama : a.route.model.canonicalId = "llama" := Option.some.inj horigin
  exact absurd (hmodel.symm.trans hllama) (by decide)

end VibeRouter
