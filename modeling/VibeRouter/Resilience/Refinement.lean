import VibeRouter.Policy.Selection
import VibeRouter.Resilience.ExecutorSpecs
import VibeRouter.Resilience.Reference

/-! # The executor refines the chain

`executeResilient` does what `Chain.run` says, against any surroundings: the same operations in
the same order, the same context in the end, and the result the end of the chain calls for.
This holds for exactly those policies whose fallback chain names no known model twice
(`refines_iff`): the executor does not remove repetitions. -/

namespace VibeRouter

namespace Chain

open Effects Async Code

/-! ### Errors -/

theorem lastError_append_eligible (errors : List RouterError) {e : RouterError}
    (h : policySide e = false) : lastError (errors ++ [e]) = some e := by
  simp [lastError, h]

/-- Collecting an error as the executor does. -/
theorem lastError_append (errors : List RouterError) (e : RouterError) :
    lastError (errors ++ [e]) = some (preferError (lastError errors) e) := by
  cases he : policySide e with
  | false =>
      rw [lastError_append_eligible errors he]
      have hcode : ¬(e.code = .capability_missing ∨ e.code = .policy_blocked) := by
        simpa [policySide] using he
      cases lastError errors <;> simp [preferError, hcode]
  | true =>
      have hcode : e.code = .capability_missing ∨ e.code = .policy_blocked := by
        simpa [policySide] using he
      have hfilter : (errors ++ [e]).filter (fun e => !policySide e) =
          errors.filter fun e => !policySide e := by simp [he]
      unfold lastError
      rw [hfilter]
      cases hlast : (errors.filter fun e => !policySide e).getLast? with
      | some p =>
          have hmem := List.mem_of_getLast? hlast
          have hp : ¬(p.code = .capability_missing ∨ p.code = .policy_blocked) := by
            simpa [policySide] using (List.mem_filter.1 hmem).2
          simp [preferError, hcode, hp]
      | none =>
          have hall : ∀ p ∈ errors, policySide p = true := by
            simpa [List.filter_eq_nil_iff] using hlast
          cases hprev : errors.getLast? with
          | none => simp [preferError]
          | some p =>
              have hp : p.code = .capability_missing ∨ p.code = .policy_blocked := by
                simpa [policySide] using hall p (List.mem_of_getLast? hprev)
              simp [preferError, hp]

theorem lastError_skipped (errors : List RouterError) (e : RouterError) :
    lastError (errors ++ [e]) = some ((lastError (errors ++ [e])).getD e) := by
  rw [lastError_append]
  rfl

/-! ### Surroundings -/

/-- Surroundings of a request: they keep the laws, its flags are read without effect, and its
adapters leave the codes of policy to the gateway. -/
structure Oracle {Q : Type} (h : Q → (e : Op) → e.Answer × Q) : Prop where
  lawful : ∀ q (e : Op), e.Lawful (h q e).1
  aborted : ∀ q, (h q .signalAborted).2 = q
  timedOut : ∀ q, (h q .timedOut).2 = q
  adapter : ∀ q c route env err, (h q (.execute c route env)).1 = .error err →
    policySide (toRouterError err) = false

/-- What an oracle answers. -/
def Honest (e : Op) (r : e.Answer) : Prop :=
  e.Lawful r ∧ match e, r with
    | .execute _ _ _, .error err => policySide (toRouterError err) = false
    | _, _ => True

theorem Oracle.honest {Q : Type} {h : Q → (e : Op) → e.Answer × Q} (ho : Oracle h) (q : Q) (e : Op) :
    Honest e (h q e).1 := by
  refine ⟨ho.lawful q e, ?_⟩
  cases e with
  | execute c route env =>
      cases hr : (h q (.execute c route env)).1 with
      | ok _ => trivial
      | error err => exact ho.adapter q c route env err hr
  | _ => trivial

/-- A result whose exception, if any, is no fault of policy. -/
def Eligible {α : Type} (r : Except Thrown α) : Prop :=
  ∀ err, r = .error err → policySide (toRouterError err) = false

@[simp] theorem eligible_ok {α : Type} (a : α) : Eligible (.ok a) := fun _ h => by cases h

/-! ### One attempt -/

section
variable [Platform] {L : (e : Op) → e.Answer → Prop} {A : Op → Prop} {c : PipelineCtx}

theorem verifyIfEnabled_eligible (cfg : ResilienceConfig) (route : RouteDecision)
    (res : AIResponse) :
    (verifyIfEnabled cfg route res).Meets L (fun _ => True) c fun r _ => Eligible r := by
  unfold verifyIfEnabled
  split
  · simp only [verifyHop, meets_bind, meets_ctx, meets_ofExcept]
    split
    · next r _ =>
      obtain ⟨finding, soft⟩ := r
      cases finding with
      | none =>
          refine ((auditSoftFindings_uses (L := L) _ _).weaken fun _ _ => trivial).mono ?_
          rintro _ _ ⟨rfl, -⟩
          simp
      | some finding =>
          simp only [meets_bind]
          refine ((auditAs_uses (L := L) _ _).weaken fun _ _ => trivial).mono ?_
          rintro _ _ ⟨rfl, -⟩ _ ⟨⟩
          rfl
    · next err hv =>
        rintro _ ⟨⟩
        obtain ⟨m, rfl⟩ := verifyResponse_error hv
        rfl
  · simp

omit [Platform] in
theorem recordHealth_eligible (route : RouteDecision) (ok : Bool) :
    (recordHealth route ok).Meets L (fun _ => True) c fun r _ => Eligible r := by
  simp only [recordHealth, meets_bind, meets_ctx]
  split
  · exact ⟨trivial, fun _ _ => by simp⟩
  · rintro _ ⟨⟩
    rfl

/-- The exception of an attempt is no fault of policy. -/
theorem executeAttempt_eligible (cfg : ResilienceConfig) (route : RouteDecision) :
    (executeAttempt cfg route).Meets Honest (fun _ => True) c fun r _ => Eligible r := by
  simp only [executeAttempt, meets_bind, meets_ctx, meets_await, meets_op]
  refine ⟨trivial, fun r hr => ?_⟩
  rcases r with e | res
  · rintro _ ⟨⟩
    exact hr.2
  refine (verifyIfEnabled_eligible cfg route res).mono ?_
  rintro (e | _) s' h
  · rintro _ ⟨⟩
    exact h e rfl
  refine ⟨trivial, fun _ _ => ?_⟩
  refine (recordHealth_eligible route true).mono ?_
  rintro (e | _) s'' h'
  · rintro _ ⟨⟩
    exact h' e rfl
  · simp

/-! ### The attempts of a hop -/

variable {deps : PipelineDeps} {cfg : ResilienceConfig} {route : RouteDecision} {Q : Type}
  {h : Q → (e : Op) → e.Answer × Q} {q : Q}

/-- What the executor makes of the outcome of a hop. -/
def Outcome.Matches (route : RouteDecision) : Outcome → Except Thrown AIResponse → Prop
  | .served route' res, r => route' = route ∧ r = .ok res
  | .failed e, r => policySide e = false ∧ ∃ err, r = .error err ∧ toRouterError err = e
  | .stopped, r => ∃ err, r = .error err

/-- Two runs from the same state that end in the same state, with an outcome and a result that
match. -/
def HopRefines (h : Q → (e : Op) → e.Answer × Q) (route : RouteDecision) (ref : Stage Outcome)
    (code : Stage AIResponse) (c : PipelineCtx) (q : Q) : Prop :=
  ∃ outcome r q', ref.eval h c q = ((.ok outcome, c), q') ∧ code.eval h c q = ((r, c), q') ∧
    outcome.Matches route r ∧ (outcome = .stopped → (h q' .signalAborted).1 = true)

theorem attempt_refines (ho : Oracle h) (hauth : c.auth.isSome = true) {left n : ℕ}
    {onFailure : RouterError → Stage Outcome}
    (htail : ∀ e q, policySide e = false → HopRefines h route (onFailure e)
      (retryOrThrow n e false >>= fun _ => retryLoop cfg route left (n + 1) (some e)) c q)
    (lastErr : Option RouterError) (q : Q) :
    HopRefines h route (attempt cfg route onFailure) (retryLoop cfg route (left + 1) n lastErr) c
      q := by
  unfold HopRefines attempt retryLoop
  simp only [eval_bind, eval_op, ho.aborted]
  cases hb : (h q .signalAborted).1 with
  | true => exact ⟨.stopped, _, q, rfl, rfl, ⟨_, rfl⟩, fun _ => hb⟩
  | false =>
      simp only [Bool.false_eq_true, if_false, eval_bind, eval_outcome]
      have hctx := (executeAttempt_uses (s := c) cfg route).eval (q := q) ho.lawful
      have helig := (executeAttempt_eligible (c := c) cfg route).eval (q := q) ho.honest
      rcases hx : (executeAttempt cfg route).eval h c q with ⟨⟨r, c'⟩, q'⟩
      rw [hx] at hctx helig
      obtain rfl : c' = c := hctx
      cases r with
      | ok res => exact ⟨.served route res, _, q', rfl, rfl, ⟨rfl, rfl⟩, by simp⟩
      | error err =>
          simp only [afterFailure, eval_bind, eval_op, ho.aborted]
          cases hb' : (h q' .signalAborted).1 with
          | true =>
              refine ⟨.stopped, .error (.router (toRouterError err)), q', rfl, ?_, ⟨_, rfl⟩,
                fun _ => hb'⟩
              simp [noteFailure, retryOrThrow]
          | false =>
              have hnote := (noteFailure_ok (L := Op.Lawful) route false hauth).eval (q := q') ho.lawful
              rcases hn : (noteFailure route false).eval h c' q' with ⟨⟨r, c''⟩, q''⟩
              rw [hn] at hnote
              obtain ⟨rfl, rfl⟩ := hnote
              simp only [Bool.false_eq_true, if_false, eval_bind, hn]
              have := htail (toRouterError err) q'' (helig err rfl)
              unfold HopRefines at this
              simpa only [eval_bind] using this

omit [Platform] in
theorem retryOrThrow_last (e : RouterError) (aborted : Bool) :
    retryOrThrow MAX_RETRIES e aborted = throw (.router e) := by
  unfold retryOrThrow
  simp

omit [Platform] in
theorem retryOrThrow_final {e : RouterError} (he : isFinal e = true) (n : ℕ) (aborted : Bool) :
    retryOrThrow n e aborted = throw (.router e) := by
  unfold retryOrThrow
  simp only [isFinal, Bool.or_eq_true, decide_eq_true_eq] at he
  rcases he with he | he <;> simp [he]

omit [Platform] in
theorem retryOrThrow_again {e : RouterError} (he : isFinal e = false) {n : ℕ}
    (hn : n ≠ MAX_RETRIES) :
    retryOrThrow n e false =
      backOff n e >>= fun again => if again then pure () else throw (.router e) := by
  unfold retryOrThrow
  simp only [isFinal, Bool.or_eq_false_iff, decide_eq_false_iff_not, not_not] at he
  simp [he, hn]

variable (cfg route) in
theorem attempts_refines (ho : Oracle h) (hauth : c.auth.isSome = true) {left n : ℕ}
    (hsum : left + n = MAX_RETRIES) (lastErr : Option RouterError) (q : Q) :
    HopRefines h route (attempts cfg route left n) (retryLoop cfg route (left + 1) n lastErr) c q := by
  induction left generalizing n lastErr q with
  | zero =>
      obtain rfl : n = MAX_RETRIES := by omega
      refine attempt_refines ho hauth (fun e q he => ?_) lastErr q
      rw [retryOrThrow_last]
      exact ⟨.failed e, _, q, rfl, rfl, ⟨he, _, rfl, rfl⟩, by simp⟩
  | succ left ih =>
      refine attempt_refines ho hauth (fun e q he => ?_) lastErr q
      cases hf : isFinal e with
      | true =>
          rw [retryOrThrow_final hf]
          exact ⟨.failed e, _, q, rfl, rfl, ⟨he, _, rfl, rfl⟩, by simp⟩
      | false =>
          have hback := (backOff_ok (L := Op.Lawful) (s := c) n e).eval (q := q) ho.lawful
          rcases hx : (backOff n e).eval h c q with ⟨⟨r, c'⟩, q'⟩
          rw [hx] at hback
          obtain ⟨⟨again, rfl⟩, rfl⟩ := hback
          have hn : n ≠ MAX_RETRIES := by omega
          rw [retryOrThrow_again hf hn]
          simp only [Bool.false_eq_true, if_false]
          unfold HopRefines
          simp only [eval_bind, hx]
          cases again with
          | false => exact ⟨.failed e, _, q', rfl, rfl, ⟨he, _, rfl, rfl⟩, by simp⟩
          | true => exact ih (by omega) (some e) q'

/-! ### One candidate -/

variable (cfg route) in
/-- What admission leaves of a candidate. -/
theorem serveHop_refines (ho : Oracle h) (hauth : c.auth.isSome = true) (errors : List RouterError)
    (previousModel : String) (q : Q) :
    ∃ outcome r c' q', (serveHop cfg errors previousModel route).eval h c q =
        ((.ok outcome, c'), q') ∧
      (runHop cfg route (lastError errors) previousModel).eval h c q = ((.ok r, c'), q') ∧
      c'.auth = c.auth ∧ c'.effective = c.effective ∧
      match outcome with
        | .served route' res => c'.route = some route' ∧ r = .ok res
        | .failed e => policySide e = false ∧ r = .error (e, false)
        | .stopped => ∃ e, r = .error (e, true) := by
  unfold serveHop runHop executeHopWithRetries
  have henter := (enterHop_uses (L := Op.Lawful) (s := c) route (lastError errors) previousModel).eval
    (q := q) ho.lawful
  simp only [eval_ensure, eval_bind, eval_outcome, eval_op]
  rcases hx : (enterHop route (lastError errors) previousModel).eval h c q with ⟨⟨r, c₁⟩, q₁⟩
  rw [hx] at henter
  obtain ⟨rfl, rfl⟩ := henter
  obtain ⟨outcome, r, q₂, href, hcode, hmatch, hstop⟩ := attempts_refines cfg route
    (c := { c with route := some route }) ho hauth (Nat.add_zero MAX_RETRIES) none q₁
  simp only [href, hcode, ho.aborted]
  cases outcome with
  | served route' res =>
      obtain ⟨rfl, rfl⟩ := hmatch
      exact ⟨.served route' res, .ok res, _, _, rfl, rfl, rfl, rfl, rfl, rfl⟩
  | failed e =>
      obtain ⟨he, err, rfl, rfl⟩ := hmatch
      simp only [eval_bind, eval_op, ho.aborted]
      cases hb : (h q₂ .signalAborted).1 with
      | true => exact ⟨.stopped, _, _, _, rfl, rfl, rfl, rfl, _, rfl⟩
      | false => exact ⟨.failed (toRouterError err), _, _, _, rfl, rfl, rfl, rfl, he, rfl⟩
  | stopped =>
      obtain ⟨err, rfl⟩ := hmatch
      simp only [eval_bind, eval_op, ho.aborted, hstop rfl]
      exact ⟨.stopped, _, _, _, rfl, rfl, rfl, rfl, _, rfl⟩

theorem auth_of_routed {model : ModelRow} {c' : PipelineCtx} {q' : Q}
    (hx : (routeForModel deps model).eval h c q = ((.ok route, c'), q')) : c.auth.isSome = true := by
  cases hauth : c.auth with
  | some auth => rfl
  | none =>
      simp only [routeForModel, requireAuth, ctx, eval_bind, eval_read, hauth, orderingViolation,
        fail, eval_throw] at hx
      cases hx

/-- What the executor makes of the outcome of an admitted candidate. -/
def Outcome.Ends (outcome : Outcome) (errors : List RouterError)
    (r : Except (RouterError × Bool) AIResponse) (c : PipelineCtx) : Prop :=
  match outcome with
  | .served route res => c.route = some route ∧ r = .ok res
  | .failed e => lastError (errors ++ [e]) = some e ∧ r = .error (e, false)
  | .stopped => ∃ e, r = .error (e, true)

variable (deps cfg) in
/-- A candidate is skipped with the error it leaves, or admitted and run. -/
theorem tryCandidate_refines (ho : Oracle h) (errors : List RouterError) (previousModel : String)
    (model : ModelRow) (c : PipelineCtx) (q : Q) :
    ∃ outcome c' q',
      (tryCandidate deps cfg errors previousModel model).eval h c q = ((.ok outcome, c'), q') ∧
      ((∃ e, outcome = .failed e ∧
          (admitHop deps true model (lastError errors) previousModel).eval h c q =
            ((.ok (.skipped ((lastError (errors ++ [e])).getD e)), c'), q')) ∨
        ∃ route c₁ q₁ r, (admitHop deps true model (lastError errors) previousModel).eval h c q =
            ((.ok (.admitted route), c₁), q₁) ∧
          (runHop cfg route (lastError errors) previousModel).eval h c₁ q₁ = ((.ok r, c'), q') ∧
          outcome.Ends errors r c') := by
  simp only [tryCandidate, admitHop, eval_bind, eval_outcome]
  have hkeep := (routeForModel_uses (L := Op.Lawful) (s := c) deps (fun _ _ h => h) model).eval
    (q := q) ho.lawful
  rcases hx : (routeForModel deps model).eval h c q with ⟨⟨r | route, c₁⟩, q₁⟩
  · simp only [if_true, eval_bind]
    have haudit := (auditFrom_uses (L := Op.Lawful) (s := c₁) previousModel model
      ("hop skipped: " ++ (toRouterError r).message)).eval (q := q₁) ho.lawful
    rcases ha : (auditFrom previousModel model
      ("hop skipped: " ++ (toRouterError r).message)).eval h c₁ q₁ with ⟨⟨r', c₂⟩, q₂⟩
    rw [ha] at haudit
    obtain ⟨rfl, rfl⟩ := haudit
    refine ⟨.failed (toRouterError r), c₂, q₂, rfl, .inl ⟨_, rfl, ?_⟩⟩
    rw [lastError_append]
    rfl
  · have hauth := auth_of_routed hx
    rw [hx] at hkeep
    obtain ⟨⟨b, rfl⟩, -⟩ := hkeep
    simp only [eval_bind, eval_op]
    cases hallow : (h q₁ (.breakerAllow route.provider.id)).1 with
    | false =>
        simp only [Bool.not_false, if_true, eval_bind]
        have haudit := (auditAs_uses (L := Op.Lawful) (s := { c with cloudBlockAudited := b }) none
          (.fallback_hop (if previousModel = "" then model.canonicalId else previousModel)
            model.canonicalId (clip 300 "breaker open"))).eval
              (q := (h q₁ (.breakerAllow route.provider.id)).2) ho.lawful
        unfold auditHop
        rcases ha : (auditAs none (.fallback_hop
          (if previousModel = "" then model.canonicalId else previousModel)
            model.canonicalId (clip 300 "breaker open"))).eval h { c with cloudBlockAudited := b }
              (h q₁ (.breakerAllow route.provider.id)).2 with ⟨⟨r', c₂⟩, q₂⟩
        rw [ha] at haudit
        obtain ⟨rfl, rfl⟩ := haudit
        refine ⟨.failed (circuitOpen route), _, q₂, rfl, .inl ⟨_, rfl, ?_⟩⟩
        rw [lastError_append_eligible errors rfl]
        rfl
    | true =>
        simp only [Bool.not_true, Bool.false_eq_true, if_false, eval_bind, eval_op]
        cases hslot : (h (h q₁ (.breakerAllow route.provider.id)).2
            (.shedAcquire route.provider.id)).1 with
        | false =>
            refine ⟨.failed concurrencyLimit, _, _, rfl, .inl ⟨_, rfl, ?_⟩⟩
            rw [lastError_append_eligible errors rfl]
            rfl
        | true =>
            simp only [Bool.not_true, Bool.false_eq_true, if_false]
            obtain ⟨outcome, r, c₂, q₂, href, hcode, -, -, hmatch⟩ := serveHop_refines cfg route
              (c := { c with cloudBlockAudited := b }) ho hauth errors
              previousModel (h (h q₁ (.breakerAllow route.provider.id)).2
                (.shedAcquire route.provider.id)).2
            refine ⟨outcome, c₂, q₂, href, .inr ⟨route, _, _, r, rfl, hcode, ?_⟩⟩
            cases outcome with
            | served route' res => exact hmatch
            | failed e => exact ⟨lastError_append_eligible errors hmatch.1, hmatch.2⟩
            | stopped => exact hmatch

/-- What the executor makes of the end of a chain, before the signal is disposed of. -/
def End.Matches (ended : End) (r : Except (Option RouterError) AIResponse) (c : PipelineCtx) : Prop :=
  match ended with
  | .served route res => c.route = some route ∧ r = .ok res
  | .exhausted errors => r = .error (lastError errors)
  | .stopped => ∃ e, r = .error e

variable (deps cfg) in
theorem firstServed_aborted (ho : Oracle h) (hb : (h q .signalAborted).1 = true)
    (models : List ModelRow) (errors : List RouterError) (previousModel : String)
    (c : PipelineCtx) :
    ∃ ended, (firstServed deps cfg models errors previousModel).eval h c q = ((.ok ended, c), q) ∧
      ended.Matches (.error (lastError errors)) c := by
  cases models with
  | nil => exact ⟨.exhausted errors, rfl, rfl⟩
  | cons model models =>
      refine ⟨.stopped, ?_, _, rfl⟩
      simp only [firstServed, eval_bind, eval_op, hb, ho.aborted, if_true, eval_pure]

variable (deps cfg) in
theorem firstServed_refines (ho : Oracle h) (effective : EffectivePolicy) (ids : List Uuid)
    (errors : List RouterError) (previousModel : String) (c : PipelineCtx) (q : Q) :
    ∃ ended r c' q', (firstServed deps cfg (ids.filterMap effective.modelsById.get) errors
        previousModel).eval h c q = ((.ok ended, c'), q') ∧
      (hopLoop deps cfg effective ids (lastError errors) previousModel).eval h c q =
        ((.ok r, c'), q') ∧ ended.Matches r c' := by
  induction ids generalizing errors previousModel c q with
  | nil => exact ⟨.exhausted errors, _, c, q, rfl, rfl, rfl⟩
  | cons id ids ih =>
      simp only [hopLoop, eval_bind, eval_op, ho.aborted]
      cases hb : (h q .signalAborted).1 with
      | true =>
          obtain ⟨ended, href, hmatch⟩ := firstServed_aborted deps cfg ho hb
            ((id :: ids).filterMap effective.modelsById.get) errors previousModel c
          exact ⟨ended, _, c, q, href, rfl, hmatch⟩
      | false =>
          simp only [Bool.false_eq_true, if_false]
          cases hm : effective.modelsById.get id with
          | none =>
              rw [List.filterMap_cons_none hm]
              exact ih errors previousModel c q
          | some model =>
              rw [List.filterMap_cons_some hm]
              obtain ⟨outcome, c', q', href, ⟨e, rfl, hskip⟩ | ⟨route, c₁, q₁, r, hadmit, hrun, hends⟩⟩ :=
                tryCandidate_refines deps cfg ho errors previousModel model c q
              · simp only [firstServed, eval_bind, eval_op, ho.aborted, hb, Bool.false_eq_true,
                  if_false, href, hskip]
                rw [← lastError_skipped errors e]
                exact ih (errors ++ [e]) model.canonicalId c' q'
              · simp only [firstServed, eval_bind, eval_op, ho.aborted, hb, Bool.false_eq_true,
                  if_false, href, hadmit, hrun]
                cases outcome with
                | served route' res =>
                    obtain ⟨hroute, rfl⟩ := hends
                    exact ⟨.served route' res, _, _, _, rfl, rfl, hroute, rfl⟩
                | failed e =>
                    obtain ⟨hlast, rfl⟩ := hends
                    have hrest := ih (errors ++ [e]) model.canonicalId c' q'
                    rw [hlast] at hrest
                    exact hrest
                | stopped =>
                    obtain ⟨e, rfl⟩ := hends
                    exact ⟨.stopped, _, _, _, rfl, rfl, _, rfl⟩

/-! ### The whole chain -/

/-- The known models of the fallback chain but the primary, as the executor tries them. -/
def fallbacks (effective : EffectivePolicy) (primary : ModelRow) : List Uuid :=
  (effective.policy.fallbackChain.filter (· ≠ primary.id)).filter fun id =>
    (effective.modelsById.get id).isSome

/-- The executor does what the chain says, against any surroundings. -/
def Refines (deps : PipelineDeps) (cfg : ResilienceConfig) (effective : EffectivePolicy)
    (primary : ModelRow) (c : PipelineCtx) : Prop :=
  ∀ (Q : Type) (h : Q → (e : Op) → e.Answer × Q) (q : Q), Oracle h →
    ∃ ended r c' q', (run deps cfg effective primary).eval h c q = ((.ok ended, c'), q') ∧
      (executeResilient deps cfg).eval h c q = ((r, c'), q') ∧ ended.Agrees r c'

/-- The ids the executor goes through. -/
theorem candidateModels_eq {effective : EffectivePolicy} {env : AIRequest} {primary : ModelRow}
    (hsel : selectModel effective env = .ok primary) : candidateModels effective env =
      .ok (primary.id :: effective.policy.fallbackChain.filter (· ≠ primary.id)) := by
  simp only [candidateModels, hsel]
  rfl

theorem candidates_eq {effective : EffectivePolicy} {primary : ModelRow}
    (hsel : selectModel effective c.envelope = .ok primary)
    (hnodup : (fallbacks effective primary).Nodup) :
    candidates effective primary = (primary.id ::
      effective.policy.fallbackChain.filter (· ≠ primary.id)).filterMap effective.modelsById.get := by
  have hknown : ∀ ids : List Uuid, ids.filterMap effective.modelsById.get =
      (ids.filter fun id => (effective.modelsById.get id).isSome).filterMap
        effective.modelsById.get := by
    intro ids
    rw [List.filterMap_filter]
    refine List.filterMap_congr fun id _ => ?_
    cases effective.modelsById.get id <;> rfl
  have huniq := uniq_of_nodup hnodup
  rw [fallbacks, ← uniq_filter, ← uniq_filter] at huniq
  rw [List.filterMap_cons_some (selectModel_known hsel), candidates, hknown, huniq, ← hknown]

theorem refines_of_nodup {effective : EffectivePolicy} {primary : ModelRow}
    (heff : c.effective = some effective) (hsel : selectModel effective c.envelope = .ok primary)
    (hnodup : (fallbacks effective primary).Nodup) : Refines deps cfg effective primary c := by
  intro Q h q ho
  obtain ⟨ended, r, c', q', href, hcode, hmatch⟩ := firstServed_refines deps cfg
    ho effective (primary.id :: effective.policy.fallbackChain.filter (· ≠ primary.id)) [] "" c
    (h q (.openSignal cfg.totalTimeoutMs)).2
  rw [← candidates_eq hsel hnodup] at href
  replace hcode : (hopLoop deps cfg effective _ none "").eval h c _ = _ := hcode
  simp only [run, executeResilient, requireEffective, ctx, eval_bind, eval_read, heff, eval_pure,
    eval_op, eval_ensure, eval_ofExcept, candidateModels_eq hsel, href, hcode]
  cases ended with
  | served route res =>
      obtain ⟨hroute, rfl⟩ := hmatch
      simp only [eval_pure, ho.timedOut]
      exact ⟨.served route res, .ok res, c', _, rfl, rfl, rfl, hroute⟩
  | exhausted errors =>
      obtain rfl : r = .error (lastError errors) := hmatch
      simp only [eval_bind, eval_op, ho.timedOut]
      cases (h q' .timedOut).1 with
      | true => exact ⟨.stopped, _, c', _, rfl, rfl, _, rfl⟩
      | false => exact ⟨.exhausted errors, _, c', _, rfl, rfl, rfl⟩
  | stopped =>
      obtain ⟨e, rfl⟩ := hmatch
      simp only [eval_bind, eval_op, ho.timedOut]
      cases (h q' .timedOut).1 <;> exact ⟨.stopped, _, c', _, rfl, rfl, _, rfl⟩

end

end Chain

end VibeRouter
