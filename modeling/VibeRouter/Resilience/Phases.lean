import VibeRouter.Resilience.ExecutorSpecs

/-! # The calls of a hop

Where a request that runs through the executor without streaming is with its hop.  From its
admission on it has a call ahead; a call starts when the loop over the attempts finds the request
still alive, and is answered; a failure is recorded; and after a failure the request may wait and
have another call ahead.  `executeResilient_phases` says that the executor calls an adapter, records
an outcome and waits for a retry only in the phases meant for it. -/

namespace VibeRouter

open Effects Async Code

/-- Where a request is with its hop. -/
inductive CallPhase
  | idle
  | ahead (p : Uuid)
  | calling (p : Uuid)
  | answered (p : Uuid)
  | failed (p : Uuid)
  | over (p : Uuid)
deriving DecidableEq

namespace CallPhase

/-- The phase after an operation. -/
def next : CallPhase → (e : Op) → e.Answer → CallPhase
  | .idle, .breakerAllow p, r => if r then .ahead p else .idle
  | q, .shedAcquire _, r => if r then q else .idle
  | _, .shedRelease _, _ => .idle
  | .ahead p, .signalAborted, r => if r then .over p else .calling p
  | .calling p, .execute _ _ _, _ => .answered p
  | .answered p, .breakerRecord _ ok, _ => if ok then .answered p else .failed p
  | .failed p, .sleep _, r => if r then .ahead p else .failed p
  | q, _, _ => q

/-- The surroundings of a request. -/
def env : Env Op Op.Answer CallPhase where
  allows _ e r := e.Lawful r
  next := next

/-- What a request does in a phase. -/
def Ok (q : CallPhase) : Op → Prop
  | .breakerAllow _ => q = .idle
  | .shedAcquire p => q = .ahead p
  | .execute _ route _ => q = .calling route.provider.id
  | .breakerRecord p _ => q = .answered p
  | .sleep _ => ∃ p, q = .failed p
  | _ => True

/-- The parts of the surroundings that the phases depend on. -/
def Apart (e : Op) : Prop :=
  e.part ≠ .breaker ∧ e.part ≠ .shed ∧ e.part ≠ .signal ∧ e.part ≠ .adapter

theorem next_of_apart (q : CallPhase) {e : Op} (r : e.Answer) (h : Apart e) : next q e r = q := by
  obtain ⟨hb, hs, hsignal, ha⟩ := h
  cases e with
  | breakerAllow | breakerRecord => exact absurd rfl hb
  | shedAcquire | shedRelease => exact absurd rfl hs
  | signalAborted | sleep => exact absurd rfl hsignal
  | execute => exact absurd rfl ha
  | _ => cases q <;> rfl

theorem ok_of_apart (q : CallPhase) {e : Op} (h : Apart e) : Ok q e := by
  obtain ⟨hb, hs, hsignal, ha⟩ := h
  cases e with
  | breakerAllow | breakerRecord => exact absurd rfl hb
  | shedAcquire | shedRelease => exact absurd rfl hs
  | sleep => exact absurd rfl hsignal
  | execute => exact absurd rfl ha
  | _ => trivial

/-- No call is ahead. -/
def Quiet (q : CallPhase) : Prop := ∀ p, q ≠ .ahead p

theorem next_signal {q : CallPhase} (h : Quiet q) (r : Bool) : next q .signalAborted r = q := by
  cases q with
  | ahead p => exact absurd rfl (h p)
  | _ => rfl

theorem next_release (q : CallPhase) (p : Uuid) : next q (.shedRelease p) () = .idle := by
  cases q <;> rfl

variable {S α : Type} {s : S} {q : CallPhase}

/-- Code that does not move the phase. -/
theorem wp_of_uses {c : Async S α} {ps : List Op.Part} {post : Except Thrown α → S → Prop}
    (h : Uses Op.Lawful ps c s post) (hps : .breaker ∉ ps ∧ .shed ∉ ps ∧ .signal ∉ ps ∧ .adapter ∉ ps) :
    c.wp env Ok (fun r s' q' => post r s' ∧ q' = q) s q := by
  obtain ⟨hb, hs, hsignal, ha⟩ := hps
  refine h.wp (fun _ _ _ hr => hr) rfl ?_ fun _ _ _ hpost hq => ⟨hpost, hq.symm⟩
  intro q' e hq he
  have hapart : Apart e := ⟨fun h => hb (h ▸ he.1), fun h => hs (h ▸ he.1),
    fun h => hsignal (h ▸ he.1), fun h => ha (h ▸ he.1)⟩
  exact ⟨ok_of_apart q' hapart, fun r _ => hq.trans (next_of_apart q' r hapart).symm⟩

/-! ### One hop -/

section
variable {s : PipelineCtx} {p : Uuid} {route : RouteDecision}

/-- A failure is recorded unless the request was given up. -/
theorem noteFailure_phases (hp : route.provider.id = p) (givenUp : Bool) :
    (noteFailure route givenUp).wp env Ok (fun _ _ q' =>
      q' = if givenUp then .answered p else .failed p) s (.answered p) := by
  unfold noteFailure
  split
  · rfl
  · simp only [wp_bind, wp_op]
    refine ⟨by rw [hp]; rfl, fun _ _ => ?_⟩
    exact wp_mono (wp_of_uses (recordHealth_uses route false) (by simp)) fun _ _ _ h => h.2

/-- After a wait that was not aborted another call is ahead. -/
theorem backOff_phases (attempt : ℕ) (rerr : RouterError) :
    (backOff attempt rerr).wp env Ok (fun r _ q' => match r with
      | .ok true => q' = .ahead p
      | _ => q' = .failed p) s (.failed p) := by
  unfold backOff
  cases rerr.retryAfterSeconds with
  | some seconds =>
      simp only [wp_bind, wp_pure, wp_op]
      refine ⟨⟨p, rfl⟩, fun r _ => ?_⟩
      cases r <;> rfl
  | none =>
      simp only [wp_bind, wp_op]
      refine ⟨trivial, fun x _ => ⟨⟨p, rfl⟩, fun r _ => ?_⟩⟩
      cases r <;> rfl

/-- What is left after a failed attempt. -/
theorem afterFailure_phases (hp : route.provider.id = p) (attempt : ℕ) (rerr : RouterError) :
    (afterFailure route attempt rerr).wp env Ok (fun r _ q' => match r with
      | .ok _ => q' = .ahead p ∧ attempt ≠ MAX_RETRIES
      | .error _ => Quiet q') s (.answered p) := by
  simp only [afterFailure, wp_bind, wp_op]
  refine ⟨trivial, fun aborted _ => ?_⟩
  have hsignal : env.next (.answered p) .signalAborted aborted = .answered p := rfl
  rw [hsignal]
  refine wp_mono (noteFailure_phases hp aborted) ?_
  intro r s' q' hq
  cases r with
  | error e =>
      show Quiet q'
      rw [hq]
      split <;> exact fun p' h => by cases h
  | ok _ =>
      have hquiet : Quiet q' := by
        rw [hq]
        split <;> exact fun p' h => by cases h
      show (retryOrThrow attempt rerr aborted).wp env Ok _ s' q'
      unfold retryOrThrow
      split
      · exact hquiet
      · split
        · exact hquiet
        case isFalse hmore =>
          obtain ⟨-, hattempt, halive⟩ : _ ∧ attempt ≠ MAX_RETRIES ∧ ¬aborted = true := by
            rw [not_or, not_or] at hmore
            exact hmore
          rw [if_neg halive] at hq
          rw [hq]
          simp only [wp_bind]
          refine wp_mono (backOff_phases attempt rerr) ?_
          intro r s'' q'' hq''
          cases r with
          | error e =>
              replace hq'' : q'' = .failed p := hq''
              rw [hq'']
              exact fun p' h => by cases h
          | ok slept =>
              cases slept with
              | true => exact ⟨hq'', hattempt⟩
              | false =>
                  replace hq'' : q'' = .failed p := hq''
                  rw [hq'']
                  exact fun p' h => by cases h

variable [Platform] (cfg : ResilienceConfig)

theorem executeAttempt_phases (hp : route.provider.id = p) :
    (executeAttempt cfg route).wp env Ok (fun _ _ q' => q' = .answered p) s (.calling p) := by
  simp only [executeAttempt, wp_bind, wp_ctx, wp_await, wp_op]
  refine ⟨congrArg calling hp.symm, fun r _ => ?_⟩
  cases r with
  | error e => rfl
  | ok res =>
      refine wp_mono (wp_of_uses (verifyIfEnabled_uses cfg route res) (by simp)) ?_
      rintro (e | _) s' q' ⟨-, rfl⟩
      · rfl
      · refine ⟨by rw [hp]; rfl, fun _ _ => ?_⟩
        refine wp_mono (wp_of_uses (recordHealth_uses route true) (by simp)) ?_
        rintro (e | _) s'' q'' ⟨-, rfl⟩
        · rfl
        · rfl

/-- The attempts of a hop: each is made in the phase before a call, and in the end no call is
ahead. -/
theorem retryLoop_phases (hp : route.provider.id = p) (left attempt : ℕ)
    (lastErr : Option RouterError) (hleft : 0 < left) (hsum : left + attempt = MAX_RETRIES + 1) :
    (retryLoop cfg route left attempt lastErr).wp env Ok (fun _ _ q' => Quiet q') s (.ahead p) := by
  induction left generalizing s attempt lastErr with
  | zero => omega
  | succ left ih =>
      simp only [retryLoop, wp_bind, wp_op]
      refine ⟨trivial, fun aborted _ => ?_⟩
      cases aborted with
      | true => exact fun p' h => by cases h
      | false =>
          simp only [Bool.false_eq_true, if_false, wp_bind, wp_outcome]
          refine wp_mono (executeAttempt_phases cfg hp) ?_
          rintro (e | res) s' q' rfl
          · simp only [wp_bind]
            refine wp_mono (afterFailure_phases hp attempt _) ?_
            intro r s'' q'' hq
            cases r with
            | error e => exact hq
            | ok _ =>
                obtain ⟨rfl, hattempt⟩ := hq
                exact ih _ _ (by omega) (by omega)
          · exact fun p' h => by cases h

theorem runHop_phases (lastErr : Option RouterError) (previousModel : String) :
    (runHop cfg route lastErr previousModel).wp env Ok (fun _ _ q' => q' = .idle) s
      (.ahead route.provider.id) := by
  simp only [runHop, wp_ensure, wp_bind, wp_outcome]
  refine wp_mono (wp_of_uses (enterHop_uses route lastErr previousModel) (by simp)) ?_
  rintro _ s' q' ⟨⟨rfl, -⟩, rfl⟩
  refine wp_mono (retryLoop_phases cfg rfl (MAX_RETRIES + 1) 0 none (by decide) rfl) ?_
  intro r s'' q'' hquiet
  cases r with
  | error e =>
      simp only [wp_bind, wp_op]
      refine ⟨trivial, fun aborted _ => ?_⟩
      have hsignal : env.next q'' .signalAborted aborted = q'' := next_signal hquiet aborted
      rw [hsignal]
      exact ⟨trivial, fun _ _ => next_release q'' _⟩
  | ok res => exact ⟨trivial, fun _ _ => next_release q'' _⟩

/-! ### All hops -/

variable (deps : PipelineDeps)

theorem admitHop_phases (auditSkips : Bool) (model : ModelRow) (lastErr : Option RouterError)
    (previousModel : String) :
    (admitHop deps auditSkips model lastErr previousModel).wp env Ok (fun r _ q' => match r with
      | .ok (.admitted route) => q' = .ahead route.provider.id
      | _ => q' = .idle) s .idle := by
  simp only [admitHop, wp_bind, wp_outcome]
  refine wp_mono (wp_of_uses (routeForModel_uses deps (fun _ _ h => h) model) (by simp)) ?_
  rintro (e | route) s' q' ⟨-, rfl⟩
  · dsimp only
    split
    · simp only [wp_bind]
      refine wp_mono (wp_of_uses (auditFrom_uses _ _ _) (by simp)) ?_
      rintro _ s'' q'' ⟨⟨rfl, -⟩, rfl⟩
      rfl
    · rfl
  · simp only [wp_bind, wp_op]
    refine ⟨rfl, fun allowed _ => ?_⟩
    cases allowed with
    | false =>
        simp only [Bool.not_false, if_true, wp_bind]
        refine wp_mono (wp_of_uses (auditAs_uses _ _) (by simp)) ?_
        rintro _ s'' q'' ⟨⟨rfl, -⟩, rfl⟩
        rfl
    | true =>
        simp only [Bool.not_true, Bool.false_eq_true, if_false, wp_bind, wp_op]
        refine ⟨rfl, fun acquired _ => ?_⟩
        cases acquired with
        | false => rfl
        | true => rfl

theorem hopLoop_phases (effective : EffectivePolicy) (ids : List Uuid)
    (lastErr : Option RouterError) (previousModel : String) :
    (hopLoop deps cfg effective ids lastErr previousModel).wp env Ok (fun _ _ q' => q' = .idle) s
      .idle := by
  induction ids generalizing s lastErr previousModel with
  | nil => rfl
  | cons id ids ih =>
      simp only [hopLoop, wp_bind, wp_op]
      refine ⟨trivial, fun aborted _ => ?_⟩
      cases aborted with
      | true => rfl
      | false =>
          simp only [Bool.false_eq_true, if_false]
          split
          · exact ih _ _
          · simp only [wp_bind]
            refine wp_mono (admitHop_phases deps _ _ _ _) ?_
            rintro (e | ⟨route⟩ | rerr) s' q' hq
            · exact hq
            · simp only [wp_bind]
              obtain rfl : q' = .ahead route.provider.id := hq
              refine wp_mono (runHop_phases cfg _ _) ?_
              rintro (e | ⟨rerr, _ | _⟩ | res) s'' q'' rfl
              · rfl
              · exact ih _ _
              · rfl
              · rfl
            · obtain rfl : q' = .idle := hq
              exact ih _ _

/-- **The executor keeps to the phases.** -/
theorem executeResilient_phases :
    (executeResilient deps cfg).wp env Ok (fun _ _ q' => q' = .idle) s .idle := by
  simp only [executeResilient, wp_bind]
  refine wp_mono (wp_of_uses requireEffective_uses (by simp)) ?_
  rintro (e | effective) s' q' ⟨-, rfl⟩
  · rfl
  simp only [wp_op, wp_ensure, wp_bind, wp_ctx, wp_ofExcept]
  refine ⟨trivial, fun _ _ => ?_⟩
  cases candidateModels effective s'.envelope with
  | error e => exact ⟨trivial, fun _ _ => rfl⟩
  | ok ids =>
      refine wp_mono (hopLoop_phases cfg deps effective ids none "") ?_
      rintro (e | lastErr | res) s'' q'' rfl
      · exact ⟨trivial, fun _ _ => rfl⟩
      · simp only [wp_bind, wp_op]
        refine ⟨trivial, fun timedOut _ => ?_⟩
        cases timedOut <;> exact ⟨trivial, fun _ _ => rfl⟩
      · exact ⟨trivial, fun _ _ => rfl⟩

end

end CallPhase

end VibeRouter
