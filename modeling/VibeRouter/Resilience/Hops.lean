import VibeRouter.Resilience.ExecutorSpecs

/-! # Hops in flight

What a request does to the breaker and the semaphore of a provider.  A hop is in flight from the
moment the breaker admits it until it gives its slot back, or is refused one; `Hop.settled` says
that it has recorded an outcome, or has been told to stop.  The executors only end a hop that is
settled, and never have two hops in flight. -/

namespace VibeRouter

open Effects Async Code

/-- A hop in flight. -/
structure Hop where
  provider : Uuid
  settled : Bool
deriving DecidableEq

namespace Hop

def settle (h : Hop) : Hop := { h with settled := true }

/-- Told to stop: the request is aborted, the stream is stalled, or its consumer has returned
and it is closed. -/
def Stops : (e : Op) → e.Answer → Bool
  | .signalAborted, r => r
  | .idleFired, r => r
  | .closeStream, .ok _ => true
  | _, _ => false

/-- The hop in flight after an operation. -/
def next (q : Option Hop) (e : Op) (r : e.Answer) : Option Hop :=
  match e, r with
  | .breakerAllow p, r => if r then some ⟨p, false⟩ else q
  | .breakerRecord _ _, _ => q.map settle
  | .shedAcquire _, r => if r then q else none
  | .shedRelease _, _ => none
  | e, r => if Stops e r then q.map settle else q

/-- The surroundings of a request. -/
def env : Env Op Op.Answer (Option Hop) where
  allows _ e r := e.Lawful r
  next := next

/-- What a request may do with the hop it has in flight. -/
def Ok (q : Option Hop) : Op → Prop
  | .breakerAllow _ => q = none
  | .breakerRecord p _ | .shedAcquire p => ∃ b, q = some ⟨p, b⟩
  | .shedRelease p => q = some ⟨p, true⟩
  | _ => True

/-! ### What other operations do -/

/-- A property of the hop that only the breaker and the semaphore can end. -/
def Stable (J : Option Hop → Prop) : Prop :=
  ∀ q (e : Op) (r : e.Answer), J q → e.part ≠ .breaker → e.part ≠ .shed → J (next q e r)

/-- A hop at `p` is in flight. -/
def Inside (p : Uuid) (q : Option Hop) : Prop := ∃ b, q = some ⟨p, b⟩

/-- A hop at `p` is in flight and settled. -/
def Settled (p : Uuid) (q : Option Hop) : Prop := q = some ⟨p, true⟩

theorem next_of_other {q : Option Hop} {e : Op} (r : e.Answer) (hb : e.part ≠ .breaker)
    (hs : e.part ≠ .shed) : next q e r = q ∨ next q e r = q.map settle := by
  have h : next q e r = if Stops e r then q.map settle else q := by
    cases e with
    | breakerAllow => exact absurd rfl hb
    | breakerRecord => exact absurd rfl hb
    | shedAcquire => exact absurd rfl hs
    | shedRelease => exact absurd rfl hs
    | _ => rfl
  rw [h]
  split
  · exact .inr rfl
  · exact .inl rfl

theorem stable_none : Stable (· = none) := by
  rintro _ e r rfl hb hs
  rcases next_of_other (q := none) r hb hs with h | h <;> exact h

theorem stable_inside (p : Uuid) : Stable (Inside p) := by
  rintro _ e r ⟨b, rfl⟩ hb hs
  rcases next_of_other (q := some ⟨p, b⟩) r hb hs with h | h
  · exact ⟨b, h⟩
  · exact ⟨true, h⟩

theorem stable_settled (p : Uuid) : Stable (Settled p) := by
  rintro _ e r rfl hb hs
  rcases next_of_other (q := some ⟨p, true⟩) r hb hs with h | h <;> exact h

theorem ok_of_other {q : Option Hop} {e : Op} (hb : e.part ≠ .breaker) (hs : e.part ≠ .shed) :
    Ok q e := by
  cases e with
  | breakerAllow => exact absurd rfl hb
  | breakerRecord => exact absurd rfl hb
  | shedAcquire => exact absurd rfl hs
  | shedRelease => exact absurd rfl hs
  | _ => trivial

variable {S α : Type} {s : S} {q : Option Hop} {J : Option Hop → Prop}

/-- Code that leaves the breaker and the semaphore alone. -/
theorem wp_of_uses {c : Async S α} {ps : List Op.Part} {post : Except Thrown α → S → Prop}
    (h : Uses Op.Lawful ps c s post) (hb : .breaker ∉ ps) (hs : .shed ∉ ps) (hJ : Stable J)
    (hq : J q) : c.wp env Ok (fun r s' q' => post r s' ∧ J q') s q := by
  refine h.wp (fun _ _ _ hr => hr) hq ?_ fun _ _ _ hpost hq' => ⟨hpost, hq'⟩
  intro q' e hq' he
  have hb' : e.part ≠ .breaker := fun heq => hb (heq ▸ he.1)
  have hs' : e.part ≠ .shed := fun heq => hs (heq ▸ he.1)
  exact ⟨ok_of_other hb' hs', fun r _ => hJ q' e r hq' hb' hs'⟩

/-! ### Without streaming -/

section
variable {s : PipelineCtx} {p : Uuid} {route : RouteDecision}

theorem settle_inside {q : Option Hop} (h : Inside p q) : Settled p (q.map settle) := by
  obtain ⟨b, rfl⟩ := h
  rfl

theorem Settled.inside {q : Option Hop} (h : Settled p q) : Inside p q := ⟨true, h⟩

/-- A failure that is not counted is one of a request that was told to stop. -/
theorem noteFailure_wp (hp : route.provider.id = p) {givenUp : Bool} (hq : Inside p q)
    (hstop : givenUp = true → Settled p q) :
    (noteFailure route givenUp).wp env Ok (fun _ _ q' => Settled p q') s q := by
  unfold noteFailure
  split
  · next h => exact hstop h
  · simp only [wp_bind, wp_op]
    refine ⟨hp ▸ hq, fun _ _ => ?_⟩
    exact wp_mono (wp_of_uses (recordHealth_uses route false) (by simp) (by simp)
      (stable_settled p) (settle_inside hq)) fun _ _ _ h => h.2

theorem afterFailure_wp (hp : route.provider.id = p) (attempt : ℕ) (rerr : RouterError)
    (hq : Inside p q) :
    (afterFailure route attempt rerr).wp env Ok (fun _ _ q' => Settled p q') s q := by
  simp only [afterFailure, wp_bind, wp_op]
  refine ⟨trivial, fun aborted _ => ?_⟩
  have hq' : Inside p (next q .signalAborted aborted) :=
    stable_inside p q .signalAborted aborted hq (by simp [Op.part]) (by simp [Op.part])
  refine wp_mono (noteFailure_wp hp hq' ?_) ?_
  · rintro rfl
    exact settle_inside hq
  · rintro (e | _) s' q' hs
    · exact hs
    · exact wp_mono (wp_of_uses (retryOrThrow_uses attempt rerr aborted) (by simp) (by simp)
        (stable_settled p) hs) fun _ _ _ h => h.2

variable [Platform] (cfg : ResilienceConfig)

theorem executeAttempt_wp (hp : route.provider.id = p) (hq : Inside p q) :
    (executeAttempt cfg route).wp env Ok (fun r _ q' => Inside p q' ∧ (∀ a, r = .ok a → Settled p q'))
      s q := by
  simp only [executeAttempt, wp_bind, wp_ctx, wp_await, wp_op]
  refine ⟨trivial, fun r _ => ?_⟩
  rcases r with e | res
  · exact ⟨hq, by simp⟩
  refine wp_mono (wp_of_uses (verifyIfEnabled_uses cfg route res) (by simp) (by simp)
    (stable_inside p) hq) ?_
  rintro (e | _) s' q' ⟨-, hq'⟩
  · exact ⟨hq', by simp⟩
  refine ⟨hp ▸ hq', fun _ _ => ?_⟩
  refine wp_mono (wp_of_uses (recordHealth_uses route true) (by simp) (by simp)
    (stable_settled p) (settle_inside hq')) ?_
  rintro (e | _) s'' q'' ⟨-, hs⟩
  · exact ⟨hs.inside, by simp⟩
  · exact ⟨hs.inside, fun _ _ => hs⟩

/-- A hop settles: each attempt either records an outcome or is told to stop. -/
theorem retryLoop_wp (hp : route.provider.id = p) (left attempt : ℕ) (lastErr : Option RouterError)
    (hq : Settled p q ∨ 0 < left ∧ Inside p q) :
    (retryLoop cfg route left attempt lastErr).wp env Ok (fun _ _ q' => Settled p q') s q := by
  induction left generalizing s q attempt lastErr with
  | zero =>
      rcases hq with hq | ⟨h, -⟩
      · exact hq
      · omega
  | succ left ih =>
      have hin : Inside p q := hq.elim Settled.inside And.right
      simp only [retryLoop, wp_bind, wp_op]
      refine ⟨trivial, fun aborted _ => ?_⟩
      cases aborted with
      | true => exact settle_inside hin
      | false =>
          simp only [Bool.false_eq_true, if_false, wp_bind, wp_outcome]
          refine wp_mono (executeAttempt_wp cfg hp hin) ?_
          rintro (e | res) s' q' ⟨hin', hok⟩
          · simp only [wp_bind]
            refine wp_mono (afterFailure_wp hp attempt _ hin') ?_
            rintro (e | _) s'' q'' hs
            · exact hs
            · exact ih _ _ (.inl hs)
          · exact hok res rfl

theorem runHop_wp (hq : Inside route.provider.id q) (lastErr : Option RouterError)
    (previousModel : String) :
    (runHop cfg route lastErr previousModel).wp env Ok (fun _ _ q' => q' = none) s q := by
  simp only [runHop, wp_ensure, wp_bind, wp_outcome]
  refine wp_mono (wp_of_uses (enterHop_uses route lastErr previousModel) (by simp) (by simp)
    (stable_inside _) hq) ?_
  rintro _ s' q' ⟨⟨rfl, -⟩, hin⟩
  refine wp_mono (retryLoop_wp cfg rfl _ _ _ (.inr ⟨by decide, hin⟩)) ?_
  rintro (e | res) s'' q'' hs
  · simp only [wp_bind, wp_op]
    refine ⟨trivial, fun aborted _ => ⟨?_, fun _ _ => rfl⟩⟩
    exact stable_settled _ _ .signalAborted aborted hs (by simp [Op.part]) (by simp [Op.part])
  · exact ⟨hs, fun _ _ => rfl⟩

variable (deps : PipelineDeps)

/-- Admission leaves a hop in flight only when it admits one. -/
theorem admitHop_wp (auditSkips : Bool) (model : ModelRow) (lastErr : Option RouterError)
    (previousModel : String) :
    (admitHop deps auditSkips model lastErr previousModel).wp env Ok (fun r _ q' => match r with
      | .ok (.admitted route) => Inside route.provider.id q'
      | _ => q' = none) s none := by
  simp only [admitHop, wp_bind, wp_outcome]
  refine wp_mono (wp_of_uses (routeForModel_uses deps (fun _ _ h => h) model) (by simp) (by simp)
    stable_none rfl) ?_
  rintro (e | route) s' q' ⟨-, rfl⟩
  · dsimp only
    split
    · simp only [wp_bind]
      refine wp_mono (wp_of_uses (auditFrom_uses _ _ _) (by simp) (by simp) stable_none rfl) ?_
      rintro _ s'' q'' ⟨⟨rfl, -⟩, hq⟩
      exact hq
    · exact rfl
  · simp only [wp_bind, wp_op]
    refine ⟨rfl, fun allowed _ => ?_⟩
    cases allowed with
    | false =>
        simp only [Bool.not_false, if_true, wp_bind]
        refine wp_mono (wp_of_uses (auditAs_uses _ _) (by simp) (by simp) stable_none rfl) ?_
        rintro _ s'' q'' ⟨⟨rfl, -⟩, hq⟩
        exact hq
    | true =>
        simp only [Bool.not_true, Bool.false_eq_true, if_false, wp_bind, wp_op]
        refine ⟨⟨false, rfl⟩, fun acquired _ => ?_⟩
        cases acquired with
        | false => exact rfl
        | true => exact ⟨false, rfl⟩

theorem hopLoop_wp (effective : EffectivePolicy) (ids : List Uuid) (lastErr : Option RouterError)
    (previousModel : String) :
    (hopLoop deps cfg effective ids lastErr previousModel).wp env Ok (fun _ _ q' => q' = none) s
      none := by
  induction ids generalizing s lastErr previousModel with
  | nil => rfl
  | cons id ids ih =>
      simp only [hopLoop, wp_bind, wp_op]
      refine ⟨trivial, fun aborted _ => ?_⟩
      cases aborted with
      | true => rfl
      | false =>
          simp only [Bool.false_eq_true, if_false]
          split
          · exact ih _ _
          · simp only [wp_bind]
            refine wp_mono (admitHop_wp deps _ _ _ _) ?_
            rintro (e | ⟨route⟩ | rerr) s' q' hq
            · exact hq
            · simp only [wp_bind]
              refine wp_mono (runHop_wp cfg hq _ _) ?_
              rintro (e | ⟨rerr, _ | _⟩ | res) s'' q'' rfl
              · rfl
              · exact ih _ _
              · rfl
              · rfl
            · obtain rfl : q' = none := hq
              exact ih _ _

theorem executeResilient_wp :
    (executeResilient deps cfg).wp env Ok (fun _ _ q' => q' = none) s none := by
  simp only [executeResilient, wp_bind]
  refine wp_mono (wp_of_uses requireEffective_uses (by simp) (by simp) stable_none rfl) ?_
  rintro (e | effective) s' q' ⟨-, rfl⟩
  · rfl
  simp only [wp_op, wp_ensure, wp_bind, wp_ctx, wp_ofExcept]
  refine ⟨trivial, fun _ _ => ?_⟩
  cases candidateModels effective s'.envelope with
  | error e => exact ⟨trivial, fun _ _ => rfl⟩
  | ok ids =>
      refine wp_mono (hopLoop_wp cfg deps effective ids none "") ?_
      rintro (e | lastErr | res) s'' q'' rfl
      · exact ⟨trivial, fun _ _ => rfl⟩
      · simp only [wp_bind, wp_op]
        refine ⟨trivial, fun timedOut _ => ?_⟩
        cases timedOut <;> exact ⟨trivial, fun _ _ => rfl⟩
      · exact ⟨trivial, fun _ _ => rfl⟩

end

/-! ### Streaming -/

section
variable {s : PipelineCtx} {p : Uuid} {route : RouteDecision}

/-- A generator in the surroundings of a request, with any consumer. -/
abbrev Streams {α : Type} (g : Generator α) (post : Except Abrupt α → PipelineCtx → Option Hop → Prop)
    (s : PipelineCtx) (q : Option Hop) : Prop :=
  g.wp (env.withYield Yielded) (okOps Ok Yielded) post s q

/-- A generator that its consumer makes return has closed its stream first. -/
theorem yieldChunk_wp (chunk : StreamChunk) (hq : Inside p q) :
    Streams (yieldChunk chunk) (fun r _ q' => Inside p q' ∧ ∀ e, r = .error e → Settled p q')
      s q := by
  simp only [yieldChunk, wp_bind, wp_read, wp_perform]
  refine ⟨trivial, fun resumed _ => ?_⟩
  rcases resumed with _ | _
  · exact ⟨hq, by simp⟩
  · simp only [wp_bind, wp_inGenerator_op]
    refine ⟨trivial, fun r _ => ?_⟩
    cases r with
    | ok _ => exact ⟨(settle_inside hq).inside, fun _ _ => settle_inside hq⟩
    | error e => exact ⟨hq, by simp⟩

theorem yieldAll_wp (chunks : List StreamChunk) (hq : Inside p q) :
    Streams (yieldAll chunks) (fun r _ q' => Inside p q' ∧ ∀ e, r = .error e → Settled p q')
      s q := by
  induction chunks generalizing s q with
  | nil => exact ⟨hq, by simp⟩
  | cons chunk chunks ih =>
      simp only [yieldAll, wp_bind]
      refine wp_mono (yieldChunk_wp chunk hq) ?_
      rintro (e | _ | e) s' q' ⟨hin, herr⟩
      · exact ⟨hin, fun _ _ => herr e rfl⟩
      · exact ih hin
      · exact ⟨hin, by simp⟩

theorem commit_wp (contentSeen : Bool) {J : Option Hop → Prop} (hJ : Stable J) (hq : J q) :
    Streams (commit contentSeen) (fun r _ q' => r = .ok () ∧ J q') s q := by
  unfold commit
  split
  · exact ⟨rfl, hq⟩
  · exact ⟨trivial, fun r _ => ⟨rfl, hJ q .clearTotalTimeout r hq (by simp [Op.part])
      (by simp [Op.part])⟩⟩

theorem streamCatch_wp (hp : route.provider.id = p) (err : Thrown) (contentSeen : Bool)
    (hq : Inside p q) :
    (streamCatch route err contentSeen).wp env Ok (fun _ _ q' => Settled p q') s q := by
  simp only [streamCatch, wp_bind, wp_op]
  refine ⟨trivial, fun idleFired _ => ⟨trivial, fun aborted _ => ?_⟩⟩
  have hin : Inside p (next q .idleFired idleFired) :=
    stable_inside p q .idleFired idleFired hq (by simp [Op.part]) (by simp [Op.part])
  have hin' : Inside p (next (next q .idleFired idleFired) .signalAborted aborted) :=
    stable_inside p _ .signalAborted aborted hin (by simp [Op.part]) (by simp [Op.part])
  have hstop : (aborted || idleFired) = true →
      Settled p (next (next q .idleFired idleFired) .signalAborted aborted) := by
    intro h
    cases aborted with
    | true => exact settle_inside hin
    | false =>
        obtain rfl : idleFired = true := by simpa using h
        exact settle_inside hq
  refine wp_mono (noteFailure_wp hp hin' hstop) ?_
  rintro (e | _) s' q' hs
  · exact hs
  · refine wp_mono (wp_of_uses (auditIfInvalid_uses route _) (by simp) (by simp)
      (stable_settled p) hs) ?_
    rintro _ s'' q'' ⟨⟨rfl, -⟩, hs'⟩
    dsimp only
    split <;> exact hs'

/-- A settled hop is closed and gives its slot back. -/
theorem closeHop_wp (hq : Settled route.provider.id q) :
    Streams (inGenerator (do op .closeHop; op (.shedRelease route.provider.id)))
      (fun _ _ q' => q' = none) s q := by
  rw [Streams, wp_inGenerator]
  simp only [wp_bind, wp_op]
  refine ⟨trivial, fun _ _ => ⟨?_, fun _ _ => rfl⟩⟩
  exact stable_settled _ _ .closeHop () hq (by simp [Op.part]) (by simp [Op.part])

variable (cfg : ResilienceConfig)

theorem relayStream_wp (chunks : List StreamChunk) (contentSeen : Bool)
    (pending : List StreamChunk) (hq : Inside p q) :
    Streams (relayStream cfg chunks contentSeen pending)
      (fun r _ q' => Inside p q' ∧ ∀ e, r = .error e → Settled p q') s q := by
  induction chunks generalizing contentSeen pending s q with
  | nil =>
      simp only [relayStream, wp_bind, wp_inGenerator_op]
      refine ⟨trivial, fun r _ => ?_⟩
      cases r <;> exact ⟨hq, by simp⟩
  | cons chunk rest ih =>
      simp only [relayStream, wp_bind, wp_inGenerator_op]
      refine ⟨trivial, fun r _ => ?_⟩
      rcases r with e | _
      · exact ⟨hq, by simp⟩
      · simp only [wp_bind, wp_inGenerator_op]
        refine ⟨trivial, fun _ _ => ?_⟩
        split
        · exact ih _ _ hq
        · rw [wp_bind]
          refine wp_mono (commit_wp contentSeen (stable_inside p) hq) ?_
          rintro _ s' q' ⟨rfl, hq'⟩
          dsimp only
          rw [wp_bind]
          refine wp_mono (yieldAll_wp _ hq') ?_
          rintro (e | _ | e) s'' q'' ⟨hin, herr⟩
          · exact ⟨hin, fun _ _ => herr e rfl⟩
          · exact ih _ _ hin
          · exact ⟨hin, by simp⟩

/-- What the `try` block of a hop leaves: a stream that was relayed to its end is recorded. -/
theorem streamTry_wp (hq : Inside route.provider.id q) (lastErr : Option RouterError)
    (previousModel : String) :
    Streams (streamTry cfg route lastErr previousModel) (fun r _ q' =>
      Inside route.provider.id q' ∧ (∀ e, r = .error e → Settled route.provider.id q') ∧
        ∀ seen, r = .ok (.finished seen) → Settled route.provider.id q') s q := by
  simp only [streamTry, wp_bind, wp_inGenerator]
  refine wp_mono (wp_of_uses (enterHop_uses route lastErr previousModel) (by simp) (by simp)
    (stable_inside _) hq) ?_
  rintro _ s' q' ⟨⟨rfl, -⟩, hin⟩
  refine ⟨trivial, fun chunks _ => ?_⟩
  rw [Prog.wp_ret]
  dsimp only [Except.mapError]
  refine wp_mono (relayStream_wp cfg chunks false [] hin) ?_
  rintro (e | ⟨_ | _⟩ | ⟨err, seen⟩) s'' q'' ⟨hin', herr⟩
  · exact ⟨hin', fun _ _ => herr e rfl, by simp⟩
  · exact ⟨hin', by simp, by simp⟩
  · refine ⟨hin', fun _ _ => ⟨(settle_inside hin').inside, by simp, fun _ _ => settle_inside hin'⟩⟩
  · exact ⟨hin', by simp, by simp⟩

theorem streamHop_wp (hq : Inside route.provider.id q) (lastErr : Option RouterError)
    (previousModel : String) :
    Streams (streamHop cfg route lastErr previousModel) (fun _ _ q' => q' = none) s q := by
  have hclose : ∀ {s q}, Settled route.provider.id q →
      Streams (inGenerator (do op .closeHop; op (.shedRelease route.provider.id)))
        (fun r _ q' => match r with
          | .ok _ => q' = none
          | .error _ => q' = none) s q := fun h =>
    wp_mono (closeHop_wp h) fun r _ _ hq' => by cases r <;> exact hq'
  simp only [streamHop, wp_bind, wp_inGenerator_op, wp_ensure]
  refine ⟨trivial, fun _ _ => ?_⟩
  refine wp_mono (streamTry_wp cfg hq lastErr previousModel) ?_
  rintro (e | ⟨seen⟩ | ⟨err, seen⟩) s' q' ⟨hin, herr, hfin⟩
  · exact hclose (s := s') (herr e rfl)
  · exact hclose (s := s') (hfin seen rfl)
  · simp only [wp_bind, wp_inGenerator]
    refine wp_mono (streamCatch_wp rfl err seen hin) ?_
    rintro (e | rerr) s'' q'' hs
    · exact hclose (s := s'') hs
    · exact hclose (s := s'') hs

variable [Platform] (deps : PipelineDeps)

theorem streamLoop_wp (effective : EffectivePolicy) (ids : List Uuid)
    (lastErr : Option RouterError) (previousModel : String) :
    Streams (streamLoop deps cfg effective ids lastErr previousModel) (fun _ _ q' => q' = none) s
      none := by
  induction ids generalizing s lastErr previousModel with
  | nil => rfl
  | cons id ids ih =>
      simp only [streamLoop, wp_bind, wp_inGenerator_op]
      refine ⟨trivial, fun aborted _ => ?_⟩
      cases aborted with
      | true => rfl
      | false =>
          simp only [Bool.false_eq_true, if_false]
          split
          · exact ih _ _
          · rw [wp_bind, wp_inGenerator]
            refine wp_mono (admitHop_wp deps _ _ _ _) ?_
            rintro (e | ⟨route⟩ | rerr) s' q' hq
            · exact hq
            · dsimp only [Except.mapError]
              rw [wp_bind]
              refine wp_mono (streamHop_wp cfg hq _ _) ?_
              rintro (e | _ | rerr) s'' q'' rfl
              · rfl
              · rfl
              · exact ih _ _
            · obtain rfl : q' = none := hq
              exact ih _ _

theorem executeResilientStream_wp :
    Streams (executeResilientStream deps cfg) (fun _ _ q' => q' = none) s none := by
  simp only [executeResilientStream, wp_bind, wp_ensure, wp_inGenerator]
  refine wp_mono (wp_of_uses requireEffective_uses (by simp) (by simp) stable_none rfl) ?_
  rintro (e | effective) s' q' ⟨-, rfl⟩
  · rfl
  dsimp only [Except.mapError]
  simp only [wp_op, wp_ctx, wp_ofExcept]
  refine ⟨trivial, fun _ _ => ?_⟩
  cases candidateModels effective s'.envelope with
  | error e => exact ⟨trivial, fun _ _ => rfl⟩
  | ok ids =>
      refine wp_mono (streamLoop_wp cfg deps effective ids none "") ?_
      rintro (e | _ | lastErr) s'' q'' rfl
      · exact ⟨trivial, fun _ _ => rfl⟩
      · exact ⟨trivial, fun _ _ => rfl⟩
      · simp only [wp_bind, wp_inGenerator_op]
        refine ⟨trivial, fun timedOut _ => ?_⟩
        cases timedOut <;> exact ⟨trivial, fun _ _ => rfl⟩

end

end Hop

end VibeRouter
