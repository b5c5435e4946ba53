import VibeRouter.Resilience.Watched

/-! # Whole executions under watch

What each function of the two executors does to a request under watch, up to whole executions
from the start of a request. -/

namespace VibeRouter

open Effects Async Code

namespace Watched

section
variable {s : PipelineCtx} {q : Watched} {fails : Thrown → Prop} {p : Uuid}
  {route : RouteDecision} {source : Option (RouteDecision × List StreamChunk)}
  {out : List StreamChunk}

/-! ### Moves -/

/-- A request before its execution. -/
def start (script : ℕ → List SignalEvent) (client : Bool) : Watched :=
  { script, signals := { client } }

theorem at_start (script : ℕ → List SignalEvent) (client : Bool) :
    At none false none [] (start script client) where
  slot := rfl
  hop := rfl
  source := rfl
  out := rfl
  timed := ⟨fun h => absurd h Bool.false_ne_true, by simp [start]⟩
  overrun := rfl
  unspliced := rfl

/-- The signals of the request are opened. -/
theorem At.opened (h : At none false source out q) (ms : ℕ) :
    At none false source out (q.after (.op (.openSignal ms)) ()) where
  slot := h.slot
  hop := rfl
  source := h.source
  out := h.out
  timed := (Signals.kept_timed.during h.timed _).perform _
  overrun := h.overrun
  unspliced := h.unspliced

theorem At.openHop (h : At (some p) false source [] q) :
    At (some p) true source [] (q.after (.op .openHop) ()) where
  slot := h.slot
  hop := rfl
  source := h.source
  out := h.out
  timed := h.timed
  overrun := h.overrun
  unspliced := h.unspliced

theorem At.openStream (h : At (some p) true source [] q) (c : PipelineCtx)
    (route : RouteDecision) (env : AIRequest) (chunks : List StreamChunk) :
    At (some p) true (some (route, chunks)) [] (q.after (.op (.openStream c route env)) chunks) where
  slot := h.slot
  hop := h.hop
  source := rfl
  out := h.out
  timed := h.timed
  overrun := h.overrun
  unspliced := by
    show q.out <+: chunks
    rw [h.out]
    exact List.nil_prefix

theorem At.granted (h : At none false source out q) {p : Uuid} :
    At (some p) false source out (q.after (.op (.shedAcquire p)) true) where
  slot := rfl
  hop := (Signals.kept_hop false).during h.hop _
  source := h.source
  out := h.out
  timed := Signals.kept_timed.during h.timed _
  overrun := h.overrun
  unspliced := h.unspliced

theorem At.released (h : At (some p) false source out q) :
    At none false source out (q.after (.op (.shedRelease p)) ()) where
  slot := rfl
  hop := h.hop
  source := h.source
  out := h.out
  timed := h.timed
  overrun := h.overrun
  unspliced := h.unspliced

/-- The end of a hop after output, or when the total timer has not fired. -/
theorem At.closed (h : At (some p) true source out q)
    (hend : q.signals.fired = true → out ≠ []) :
    At none false source out ((q.after (.op .closeHop) ()).after (.op (.shedRelease p)) ()) where
  slot := rfl
  hop := rfl
  source := h.source
  out := h.out
  timed := h.timed
  overrun := by
    show (q.overrun || q.signals.fired && q.out.isEmpty) = false
    rw [h.overrun, h.out]
    cases hf : q.signals.fired with
    | false => rfl
    | true => simpa using hend hf
  unspliced := h.unspliced

/-! ### Exceptional ends -/

/-- How an execution ends with an exception: without a slot, and with the total timeout exactly
when the timer has fired before any output and no hop has met that. -/
structure Ends (fails : Thrown → Prop) (e : Abrupt) (q : Watched) : Prop where
  slot : q.slot = none
  unspliced : q.Unspliced
  timeout : ∀ err, e = .thrown err → q.out = [] → q.signals.fired = true →
    (q.overrun = false → (toRouterError err).isTotalTimeout = true) ∧
      (q.overrun = true → Own fails err)

/-- A hop that ends with an exception. -/
theorem At.fail (h : At (some p) true source out q) {e : Abrupt}
    (hown : ∀ err, e = .thrown err → Own fails err) :
    Ends fails e ((q.after (.op .closeHop) ()).after (.op (.shedRelease p)) ()) where
  slot := rfl
  unspliced := h.unspliced
  timeout := by
    intro err herr hout hfired
    refine ⟨fun hover => ?_, fun _ => hown err herr⟩
    replace hout : q.out = [] := hout
    replace hfired : q.signals.fired = true := hfired
    replace hover : (q.overrun || q.signals.fired && q.out.isEmpty) = false := hover
    rw [hout, hfired] at hover
    simp at hover

theorem Ends.disposed {e : Abrupt} (h : Ends fails e q) :
    Ends fails e (q.after (.op .disposeSignal) ()) where
  slot := h.slot
  unspliced := h.unspliced
  timeout := h.timeout

/-- An exception outside the hops. -/
theorem At.thrown (h : At none false source out q) {err : Thrown}
    (hfired : q.signals.fired = true → (toRouterError err).isTotalTimeout = true) :
    Ends fails (.thrown err) q where
  slot := h.slot
  unspliced := h.unspliced
  timeout := by
    rintro _ ⟨⟩ - hf
    refine ⟨fun _ => hfired hf, fun hover => ?_⟩
    rw [h.overrun] at hover
    cases hover

/-! ### One hop of the streaming executor -/

variable (cfg : ResilienceConfig)

theorem streamTry_streams (lastErr : Option RouterError) (previousModel : String)
    (h : At (some p) true source [] q) :
    Streams fails (streamTry cfg route lastErr previousModel) (fun r s' q' =>
      s' = { s with route := some route } ∧ ∃ all out, At (some p) true (some (route, all)) out q' ∧
        Relayed fails all out r ∧ r ≠ .ok (.finished false)) s q := by
  simp only [streamTry, Streams, wp_bind]
  rw [← Streams, streams_inGenerator]
  refine wp_mono (does_of_uses (enterHop_uses route lastErr previousModel) (by decide) h) ?_
  rintro _ s' q₁ ⟨⟨rfl, rfl⟩, hentered⟩
  dsimp only [Except.mapError]
  simp only [wp_read, streams_inGenerator_op]
  refine ⟨⟨hentered.unspliced, hentered.out, hentered.hop⟩, fun all _ => ?_⟩
  have hopened := hentered.openStream { s with route := some route } route
    (hopEnvelope route { s with route := some route }) all
  refine wp_mono (relayStream_streams cfg all false [] hopened rfl ⟨fun _ => rfl, by simp⟩ (by simp)) ?_
  rintro (e | ⟨_ | _⟩ | ⟨err, seen⟩) s' q₂ ⟨rfl, out, hat, hr⟩
  · exact ⟨rfl, all, out, hat, hr, by simp⟩
  · exact ⟨rfl, all, out, hat, ⟨hr.1, fun _ => rfl⟩, by simp⟩
  · dsimp only
    rw [wp_bind, streams_inGenerator_op]
    refine ⟨⟨hat.unspliced, trivial⟩, fun r _ => ⟨rfl, all, out, ?_, hr, by simp⟩⟩
    exact hat.stay (e := .breakerRecord route.provider.id true) r rfl fun _ => rfl
  · exact ⟨rfl, all, out, hat, hr, by simp⟩

/-- A failure is not noted only where there is nobody to note it for. -/
theorem noteFailure_throws {L : (e : Op) → e.Answer → Prop} (givenUp : Bool) :
    Uses L [.breaker, .health] (noteFailure route givenUp) s fun r s' => s' = s ∧
      ∀ e, r = .error e → ∃ message, e = .error message := by
  by_cases hauth : s.auth.isSome = true
  · refine (noteFailure_ok route givenUp hauth).mono ?_
    rintro _ s' ⟨rfl, rfl⟩
    exact ⟨rfl, by simp⟩
  · unfold noteFailure
    split
    · exact ⟨rfl, by simp⟩
    · rw [Bool.not_eq_true, Option.isSome_eq_false_iff, Option.isNone_iff_eq_none] at hauth
      simp only [meets_bind, meets_op, recordHealth, meets_ctx, hauth, meets_throw]
      refine ⟨by simp [Op.Within, Op.part, Op.WellKeyed], fun _ _ => ⟨trivial, ?_⟩⟩
      rintro e ⟨⟩
      exact ⟨_, rfl⟩

/-- The `catch` block of a hop goes on only when nothing was relayed and no signal was aborted. -/
theorem streamCatch_does {err : Thrown} {seen : Bool} (h : At (some p) true source out q)
    (hseen : Seen seen out) (hown : Own fails err) :
    Does fails (streamCatch route err seen) (fun r s' q' => s' = s ∧
      At (some p) true source out q' ∧ (∀ rerr, r = .ok rerr → out = [] ∧ q'.signals.fired = false) ∧
      ∀ e, r = .error e → Own fails e) s q := by
  simp only [streamCatch, Does, wp_bind, wp_op]
  refine ⟨⟨h.unspliced, trivial⟩, fun idleFired _ => ?_⟩
  have h₁ := h.stay (e := .idleFired) idleFired rfl fun _ => rfl
  refine ⟨⟨h₁.unspliced, trivial⟩, fun aborted haborted => ?_⟩
  have h₂ := h₁.stay (e := .signalAborted) aborted rfl fun _ => rfl
  generalize hrerr : (if idleFired = true then idleTimeout else toRouterError err) = rerr
  have hrown : Own fails (.router rerr) := by
    rw [← hrerr]
    split
    · exact fun _ => rfl
    · exact hown
  refine wp_mono (does_at_once (noteFailure_throws (aborted || idleFired)) (by decide) h₂) ?_
  rintro (e | _) s' q₃ ⟨⟨rfl, hthrown⟩, h₃, hsame⟩
  · refine ⟨rfl, h₃, by simp, ?_⟩
    rintro _ ⟨⟩
    obtain ⟨message, rfl⟩ := hthrown e rfl
    exact fun _ => rfl
  · dsimp only
    refine wp_mono (does_at_once (auditIfInvalid_uses route rerr) (by decide) h₃) ?_
    rintro _ s' q₄ ⟨⟨rfl, rfl⟩, h₄, hsame'⟩
    dsimp only
    split
    · exact ⟨rfl, h₄, by simp, by rintro _ ⟨⟩; exact hrown⟩
    · next hgo =>
        simp only [Bool.or_eq_true, not_or, Bool.not_eq_true] at hgo
        refine ⟨rfl, h₄, fun _ _ => ⟨hseen.1 hgo.1.1, ?_⟩, by simp⟩
        have hreason : q.signals.reason.isSome = false := haborted.1.symm.trans hgo.1.2
        have hsignals : q₄.signals = q.signals := hsame'.trans hsame
        rw [hsignals]
        cases hf : q.signals.fired with
        | false => rfl
        | true =>
            rw [h.timed.1 hf] at hreason
            cases hreason

/-- One hop: its whole stream, an error to go on with before any output, or an exception. -/
theorem streamHop_streams (lastErr : Option RouterError) (previousModel : String)
    (h : At (some route.provider.id) false source [] q) :
    Streams fails (streamHop cfg route lastErr previousModel) (fun r s' q' =>
      s' = { s with route := some route } ∧ match r with
        | .ok none => ∃ all, At none false (some (route, all)) all q'
        | .ok (some _) => ∃ source, At none false source [] q'
        | .error e => Ends fails e q') s q := by
  simp only [streamHop, Streams, wp_bind, streams_inGenerator_op]
  refine ⟨⟨h.unspliced, h.out, by rw [h.slot]; rfl⟩, fun _ _ => ?_⟩
  refine wp_finally (fun r s' q' => s' = { s with route := some route } ∧
    ∃ source out, At (some route.provider.id) true source out q' ∧ match r with
      | .ok none => ∃ all, source = some (route, all) ∧ out = all ∧ all ≠ []
      | .ok (some _) => out = [] ∧ q'.signals.fired = false
      | .error e => ∀ err, e = .thrown err → Own fails err) ?_ ?_
  · rw [wp_bind]
    refine wp_mono (streamTry_streams cfg lastErr previousModel h.openHop) ?_
    rintro (e | ⟨_ | _⟩ | ⟨err, seen⟩) s' q₁ ⟨rfl, all, out, hat, hr, hseen⟩
    · exact ⟨rfl, _, out, hat, fun err herr => by cases hr.symm.trans herr⟩
    · exact absurd rfl hseen
    · obtain ⟨hseen', hall⟩ := hr
      obtain rfl := hall rfl
      exact ⟨rfl, _, _, hat, out, rfl, rfl, hseen'.2 rfl⟩
    · dsimp only
      rw [wp_bind, ← Streams, streams_inGenerator]
      refine wp_mono (streamCatch_does hat hr.1 hr.2) ?_
      rintro (e | rerr) s' q₂ ⟨rfl, hat', hgo, hown⟩
      · exact ⟨rfl, _, out, hat', by rintro err ⟨⟩; exact hown e rfl⟩
      · exact ⟨rfl, _, out, hat', hgo rerr rfl⟩
  · rintro r s' q' ⟨rfl, source, out, hat, hr⟩
    rw [← Streams, streams_inGenerator]
    simp only [Does, wp_bind, wp_op]
    refine ⟨⟨hat.unspliced, trivial⟩, fun _ _ => ⟨⟨hat.unspliced, hat.slot⟩, fun _ _ => ?_⟩⟩
    refine ⟨rfl, trivial, ?_⟩
    obtain e | _ | rerr := r
    · exact hat.fail hr
    · obtain ⟨all, rfl, rfl, hne⟩ := hr
      exact ⟨_, hat.closed fun _ => hne⟩
    · obtain ⟨rfl, hfired⟩ := hr
      exact ⟨source, hat.closed fun hf => by rw [hfired] at hf; cases hf⟩

/-! ### Admission -/

variable [Platform] (deps : PipelineDeps)

/-- Admission takes the slot of the hop it admits. -/
theorem admitHop_does (auditSkips : Bool) (model : ModelRow) (lastErr : Option RouterError)
    (previousModel : String) (h : At none false source out q) :
    Does fails (admitHop deps auditSkips model lastErr previousModel) (fun r _ q' => match r with
      | .ok (.admitted route) => At (some route.provider.id) false source out q'
      | .ok (.skipped _) => At none false source out q'
      | .error _ => False) s q := by
  simp only [admitHop, Does, wp_bind, wp_outcome]
  refine wp_mono (does_of_uses (routeForModel_uses deps (fun _ _ => id) model) (by decide) h) ?_
  rintro (e | route) s' q₁ ⟨-, h₁⟩
  · dsimp only
    split
    · rw [wp_bind]
      refine wp_mono (does_of_uses (auditFrom_uses previousModel model _) (by decide) h₁) ?_
      rintro _ s' q₂ ⟨⟨rfl, -⟩, h₂⟩
      exact h₂
    · exact h₁
  · simp only [wp_bind, wp_op]
    refine ⟨⟨h₁.unspliced, trivial⟩, fun allowed _ => ?_⟩
    have h₂ := h₁.stay (e := .breakerAllow route.provider.id) allowed rfl fun _ => rfl
    split
    · rw [wp_bind]
      refine wp_mono (does_of_uses (auditAs_uses _ _) (by decide) h₂) ?_
      rintro _ s' q₃ ⟨⟨rfl, -⟩, h₃⟩
      exact h₃
    · simp only [wp_bind, wp_op]
      refine ⟨⟨h₂.unspliced, h₂.slot⟩, fun granted _ => ?_⟩
      cases granted with
      | false => exact h₂.stay (e := .shedAcquire route.provider.id) false rfl fun _ => rfl
      | true => exact h₂.granted

/-! ### The loop over the candidates of a stream -/

theorem streamLoop_streams (effective : EffectivePolicy) (ids : List Uuid)
    (lastErr : Option RouterError) (previousModel : String) (h : At none false source [] q) :
    Streams fails (streamLoop deps cfg effective ids lastErr previousModel) (fun r s' q' => match r with
      | .ok none => ∃ route all, At none false (some (route, all)) all q' ∧ s'.route = some route
      | .ok (some _) => ∃ source, At none false source [] q'
      | .error e => Ends fails e q') s q := by
  induction ids generalizing s q source lastErr previousModel with
  | nil => exact ⟨source, h⟩
  | cons id ids ih =>
      simp only [streamLoop, Streams, wp_bind, streams_inGenerator_op]
      refine ⟨⟨h.unspliced, trivial⟩, fun aborted _ => ?_⟩
      have h₁ := h.stay (e := .signalAborted) aborted rfl fun _ => rfl
      split
      · exact ⟨source, h₁⟩
      · split
        · exact ih _ _ h₁
        · rw [wp_bind, ← Streams, streams_inGenerator]
          refine wp_mono (admitHop_does deps false _ lastErr previousModel h₁) ?_
          rintro (e | ⟨route⟩ | rerr) s' q₂ h₂
          · exact h₂.elim
          · dsimp only [Except.mapError]
            rw [wp_bind]
            refine wp_mono (streamHop_streams cfg lastErr previousModel h₂) ?_
            rintro (e | _ | rerr) s'' q₃ ⟨rfl, h₃⟩
            · exact h₃
            · obtain ⟨all, h₃⟩ := h₃
              exact ⟨route, all, h₃, rfl⟩
            · obtain ⟨source', h₃⟩ := h₃
              exact ih _ _ h₃
          · exact ih _ _ h₂

/-! ### Whole executions -/

theorem executeResilientStream_streams (fails : Thrown → Prop) (h : At none false source [] q)
    (hfired : q.signals.fired = false) :
    Streams fails (executeResilientStream deps cfg) (fun r s' q' => q'.slot = none ∧ q'.Unspliced ∧
      match r with
        | .ok () => ∃ route all, q'.source = some (route, all) ∧ q'.out = all ∧
            s'.route = some route
        | .error e => Ends fails e q') s q := by
  simp only [executeResilientStream, Streams, wp_bind]
  rw [← Streams, streams_inGenerator]
  refine wp_mono (does_at_once requireEffective_uses (by decide) h) ?_
  rintro (e | effective) s' q₁ ⟨⟨rfl, -⟩, h₁, hsame⟩
  · have hends : Ends fails (.thrown e) q₁ := h₁.thrown fun hf => by
      rw [hsame, hfired] at hf
      cases hf
    exact ⟨h₁.slot, h₁.unspliced, hends⟩
  dsimp only [Except.mapError]
  rw [streams_inGenerator_op]
  refine ⟨⟨h₁.unspliced, trivial⟩, fun _ _ => ?_⟩
  have h₂ := h₁.opened cfg.totalTimeoutMs
  refine wp_finally (fun r s' q' => match r with
    | .ok () => ∃ route all, At none false (some (route, all)) all q' ∧ s'.route = some route
    | .error e => Ends fails e q') ?_ ?_
  · have hfired₂ : (q₁.after (.op (.openSignal cfg.totalTimeoutMs)) ()).signals.fired = false := rfl
    rw [wp_bind, ← Streams, streams_inGenerator]
    simp only [Does, wp_bind, wp_ctx, wp_ofExcept]
    cases candidateModels effective s'.envelope with
    | error e => exact h₂.thrown fun hf => by rw [hfired₂] at hf; cases hf
    | ok ids =>
        refine wp_mono (streamLoop_streams cfg deps effective ids none "" h₂) ?_
        rintro (e | _ | lastErr) s'' q₃ h₃
        · exact h₃
        · exact h₃
        · obtain ⟨source', h₃⟩ := h₃
          dsimp only
          rw [wp_bind, streams_inGenerator_op]
          refine ⟨⟨h₃.unspliced, trivial⟩, fun timedOut htimed => ?_⟩
          have h₄ := h₃.stay (e := .timedOut) timedOut rfl fun _ => rfl
          replace htimed : timedOut = q₃.signals.fired := htimed.1
          cases timedOut with
          | true => exact h₄.thrown fun _ => rfl
          | false => exact h₄.thrown fun hf => absurd (htimed.trans hf) (by simp)
  · rintro r s'' q' hr
    rw [streams_inGenerator_op]
    obtain e | _ := r
    · exact ⟨⟨hr.unspliced, trivial⟩, fun _ _ =>
        ⟨rfl, hr.disposed.slot, hr.disposed.unspliced, hr.disposed⟩⟩
    · obtain ⟨route, all, hat, hroute⟩ := hr
      exact ⟨⟨hat.unspliced, trivial⟩, fun _ _ =>
        ⟨rfl, hat.slot, hat.unspliced, route, all, hat.source, hat.out, hroute⟩⟩

/-! ### Without streaming -/

theorem executeAttempt_does (h : At (some p) false source out q) :
    Does fails (executeAttempt cfg route) (fun _ _ q' => At (some p) false source out q') s q := by
  simp only [executeAttempt, Does, wp_bind, wp_ctx, wp_await, wp_op]
  refine ⟨⟨h.unspliced, by rw [h.slot]; rfl⟩, fun r _ => ?_⟩
  have h₁ := h.stay (e := .execute s route (hopEnvelope route s)) r rfl fun _ => rfl
  obtain e | res := r
  · exact h₁
  refine wp_mono (does_of_uses (verifyIfEnabled_uses cfg route res) (by decide) h₁) ?_
  rintro (e | _) s' q₂ ⟨-, h₂⟩
  · exact h₂
  refine ⟨⟨h₂.unspliced, trivial⟩, fun _ _ => ?_⟩
  have h₃ := h₂.stay (e := .breakerRecord route.provider.id true) () rfl fun _ => rfl
  refine wp_mono (does_of_uses (recordHealth_uses route true) (by decide) h₃) ?_
  rintro (e | _) s' q₄ ⟨-, h₄⟩ <;> exact h₄

omit [Platform] in
theorem backOff_does (attempt : ℕ) (rerr : RouterError) (h : At (some p) false source out q) :
    Does fails (backOff attempt rerr) (fun r s' q' => (∃ b, r = .ok b) ∧ s' = s ∧
      At (some p) false source out q') s q := by
  have hsleep : ∀ (ms : ℚ) {q : Watched}, At (some p) false source out q →
      Does fails (op (.sleep ms)) (fun r s' q' => (∃ b, r = .ok b) ∧ s' = s ∧
        At (some p) false source out q') s q := fun ms q h =>
    ⟨⟨h.unspliced, trivial⟩, fun slept _ =>
      ⟨⟨slept, rfl⟩, rfl, h.stay (e := .sleep ms) slept rfl fun _ => rfl⟩⟩
  unfold backOff
  split
  · exact hsleep _ h
  · rw [Does, wp_bind]
    refine ⟨⟨h.unspliced, trivial⟩, fun rand _ => ?_⟩
    exact hsleep _ (h.stay (e := .random) rand rfl fun _ => rfl)

omit [Platform] in
theorem retryOrThrow_does (attempt : ℕ) (rerr : RouterError) (aborted : Bool)
    (h : At (some p) false source out q) :
    Does fails (retryOrThrow attempt rerr aborted) (fun _ _ q' => At (some p) false source out q')
      s q := by
  unfold retryOrThrow
  split
  · exact h
  · split
    · exact h
    · rw [Does, wp_bind]
      refine wp_mono (backOff_does attempt rerr h) ?_
      rintro _ s' q' ⟨⟨b, rfl⟩, -, h'⟩
      cases b <;> exact h'

omit [Platform] in
theorem afterFailure_does (attempt : ℕ) (rerr : RouterError)
    (h : At (some p) false source out q) :
    Does fails (afterFailure route attempt rerr) (fun _ _ q' => At (some p) false source out q')
      s q := by
  simp only [afterFailure, Does, wp_bind, wp_op]
  refine ⟨⟨h.unspliced, trivial⟩, fun aborted _ => ?_⟩
  have h₁ := h.stay (e := .signalAborted) aborted rfl fun _ => rfl
  refine wp_mono (does_of_uses (noteFailure_uses route aborted) (by decide) h₁) ?_
  rintro (e | _) s' q' ⟨-, h₂⟩
  · exact h₂
  · exact retryOrThrow_does attempt rerr aborted h₂

theorem retryLoop_does (left attempt : ℕ) (lastErr : Option RouterError)
    (h : At (some p) false source out q) :
    Does fails (retryLoop cfg route left attempt lastErr)
      (fun _ _ q' => At (some p) false source out q') s q := by
  induction left generalizing s q attempt lastErr with
  | zero => exact h
  | succ left ih =>
      simp only [retryLoop, Does, wp_bind, wp_op]
      refine ⟨⟨h.unspliced, trivial⟩, fun aborted _ => ?_⟩
      have h₁ := h.stay (e := .signalAborted) aborted rfl fun _ => rfl
      cases aborted with
      | true => exact h₁
      | false =>
          simp only [Bool.false_eq_true, if_false, wp_bind, wp_outcome]
          refine wp_mono (executeAttempt_does cfg h₁) ?_
          rintro (e | res) s' q' h₂
          · dsimp only
            rw [wp_bind]
            refine wp_mono (afterFailure_does attempt (toRouterError e) h₂) ?_
            rintro (e' | _) s'' q'' h₃
            · exact h₃
            · exact ih _ _ h₃
          · exact h₂

/-- A hop gives its slot back. -/
theorem runHop_does (lastErr : Option RouterError) (previousModel : String)
    (h : At (some route.provider.id) false source out q) :
    Does fails (runHop cfg route lastErr previousModel) (fun r _ q' => (∃ v, r = .ok v) ∧
      At none false source out q') s q := by
  rw [runHop, Does]
  refine wp_finally (fun r _ q' => (∃ v, r = .ok v) ∧
    At (some route.provider.id) false source out q') ?_ ?_
  · rw [wp_bind, wp_outcome, wp_bind]
    refine wp_mono (does_of_uses (enterHop_uses route lastErr previousModel) (by decide) h) ?_
    rintro _ s' q₁ ⟨⟨rfl, -⟩, h₁⟩
    refine wp_mono (retryLoop_does cfg _ _ _ h₁) ?_
    rintro (e | res) s' q₂ h₂
    · simp only [wp_bind, wp_op]
      exact ⟨⟨h₂.unspliced, trivial⟩, fun aborted _ =>
        ⟨⟨_, rfl⟩, h₂.stay (e := .signalAborted) aborted rfl fun _ => rfl⟩⟩
    · exact ⟨⟨_, rfl⟩, h₂⟩
  · rintro r s' q' ⟨hr, h₁⟩
    exact ⟨⟨h₁.unspliced, h₁.slot⟩, fun _ _ => ⟨rfl, hr, h₁.released⟩⟩

theorem hopLoop_does (effective : EffectivePolicy) (ids : List Uuid)
    (lastErr : Option RouterError) (previousModel : String) (h : At none false source out q) :
    Does fails (hopLoop deps cfg effective ids lastErr previousModel) (fun r _ q' =>
      (∃ v, r = .ok v) ∧ At none false source out q') s q := by
  induction ids generalizing s q lastErr previousModel with
  | nil => exact ⟨⟨_, rfl⟩, h⟩
  | cons id ids ih =>
      simp only [hopLoop, Does, wp_bind, wp_op]
      refine ⟨⟨h.unspliced, trivial⟩, fun aborted _ => ?_⟩
      have h₁ := h.stay (e := .signalAborted) aborted rfl fun _ => rfl
      split
      · exact ⟨⟨_, rfl⟩, h₁⟩
      · split
        · exact ih _ _ h₁
        · rw [wp_bind]
          refine wp_mono (admitHop_does deps true _ lastErr previousModel h₁) ?_
          rintro (e | ⟨route⟩ | rerr) s' q₂ h₂
          · exact h₂.elim
          · dsimp only
            rw [wp_bind]
            refine wp_mono (runHop_does cfg lastErr previousModel h₂) ?_
            rintro _ s'' q₃ ⟨⟨v, rfl⟩, h₃⟩
            obtain ⟨rerr, _ | _⟩ | res := v
            · exact ih _ _ h₃
            · exact ⟨⟨_, rfl⟩, h₃⟩
            · exact ⟨⟨_, rfl⟩, h₃⟩
          · exact ih _ _ h₂

theorem executeResilient_does (fails : Thrown → Prop) (h : At none false source out q) (hfired : q.signals.fired = false) :
    Does fails (executeResilient deps cfg) (fun r _ q' => q'.slot = none ∧
      ∀ err, r = .error err → q'.signals.fired = true → (toRouterError err).isTotalTimeout = true)
      s q := by
  simp only [executeResilient, Does, wp_bind]
  refine wp_mono (does_at_once requireEffective_uses (by decide) h) ?_
  rintro (e | effective) s' q₁ ⟨⟨rfl, -⟩, h₁, hsame⟩
  · refine ⟨h₁.slot, fun _ _ hf => ?_⟩
    rw [hsame, hfired] at hf
    cases hf
  dsimp only
  rw [wp_op]
  refine ⟨⟨h₁.unspliced, trivial⟩, fun _ _ => ?_⟩
  have h₂ := h₁.opened cfg.totalTimeoutMs
  refine wp_finally (fun r _ q' => At none false source out q' ∧
    ∀ err, r = .error err → q'.signals.fired = true → (toRouterError err).isTotalTimeout = true)
    ?_ ?_
  · simp only [wp_bind, wp_ctx, wp_ofExcept]
    cases candidateModels effective s'.envelope with
    | error e => exact ⟨h₂, fun _ _ hf => by cases hf⟩
    | ok ids =>
        refine wp_mono (hopLoop_does cfg deps effective ids none "" h₂) ?_
        rintro _ s'' q₃ ⟨⟨v, rfl⟩, h₃⟩
        obtain lastErr | res := v
        · simp only [wp_bind, wp_op]
          refine ⟨⟨h₃.unspliced, trivial⟩, fun timedOut htimed => ?_⟩
          have h₄ := h₃.stay (e := .timedOut) timedOut rfl fun _ => rfl
          replace htimed : timedOut = q₃.signals.fired := htimed.1
          cases timedOut with
          | true => exact ⟨h₄, fun err herr _ => by cases herr; rfl⟩
          | false => exact ⟨h₄, fun err _ hf => absurd (htimed.trans hf) (by simp)⟩
        · exact ⟨h₃, by simp⟩
  · rintro r s'' q' ⟨h₃, htimeout⟩
    exact ⟨⟨h₃.unspliced, trivial⟩, fun _ _ => ⟨rfl, h₃.slot, htimeout⟩⟩

end

end Watched

end VibeRouter
