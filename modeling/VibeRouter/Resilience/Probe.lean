import VibeRouter.Db.Tables
import VibeRouter.Lib.Pool
import VibeRouter.Resilience.Breaker
import VibeRouter.Resilience.Hops

/-! # Half-open probes

Any number of requests that run through the executors and share one breaker.  A hop that a
half-open circuit admits is its probe; as long as it has not recorded an outcome, its request
is the holder of the probe.  The breaker admits no other hop meanwhile, so the circuit depends
on the holder: when its hop ends without having recorded an outcome, the circuit stays half
open for good.

That happens when the semaphore refuses the hop, when the request is aborted, when the stream
is stalled, and when the consumer of the stream returns early.  A holder none of this happens
to does record an outcome before its hop ends (`undisturbed_probe_released`). -/

namespace VibeRouter

open Effects

namespace Window

theorem allow_cases (opts : BreakerOptions) (w : Window) (now : ℕ) :
    (w.allow opts now).2 = w ∨
      (w.allow opts now).1 = true ∧ (w.allow opts now).2.state = .half_open := by
  unfold allow
  split
  · exact .inl rfl
  · split
    · exact .inr ⟨rfl, rfl⟩
    · exact .inl rfl
  · next hs =>
      split
      · exact .inr ⟨rfl, hs⟩
      · exact .inl rfl

/-- An outcome ends the probe of a half-open circuit. -/
theorem record_probe (opts : BreakerOptions) {w : Window} (ok : Bool) (now : ℕ)
    (h : w.halfOpenProbeInFlight = true → w.state = .half_open) :
    (w.record opts ok now).halfOpenProbeInFlight = false := by
  have hprune : ∀ w' : Window, (prune opts w' now).state = w'.state ∧
      (prune opts w' now).halfOpenProbeInFlight = w'.halfOpenProbeInFlight := fun _ => ⟨rfl, rfl⟩
  cases hf : w.halfOpenProbeInFlight with
  | true =>
      have hs := h hf
      unfold record
      simp only [hprune, hs]
      split <;> rfl
  | false =>
      unfold record
      dsimp only
      split
      · split <;> rfl
      · split <;> simp [hprune, hf]
      · simp [hprune, hf]

/-- A window whose circuit is not held up by a probe admits requests from some time on. -/
theorem allow_of_no_probe (opts : BreakerOptions) {w : Window}
    (h : w.halfOpenProbeInFlight = false) : ∃ t, ∀ now, t ≤ now → (w.allow opts now).1 = true := by
  refine ⟨w.openedAt + opts.openDurationMs, fun now hnow => ?_⟩
  unfold allow
  split
  · rfl
  · have hdue : (opts.openDurationMs : ℤ) ≤ (now : ℤ) - w.openedAt := by omega
    rw [if_pos hdue]
  · simp [h]

end Window

/-- What the requests share: the breaker and, as a ghost, for each provider the holder of the
probe. -/
structure Probes where
  breaker : CircuitBreaker
  holder : Uuid → Option ℕ

namespace Probes

/-- `breaker.allow(p)` for the request `i`. -/
def allow (σ : Probes) (i : ℕ) (p : Uuid) (now : ℕ) : Bool × Probes :=
  let r := σ.breaker.allow p now
  (r.1,
    { breaker := r.2
      holder := if r.1 ∧ (r.2.window p).halfOpenProbeInFlight then Function.update σ.holder p (some i)
        else σ.holder })

/-- `breaker.record(p, ok)`. -/
def record (σ : Probes) (p : Uuid) (ok : Bool) (now : ℕ) : Probes :=
  { breaker := σ.breaker.record p ok now, holder := Function.update σ.holder p none }

/-- Before any request. -/
def new (options : BreakerOptions) : Probes := ⟨.new options, fun _ => none⟩

@[simp] theorem window_allow (σ : Probes) (i : ℕ) (p : Uuid) (now : ℕ) :
    (σ.allow i p now).2.breaker.window p =
      ((σ.breaker.window p).allow σ.breaker.options now).2 := by
  simp [allow, CircuitBreaker.allow]

theorem holder_allow (σ : Probes) (i : ℕ) (p : Uuid) (now : ℕ) :
    (σ.allow i p now).2.holder p =
      if (σ.allow i p now).1 ∧ ((σ.allow i p now).2.breaker.window p).halfOpenProbeInFlight then
        some i else σ.holder p := by
  unfold allow
  dsimp only
  split
  · rw [Function.update_self]
  · rfl

theorem allow_of_ne (σ : Probes) (i : ℕ) {p p' : Uuid} (now : ℕ) (h : p' ≠ p) :
    (σ.allow i p now).2.breaker.window p' = σ.breaker.window p' ∧
      (σ.allow i p now).2.holder p' = σ.holder p' := by
  refine ⟨CircuitBreaker.window_put_of_ne _ _ h, ?_⟩
  unfold allow
  dsimp only
  split
  · rw [Function.update_of_ne h]
  · rfl

@[simp] theorem window_record (σ : Probes) (p : Uuid) (ok : Bool) (now : ℕ) :
    (σ.record p ok now).breaker.window p =
      (σ.breaker.window p).record σ.breaker.options ok now := by
  simp [record, CircuitBreaker.record]

@[simp] theorem holder_record (σ : Probes) (p : Uuid) (ok : Bool) (now : ℕ) :
    (σ.record p ok now).holder p = none := Function.update_self ..

theorem record_of_ne (σ : Probes) {p p' : Uuid} (ok : Bool) (now : ℕ) (h : p' ≠ p) :
    (σ.record p ok now).breaker.window p' = σ.breaker.window p' ∧
      (σ.record p ok now).holder p' = σ.holder p' :=
  ⟨CircuitBreaker.window_put_of_ne _ _ h, Function.update_of_ne h _ _⟩

/-- The answers that end the hop of a request, or tell it to stop. -/
def Disturbs : (e : Op) → e.Answer → Bool
  | .shedAcquire _, r => !r
  | e, r => Hop.Stops e r

/-- Any answer will do. -/
def anything (_ : Probes) (_ : ℕ) (e : Op) (_ : e.Answer) : Prop := True

/-- The holder of a probe is not disturbed. -/
def undisturbed (σ : Probes) (i : ℕ) (e : Op) (r : e.Answer) : Prop :=
  (∃ p, σ.holder p = some i) → Disturbs e r = false

end Probes

/-- What holds between the breaker and the hops in flight when no holder of a probe is
disturbed: the flag is set for a half-open circuit with a holder, whose hop is in flight and
not settled. -/
structure Tracked (σ : Probes) (L : ℕ → Option (Option Hop)) : Prop where
  flag : ∀ p, (σ.breaker.window p).halfOpenProbeInFlight = true →
    (σ.breaker.window p).state = .half_open ∧ ∃ i, σ.holder p = some i
  held : ∀ p i, σ.holder p = some i → L i = some (some ⟨p, false⟩)

/-- A thread without a hop in flight holds no probe. -/
theorem Tracked.free {σ : Probes} {L : ℕ → Option (Option Hop)} {i : ℕ} (h : Tracked σ L)
    (hi : L i = some none) {p : Uuid} {j : ℕ} (hj : σ.holder p = some j) : j ≠ i := by
  rintro rfl
  rw [h.held p j hj] at hi
  cases hi

theorem Tracked.allow {σ : Probes} {L : ℕ → Option (Option Hop)} {i : ℕ} {p : Uuid} {now : ℕ}
    (h : Tracked σ L) (hi : L i = some none) :
    Tracked (σ.allow i p now).2
      (Function.update L i (some (Hop.next none (.breakerAllow p) (σ.allow i p now).1))) := by
  have hr : (σ.allow i p now).1 = ((σ.breaker.window p).allow σ.breaker.options now).1 := rfl
  refine ⟨fun p' hf => ?_, fun p' j hj => ?_⟩
  · by_cases hp' : p' = p
    · subst hp'
      rw [Probes.holder_allow, hf]
      rw [Probes.window_allow] at hf ⊢
      rcases Window.allow_cases σ.breaker.options (σ.breaker.window p') now with heq | ⟨hadm, hs⟩
      · rw [heq] at hf ⊢
        obtain ⟨hs, j, hj⟩ := h.flag p' hf
        refine ⟨hs, ?_⟩
        split
        · exact ⟨i, rfl⟩
        · exact ⟨j, hj⟩
      · exact ⟨hs, i, by rw [hr, hadm]; rfl⟩
    · obtain ⟨hw, hh⟩ := σ.allow_of_ne i now hp'
      rw [hw] at hf ⊢
      rw [hh]
      exact h.flag p' hf
  · have hkeep : σ.holder p' = some j → Function.update L i
        (some (Hop.next none (.breakerAllow p) (σ.allow i p now).1)) j = some (some ⟨p', false⟩) := by
      intro hj
      rw [Function.update_of_ne (h.free hi hj)]
      exact h.held p' j hj
    by_cases hp' : p' = p
    · subst hp'
      rw [Probes.holder_allow] at hj
      split at hj
      · next hc =>
          cases hj
          rw [Function.update_self, hc.1]
          rfl
      · exact hkeep hj
    · rw [(σ.allow_of_ne i now hp').2] at hj
      exact hkeep hj

theorem Tracked.record {σ : Probes} {L : ℕ → Option (Option Hop)} {i : ℕ} {p : Uuid} {b ok : Bool}
    {now : ℕ} (h : Tracked σ L) (hi : L i = some (some ⟨p, b⟩)) (q : Option Hop) :
    Tracked (σ.record p ok now) (Function.update L i (some q)) := by
  refine ⟨fun p' hf => ?_, fun p' j hj => ?_⟩
  · by_cases hp' : p' = p
    · subst hp'
      have hclear := Window.record_probe σ.breaker.options ok now fun hw => (h.flag p' hw).1
      rw [Probes.window_record, hclear] at hf
      cases hf
    · obtain ⟨hw, hh⟩ := σ.record_of_ne ok now hp'
      rw [hw] at hf ⊢
      rw [hh]
      exact h.flag p' hf
  · have hp' : p' ≠ p := by
      rintro rfl
      rw [Probes.holder_record] at hj
      cases hj
    rw [(σ.record_of_ne ok now hp').2] at hj
    have hji : j ≠ i := by
      rintro rfl
      rw [h.held p' j hj] at hi
      cases hi
      exact hp' rfl
    rw [Function.update_of_ne hji]
    exact h.held p' j hj

/-- Operations that are not the breaker's, answered to a request that is not disturbed as long
as it holds a probe. -/
theorem Tracked.other {σ : Probes} {L : ℕ → Option (Option Hop)} {i : ℕ} {q : Option Hop} {e : Op}
    {r : e.Answer} (h : Tracked σ L) (hi : L i = some q) (hok : Hop.Ok q e)
    (hr : Probes.undisturbed σ i e r) (hb : e.part ≠ .breaker) :
    Tracked σ (Function.update L i (some (Hop.next q e r))) := by
  refine ⟨h.flag, fun p j hj => ?_⟩
  by_cases hji : j = i
  · subst hji
    obtain rfl : q = some ⟨p, false⟩ := by
      rw [h.held p j hj] at hi
      exact (Option.some.inj hi).symm
    have hcalm := hr ⟨p, hj⟩
    rw [Function.update_self]
    cases e with
    | breakerAllow => exact absurd rfl hb
    | breakerRecord => exact absurd rfl hb
    | shedRelease p' => simp [Hop.Ok] at hok
    | shedAcquire p' =>
        have hacq : r = true := by simpa [Probes.Disturbs] using hcalm
        rw [hacq]
        rfl
    | _ => simp [Hop.next, Probes.Disturbs] at hcalm ⊢; try simp [hcalm]
  · rw [Function.update_of_ne hji]
    exact h.held p j hj

/-! ### The requests -/

section
variable [Platform] (deps : PipelineDeps) (cfg : ResilienceConfig)

/-- A request in one of the executors. -/
inductive Execution : PipelineCtx → GenProg Op Op.Answer Yielded Unit → Prop
  | resilient (c : PipelineCtx) :
      Execution c (((executeResilient deps cfg c).embed Yielded).bind fun _ => .ret ())
  | stream (c : PipelineCtx) : Execution c ((executeResilientStream deps cfg c).bind fun _ => .ret ())

/-- Requests that share a breaker.  The local state of a request is the hop it has in flight;
`permits` says which answers other than the breaker's it may get. -/
def executions (permits : Probes → ℕ → (e : Op) → e.Answer → Prop) :
    System ℕ (GenOp Op Yielded) (GenOp.Answer Op.Answer Yielded) Unit Probes (Option Hop) where
  env := Hop.env.withYield Yielded
  handler i σ _ e r σ' := match e, r with
    | .op (.breakerAllow p), r => ∃ now, (r, σ') = σ.allow i p now
    | .op (.breakerRecord p ok), _ => ∃ now, σ' = σ.record p ok now
    | .op e, r => permits σ i e r ∧ σ' = σ
    | .yield _, _ => σ' = σ
  start _ _ p q := (∃ c, Execution deps cfg c p) ∧ q = none
  drift _ _ := False

variable {deps cfg}

theorem Execution.wp {c : PipelineCtx} {p : GenProg Op Op.Answer Yielded Unit}
    (h : Execution deps cfg c p) :
    p.wp (Hop.env.withYield Yielded) (okOps Hop.Ok Yielded) (fun _ q => q = none) none := by
  cases h with
  | resilient =>
      rw [Prog.wp_bind, Prog.wp_embed]
      exact Hop.executeResilient_wp cfg deps
  | stream =>
      rw [Prog.wp_bind]
      exact Hop.executeResilientStream_wp cfg deps

theorem executions_preserves : System.Preserves (executions deps cfg Probes.undisturbed)
    (fun _ _ _ => True) (okOps Hop.Ok Yielded) (fun _ q => q = none) Tracked where
  start_wp := by
    rintro i σ p q ⟨⟨c, h⟩, rfl⟩
    exact System.wp_view h.wp
  spawn := by
    rintro i σ L p q h hi ⟨-, rfl⟩
    refine ⟨h.flag, fun p j hj => ?_⟩
    have hji : j ≠ i := by
      rintro rfl
      rw [h.held p j hj] at hi
      cases hi
    rw [Function.update_of_ne hji]
    exact h.held p j hj
  rely _ _ _ _ _ _ _ _ _ _ _ := trivial
  act := by
    intro i σ L q e r σ' h hi hok _ hh
    cases e with
    | yield y =>
        obtain rfl : σ' = σ := hh
        have hu : Function.update L i (some q) = L := by
          rw [← hi]
          exact Function.update_eq_self i L
        exact hu.symm ▸ h
    | op e =>
        by_cases hb : e.part = .breaker
        · cases e with
          | breakerAllow p =>
              obtain ⟨now, hnow⟩ := hh
              obtain ⟨rfl, rfl⟩ := Prod.mk.inj hnow
              obtain rfl : q = none := hok
              exact h.allow hi
          | breakerRecord p ok =>
              obtain ⟨now, rfl⟩ := hh
              obtain ⟨b, rfl⟩ := hok
              exact h.record hi _
          | _ => simp [Op.part] at hb
        · have hh' : Probes.undisturbed σ i e r ∧ σ' = σ := by
            cases e with
            | breakerAllow p => exact absurd rfl hb
            | breakerRecord p ok => exact absurd rfl hb
            | _ => exact hh
          obtain ⟨hr, rfl⟩ := hh'
          exact h.other hi hok hr hb
  drift _ _ _ _ h := h.elim

/-- A hop of the request `i` for the provider `p` is in flight. -/
def HopInFlight
    (P : Pool ℕ (GenOp Op Yielded) (GenOp.Answer Op.Answer Yielded) Unit Probes (Option Hop))
    (i : ℕ) (p : Uuid) : Prop :=
  ∃ b, P.locals i = some (some ⟨p, b⟩)

/-- The circuit of `p` is not held up: no probe is in flight, a half-open circuit admits the next
hop, and any circuit admits hops from some time on. -/
def CircuitBreaker.Released (b : CircuitBreaker) (p : Uuid) : Prop :=
  (b.window p).halfOpenProbeInFlight = false ∧
    ((b.window p).state = .half_open → ∀ now, (b.allow p now).1 = true) ∧
      ∃ t, ∀ now, t ≤ now → (b.allow p now).1 = true

/-- **A probe that is not disturbed is released.**  In every run in which no holder of a probe is
disturbed before it has recorded an outcome, the circuit of a provider without a hop in flight
is not held up. -/
theorem undisturbed_probe_released {options : BreakerOptions}
    {P : Pool ℕ (GenOp Op Yielded) (GenOp.Answer Op.Answer Yielded) Unit Probes (Option Hop)}
    (hP : (executions deps cfg Probes.undisturbed).Reachable (.new options) P) {p : Uuid}
    (hp : ∀ i, ¬HopInFlight P i p) : P.shared.breaker.Released p := by
  have h0 : Tracked (.new options) fun _ => none := by
    refine ⟨fun p hf => ?_, fun p i hi => ?_⟩
    · simp [Probes.new, CircuitBreaker.new, CircuitBreaker.window, Window.fresh] at hf
    · simp [Probes.new] at hi
  have hT : Tracked P.shared P.locals := (System.invariant executions_preserves h0 hP).1
  have hflag : (P.shared.breaker.window p).halfOpenProbeInFlight = false := by
    cases hf : (P.shared.breaker.window p).halfOpenProbeInFlight with
    | false => rfl
    | true =>
        obtain ⟨-, i, hi⟩ := hT.flag p hf
        exact absurd ⟨false, hT.held p i hi⟩ (hp i)
  refine ⟨hflag, fun hs now => ?_, Window.allow_of_no_probe _ hflag⟩
  simp [CircuitBreaker.allow, Window.allow, hs, hflag]

end

/-! ### A probe that leaks -/

namespace Sample

/-- Every call of the provider fails.  The fifth request arrives when the circuit has been open
for its time; the semaphore may refuse it. -/
def probeAnswer (refused : Bool) (i : ℕ) (σ : Probes) (_ : Option Hop) :
    (e : GenOp Op Yielded) → GenOp.Answer Op.Answer Yielded e × Probes
  | .op (.breakerAllow p) => σ.allow i p (if i = 4 then 30000 else 0)
  | .op (.breakerRecord p ok) => ((), σ.record p ok (if i = 4 then 30000 else 0))
  | .op (.shedAcquire _) => (decide (i ≠ 4) || !refused, σ)
  | .op (.execute _ _ _) =>
      (.error (.router { code := .provider_unavailable, message := "upstream 503" }), σ)
  | .op .closeStream => (.error (.error "not open"), σ)
  | .op e => (tables.answer e, σ)
  | .yield _ => (.next, σ)

theorem probeAnswer_sound [Platform] (cfg : ResilienceConfig) :
    System.Sound (executions deps cfg Probes.anything) (probeAnswer true) := by
  intro i σ q e
  cases e with
  | yield y => exact ⟨trivial, rfl⟩
  | op e =>
      have h := tables.lawful_answer e
      cases e with
      | breakerAllow p => exact ⟨trivial, _, rfl⟩
      | breakerRecord p ok => exact ⟨trivial, _, rfl⟩
      | _ => exact ⟨h, trivial, rfl⟩

theorem probeAnswer_undisturbed [Platform] (cfg : ResilienceConfig) :
    System.Sound (executions deps cfg Probes.undisturbed) (probeAnswer false) := by
  intro i σ q e
  cases e with
  | yield y => exact ⟨trivial, rfl⟩
  | op e =>
      have h := tables.lawful_answer e
      cases e with
      | breakerAllow p => exact ⟨trivial, _, rfl⟩
      | breakerRecord p ok => exact ⟨trivial, _, rfl⟩
      | shedAcquire p =>
          refine ⟨trivial, fun _ => ?_, rfl⟩
          simp [Probes.Disturbs, probeAnswer]
      | _ => exact ⟨h, fun _ => rfl, rfl⟩

def probeConfig : ResilienceConfig := { totalTimeoutMs := 600000, streamIdleTimeoutMs := 60000 }

/-- A request in the executor without streaming. -/
def probeRequest : GenProg Op Op.Answer Yielded Unit :=
  letI := platform
  ((executeResilient deps probeConfig (admitted "r" [])).embed Yielded).bind fun _ => .ret ()

/-- Five requests, one after the other. -/
def probeSchedule : List (Action ℕ (GenOp Op Yielded) (GenOp.Answer Op.Answer Yielded) Unit Probes
    (Option Hop)) :=
  [.spawn 0 probeRequest none, .spawn 1 probeRequest none, .spawn 2 probeRequest none,
    .spawn 3 probeRequest none, .spawn 4 probeRequest none,
    .run 0 100, .run 1 100, .run 2 100, .run 3 100, .run 4 100]

/-- The state after the five requests. -/
def probePool (refused : Bool) :
    Pool ℕ (GenOp Op Yielded) (GenOp.Answer Op.Answer Yielded) Unit Probes (Option Hop) :=
  (System.initial (.new {})).exec (Hop.env.withYield Yielded).next (probeAnswer refused) probeSchedule

theorem probePool_reachable {permits : Probes → ℕ → (e : Op) → e.Answer → Prop} {refused : Bool}
    (h : letI := platform
      System.Sound (executions deps probeConfig permits) (probeAnswer refused)) :
    letI := platform
    (executions deps probeConfig permits).Reachable (.new {}) (probePool refused) := by
  let := platform
  have hstart : ∀ i σ, (executions deps probeConfig permits).start i σ probeRequest none :=
    fun _ _ => ⟨⟨_, .resilient _⟩, rfl⟩
  exact System.reachable_exec h .refl ⟨rfl, hstart _ _, rfl, hstart _ _, rfl, hstart _ _, rfl,
    hstart _ _, rfl, hstart _ _, trivial⟩

/-- All five requests have ended. -/
theorem probePool_idle (refused : Bool) (i : ℕ) (p : Uuid) :
    ¬HopInFlight (probePool refused) i p := by
  rintro ⟨b, hb⟩
  by_cases hi : i < 5
  · have hdone : ∀ refused, ∀ j < 5, (probePool refused).locals j = some none := by decide +kernel
    rw [hdone refused i hi] at hb
    cases hb
  · have hnone : (probePool refused).thread i = none := by
      refine Pool.thread_exec _ ?_
      intro a ha
      simp only [probeSchedule, List.mem_cons, List.not_mem_nil, or_false] at ha
      rcases ha with rfl | rfl | rfl | rfl | rfl | rfl | rfl | rfl | rfl | rfl <;>
        · simp only [Action.concerns, ne_eq, Option.some.injEq]
          omega
    simp [Pool.locals, hnone] at hb

end Sample

theorem sample_probe_released :
    letI := Sample.platform
    (executions Sample.deps Sample.probeConfig Probes.undisturbed).Reachable (.new {})
        (Sample.probePool false) ∧
      (Sample.probePool false).shared.breaker.Released Sample.cloudProviderId := by
  let := Sample.platform
  have hP := Sample.probePool_reachable (Sample.probeAnswer_undisturbed Sample.probeConfig)
  exact ⟨hP, undisturbed_probe_released hP fun i => Sample.probePool_idle false i _⟩

/-- A probe that the semaphore refuses holds the circuit up with nothing in flight. -/
theorem refused_probe_leaks :
    letI := Sample.platform
    ¬∀ (P : Pool ℕ (GenOp Op Yielded) (GenOp.Answer Op.Answer Yielded) Unit Probes (Option Hop))
        (p : Uuid),
      (executions Sample.deps Sample.probeConfig Probes.anything).Reachable (.new {}) P →
        (∀ i, ¬HopInFlight P i p) → P.shared.breaker.Released p := by
  let := Sample.platform
  intro h
  have hflag : ((Sample.probePool true).shared.breaker.window
      Sample.cloudProviderId).halfOpenProbeInFlight = true := by decide +kernel
  have hP := Sample.probePool_reachable (Sample.probeAnswer_sound Sample.probeConfig)
  have hfree := (h _ Sample.cloudProviderId hP fun i => Sample.probePool_idle true i _).1
  rw [hflag] at hfree
  cases hfree

end VibeRouter
