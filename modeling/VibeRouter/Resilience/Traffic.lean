import VibeRouter.Db.Tables
import VibeRouter.Lib.Pool
import VibeRouter.Resilience.HalfOpen
import VibeRouter.Resilience.Phases
import VibeRouter.Resilience.States

/-! # What reaches a provider whose circuit is open

A hop asks the breaker once, and makes up to three calls.  `Traffic` keeps, next to the breaker and
the clock, when the circuits changed their states and when the calls started, and which requests
have a call ahead: from their admission to the call, and from a failure on until the hop ends.

The calls that such requests make do not depend on the circuit, so they reach a provider whose
circuit has opened since (`retries_reach_open_circuit`).  When no circuit opens while a request has a
call ahead, and a request whose failure left the circuit open does not retry, no call starts before
an open circuit may be probed, and a half-open circuit gets one call (`open_circuit_stops`). -/

namespace VibeRouter

open Effects

namespace Window

/-- The state after an admission was asked for. -/
theorem allow_state (opts : BreakerOptions) {w : Window} (now : ℕ) (h : w.Probing) :
    (w.allow opts now).2 = w ∧ ((w.allow opts now).1 = true → w.state = .closed) ∨
      (w.allow opts now).2.state = .half_open ∧ (w.allow opts now).2.halfOpenProbeInFlight = true ∧
        w.state = .open_ ∧ w.openedAt + opts.openDurationMs ≤ now := by
  unfold allow
  split
  · next hs => exact .inl ⟨rfl, fun _ => hs⟩
  · next hs =>
      split
      · next hdue => exact .inr ⟨rfl, rfl, hs, by omega⟩
      · exact .inl ⟨rfl, fun hgrant => by cases hgrant⟩
  · next hs =>
      rw [h hs]
      exact .inl ⟨rfl, fun hgrant => by cases hgrant⟩

/-- The state after an outcome. -/
theorem record_state (opts : BreakerOptions) (w : Window) (ok : Bool) (now : ℕ) :
    w.state = .open_ ∧ (w.record opts ok now).state = .open_ ∧
        (w.record opts ok now).openedAt = w.openedAt ∨
      w.state ≠ .open_ ∧ ((w.record opts ok now).state = .closed ∨
        (w.record opts ok now).state = .open_ ∧ (w.record opts ok now).openedAt = now) := by
  obtain ⟨outcomes, state, openedAt, probe⟩ := w
  unfold record
  cases state with
  | open_ => exact .inl ⟨rfl, rfl, rfl⟩
  | half_open =>
      refine .inr ⟨by simp, ?_⟩
      cases ok with
      | true => exact .inl rfl
      | false => exact .inr ⟨rfl, rfl⟩
  | closed =>
      refine .inr ⟨by simp, ?_⟩
      dsimp only [prune]
      split
      · exact .inr ⟨rfl, rfl⟩
      · exact .inl rfl

/-- How one step moves a circuit: not at all, to its probe, or to closed or open. -/
def Turns (opts : BreakerOptions) (now : ℕ) (w w' : Window) : Prop :=
  w'.state = w.state ∧ w'.openedAt = w.openedAt ∨
    w.state = .open_ ∧ w'.state = .half_open ∧ w.openedAt + opts.openDurationMs ≤ now ∨
    w.state ≠ .open_ ∧ (w'.state = .closed ∨ w'.state = .open_ ∧ w'.openedAt = now)

theorem turns_allow (opts : BreakerOptions) {w : Window} (now : ℕ) (h : w.Probing) :
    w.Turns opts now (w.allow opts now).2 := by
  rcases allow_state opts now h with ⟨hsame, -⟩ | ⟨hhalf, -, hopen, hdue⟩
  · rw [hsame]
    exact .inl ⟨rfl, rfl⟩
  · exact .inr (.inl ⟨hopen, hhalf, hdue⟩)

theorem turns_record (opts : BreakerOptions) (w : Window) (ok : Bool) (now : ℕ) :
    w.Turns opts now (w.record opts ok now) := by
  rcases record_state opts w ok now with ⟨hopen, hstays, hat⟩ | ⟨hopen, hleft⟩
  · exact .inl ⟨hstays.trans hopen.symm, hat⟩
  · exact .inr (.inr ⟨hopen, hleft⟩)

end Window

/-- What is seen of a provider: its circuit changes its state, or a request starts a call. -/
inductive TrafficEvent
  | became (p : Uuid) (state : BreakerState) (at_ : ℕ)
  | called (request : ℕ) (p : Uuid) (at_ : ℕ)
deriving DecidableEq

namespace TrafficEvent

/-- A call starts only when the circuit has been open for its time. -/
def Spaced (opts : BreakerOptions) : TrafficEvent → TrafficEvent → Prop
  | .called _ p t, .became p' .open_ o => p' = p → o + opts.openDurationMs ≤ t
  | _, _ => True

/-- The calls of a provider since its circuit changed its state; the last event comes first. -/
def callsSince (p : Uuid) : List TrafficEvent → ℕ
  | [] => 0
  | .became p' _ _ :: events => if p' = p then 0 else callsSince p events
  | .called _ p' _ :: events => (if p' = p then 1 else 0) + callsSince p events

end TrafficEvent

open TrafficEvent (Spaced callsSince)

/-- The breaker and the clock, and as ghosts: the events, the last one first, the requests with a
call ahead, those whose last failure left the circuit open, and whether the calls have been orderly:
no circuit opened while a request had a call ahead, and nobody retried whose failure left the circuit
open. -/
structure Traffic where
  breaker : CircuitBreaker
  now : ℕ := 0
  events : List TrafficEvent := []
  ahead : List (ℕ × Uuid) := []
  shut : ℕ → Bool := fun _ => false
  orderly : Bool := true

namespace Traffic

def new (options : BreakerOptions) : Traffic := { breaker := .new options }

/-- The state of the circuit of `p`. -/
def state (σ : Traffic) (p : Uuid) : BreakerState := (σ.breaker.window p).state

/-- The events when the breaker becomes `b`, of which only the circuit of `p` may differ. -/
def eventsWith (σ : Traffic) (b : CircuitBreaker) (p : Uuid) : List TrafficEvent :=
  if (b.window p).state = σ.state p then σ.events
  else .became p (b.window p).state σ.now :: σ.events

/-- A request has a call of the provider ahead. -/
def busy (σ : Traffic) (p : Uuid) : Bool := σ.ahead.any fun h => h.2 = p

/-- `breaker.allow(p)` for the request `i`. -/
def allow (σ : Traffic) (i : ℕ) (p : Uuid) : Bool × Traffic :=
  let r := σ.breaker.allow p σ.now
  (r.1,
    { σ with
      breaker := r.2
      events := σ.eventsWith r.2 p
      ahead := if r.1 then (i, p) :: σ.ahead else σ.ahead })

/-- `breaker.record(p, ok)` for the request `i`. -/
def record (σ : Traffic) (i : ℕ) (p : Uuid) (ok : Bool) : Traffic :=
  let b := σ.breaker.record p ok σ.now
  let opened : Bool := (b.window p).state = .open_
  { σ with
    breaker := b
    events := σ.eventsWith b p
    ahead := if ok || opened then σ.ahead else (i, p) :: σ.ahead
    shut := Function.update σ.shut i opened
    orderly := σ.orderly && !(opened && σ.state p ≠ .open_ && σ.busy p) }

/-- The request `i` starts a call. -/
def call (σ : Traffic) (i : ℕ) (p : Uuid) : Traffic :=
  { σ with
    events := .called i p σ.now :: σ.events
    ahead := σ.ahead.filter fun h => h.1 ≠ i }

/-- The request `i` has waited and tries again. -/
def retry (σ : Traffic) (i : ℕ) : Traffic := { σ with orderly := σ.orderly && !σ.shut i }

/-- The request `i` makes no further call in this hop. -/
def leave (σ : Traffic) (i : ℕ) : Traffic := { σ with ahead := σ.ahead.filter fun h => h.1 ≠ i }

/-- What an operation of the request `i` does. -/
def step (i : ℕ) (σ : Traffic) : CallPhase → (e : Op) → e.Answer → Traffic
  | _, .breakerAllow p, _ => (σ.allow i p).2
  | _, .breakerRecord p ok, _ => σ.record i p ok
  | .ahead _, .signalAborted, r => if r then σ.leave i else σ
  | _, .execute _ route _, _ => σ.call i route.provider.id
  | _, .sleep _, r => if r then σ.retry i else σ
  | _, .shedAcquire _, r => if r then σ else σ.leave i
  | _, .shedRelease _, _ => σ.leave i
  | _, _, _ => σ

/-- The breaker answers by its state. -/
def Answers (σ : Traffic) (i : ℕ) : (e : Op) → e.Answer → Prop
  | .breakerAllow p, r => r = (σ.allow i p).1
  | _, _ => True

end Traffic

/-- Requests through the executor without streaming that share the breaker; time passes. -/
def traffic [Platform] (deps : PipelineDeps) (cfg : ResilienceConfig) :
    System ℕ Op Op.Answer (Except Thrown AIResponse × PipelineCtx) Traffic CallPhase where
  env := CallPhase.env
  handler i σ q e r σ' := σ.Answers i e r ∧ σ' = σ.step i q e r
  start _ _ p q := (∃ c, p = executeResilient deps cfg c) ∧ q = .idle
  drift σ σ' := ∃ t, σ.now ≤ t ∧ σ' = { σ with now := t }

/-! ### The invariant -/

/-- A call of the provider is ahead, when the last failure has left the circuit open or not. -/
def CallPhase.Waits (p : Uuid) (shut : Bool) (q : CallPhase) : Prop :=
  q = .ahead p ∨ q = .calling p ∨ q = .failed p ∧ shut = false

/-- As long as the calls have been orderly: the requests with a call ahead are known, no one waits at
an open circuit, and a half-open circuit has had its call or waits for it. -/
structure Traffic.Calm (opts : BreakerOptions) (σ : Traffic) (L : ℕ → Option CallPhase) : Prop where
  ahead : ∀ i q p, L i = some q → q.Waits p (σ.shut i) → (i, p) ∈ σ.ahead
  stopped : ∀ p, σ.state p = .open_ → ∀ i, (i, p) ∉ σ.ahead
  single : ∀ p, σ.state p = .half_open →
    callsSince p σ.events + (σ.ahead.filter fun h => h.2 = p).length ≤ 1
  spaced : σ.events.Pairwise (Spaced opts)

/-- When the circuits opened, as far as that is still known. -/
def Traffic.Opened (opts : BreakerOptions) (b : CircuitBreaker) (now : ℕ)
    (events : List TrafficEvent) : Prop :=
  ∀ p o, .became p .open_ o ∈ events →
    if (b.window p).state = .open_ then o ≤ (b.window p).openedAt else o + opts.openDurationMs ≤ now

/-- The circuits, and the calls as long as they have been orderly. -/
structure Traffic.Kept (opts : BreakerOptions) (σ : Traffic) (L : ℕ → Option CallPhase) : Prop where
  options : σ.breaker.options = opts
  probing : ∀ p, (σ.breaker.window p).Probing
  opened : Traffic.Opened opts σ.breaker σ.now σ.events
  calm : σ.orderly = true → σ.Calm opts L

/-! ### The events -/

namespace Traffic

section
variable {σ : Traffic} {b : CircuitBreaker} {p : Uuid}

theorem mem_eventsWith {x : TrafficEvent} (h : x ∈ σ.eventsWith b p) :
    x ∈ σ.events ∨ x = .became p (b.window p).state σ.now ∧ (b.window p).state ≠ σ.state p := by
  unfold eventsWith at h
  split at h
  · exact .inl h
  · next hne =>
      rcases List.mem_cons.1 h with heq | h
      · exact .inr ⟨heq, hne⟩
      · exact .inl h

theorem spaced_eventsWith {opts : BreakerOptions} (h : σ.events.Pairwise (Spaced opts)) :
    (σ.eventsWith b p).Pairwise (Spaced opts) := by
  unfold eventsWith
  split
  · exact h
  · exact List.pairwise_cons.2 ⟨fun _ _ => trivial, h⟩

theorem callsSince_eventsWith_of_ne {p' : Uuid} (h : p' ≠ p) :
    callsSince p' (σ.eventsWith b p) = callsSince p' σ.events := by
  unfold eventsWith
  split
  · rfl
  · simp [callsSince, Ne.symm h]

theorem eventsWith_of_eq (h : (b.window p).state = σ.state p) : σ.eventsWith b p = σ.events :=
  if_pos h

theorem callsSince_eventsWith (h : (b.window p).state ≠ σ.state p) :
    callsSince p (σ.eventsWith b p) = 0 := by
  simp [eventsWith, h, callsSince]

/-- The circuit of one provider moves. -/
theorem Opened.turn {opts : BreakerOptions} (h : Opened opts σ.breaker σ.now σ.events)
    (hp : (σ.breaker.window p).Turns opts σ.now (b.window p))
    (hother : ∀ p', p' ≠ p → b.window p' = σ.breaker.window p') :
    Opened opts b σ.now (σ.eventsWith b p) := by
  intro p' o hmem
  rcases mem_eventsWith hmem with hold | ⟨heq, hne⟩
  · have hthen := h p' o hold
    by_cases hpp : p' = p
    · subst hpp
      rcases hp with ⟨hstate, hat⟩ | ⟨hopen, hhalf, hdue⟩ | ⟨hopen, hclosed | ⟨hopens, hat⟩⟩
      · rwa [hstate, hat]
      · rw [if_pos hopen] at hthen
        rw [hhalf, if_neg (by simp)]
        omega
      · rw [if_neg hopen] at hthen
        rwa [hclosed, if_neg (by simp)]
      · rw [if_neg hopen] at hthen
        rw [if_pos hopens, hat]
        omega
    · rwa [hother p' hpp]
  · injection heq with hpp hstate ho
    subst hpp
    rw [if_pos hstate.symm, ho]
    rcases hp with ⟨hsame, -⟩ | ⟨-, hhalf, -⟩ | ⟨-, hclosed | ⟨-, hat⟩⟩
    · exact absurd hsame hne
    · rw [hhalf] at hstate
      cases hstate
    · rw [hclosed] at hstate
      cases hstate
    · exact hat.ge

end

section
variable {σ : Traffic} (i : ℕ) (p : Uuid) (ok : Bool)

theorem window_allow : (σ.allow i p).2.breaker.window p =
    ((σ.breaker.window p).allow σ.breaker.options σ.now).2 := by
  simp [allow, CircuitBreaker.allow]

theorem window_allow_of_ne {p' : Uuid} (h : p' ≠ p) :
    (σ.allow i p).2.breaker.window p' = σ.breaker.window p' :=
  CircuitBreaker.window_put_of_ne _ _ h

theorem window_record : (σ.record i p ok).breaker.window p =
    (σ.breaker.window p).record σ.breaker.options ok σ.now := by
  simp [record, CircuitBreaker.record]

theorem window_record_of_ne {p' : Uuid} (h : p' ≠ p) :
    (σ.record i p ok).breaker.window p' = σ.breaker.window p' :=
  CircuitBreaker.window_put_of_ne _ _ h

theorem state_allow_of_ne {p' : Uuid} (h : p' ≠ p) : (σ.allow i p).2.state p' = σ.state p' :=
  congrArg Window.state (window_allow_of_ne i p h)

theorem state_record_of_ne {p' : Uuid} (h : p' ≠ p) : (σ.record i p ok).state p' = σ.state p' :=
  congrArg Window.state (window_record_of_ne i p ok h)

theorem ahead_allow : (σ.allow i p).2.ahead = if (σ.allow i p).1 then (i, p) :: σ.ahead else σ.ahead :=
  rfl

theorem mem_ahead_allow {j : ℕ} {p' : Uuid} (h : (j, p') ∈ (σ.allow i p).2.ahead) :
    (j, p') ∈ σ.ahead ∨ (σ.allow i p).1 = true ∧ j = i ∧ p' = p := by
  rw [ahead_allow] at h
  split at h
  · next hgrant =>
      rcases List.mem_cons.1 h with heq | h
      · exact .inr ⟨hgrant, Prod.mk.inj heq⟩
      · exact .inl h
  · exact .inl h

theorem ahead_subset_allow : σ.ahead ⊆ (σ.allow i p).2.ahead := by
  rw [ahead_allow]
  split
  · exact List.subset_cons_self _ _
  · exact List.Subset.refl _

/-- Another provider's calls ahead do not change. -/
theorem filter_ahead_allow {p' : Uuid} (h : p' ≠ p) :
    ((σ.allow i p).2.ahead.filter fun a => a.2 = p') = σ.ahead.filter fun a => a.2 = p' := by
  rw [ahead_allow]
  split
  · simp [Ne.symm h]
  · rfl

theorem ahead_record : (σ.record i p ok).ahead =
    if ok || (σ.record i p ok).shut i then σ.ahead else (i, p) :: σ.ahead := by
  simp [record]

theorem shut_record : (σ.record i p ok).shut =
    Function.update σ.shut i (decide ((σ.record i p ok).state p = .open_)) := rfl

theorem orderly_record : (σ.record i p ok).orderly = (σ.orderly &&
    !(decide ((σ.record i p ok).state p = .open_) && σ.state p ≠ .open_ && σ.busy p)) := rfl

theorem not_busy (h : σ.busy p = false) (j : ℕ) : (j, p) ∉ σ.ahead := by
  intro hj
  unfold busy at h
  rw [List.any_eq_false] at h
  exact h (j, p) hj (by simp)

end

/-! ### One step -/

namespace Calm

section
variable {opts : BreakerOptions} {σ : Traffic} {L : ℕ → Option CallPhase} {i : ℕ}

/-- A request moves that had its call ahead if it has one then. -/
theorem update {q' : CallPhase} (h : σ.Calm opts L)
    (hq : ∀ p, q'.Waits p (σ.shut i) → (i, p) ∈ σ.ahead) :
    σ.Calm opts (Function.update L i (some q')) := by
  refine ⟨fun j q p hj hwaits => ?_, h.stopped, h.single, h.spaced⟩
  by_cases hji : j = i
  · subst hji
    rw [Function.update_self] at hj
    cases hj
    exact hq p hwaits
  · rw [Function.update_of_ne hji] at hj
    exact h.ahead j q p hj hwaits

/-- The other requests keep their calls ahead. -/
theorem mem_without {q' : CallPhase} (h : σ.Calm opts L) (hq : ∀ p b, ¬q'.Waits p b) {j : ℕ}
    {q : CallPhase} {p : Uuid} (hj : Function.update L i (some q') j = some q)
    (hwaits : q.Waits p (σ.shut j)) : (j, p) ∈ σ.ahead.filter fun a => a.1 ≠ i := by
  by_cases hji : j = i
  · subst hji
    rw [Function.update_self] at hj
    cases hj
    exact absurd hwaits (hq p _)
  · rw [Function.update_of_ne hji] at hj
    exact List.mem_filter.2 ⟨h.ahead j q p hj hwaits, by simp [hji]⟩

theorem leave {q' : CallPhase} (h : σ.Calm opts L) (hq : ∀ p b, ¬q'.Waits p b) :
    (σ.leave i).Calm opts (Function.update L i (some q')) := by
  refine ⟨fun j q p hj hwaits => h.mem_without hq hj hwaits, fun p hs j hj => ?_, fun p hs => ?_,
    h.spaced⟩
  · exact h.stopped p hs j (List.mem_of_mem_filter hj)
  · have hold := h.single p hs
    have hless : ((σ.leave i).ahead.filter fun a => a.2 = p).length ≤
        (σ.ahead.filter fun a => a.2 = p).length :=
      (List.filter_sublist.filter _).length_le
    show callsSince p σ.events + _ ≤ 1
    omega

/-- A call is one of those that were ahead. -/
theorem call {p : Uuid} (h : σ.Calm opts L) (hi : L i = some (.calling p))
    (hopened : Opened opts σ.breaker σ.now σ.events) :
    (σ.call i p).Calm opts (Function.update L i (some (.answered p))) := by
  have hq : ∀ p' b, ¬(CallPhase.answered p).Waits p' b := by
    intro p' b hwaits
    simp [CallPhase.Waits] at hwaits
  have hself : (i, p) ∈ σ.ahead := h.ahead i _ p hi (.inr (.inl rfl))
  refine ⟨fun j q p' hj hwaits => h.mem_without hq hj hwaits, fun p' hs j hj => ?_,
    fun p' hs => ?_, ?_⟩
  · exact h.stopped p' hs j (List.mem_of_mem_filter hj)
  · have hold := h.single p' hs
    have hsub : ((σ.call i p).ahead.filter fun a => a.2 = p').Sublist
        (σ.ahead.filter fun a => a.2 = p') := List.filter_sublist.filter _
    show (if p = p' then 1 else 0) + callsSince p' σ.events + _ ≤ 1
    by_cases hp : p = p'
    · subst hp
      have hgone : (i, p) ∉ (σ.call i p).ahead.filter fun a => a.2 = p := by
        simp [Traffic.call]
      have hlt : ((σ.call i p).ahead.filter fun a => a.2 = p).length <
          (σ.ahead.filter fun a => a.2 = p).length := by
        refine lt_of_le_of_ne hsub.length_le fun hlen => hgone ?_
        rw [hsub.eq_of_length hlen]
        exact List.mem_filter.2 ⟨hself, by simp⟩
      rw [if_pos rfl]
      omega
    · have hle := hsub.length_le
      rw [if_neg hp]
      omega
  · refine List.pairwise_cons.2 ⟨fun e he => ?_, h.spaced⟩
    cases e with
    | called => trivial
    | became p' s o =>
        cases s with
        | closed | half_open => trivial
        | open_ =>
            rintro rfl
            have hthen := hopened p' o he
            have hnot : (σ.breaker.window p').state ≠ .open_ := fun hs => h.stopped p' hs i hself
            rwa [if_neg hnot] at hthen

theorem allow {p : Uuid} (h : σ.Calm opts L) (hoptions : σ.breaker.options = opts)
    (hprobing : ∀ p, (σ.breaker.window p).Probing) :
    (σ.allow i p).2.Calm opts
      (Function.update L i (some (if (σ.allow i p).1 then .ahead p else .idle))) := by
  have hwindow := Window.allow_state opts σ.now (hprobing p)
  rw [← hoptions, ← window_allow i p] at hwindow
  refine ⟨fun j q p' hj hwaits => ?_, fun p' hs j hj => ?_, fun p' hs => ?_,
    spaced_eventsWith h.spaced⟩
  · by_cases hji : j = i
    · subst hji
      rw [Function.update_self] at hj
      cases hj
      cases hgrant : (σ.allow j p).1 with
      | true =>
          rw [hgrant] at hwaits
          obtain rfl : p = p' := by simpa [CallPhase.Waits] using hwaits
          rw [ahead_allow, if_pos hgrant]
          exact List.mem_cons_self
      | false =>
          rw [hgrant] at hwaits
          simp [CallPhase.Waits] at hwaits
    · rw [Function.update_of_ne hji] at hj
      exact ahead_subset_allow i p (h.ahead j q p' hj hwaits)
  · by_cases hp : p' = p
    · subst hp
      rcases hwindow with ⟨hsame, hgrant⟩ | ⟨hhalf, -⟩
      · have hopen : σ.state p' = .open_ := (congrArg Window.state hsame).symm.trans hs
        rcases mem_ahead_allow i p' hj with hold | ⟨hg, -⟩
        · exact h.stopped p' hopen j hold
        · exact absurd ((hgrant hg).symm.trans hopen) (by decide)
      · exact absurd (hhalf.symm.trans hs) (by decide)
    · rw [state_allow_of_ne i p hp] at hs
      rcases mem_ahead_allow i p hj with hold | ⟨-, -, heq⟩
      · exact h.stopped p' hs j hold
      · exact hp heq
  · by_cases hp : p' = p
    · subst hp
      rcases hwindow with ⟨hsame, hgrant⟩ | ⟨hhalf, -, hopen, -⟩
      · have hstate : σ.state p' = .half_open := (congrArg Window.state hsame).symm.trans hs
        have hrefused : ¬(σ.allow i p').1 = true := by
          intro hg
          exact absurd ((hgrant hg).symm.trans hstate) (by decide)
        have hevents : (σ.allow i p').2.events = σ.events :=
          eventsWith_of_eq (congrArg Window.state hsame)
        rw [hevents, ahead_allow, if_neg hrefused]
        exact h.single p' hstate
      · have hevents : callsSince p' (σ.allow i p').2.events = 0 := by
          refine callsSince_eventsWith fun heq => ?_
          exact absurd ((heq.symm.trans hhalf).symm.trans hopen) (by decide)
        have hnone : (σ.ahead.filter fun a => a.2 = p') = [] := by
          refine List.filter_eq_nil_iff.2 fun a ha hp' => ?_
          rw [decide_eq_true_eq] at hp'
          exact h.stopped p' hopen a.1 (hp' ▸ ha)
        rw [hevents, ahead_allow]
        split
        · simp [hnone]
        · simp [hnone]
    · rw [state_allow_of_ne i p hp] at hs
      rw [filter_ahead_allow i p hp]
      show callsSince p' (σ.eventsWith _ p) + _ ≤ 1
      rw [callsSince_eventsWith_of_ne hp]
      exact h.single p' hs

theorem record {p : Uuid} {ok : Bool} (h : σ.Calm opts L)
    (horderly : (σ.record i p ok).orderly = true) :
    (σ.record i p ok).Calm opts
      (Function.update L i (some (if ok then .answered p else .failed p))) := by
  have hwindow := Window.record_state σ.breaker.options (σ.breaker.window p) ok σ.now
  rw [← window_record i p] at hwindow
  have hahead := @ahead_record σ i p ok
  have hshut : (σ.record i p ok).shut i = decide ((σ.record i p ok).state p = .open_) := by
    rw [shut_record, Function.update_self]
  refine ⟨fun j q p' hj hwaits => ?_, fun p' hs j hj => ?_, fun p' hs => ?_,
    spaced_eventsWith h.spaced⟩
  · by_cases hji : j = i
    · subst hji
      rw [Function.update_self] at hj
      cases hj
      cases ok with
      | true => simp [CallPhase.Waits] at hwaits
      | false =>
          obtain ⟨rfl, hnot⟩ : p = p' ∧ (σ.record j p false).shut j = false := by
            simpa [CallPhase.Waits] using hwaits
          rw [hahead, hnot]
          exact List.mem_cons_self
    · rw [Function.update_of_ne hji] at hj
      rw [shut_record, Function.update_of_ne hji] at hwaits
      have hold := h.ahead j q p' hj hwaits
      rw [hahead]
      split
      · exact hold
      · exact List.mem_cons_of_mem _ hold
  · by_cases hp : p' = p
    · subst hp
      have hsame : (σ.record i p' ok).ahead = σ.ahead := by
        rw [hahead, hshut, hs]
        simp
      rw [hsame] at hj
      rcases hwindow with ⟨hopen, -⟩ | ⟨hopen, -⟩
      · exact h.stopped p' hopen j hj
      · have hopen' : σ.state p' ≠ .open_ := hopen
        have hbusy : σ.busy p' = false := by
          rw [orderly_record, hs] at horderly
          simpa [hopen'] using (Bool.and_eq_true_iff.1 horderly).2
        exact not_busy p' hbusy j hj
    · rw [state_record_of_ne i p ok hp] at hs
      rw [hahead] at hj
      split at hj
      · exact h.stopped p' hs j hj
      · rcases List.mem_cons.1 hj with heq | hj
        · exact hp (Prod.mk.inj heq).2
        · exact h.stopped p' hs j hj
  · by_cases hp : p' = p
    · subst hp
      rw [Traffic.state, window_record] at hs
      exact absurd hs (Window.record_not_half_open _ _ _ _)
    · rw [state_record_of_ne i p ok hp] at hs
      have hfilter : ((σ.record i p ok).ahead.filter fun a => a.2 = p') =
          σ.ahead.filter fun a => a.2 = p' := by
        rw [hahead]
        split
        · rfl
        · simp [Ne.symm hp]
      rw [hfilter]
      show callsSince p' (σ.eventsWith _ p) + _ ≤ 1
      rw [callsSince_eventsWith_of_ne hp]
      exact h.single p' hs

end

end Calm

namespace Kept

variable {opts : BreakerOptions} {σ : Traffic} {L : ℕ → Option CallPhase} {i : ℕ}

theorem update {q' : CallPhase} (h : σ.Kept opts L)
    (hq : σ.orderly = true → ∀ p, q'.Waits p (σ.shut i) → (i, p) ∈ σ.ahead) :
    σ.Kept opts (Function.update L i (some q')) :=
  ⟨h.options, h.probing, h.opened, fun ho => (h.calm ho).update (hq ho)⟩

/-- A request whose calls ahead stay. -/
theorem stay {q q' : CallPhase} (h : σ.Kept opts L) (hi : L i = some q)
    (hq : ∀ p, q'.Waits p (σ.shut i) → q.Waits p (σ.shut i)) :
    σ.Kept opts (Function.update L i (some q')) :=
  h.update fun ho p hwaits => (h.calm ho).ahead i q p hi (hq p hwaits)

theorem leave {q' : CallPhase} (h : σ.Kept opts L) (hq : ∀ p b, ¬q'.Waits p b) :
    (σ.leave i).Kept opts (Function.update L i (some q')) :=
  ⟨h.options, h.probing, h.opened, fun ho => (h.calm ho).leave hq⟩

theorem call {p : Uuid} (h : σ.Kept opts L) (hi : L i = some (.calling p)) :
    (σ.call i p).Kept opts (Function.update L i (some (.answered p))) := by
  refine ⟨h.options, h.probing, fun p' o hmem => ?_, fun ho => (h.calm ho).call hi h.opened⟩
  rcases List.mem_cons.1 hmem with heq | hold
  · cases heq
  · exact h.opened p' o hold

/-- A request that retries had its call ahead since its failure. -/
theorem retry {p : Uuid} (h : σ.Kept opts L) (hi : L i = some (.failed p)) :
    (σ.retry i).Kept opts (Function.update L i (some (.ahead p))) := by
  refine ⟨h.options, h.probing, h.opened, fun ho => ?_⟩
  obtain ⟨hbefore, hshut⟩ : σ.orderly = true ∧ σ.shut i = false := by
    simpa [Traffic.retry] using ho
  have hcalm : σ.Calm opts (Function.update L i (some (.ahead p))) := by
    refine (h.calm hbefore).update fun p' hwaits => ?_
    obtain rfl : p = p' := by simpa [CallPhase.Waits] using hwaits
    exact (h.calm hbefore).ahead i _ p hi (.inr (.inr ⟨rfl, hshut⟩))
  exact ⟨hcalm.ahead, hcalm.stopped, hcalm.single, hcalm.spaced⟩

theorem allow {p : Uuid} (h : σ.Kept opts L) : (σ.allow i p).2.Kept opts
    (Function.update L i (some (if (σ.allow i p).1 then .ahead p else .idle))) := by
  have hwindow := @window_allow σ i p
  rw [h.options] at hwindow
  refine ⟨h.options, fun p' => ?_, h.opened.turn ?_ fun p' hp => window_allow_of_ne i p hp,
    fun ho => (h.calm ho).allow h.options h.probing⟩
  · by_cases hp : p' = p
    · subst hp
      rw [hwindow]
      rcases Window.allow_state opts σ.now (h.probing p') with ⟨hsame, -⟩ | ⟨-, hprobe, -⟩
      · rw [hsame]
        exact h.probing p'
      · exact fun _ => hprobe
    · rw [window_allow_of_ne i p hp]
      exact h.probing p'
  · show (σ.breaker.window p).Turns opts σ.now ((σ.allow i p).2.breaker.window p)
    rw [hwindow]
    exact Window.turns_allow opts σ.now (h.probing p)

theorem record {p : Uuid} {ok : Bool} (h : σ.Kept opts L) : (σ.record i p ok).Kept opts
    (Function.update L i (some (if ok then .answered p else .failed p))) := by
  have hwindow := @window_record σ i p ok
  rw [h.options] at hwindow
  refine ⟨h.options, fun p' => ?_, h.opened.turn ?_ fun p' hp => window_record_of_ne i p ok hp,
    fun ho => (h.calm ?_).record ho⟩
  · by_cases hp : p' = p
    · subst hp
      rw [hwindow]
      exact fun hhalf => absurd hhalf (Window.record_not_half_open _ _ _ _)
    · rw [window_record_of_ne i p ok hp]
      exact h.probing p'
  · show (σ.breaker.window p).Turns opts σ.now ((σ.record i p ok).breaker.window p)
    rw [hwindow]
    exact Window.turns_record opts _ ok σ.now
  · rw [orderly_record] at ho
    exact (Bool.and_eq_true_iff.1 ho).1

end Kept

end Traffic

/-! ### The runs -/

theorem CallPhase.not_waits_idle (p : Uuid) (b : Bool) : ¬CallPhase.idle.Waits p b := by
  simp [Waits]

theorem traffic_act {opts : BreakerOptions} {i : ℕ} {σ : Traffic} {L : ℕ → Option CallPhase} {q : CallPhase} {e : Op}
    {r : e.Answer} (h : σ.Kept opts L) (hi : L i = some q) (hok : q.Ok e) (hr : σ.Answers i e r) :
    (σ.step i q e r).Kept opts (Function.update L i (some (q.next e r))) := by
  cases e with
  | breakerAllow p =>
      obtain rfl : q = .idle := hok
      obtain rfl : r = (σ.allow i p).1 := hr
      exact h.allow
  | breakerRecord p ok =>
      obtain rfl : q = .answered p := hok
      exact h.record
  | shedAcquire p =>
      obtain rfl : q = .ahead p := hok
      cases r with
      | true => exact h.stay hi fun _ hwaits => hwaits
      | false => exact h.leave CallPhase.not_waits_idle
  | shedRelease p =>
      have hnext : q.next (.shedRelease p) r = .idle := CallPhase.next_release q p
      have hstep : σ.step i q (.shedRelease p) r = σ.leave i := by cases q <;> rfl
      rw [hnext, hstep]
      exact h.leave CallPhase.not_waits_idle
  | execute c route env =>
      obtain rfl : q = .calling route.provider.id := hok
      exact h.call hi
  | sleep ms =>
      obtain ⟨p, rfl⟩ := hok
      cases r with
      | true => exact h.retry hi
      | false => exact h.stay hi fun _ hwaits => hwaits
  | signalAborted =>
      cases q with
      | ahead p =>
          cases r with
          | true =>
              refine h.leave fun p' b hwaits => ?_
              simp [CallPhase.next, CallPhase.Waits] at hwaits
          | false =>
              refine h.stay hi fun p' hwaits => ?_
              obtain rfl : p = p' := by simpa [CallPhase.next, CallPhase.Waits] using hwaits
              exact .inl rfl
      | _ => exact h.stay hi fun _ hwaits => hwaits
  | _ =>
      have hstep : ∀ q' : CallPhase, σ.step i q' _ r = σ ∧ q'.next _ r = q' := by
        intro q'
        cases q' <;> exact ⟨rfl, rfl⟩
      rw [(hstep q).1, (hstep q).2]
      exact h.stay hi fun _ hwaits => hwaits

section
variable [Platform] {deps : PipelineDeps} {cfg : ResilienceConfig} {opts : BreakerOptions}

theorem traffic_preserves : System.Preserves (traffic deps cfg) (fun _ _ _ => True) CallPhase.Ok
    (fun _ q => q = .idle) (Traffic.Kept opts) where
  start_wp := by
    rintro i σ p q ⟨⟨c, rfl⟩, rfl⟩
    exact System.wp_view (CallPhase.executeResilient_phases cfg deps)
  spawn := by
    rintro i σ L p q h hi ⟨-, rfl⟩
    exact h.update fun _ p hwaits => absurd hwaits (CallPhase.not_waits_idle p _)
  rely _ _ _ _ _ _ _ _ _ _ _ := trivial
  act := by
    rintro i σ L q e r σ' h hi hok - ⟨hr, rfl⟩
    exact traffic_act h hi hok hr
  drift := by
    rintro σ σ' L h ⟨t, ht, rfl⟩
    refine ⟨h.options, h.probing, fun p o hmem => ?_, fun ho => ?_⟩
    · have hthen := h.opened p o hmem
      split
      · next hopen => rwa [if_pos hopen] at hthen
      · next hopen =>
          rw [if_neg hopen] at hthen
          exact hthen.trans ht
    · have hcalm := h.calm ho
      exact ⟨hcalm.ahead, hcalm.stopped, hcalm.single, hcalm.spaced⟩

/-- **An open circuit stops the traffic.**  In every orderly run no call of a provider starts before
its circuit has been open for its time, and a half-open circuit gets one call. -/
theorem open_circuit_stops {P : Pool ℕ Op Op.Answer (Except Thrown AIResponse × PipelineCtx) Traffic
      CallPhase}
    (hP : (traffic deps cfg).Reachable (.new opts) P) (horderly : P.shared.orderly = true) :
    P.shared.events.Pairwise (Spaced opts) ∧
      ∀ p, P.shared.state p = .half_open → callsSince p P.shared.events ≤ 1 := by
  have h0 : Traffic.Kept opts (.new opts) fun _ => none := by
    refine ⟨rfl, fun p hs => (by cases hs), fun p o hmem => absurd hmem List.not_mem_nil, fun _ => ?_⟩
    exact ⟨fun i q p hi => (by cases hi), fun p hs => (by cases hs), fun p hs => (by cases hs),
      List.Pairwise.nil⟩
  have hcalm := (System.invariant traffic_preserves h0 hP).1.calm horderly
  refine ⟨hcalm.spaced, fun p hs => ?_⟩
  have hsingle := hcalm.single p hs
  omega

end

/-! ### Retries into an open circuit -/

namespace Sample

/-- Every call of the provider fails. -/
def trafficAnswer (i : ℕ) (σ : Traffic) (q : CallPhase) : (e : Op) → e.Answer × Traffic
  | .breakerAllow p => σ.allow i p
  | .shedAcquire p => (true, σ.step i q (.shedAcquire p) true)
  | .execute _ route _ =>
      (.error (.router { code := .provider_unavailable, message := "upstream 503" }),
        σ.call i route.provider.id)
  | e => (tables.answer e, σ.step i q e (tables.answer e))

theorem trafficAnswer_sound [Platform] (cfg : ResilienceConfig) :
    System.Sound (traffic deps cfg) trafficAnswer := by
  intro i σ q e
  have h := tables.lawful_answer e
  cases e with
  | breakerAllow p => exact ⟨trivial, rfl, by cases q <;> rfl⟩
  | shedAcquire p => exact ⟨trivial, trivial, rfl⟩
  | execute c route env => exact ⟨trivial, trivial, by cases q <;> rfl⟩
  | _ => exact ⟨h, trivial, rfl⟩

def trafficRequest : Prog Op Op.Answer (Except Thrown AIResponse × PipelineCtx) :=
  letI := platform
  executeResilient deps probeConfig (admitted "r" [])

/-- Four requests, of which some run, one after the other. -/
def trafficPool (opts : BreakerOptions) (running : List ℕ) :
    Pool ℕ Op Op.Answer (Except Thrown AIResponse × PipelineCtx) Traffic CallPhase :=
  (System.initial (.new opts)).exec CallPhase.env.next trafficAnswer
    ([.spawn 0 trafficRequest .idle, .spawn 1 trafficRequest .idle, .spawn 2 trafficRequest .idle,
      .spawn 3 trafficRequest .idle] ++ running.map fun i => .run i 100)

theorem trafficPool_reachable (opts : BreakerOptions) (running : List ℕ) :
    letI := platform
    (traffic deps probeConfig).Reachable (.new opts) (trafficPool opts running) := by
  let := platform
  have hstart : ∀ i σ, (traffic deps probeConfig).start i σ trafficRequest .idle :=
    fun _ _ => ⟨⟨_, rfl⟩, rfl⟩
  have hruns : ∀ P : Pool ℕ Op Op.Answer (Except Thrown AIResponse × PipelineCtx) Traffic CallPhase,
      P.Permits (traffic deps probeConfig) trafficAnswer (running.map fun i => .run i 100) := by
    intro P
    induction running generalizing P with
    | nil => trivial
    | cons i running ih => exact ih _
  exact System.reachable_exec (trafficAnswer_sound probeConfig) .refl ⟨rfl, hstart _ _, rfl,
    hstart _ _, rfl, hstart _ _, rfl, hstart _ _, hruns _⟩

end Sample

/-- The last attempt of the first request opens the circuit, and the second is refused. -/
theorem sample_open_circuit_stops :
    (Sample.trafficPool { minSamples := 3 } [0, 1]).shared.events.Pairwise
        (Spaced { minSamples := 3 }) ∧
      ∀ p, (Sample.trafficPool { minSamples := 3 } [0, 1]).shared.state p = .half_open →
        callsSince p (Sample.trafficPool { minSamples := 3 } [0, 1]).shared.events ≤ 1 := by
  let := Sample.platform
  have horderly : (Sample.trafficPool { minSamples := 3 } [0, 1]).shared.orderly = true := by
    decide +kernel
  exact open_circuit_stops (Sample.trafficPool_reachable _ [0, 1]) horderly

/-- The tenth failure opens the circuit, and its request tries again. -/
theorem retries_reach_open_circuit :
    letI := Sample.platform
    ¬∀ P : Pool ℕ Op Op.Answer (Except Thrown AIResponse × PipelineCtx) Traffic CallPhase,
      (traffic Sample.deps Sample.probeConfig).Reachable (.new {}) P →
        P.shared.events.Pairwise (Spaced {}) ∧
          ∀ p, P.shared.state p = .half_open → callsSince p P.shared.events ≤ 1 := by
  let := Sample.platform
  intro h
  have hspaced := (h _ (Sample.trafficPool_reachable {} [0, 1, 2, 3])).1
  have hevents : (Sample.trafficPool {} [0, 1, 2, 3]).shared.events.take 3 =
      [.called 3 Sample.cloudProviderId 0, .called 3 Sample.cloudProviderId 0,
        .became Sample.cloudProviderId .open_ 0] := by decide +kernel
  have hearly : [TrafficEvent.called 3 Sample.cloudProviderId 0,
      .called 3 Sample.cloudProviderId 0,
      .became Sample.cloudProviderId .open_ 0].Pairwise (Spaced {}) := by
    rw [← hevents]
    exact hspaced.sublist (List.take_sublist _ _)
  have hlate := (List.pairwise_cons.1 hearly).1 _ (List.mem_cons_of_mem _ (List.mem_cons_self ..))
  exact absurd (hlate rfl) (by decide)

end VibeRouter
