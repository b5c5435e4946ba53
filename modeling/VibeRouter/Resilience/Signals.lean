import VibeRouter.Resilience.ExecutorSpecs

/-! # Abort signals

The signals of one request.  The composite signal is aborted by the client or by the total
timer.  A hop of the streaming executor has a controller of its own, which is aborted by its
idle timer and, through a listener, by the composite signal; a listener that is added to a
signal that is aborted already is never called.

Clients and timers act while the code waits.  `World` runs a request against a script of what
they do during each of its operations; every order of events is that of some script. -/

namespace VibeRouter

open Effects

inductive AbortReason
  | client | timeout | idle
deriving DecidableEq, Repr

/-- The controller of a hop.  `linked`: its listener was added before the composite signal was
aborted. -/
structure HopSignal where
  linked : Bool
  reason : Option AbortReason := none
  idleArmed : Bool := false
  idleFired : Bool := false
deriving DecidableEq

/-- `controller.abort(reason)`; only the first abort counts. -/
def HopSignal.abort (h : HopSignal) (why : AbortReason) : HopSignal :=
  { h with reason := h.reason.or (some why) }

theorem HopSignal.abort_reason (h : HopSignal) (why : AbortReason) :
    (h.abort why).reason.isSome = true := by
  simp [HopSignal.abort]

/-- The client's signal, the total timer, the composite signal and the controller of the hop. -/
structure Signals where
  client : Bool := false
  listening : Bool := false
  armed : Bool := false
  fired : Bool := false
  reason : Option AbortReason := none
  hop : Option HopSignal := none
deriving DecidableEq

/-- What the client and the timers do. -/
inductive SignalEvent
  | clientAborts | totalFires | idleFires
deriving DecidableEq, Repr

namespace Signals

/-- The composite signal is aborted, and tells the hop that listens. -/
def abort (s : Signals) (why : AbortReason) : Signals :=
  if s.reason.isSome then s
  else
    { s with
      reason := some why
      hop := s.hop.map fun h => if h.linked then h.abort why else h }

def occur (s : Signals) : SignalEvent → Signals
  | .clientAborts =>
      if s.listening then { s with client := true }.abort .client else { s with client := true }
  | .totalFires => if s.armed then { s with armed := false, fired := true }.abort .timeout else s
  | .idleFires =>
      { s with
        hop := s.hop.map fun h =>
          if h.idleArmed then { h with idleArmed := false, idleFired := true }.abort .idle else h }

/-- What an operation itself does to the signals. -/
def perform (s : Signals) : Op → Signals
  | .openSignal _ =>
      { client := s.client, listening := !s.client, armed := true
        reason := if s.client then some .client else none }
  | .clearTotalTimeout => { s with armed := false }
  | .disposeSignal => { s with armed := false, listening := false }
  | .openHop => { s with hop := some { linked := s.reason.isNone } }
  | .armIdle _ => { s with hop := s.hop.map fun h => { h with idleArmed := true } }
  | .closeHop => { s with hop := none }
  | _ => s

/-- The timer has aborted the composite signal if anybody has not done so before. -/
def Timed (s : Signals) : Prop :=
  (s.fired = true → s.reason.isSome = true) ∧ (s.reason = some .timeout → s.fired = true)

/-- A hop that listens to the composite signal is aborted with it. -/
def Linked (s : Signals) : Prop :=
  ∀ h, s.hop = some h → h.linked = true → s.reason.isSome = true → h.reason.isSome = true

section
variable {s : Signals}

@[simp] theorem abort_reason (why : AbortReason) : (s.abort why).reason = s.reason.or (some why) := by
  unfold abort
  cases hr : s.reason <;> simp [hr]

@[simp] theorem abort_fired (why : AbortReason) : (s.abort why).fired = s.fired := by
  unfold abort
  split <;> rfl

@[simp] theorem abort_hop_isSome (why : AbortReason) : (s.abort why).hop.isSome = s.hop.isSome := by
  unfold abort
  split <;> simp

theorem occur_hop_isSome (event : SignalEvent) : (s.occur event).hop.isSome = s.hop.isSome := by
  cases event with
  | clientAborts =>
      simp only [Signals.occur]
      split <;> simp
  | totalFires =>
      simp only [Signals.occur]
      split <;> simp
  | idleFires => simp [occur]

theorem timed_abort (h : s.reason = some .timeout → s.fired = true) {why : AbortReason}
    (hwhy : why = .timeout → s.fired = true) : (s.abort why).Timed := by
  refine ⟨fun _ => by simp, fun hr => ?_⟩
  rw [abort_reason] at hr
  rw [abort_fired]
  cases hreason : s.reason with
  | none =>
      rw [hreason] at hr
      exact hwhy (Option.some.inj hr)
  | some why' =>
      rw [hreason] at hr
      exact h (hreason.trans hr)

theorem Timed.occur (h : s.Timed) (event : SignalEvent) : (s.occur event).Timed := by
  cases event with
  | clientAborts =>
      simp only [Signals.occur]
      split
      · exact timed_abort (s := { s with client := true }) h.2 (by simp)
      · exact h
  | totalFires =>
      simp only [Signals.occur]
      split
      · exact timed_abort (s := { s with armed := false, fired := true }) (fun _ => rfl) fun _ => rfl
      · exact h
  | idleFires => exact h

theorem Linked.abort (h : s.Linked) (why : AbortReason) : (s.abort why).Linked := by
  unfold Signals.abort
  split
  · exact h
  · intro hop hhop hlinked _
    obtain ⟨hop', -, rfl⟩ := Option.map_eq_some_iff.1 hhop
    by_cases hlisten : hop'.linked = true
    · rw [if_pos hlisten]
      exact HopSignal.abort_reason _ _
    · rw [if_neg hlisten] at hlinked
      exact absurd hlinked hlisten

theorem Linked.occur (h : s.Linked) (event : SignalEvent) : (s.occur event).Linked := by
  cases event with
  | clientAborts =>
      simp only [Signals.occur]
      split
      · exact Linked.abort (s := { s with client := true }) h .client
      · exact h
  | totalFires =>
      simp only [Signals.occur]
      split
      · exact Linked.abort (s := { s with armed := false, fired := true }) h .timeout
      · exact h
  | idleFires =>
      intro hop hhop hlinked hreason
      obtain ⟨hop', hhop', rfl⟩ := Option.map_eq_some_iff.1 hhop
      by_cases hidle : hop'.idleArmed = true
      · rw [if_pos hidle]
        exact HopSignal.abort_reason _ _
      · rw [if_neg hidle] at hlinked ⊢
        exact h hop' hhop' hlinked hreason

theorem Timed.perform (h : s.Timed) (e : Op) : (s.perform e).Timed := by
  cases e with
  | openSignal ms =>
      refine ⟨fun hf => ?_, fun hr => ?_⟩
      · cases hf
      · simp only [Signals.perform] at hr
        split at hr <;> cases hr
  | _ => exact h

theorem Linked.perform (h : s.Linked) (e : Op) : (s.perform e).Linked := by
  cases e with
  | openSignal ms => exact fun hop hhop => by cases hhop
  | openHop =>
      rintro hop ⟨⟩ hlinked hreason
      simp only [Signals.perform] at hlinked hreason
      rw [Option.isNone_iff_eq_none] at hlinked
      rw [hlinked] at hreason
      cases hreason
  | armIdle ms =>
      intro hop hhop hlinked hreason
      obtain ⟨hop', hhop', rfl⟩ := Option.map_eq_some_iff.1 hhop
      exact h hop' hhop' hlinked hreason
  | closeHop => exact fun hop hhop => by cases hhop
  | _ => exact h

end

end Signals

/-- The operations whose answer the code waits for. -/
def Op.awaits : Op → Bool
  | .findAppToken _ | .findFirm _ | .findProvider _ _ | .findTaskClass _ | .findPolicy _ _
  | .findModels _ | .findRolePolicies _ | .findBudget _ _ _ | .sumLedger _ _ _ | .getApiKey _
  | .execute _ _ _ | .pull | .closeStream | .sleep _ | .shedAcquire _ | .pricingAt _ _
  | .insertUsage _ | .incrementBudget _ _ _ _ => true
  | _ => false

/-- A request under its signals: what is going to happen during its operations, and how many of
them it has made. -/
structure World where
  script : ℕ → List SignalEvent
  tick : ℕ := 0
  signals : Signals := {}

namespace World

/-- The signals once the events of an operation have happened. -/
def during (w : World) (e : Op) : Signals :=
  if e.awaits then (w.script w.tick).foldl Signals.occur w.signals else w.signals

def next (w : World) (e : Op) : World :=
  { w with tick := w.tick + 1, signals := (w.during e).perform e }

/-- The code waits for the consumer of a stream. -/
def pause (w : World) : World :=
  { w with tick := w.tick + 1, signals := (w.script w.tick).foldl Signals.occur w.signals }

/-- What the flags say, and how a wait ends that is aborted. -/
def Allows (w : World) : (e : Op) → e.Answer → Prop
  | .signalAborted, r => r = w.signals.reason.isSome
  | .timedOut, r => r = w.signals.fired
  | .clientAborted, r => r = w.signals.client
  | .idleFired, r => r = (w.signals.hop.map HopSignal.idleFired).getD false
  | .sleep ms, r => r = (w.during (.sleep ms)).reason.isNone
  | .shedAcquire p, r => r = true → w.signals.reason = none →
      (w.during (.shedAcquire p)).reason = none
  | e, r => e.Lawful r

theorem Allows.lawful {w : World} {e : Op} {r : e.Answer} (h : w.Allows e r) : e.Lawful r := by
  cases e with
  | signalAborted => trivial
  | timedOut => trivial
  | clientAborted => trivial
  | idleFired => trivial
  | sleep ms => trivial
  | shedAcquire p => trivial
  | _ => exact h

end World

/-! ### What is kept -/

namespace Signals

/-- Nothing that happens can end `J`. -/
def Kept (J : Signals → Prop) : Prop := ∀ s event, J s → J (s.occur event)

theorem Kept.foldl {J : Signals → Prop} (hJ : Kept J) {s : Signals} (h : J s)
    (events : List SignalEvent) : J (events.foldl occur s) := by
  induction events generalizing s with
  | nil => exact h
  | cons event events ih => exact ih (hJ s event h)

theorem Kept.during {J : Signals → Prop} (hJ : Kept J) {w : World} (h : J w.signals) (e : Op) :
    J (w.during e) := by
  unfold World.during
  split
  · exact hJ.foldl h _
  · exact h

theorem kept_timed : Kept Timed := fun _ event h => h.occur event

theorem kept_linked : Kept Linked := fun _ event h => h.occur event

theorem kept_hop (b : Bool) : Kept fun s => s.hop.isSome = b := fun s event h =>
  (s.occur_hop_isSome event).trans h

end Signals

end VibeRouter
