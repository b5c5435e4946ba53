import VibeRouter.Db.Schema
import VibeRouter.Lib.JsMap
import Mathlib.Algebra.Order.Field.Rat

/-! # The circuit breaker

One window of outcomes for each provider.  `allow` asks whether a request may proceed: an open
circuit admits one probe once it has been open long enough.  `record` adds an outcome, ends a
probe, and opens a closed circuit that has failed too often. -/

namespace VibeRouter

inductive BreakerState
  | closed | open_ | half_open
deriving DecidableEq, Repr

structure Outcome where
  ok : Bool
  at_ : ℕ
deriving DecidableEq, Repr

structure Window where
  outcomes : List Outcome
  state : BreakerState
  openedAt : ℕ
  halfOpenProbeInFlight : Bool
deriving DecidableEq

/-- The window of a provider nothing is known of. -/
def Window.fresh : Window := ⟨[], .closed, 0, false⟩

structure BreakerOptions where
  windowMs : ℕ := 30000
  minSamples : ℕ := 10
  openThreshold : ℚ := 1 / 2
  openDurationMs : ℕ := 30000

namespace Window

def prune (opts : BreakerOptions) (w : Window) (now : ℕ) : Window :=
  { w with outcomes := w.outcomes.dropWhile fun o => o.at_ + opts.windowMs < now }

def errorRate (w : Window) : ℚ :=
  if w.outcomes.length = 0 then 0
  else ((w.outcomes.filter fun o => !o.ok).length : ℚ) / w.outcomes.length

/-- May a request proceed, and the window after. -/
def allow (opts : BreakerOptions) (w : Window) (now : ℕ) : Bool × Window :=
  match w.state with
  | .closed => (true, w)
  | .open_ =>
      if (opts.openDurationMs : ℤ) ≤ (now : ℤ) - w.openedAt then
        (true, { w with state := .half_open, halfOpenProbeInFlight := true })
      else (false, w)
  | .half_open =>
      if !w.halfOpenProbeInFlight then (true, { w with halfOpenProbeInFlight := true })
      else (false, w)

/-- The window after an outcome. -/
def record (opts : BreakerOptions) (w : Window) (ok : Bool) (now : ℕ) : Window :=
  let w := Window.prune opts { w with outcomes := w.outcomes ++ [⟨ok, now⟩] } now
  match w.state with
  | .half_open =>
      if ok then
        { w with halfOpenProbeInFlight := false, outcomes := w.outcomes.filter Outcome.ok,
                 state := .closed }
      else { w with halfOpenProbeInFlight := false, openedAt := now, state := .open_ }
  | .closed =>
      if !ok ∧ opts.minSamples ≤ w.outcomes.length ∧ opts.openThreshold ≤ w.errorRate then
        { w with openedAt := now, state := .open_ }
      else w
  | .open_ => w

end Window

structure CircuitBreaker where
  windows : JsMap Uuid Window
  options : BreakerOptions := {}

namespace CircuitBreaker

/-- `new CircuitBreaker(options)`. -/
def new (options : BreakerOptions) : CircuitBreaker := ⟨.empty, options⟩

def window (b : CircuitBreaker) (providerId : Uuid) : Window :=
  (b.windows.get providerId).getD .fresh

/-- Replace one window. -/
def put (b : CircuitBreaker) (providerId : Uuid) (w : Window) : CircuitBreaker :=
  { b with windows := b.windows.set providerId w }

def allow (b : CircuitBreaker) (providerId : Uuid) (now : ℕ) : Bool × CircuitBreaker :=
  let r := (b.window providerId).allow b.options now
  (r.1, b.put providerId r.2)

def record (b : CircuitBreaker) (providerId : Uuid) (ok : Bool) (now : ℕ) : CircuitBreaker :=
  b.put providerId ((b.window providerId).record b.options ok now)

@[simp] theorem put_options (b : CircuitBreaker) (p : Uuid) (w : Window) :
    (b.put p w).options = b.options := rfl

@[simp] theorem window_put_self (b : CircuitBreaker) (p : Uuid) (w : Window) :
    (b.put p w).window p = w := by
  simp [put, window]

theorem window_put_of_ne (b : CircuitBreaker) {p p' : Uuid} (w : Window) (h : p' ≠ p) :
    (b.put p w).window p' = b.window p' := by
  simp [put, window, JsMap.get_set_of_ne _ _ h]

end CircuitBreaker

end VibeRouter
