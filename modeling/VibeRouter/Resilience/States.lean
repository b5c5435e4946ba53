import VibeRouter.Resilience.Breaker
import Mathlib.Algebra.Order.Field.Basic
import Mathlib.Tactic.Positivity

/-! # The three states of a circuit

What the window of a provider has been through is the sequence of calls of `allow` and `record`, with
times that do not decrease.  A circuit opens when the failing share of the outcomes in the window is
too high, refuses until it has been open for long enough, and then admits one probe; a successful
probe closes it and forgets the failures. -/

namespace VibeRouter

/-- A call of the breaker. -/
inductive BreakerCall
  | allow (at_ : ℕ)
  | record (ok : Bool) (at_ : ℕ)
deriving DecidableEq

namespace BreakerCall

def time : BreakerCall → ℕ
  | allow t => t
  | record _ t => t

def outcome : BreakerCall → Option Outcome
  | allow _ => none
  | record ok t => some ⟨ok, t⟩

end BreakerCall

/-- Times do not decrease. -/
def InTime (calls : List BreakerCall) : Prop := (calls.map BreakerCall.time).Pairwise (· ≤ ·)

theorem InTime.init {calls later : List BreakerCall} (h : InTime (calls ++ later)) : InTime calls := by
  unfold InTime at h ⊢
  rw [List.map_append] at h
  exact (List.pairwise_append.1 h).1

/-- Every earlier call was made by the time of a later one. -/
theorem InTime.le {calls later : List BreakerCall} (h : InTime (calls ++ later)) {c c' : BreakerCall}
    (hc : c ∈ calls) (hc' : c' ∈ later) : c.time ≤ c'.time := by
  unfold InTime at h
  rw [List.map_append, List.pairwise_append] at h
  exact h.2.2 _ (List.mem_map_of_mem hc) _ (List.mem_map_of_mem hc')

/-- The outcomes that were recorded, oldest first. -/
def outcomesOf (calls : List BreakerCall) : List Outcome := calls.filterMap BreakerCall.outcome

/-- The outcomes of the last `windowMs` before `now`. -/
def recent (opts : BreakerOptions) (now : ℕ) (os : List Outcome) : List Outcome :=
  os.filter fun o => !decide (o.at_ + opts.windowMs < now)

def failures (os : List Outcome) : List Outcome := os.filter fun o => !o.ok

/-- The share of failures; 0 when there is no outcome. -/
def failingShare (os : List Outcome) : ℚ :=
  if os.length = 0 then 0 else ((failures os).length : ℚ) / os.length

/-! ### Lists of outcomes -/

/-- When what is dropped comes first, the rest is what is kept. -/
theorem dropWhile_eq_filter {α : Type} {p : α → Bool} {l : List α}
    (h : l.Pairwise fun a b => p b = true → p a = true) : l.dropWhile p = l.filter fun a => !p a := by
  induction l with
  | nil => rfl
  | cons a l ih =>
      obtain ⟨hhead, htail⟩ := List.pairwise_cons.1 h
      by_cases ha : p a = true
      · rw [List.dropWhile_cons_of_pos ha, ih htail, List.filter_cons_of_neg (by simp [ha])]
      · have hkeep : l.filter (fun b => !p b) = l := by
          refine List.filter_eq_self.2 fun b hb => ?_
          cases hpb : p b with
          | false => rfl
          | true => exact absurd (hhead b hb hpb) ha
        rw [List.dropWhile_cons_of_neg ha, List.filter_cons_of_pos (by simp [ha]), hkeep]

/-- Outcomes are successes and failures. -/
theorem length_outcomes (os : List Outcome) :
    os.length = (os.filter Outcome.ok).length + (failures os).length := by
  unfold failures
  induction os with
  | nil => rfl
  | cons o os ih =>
      cases hok : o.ok with
      | true => simp [hok]; omega
      | false => simp [hok]; omega

/-- More failures with the same successes are a higher share. -/
theorem failingShare_mono {os os' : List Outcome} (hsub : os.Sublist os')
    (hok : os.filter Outcome.ok = os'.filter Outcome.ok) : failingShare os ≤ failingShare os' := by
  have hfail : (failures os).length ≤ (failures os').length := (hsub.filter _).length_le
  have hlength := length_outcomes os
  have hlength' := length_outcomes os'
  rw [← hok] at hlength'
  unfold failingShare
  by_cases hzero : os.length = 0
  · rw [if_pos hzero]
    split
    · exact le_refl _
    · positivity
  · rw [if_neg hzero, if_neg (by omega)]
    have hpos : (0 : ℚ) < os.length := by exact_mod_cast Nat.pos_of_ne_zero hzero
    have hpos' : (0 : ℚ) < os'.length := by
      exact_mod_cast (by omega : 0 < os'.length)
    rw [div_le_div_iff₀ hpos hpos', hlength, hlength']
    have hcross : (failures os).length * ((os.filter Outcome.ok).length + (failures os').length) ≤
        (failures os').length * ((os.filter Outcome.ok).length + (failures os).length) := by
      have := Nat.mul_le_mul_right (os.filter Outcome.ok).length hfail
      have hcomm := Nat.mul_comm (failures os).length (failures os').length
      rw [Nat.mul_add, Nat.mul_add]
      omega
    exact_mod_cast hcross

/-! ### Runs -/

namespace Window

variable (opts : BreakerOptions)

/-- The window after a call. -/
def after (w : Window) : BreakerCall → Window
  | .allow t => (w.allow opts t).2
  | .record ok t => w.record opts ok t

/-- The call is an `allow` that is answered with true. -/
def grants (w : Window) : BreakerCall → Bool
  | .allow t => (w.allow opts t).1
  | .record _ _ => false

/-- The window after a sequence of calls. -/
def run (w : Window) (calls : List BreakerCall) : Window := calls.foldl (after opts) w

/-- The number of times `allow` answers with true in a sequence of calls. -/
def granted (w : Window) : List BreakerCall → ℕ
  | [] => 0
  | c :: cs => (if w.grants opts c then 1 else 0) + granted (w.after opts c) cs

variable {opts} {w : Window}

theorem run_append (w : Window) (pre post : List BreakerCall) :
    w.run opts (pre ++ post) = (w.run opts pre).run opts post := List.foldl_append

theorem run_concat (w : Window) (pre : List BreakerCall) (c : BreakerCall) :
    w.run opts (pre ++ [c]) = (w.run opts pre).after opts c := run_append w pre [c]

theorem run_cons (w : Window) (c : BreakerCall) (post : List BreakerCall) :
    w.run opts (c :: post) = (w.after opts c).run opts post := rfl

/-- What a call can do to the state. -/
theorem after_cases (w : Window) (c : BreakerCall) :
    (w.after opts c).state = w.state ∨
    (w.state = .open_ ∧ (w.after opts c).state = .half_open ∧
      (w.after opts c).halfOpenProbeInFlight = true ∧ ∃ t, c = .allow t ∧
        (w.allow opts t).1 = true ∧ (opts.openDurationMs : ℤ) ≤ (t : ℤ) - w.openedAt) ∨
    (w.state = .half_open ∧ (w.after opts c).state = .closed ∧
      (∃ t, c = .record true t) ∧ failures (w.after opts c).outcomes = []) ∨
    ((w.after opts c).state = .open_ ∧ ∃ t, c = .record false t ∧ (w.after opts c).openedAt = t ∧
      (w.state = .half_open ∨
        w.state = .closed ∧ opts.minSamples ≤ (w.after opts c).outcomes.length ∧
          opts.openThreshold ≤ failingShare (w.after opts c).outcomes)) := by
  cases c with
  | allow t =>
      unfold after allow
      dsimp only
      cases hstate : w.state with
      | closed => exact Or.inl hstate
      | open_ =>
          dsimp only
          by_cases helapsed : (opts.openDurationMs : ℤ) ≤ (t : ℤ) - w.openedAt
          · rw [if_pos helapsed]
            exact Or.inr (Or.inl ⟨rfl, rfl, rfl, t, rfl, by simp [helapsed], helapsed⟩)
          · rw [if_neg helapsed]
            exact Or.inl hstate
      | half_open =>
          dsimp only
          split
          · exact Or.inl rfl
          · exact Or.inl hstate
  | record ok t =>
      have hprune : ∀ w' : Window, (prune opts w' t).state = w'.state := fun _ => rfl
      unfold after record
      dsimp only
      rw [hprune]
      cases hstate : w.state with
      | open_ => exact Or.inl rfl
      | half_open =>
          cases ok with
          | true =>
              refine Or.inr (Or.inr (Or.inl ⟨rfl, rfl, ⟨t, rfl⟩, ?_⟩))
              refine List.filter_eq_nil_iff.2 fun o ho => ?_
              have hok := (List.mem_filter.1 ho).2
              simp [hok]
          | false => exact Or.inr (Or.inr (Or.inr ⟨rfl, t, rfl, rfl, Or.inl rfl⟩))
      | closed =>
          dsimp only
          split
          · next hopens =>
              obtain ⟨hfail, hsamples, hshare⟩ := hopens
              have hok : ok = false := by simpa using hfail
              refine Or.inr (Or.inr (Or.inr ⟨rfl, t, by rw [hok], rfl, Or.inr ⟨rfl, hsamples, ?_⟩⟩))
              exact hshare
          · exact Or.inl rfl

/-! ### Opening -/

/-- A call that opens the circuit, and when. -/
theorem opens (hbefore : w.state ≠ .open_) {c : BreakerCall} (h : (w.after opts c).state = .open_) :
    ∃ t, c = .record false t ∧ (w.after opts c).openedAt = t ∧
      (w.state = .closed → opts.minSamples ≤ (w.after opts c).outcomes.length ∧
        opts.openThreshold ≤ failingShare (w.after opts c).outcomes) := by
  rcases after_cases w c with hsame | ⟨-, hhalf, -⟩ | ⟨-, hclosed, -⟩ | ⟨-, t, hc, hat, hwhy⟩
  · rw [h] at hsame
    exact absurd hsame.symm hbefore
  · rw [h] at hhalf
    cases hhalf
  · rw [h] at hclosed
    cases hclosed
  · refine ⟨t, hc, hat, fun hstate => ?_⟩
    rcases hwhy with hhalf | ⟨-, hopens⟩
    · rw [hstate] at hhalf
      cases hhalf
    · exact hopens

/-- An open circuit stays as it is until it has been open for long enough. -/
theorem after_open (hopen : w.state = .open_) {c : BreakerCall}
    (hearly : c.time < w.openedAt + opts.openDurationMs) :
    (w.after opts c).state = .open_ ∧ (w.after opts c).openedAt = w.openedAt ∧
      w.grants opts c = false := by
  cases c with
  | record ok t =>
      unfold after record
      dsimp only
      have hprune : (prune opts { w with outcomes := w.outcomes ++ [⟨ok, t⟩] } t).state = .open_ := hopen
      rw [hprune]
      exact ⟨hopen, rfl, rfl⟩
  | allow t =>
      have hnot : ¬(opts.openDurationMs : ℤ) ≤ (t : ℤ) - w.openedAt := by
        simp only [BreakerCall.time] at hearly
        omega
      unfold after grants allow
      simp only [hopen, if_neg hnot]
      trivial

/-- **No request is admitted while the circuit is open.** -/
theorem run_open (hopen : w.state = .open_) {mid : List BreakerCall}
    (hearly : ∀ c ∈ mid, c.time < w.openedAt + opts.openDurationMs) :
    (w.run opts mid).state = .open_ ∧ (w.run opts mid).openedAt = w.openedAt := by
  induction mid generalizing w with
  | nil => exact ⟨hopen, rfl⟩
  | cons c mid ih =>
      obtain ⟨hstate, hat, -⟩ := after_open hopen (hearly c (List.mem_cons_self ..))
      rw [run_cons, ← hat]
      refine ih hstate fun c' hc' => ?_
      rw [hat]
      exact hearly c' (List.mem_cons_of_mem _ hc')

/-! ### Half open -/

/-- A half-open circuit has its probe. -/
def Probing (w : Window) : Prop := w.state = .half_open → w.halfOpenProbeInFlight = true

/-- While the probe is in flight nobody else is admitted, and its outcome ends the episode. -/
theorem after_half_open (hhalf : w.state = .half_open) (hprobe : w.halfOpenProbeInFlight = true)
    (c : BreakerCall) :
    (w.after opts c = w ∧ w.grants opts c = false) ∨ (w.after opts c).state ≠ .half_open := by
  cases c with
  | allow t =>
      unfold after grants allow
      simp only [hhalf, hprobe]
      exact Or.inl ⟨rfl, rfl⟩
  | record ok t =>
      unfold after record
      dsimp only
      have hprune : (prune opts { w with outcomes := w.outcomes ++ [⟨ok, t⟩] } t).state =
          .half_open := hhalf
      rw [hprune]
      dsimp only
      split
      · exact Or.inr (by simp)
      · exact Or.inr (by simp)

theorem Probing.after (h : w.Probing) (c : BreakerCall) : (w.after opts c).Probing := by
  intro hafter
  by_cases hhalf : w.state = .half_open
  · rcases after_half_open hhalf (h hhalf) c with ⟨heq, -⟩ | hleft
    · rw [heq]
      exact h hhalf
    · exact absurd hafter hleft
  · rcases after_cases w c with hsame | ⟨-, -, hprobe, -⟩ | ⟨hwas, -⟩ | ⟨hopen, -⟩
    · rw [hafter] at hsame
      exact absurd hsame.symm hhalf
    · exact hprobe
    · exact absurd hwas hhalf
    · rw [hafter] at hopen
      cases hopen

theorem Probing.run (h : w.Probing) (calls : List BreakerCall) : (w.run opts calls).Probing := by
  induction calls generalizing w with
  | nil => exact h
  | cons c calls ih => exact ih (h.after c)

/-- A call that makes the circuit half open is the probe's. -/
theorem enters (hbefore : w.state ≠ .half_open) {c : BreakerCall}
    (h : (w.after opts c).state = .half_open) :
    w.grants opts c = true ∧ (w.after opts c).halfOpenProbeInFlight = true := by
  rcases after_cases w c with hsame | ⟨-, -, hprobe, t, rfl, hgrant, -⟩ | ⟨-, hclosed, -⟩ | ⟨hopen, -⟩
  · rw [h] at hsame
    exact absurd hsame.symm hbefore
  · exact ⟨hgrant, hprobe⟩
  · rw [h] at hclosed
    cases hclosed
  · rw [h] at hopen
    cases hopen

/-- The circuit is half open throughout. -/
def StaysHalfOpen (opts : BreakerOptions) (w : Window) (calls : List BreakerCall) : Prop :=
  ∀ l, l <+: calls → (w.run opts l).state = .half_open

theorem granted_half_open (hprobe : w.halfOpenProbeInFlight = true) {calls : List BreakerCall}
    (h : StaysHalfOpen opts w calls) : w.granted opts calls = 0 := by
  induction calls with
  | nil => rfl
  | cons c calls ih =>
      have hnow : w.state = .half_open := h [] (List.nil_prefix)
      have hnext : (w.after opts c).state = .half_open :=
        h [c] (List.cons_prefix_cons.2 ⟨rfl, List.nil_prefix⟩)
      rcases after_half_open hnow hprobe c with ⟨heq, hrefused⟩ | hleft
      · have hrest : StaysHalfOpen opts w calls := by
          intro l hl
          have hrun := h (c :: l) (List.cons_prefix_cons.2 ⟨rfl, hl⟩)
          rw [run_cons, heq] at hrun
          exact hrun
        unfold granted
        rw [heq, hrefused, ih hrest]
        rfl
      · exact absurd hnext hleft

/-- **A half-open episode admits one request.** -/
theorem granted_episode (hbefore : w.state ≠ .half_open) {c : BreakerCall}
    {late : List BreakerCall} (h : StaysHalfOpen opts (w.after opts c) late) :
    w.granted opts (c :: late) = 1 := by
  obtain ⟨hgrant, hprobe⟩ := enters hbefore (h [] List.nil_prefix)
  unfold granted
  rw [hgrant, granted_half_open hprobe h]
  rfl

/-! ### Closing -/

/-- An outcome that is not recorded any more is not counted again. -/
theorem outcomes_after (w : Window) (c : BreakerCall) :
    (w.after opts c).outcomes.Sublist (w.outcomes ++ c.outcome.toList) := by
  cases c with
  | allow t =>
      have hsame : (w.after opts (.allow t)).outcomes = w.outcomes := by
        unfold after allow
        dsimp only
        split
        · rfl
        · split <;> rfl
        · split <;> rfl
      rw [hsame]
      exact List.sublist_append_left _ _
  | record ok t =>
      have hprune : (prune opts { w with outcomes := w.outcomes ++ [⟨ok, t⟩] } t).outcomes.Sublist
          (w.outcomes ++ [⟨ok, t⟩]) := List.dropWhile_sublist _
      unfold after record
      dsimp only
      split
      · split
        · exact List.filter_sublist.trans hprune
        · exact hprune
      · split
        · exact hprune
        · exact hprune
      · exact hprune

theorem outcomes_run (w : Window) (calls : List BreakerCall) :
    (w.run opts calls).outcomes.Sublist (w.outcomes ++ outcomesOf calls) := by
  induction calls generalizing w with
  | nil =>
      show w.outcomes.Sublist (w.outcomes ++ [])
      rw [List.append_nil]
  | cons c calls ih =>
      have hsplit : outcomesOf (c :: calls) = c.outcome.toList ++ outcomesOf calls := by
        unfold outcomesOf
        cases hc : c.outcome <;> simp [hc]
      rw [run_cons, hsplit, ← List.append_assoc]
      exact (ih _).trans ((outcomes_after w c).append_right _)

/-- A call that closes the circuit is a successful outcome of the probe. -/
theorem closes (hbefore : w.state ≠ .closed) {c : BreakerCall}
    (h : (w.after opts c).state = .closed) :
    w.state = .half_open ∧ (∃ t, c = .record true t) ∧ failures (w.after opts c).outcomes = [] := by
  rcases after_cases w c with hsame | ⟨-, hhalf, -⟩ | ⟨hwas, -, hc, hnone⟩ | ⟨hopen, -⟩
  · rw [h] at hsame
    exact absurd hsame.symm hbefore
  · rw [h] at hhalf
    cases hhalf
  · exact ⟨hwas, hc, hnone⟩
  · rw [h] at hopen
    cases hopen

/-- **Closing forgets the failures.** -/
theorem failures_closed (hbefore : w.state ≠ .closed) {c : BreakerCall}
    (h : (w.after opts c).state = .closed) (mid : List BreakerCall) :
    (failures ((w.after opts c).run opts mid).outcomes).Sublist (failures (outcomesOf mid)) := by
  obtain ⟨-, -, hnone⟩ := closes hbefore h
  have hrun : ((w.after opts c).run opts mid).outcomes.Sublist
      ((w.after opts c).outcomes ++ outcomesOf mid) := outcomes_run _ mid
  have hsub := hrun.filter fun o => !o.ok
  rw [List.filter_append] at hsub
  unfold failures at hnone ⊢
  rwa [hnone, List.nil_append] at hsub

/-! ### The window -/

/-- The outcomes that are kept are among those recorded, and every success is kept for as long as it
lies in the window. -/
structure Keeps (opts : BreakerOptions) (calls : List BreakerCall) (w : Window) : Prop where
  sublist : w.outcomes.Sublist (outcomesOf calls)
  successes : ∀ now, (∀ o ∈ outcomesOf calls, o.at_ ≤ now) →
    (recent opts now w.outcomes).filter Outcome.ok =
      (recent opts now (outcomesOf calls)).filter Outcome.ok

theorem outcomesOf_concat (calls : List BreakerCall) (c : BreakerCall) :
    outcomesOf (calls ++ [c]) = outcomesOf calls ++ c.outcome.toList := by
  unfold outcomesOf
  rw [List.filterMap_append]
  cases hc : c.outcome <;> simp [hc]

theorem mem_outcomesOf {calls : List BreakerCall} {o : Outcome} (h : o ∈ outcomesOf calls) :
    ∃ c ∈ calls, c.time = o.at_ := by
  obtain ⟨c, hc, ho⟩ := List.mem_filterMap.1 h
  refine ⟨c, hc, ?_⟩
  cases c with
  | allow t => cases ho
  | record ok t =>
      cases ho
      rfl

/-- Outcomes are recorded in the order of their times. -/
theorem pairwise_outcomesOf {calls : List BreakerCall} (h : InTime calls) :
    (outcomesOf calls).Pairwise fun o o' => o.at_ ≤ o'.at_ := by
  unfold InTime at h
  rw [List.pairwise_map] at h
  refine List.Pairwise.filterMap _ ?_ h
  intro c c' hle o ho o' ho'
  cases c with
  | allow t => cases ho
  | record ok t =>
      cases c' with
      | allow t' => cases ho'
      | record ok' t' =>
          cases ho
          cases ho'
          exact hle

/-- Pruning keeps the recent outcomes. -/
theorem outcomes_prune {os : List Outcome} (h : os.Pairwise fun o o' => o.at_ ≤ o'.at_) (w : Window)
    (now : ℕ) : (prune opts { w with outcomes := os } now).outcomes = recent opts now os := by
  refine dropWhile_eq_filter (h.imp fun {o o'} hle hold => ?_)
  rw [decide_eq_true_eq] at hold ⊢
  omega

/-- What was recent a moment ago is what counts now. -/
theorem recent_recent {now later : ℕ} (h : now ≤ later) (os : List Outcome) :
    recent opts later (recent opts now os) = recent opts later os := by
  unfold recent
  rw [List.filter_filter]
  refine List.filter_congr fun o _ => ?_
  by_cases hold : o.at_ + opts.windowMs < later
  · simp [hold]
  · have hnow : ¬o.at_ + opts.windowMs < now := by omega
    simp [hold, hnow]

theorem recent_append (now : ℕ) (os os' : List Outcome) :
    recent opts now (os ++ os') = recent opts now os ++ recent opts now os' := List.filter_append ..

theorem recent_filter (now : ℕ) (os : List Outcome) :
    recent opts now (os.filter Outcome.ok) = (recent opts now os).filter Outcome.ok :=
  List.filter_comm ..

/-- What is kept after a call, in terms of the outcomes recorded: all recent ones, but for the
failures that a closing forgets. -/
theorem after_outcomes {calls : List BreakerCall} {c : BreakerCall} (hw : Keeps opts calls w)
    (h : InTime (calls ++ [c])) :
    (w.after opts c).outcomes = w.outcomes ∧ c.outcome = none ∨
    ∃ o, c.outcome = some o ∧ o.at_ = c.time ∧
      ((w.after opts c).outcomes = recent opts c.time (w.outcomes ++ [o]) ∨
        w.state = .half_open ∧
          (w.after opts c).outcomes = (recent opts c.time (w.outcomes ++ [o])).filter Outcome.ok) := by
  cases c with
  | allow t =>
      refine Or.inl ⟨?_, rfl⟩
      unfold after allow
      dsimp only
      split
      · rfl
      · split <;> rfl
      · split <;> rfl
  | record ok t =>
      refine Or.inr ⟨⟨ok, t⟩, rfl, rfl, ?_⟩
      have hordered : (w.outcomes ++ [(⟨ok, t⟩ : Outcome)]).Pairwise
          fun o o' => o.at_ ≤ o'.at_ := by
        have hall := pairwise_outcomesOf h
        rw [outcomesOf_concat] at hall
        exact hall.sublist (hw.sublist.append_right _)
      have hprune : (prune opts { w with outcomes := w.outcomes ++ [⟨ok, t⟩] } t).outcomes =
          recent opts t (w.outcomes ++ [⟨ok, t⟩]) := outcomes_prune hordered w t
      unfold after record
      dsimp only
      split
      · next hhalf =>
          split
          · exact Or.inr ⟨hhalf, congrArg (List.filter Outcome.ok) hprune⟩
          · exact Or.inl hprune
      · split
        · exact Or.inl hprune
        · exact Or.inl hprune
      · exact Or.inl hprune

theorem Keeps.after {calls : List BreakerCall} {c : BreakerCall} (hw : Keeps opts calls w)
    (h : InTime (calls ++ [c])) : Keeps opts (calls ++ [c]) (w.after opts c) := by
  have hsub : (w.after opts c).outcomes.Sublist (outcomesOf (calls ++ [c])) := by
    rw [outcomesOf_concat]
    exact (outcomes_after w c).trans (hw.sublist.append_right _)
  refine ⟨hsub, fun now hnow => ?_⟩
  rw [outcomesOf_concat] at hnow ⊢
  have hold : ∀ o ∈ outcomesOf calls, o.at_ ≤ now := fun o ho =>
    hnow o (List.mem_append_left _ ho)
  rcases after_outcomes hw h with ⟨hsame, hc⟩ | ⟨o, hc, hat, hkept⟩
  · rw [hsame, hc]
    show _ = (recent opts now (outcomesOf calls ++ [])).filter Outcome.ok
    rw [List.append_nil]
    exact hw.successes now hold
  · have hlater : c.time ≤ now := by
      rw [← hat]
      refine hnow o (List.mem_append_right _ ?_)
      rw [hc]
      exact List.mem_singleton_self o
    have hkeep : (recent opts now (w.after opts c).outcomes).filter Outcome.ok =
        (recent opts now (w.outcomes ++ [o])).filter Outcome.ok := by
      rcases hkept with hkept | ⟨-, hkept⟩
      · rw [hkept, recent_recent hlater]
      · rw [hkept, recent_filter, recent_recent hlater, List.filter_filter]
        simp only [Bool.and_self]
    rw [hkeep, hc, recent_append, List.filter_append, hw.successes now hold, ← List.filter_append,
      ← recent_append]
    rfl

theorem keeps_run {calls : List BreakerCall} (h : InTime calls) :
    Keeps opts calls (Window.fresh.run opts calls) := by
  induction calls using List.reverseRecOn with
  | nil => exact ⟨List.Sublist.slnil, fun now _ => rfl⟩
  | append_singleton calls c ih =>
      rw [run_concat]
      exact (ih h.init).after h

/-- **A closed circuit opens on a failure, when enough of the last outcomes have failed.** -/
theorem opens_recent {calls : List BreakerCall} {c : BreakerCall} (hcalls : InTime (calls ++ [c]))
    (hclosed : (Window.fresh.run opts calls).state = .closed)
    (h : ((Window.fresh.run opts calls).after opts c).state = .open_) :
    ∃ t, c = .record false t ∧
      opts.minSamples ≤ (recent opts t (outcomesOf (calls ++ [c]))).length ∧
      opts.openThreshold ≤ failingShare (recent opts t (outcomesOf (calls ++ [c]))) := by
  have hbefore : (Window.fresh.run opts calls).state ≠ .open_ := by
    rw [hclosed]
    decide
  obtain ⟨t, rfl, -, hopens⟩ := opens hbefore h
  obtain ⟨hsamples, hshare⟩ := hopens hclosed
  refine ⟨t, rfl, ?_⟩
  have hkeeps : Keeps opts (calls ++ [.record false t])
      ((Window.fresh.run opts calls).after opts (.record false t)) := by
    rw [← run_concat]
    exact keeps_run hcalls
  have hlast : ∀ o ∈ outcomesOf (calls ++ [.record false t]), o.at_ ≤ t := by
    intro o ho
    obtain ⟨c, hc, hat⟩ := mem_outcomesOf ho
    rw [← hat]
    rcases List.mem_append.1 hc with hc | hc
    · exact hcalls.le hc (List.mem_singleton_self _)
    · rw [List.mem_singleton.1 hc]
      exact le_refl _
  have hrecent : recent opts t ((Window.fresh.run opts calls).after opts (.record false t)).outcomes =
      ((Window.fresh.run opts calls).after opts (.record false t)).outcomes := by
    rcases after_outcomes (keeps_run hcalls.init) hcalls with ⟨-, hnone⟩ | ⟨o, -, -, hkept | ⟨hhalf, -⟩⟩
    · cases hnone
    · rw [hkept]
      exact recent_recent (le_refl _) _
    · rw [hclosed] at hhalf
      cases hhalf
  have hsub : ((Window.fresh.run opts calls).after opts (.record false t)).outcomes.Sublist
      (recent opts t (outcomesOf (calls ++ [.record false t]))) := by
    rw [← hrecent]
    exact hkeeps.sublist.filter _
  have hok := hkeeps.successes t hlast
  rw [hrecent] at hok
  exact ⟨hsamples.trans hsub.length_le, hshare.trans (failingShare_mono hsub hok)⟩

end Window

/-! ### The breaker -/

namespace CircuitBreaker

/-- The breaker after a call for `p`. -/
def after (b : CircuitBreaker) (p : Uuid) : BreakerCall → CircuitBreaker
  | .allow t => (b.allow p t).2
  | .record ok t => b.record p ok t

/-- The breaker after a sequence of calls for `p`. -/
def run (b : CircuitBreaker) (p : Uuid) (calls : List BreakerCall) : CircuitBreaker :=
  calls.foldl (fun b c => b.after p c) b

theorem window_run (b : CircuitBreaker) (p : Uuid) (calls : List BreakerCall) :
    (b.run p calls).window p = (b.window p).run b.options calls ∧
      (b.run p calls).options = b.options := by
  induction calls generalizing b with
  | nil => exact ⟨rfl, rfl⟩
  | cons c calls ih =>
      obtain ⟨hwindow, hoptions⟩ := ih (b.after p c)
      have hafter : (b.after p c).window p = (b.window p).after b.options c ∧
          (b.after p c).options = b.options := by
        cases c with
        | allow t => exact ⟨window_put_self .., rfl⟩
        | record ok t => exact ⟨window_put_self .., rfl⟩
      rw [hafter.1, hafter.2] at hwindow
      exact ⟨hwindow, hoptions.trans hafter.2⟩

/-- The window of `p` after a sequence of calls for it. -/
def windowAfter (opts : BreakerOptions) (p : Uuid) (calls : List BreakerCall) : Window :=
  ((new opts).run p calls).window p

theorem windowAfter_eq (opts : BreakerOptions) (p : Uuid) (calls : List BreakerCall) :
    windowAfter opts p calls = Window.fresh.run opts calls := (window_run (new opts) p calls).1

open Window

/-- **The breaker's states.**  (a) A closed circuit opens only on a failure, when there are enough
outcomes in the window and enough of them have failed, among all that were recorded as among those
that still count.  (b) From an opening on, requests are refused until the circuit has been open for
long enough.  (c) A half-open circuit has its probe, and admits one request for as long as it is half
open.  (d) The success of the probe closes the circuit, and only failures after that count. -/
theorem breaker_states (opts : BreakerOptions) (p : Uuid) (calls : List BreakerCall)
    (h : InTime calls) :
    (∀ pre c post, calls = pre ++ c :: post → (windowAfter opts p pre).state = .closed →
      (windowAfter opts p (pre ++ [c])).state = .open_ →
        ∃ t, c = .record false t ∧
          (opts.minSamples ≤ (recent opts t (outcomesOf (pre ++ [c]))).length ∧
            opts.openThreshold ≤ failingShare (recent opts t (outcomesOf (pre ++ [c])))) ∧
          opts.minSamples ≤ (windowAfter opts p (pre ++ [c])).outcomes.length ∧
            opts.openThreshold ≤ failingShare (windowAfter opts p (pre ++ [c])).outcomes) ∧
    (∀ pre c mid t post, calls = pre ++ c :: mid ++ .allow t :: post →
      (windowAfter opts p pre).state ≠ .open_ → (windowAfter opts p (pre ++ [c])).state = .open_ →
      t < c.time + opts.openDurationMs →
        (((new opts).run p (pre ++ c :: mid)).allow p t).1 = false) ∧
    (∀ pre post, calls = pre ++ post → (windowAfter opts p pre).state = .half_open →
      (windowAfter opts p pre).halfOpenProbeInFlight = true) ∧
    (∀ pre c late post, calls = pre ++ c :: late ++ post →
      (windowAfter opts p pre).state ≠ .half_open →
      (∀ l, l <+: late → (windowAfter opts p (pre ++ c :: l)).state = .half_open) →
        (∃ t, c = .allow t) ∧ (windowAfter opts p pre).granted opts (c :: late) = 1) ∧
    (∀ pre c mid post, calls = pre ++ c :: mid ++ post → (windowAfter opts p pre).state ≠ .closed →
      (windowAfter opts p (pre ++ [c])).state = .closed →
        (windowAfter opts p pre).state = .half_open ∧ (∃ t, c = .record true t) ∧
          (failures (windowAfter opts p (pre ++ c :: mid)).outcomes).Sublist
            (failures (outcomesOf mid))) := by
  simp only [windowAfter_eq, run_concat]
  refine ⟨?_, ?_, ?_, ?_, ?_⟩
  · intro pre c post hcalls hclosed hopen
    have hsplit : InTime ((pre ++ [c]) ++ post) := by
      rw [List.append_assoc]
      exact hcalls ▸ h
    have hpre : InTime (pre ++ [c]) := hsplit.init
    obtain ⟨t, hc, hrecent⟩ := opens_recent hpre hclosed hopen
    have hbefore : (Window.fresh.run opts pre).state ≠ .open_ := by
      rw [hclosed]
      decide
    obtain ⟨-, -, -, hkept⟩ := opens hbefore hopen
    exact ⟨t, hc, hrecent, hkept hclosed⟩
  · intro pre c mid t post hcalls hbefore hopen hearly
    obtain ⟨t₀, rfl, hat, -⟩ := opens hbefore hopen
    rw [hcalls] at h
    have hmid : ∀ c' ∈ mid, c'.time < t₀ + opts.openDurationMs := by
      intro c' hc'
      have hle := h.le (List.mem_append_right _ (List.mem_cons_of_mem _ hc')) (List.mem_cons_self ..)
      exact lt_of_le_of_lt hle hearly
    rw [← hat] at hmid
    obtain ⟨hstate, hat'⟩ := run_open hopen hmid
    have hrefused := (after_open (c := .allow t) hstate (by rw [hat', hat]; exact hearly)).2.2
    rw [← run_cons, ← run_append] at hrefused
    show (((new opts).run p (pre ++ _)).window p |>.allow _ t).1 = false
    rw [(window_run (new opts) p _).1, (window_run (new opts) p _).2]
    exact hrefused
  · intro pre post _ hhalf
    have hfresh : Window.fresh.Probing := by
      intro hstate
      cases hstate
    exact hfresh.run pre hhalf
  · intro pre c late post _ hbefore hstays
    have hepisode : StaysHalfOpen opts ((Window.fresh.run opts pre).after opts c) late := by
      intro l hl
      have hstate := hstays l hl
      rwa [run_append, run_cons] at hstate
    have hgrant := (enters hbefore (hepisode [] List.nil_prefix)).1
    refine ⟨?_, granted_episode hbefore hepisode⟩
    cases c with
    | allow t => exact ⟨t, rfl⟩
    | record ok t => cases hgrant
  · intro pre c mid post _ hbefore hclosed
    obtain ⟨hhalf, hc, -⟩ := closes hbefore hclosed
    refine ⟨hhalf, hc, ?_⟩
    rw [run_append, run_cons]
    exact failures_closed hbefore hclosed mid

end CircuitBreaker

namespace Sample

def trippedProvider : Uuid := ⟨"a1a1a1a1-a1a1-4a1a-8a1a-a1a1a1a1a1a1", by decide⟩

/-- Two failures, a probe, and its success. -/
def tripped : List BreakerCall :=
  [.record false 0, .record false 1, .allow 200, .record true 201]

theorem tripped_inTime : InTime tripped := by
  unfold InTime
  decide

theorem breaker_states_tripped : InTime tripped ∧
    ∀ pre post, tripped = pre ++ post →
      (CircuitBreaker.windowAfter { minSamples := 2, openDurationMs := 100 } trippedProvider pre).state =
        .half_open →
      (CircuitBreaker.windowAfter { minSamples := 2, openDurationMs := 100 } trippedProvider
        pre).halfOpenProbeInFlight = true :=
  ⟨tripped_inTime, (CircuitBreaker.breaker_states { minSamples := 2, openDurationMs := 100 }
    trippedProvider tripped tripped_inTime).2.2.1⟩

end Sample

end VibeRouter
