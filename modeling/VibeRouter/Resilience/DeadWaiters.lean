import VibeRouter.Resilience.Shed

/-! # Waiting calls whose signal is aborted

An abort takes the waiting calls of its signal out of the queue, as far as they listen when it
comes.  A call that comes with a signal that is aborted already hears nothing: it waits, and takes a
place and a slot from others.  Without such calls nobody waits in vain. -/

namespace VibeRouter

namespace Shedding

/-- The call waits although its signal is aborted.  A waiting call that has a signal listens to
it. -/
def Dead (s : Shedding) (p : Uuid) (t : Ticket) : Prop :=
  t ∈ s.guard.queue p ∧ ∃ l ∈ s.listeners, l.ticket = t ∧ l.signal ∈ s.aborted

def NoDeadWaiter (s : Shedding) : Prop := ∀ p t, ¬s.Dead p t

/-- The signal of the call is not aborted yet, or the call does not have to wait: there is a slot,
or the queue is full. -/
def Timely (s : Shedding) (p : Uuid) (signal : Option ℕ) : Prop :=
  (∀ n, signal = some n → n ∉ s.aborted) ∨ s.guard.flying p < s.guard.maxConcurrent ∨
    s.guard.queueCap ≤ (s.guard.queue p).length

/-- One event; calls are timely. -/
inductive TimelyStep : Shedding → Shedding → Prop
  | acquire {s : Shedding} {p : Uuid} {signal : Option ℕ} (h : s.Timely p signal) :
      TimelyStep s (s.acquire p signal)
  | abort (s : Shedding) (signal : ℕ) : TimelyStep s (s.abort signal)
  | release {s : Shedding} {p : Uuid} {t : Ticket} (hp : s.calls[t]? = some p)
      (hgrant : (t, true) ∈ s.outcomes) (honce : t ∉ s.released) : TimelyStep s (s.release p t)

theorem TimelyStep.step {s s' : Shedding} (h : TimelyStep s s') : Step s s' := by
  cases h with
  | acquire _ => exact .acquire ..
  | abort signal => exact .abort _ signal
  | release hp hgrant honce => exact .release hp hgrant honce

variable {maxConcurrent queueCap : ℕ} {s : Shedding} {p : Uuid} {t : Ticket}

/-! ### Calls -/

/-- A new call that does not wait changes neither the queue nor the listeners. -/
theorem acquire_served (p : Uuid) (signal : Option ℕ)
    (h : s.guard.flying p < s.guard.maxConcurrent ∨ s.guard.queueCap ≤ (s.guard.queue p).length) :
    (∀ p', (s.acquire p signal).guard.queue p' = s.guard.queue p') ∧
      (s.acquire p signal).listeners = s.listeners ∧
      (s.acquire p signal).aborted = s.aborted := by
  unfold acquire LoadShedGuard.acquire
  dsimp only
  by_cases hfree : s.guard.flying p < s.guard.maxConcurrent
  · rw [if_pos hfree]
    exact ⟨fun p' => rfl, by simp, rfl⟩
  · have hfull := h.resolve_left hfree
    rw [if_neg hfree, if_pos hfull]
    exact ⟨fun p' => rfl, by simp, rfl⟩

/-- A new call that waits. -/
theorem acquire_waits (p : Uuid) (signal : Option ℕ)
    (hbusy : ¬s.guard.flying p < s.guard.maxConcurrent)
    (hroom : ¬s.guard.queueCap ≤ (s.guard.queue p).length) :
    (∀ p', (s.acquire p signal).guard.queue p' =
      if p' = p then s.guard.queue p ++ [s.calls.length] else s.guard.queue p') ∧
      (s.acquire p signal).listeners = s.listeners ++
        (signal.map fun n => AbortListener.mk n p s.calls.length).toList ∧
      (s.acquire p signal).aborted = s.aborted := by
  unfold acquire LoadShedGuard.acquire
  dsimp only
  rw [if_neg hbusy, if_neg hroom]
  exact ⟨fun p' => LoadShedGuard.queue_setQueue .., rfl, rfl⟩

/-- A call leaves no dead waiter exactly when it is timely. -/
theorem Sound.noDeadWaiter_acquire (h : s.Sound maxConcurrent queueCap) (hs : s.NoDeadWaiter)
    (p : Uuid) (signal : Option ℕ) : (s.acquire p signal).NoDeadWaiter ↔ s.Timely p signal := by
  by_cases hserved : s.guard.flying p < s.guard.maxConcurrent ∨
      s.guard.queueCap ≤ (s.guard.queue p).length
  · obtain ⟨hqueue, hlisteners, haborted⟩ := acquire_served p signal hserved
    refine ⟨fun _ => Or.inr hserved, fun _ p' t hdead => hs p' t ?_⟩
    unfold Dead at hdead
    rwa [hqueue, hlisteners, haborted] at hdead
  · rw [not_or] at hserved
    obtain ⟨hqueue, hlisteners, haborted⟩ := acquire_waits p signal hserved.1 hserved.2
    constructor
    · intro hnone
      refine Or.inl fun n hn hmem => hnone p s.calls.length ?_
      unfold Dead
      rw [hqueue, if_pos rfl, hlisteners, haborted, hn]
      exact ⟨List.mem_append_right _ (List.mem_singleton_self _), ⟨n, p, s.calls.length⟩,
        List.mem_append_right _ (List.mem_singleton_self _), rfl, hmem⟩
    · intro htimely p' t hdead
      have hfresh : ∀ n, signal = some n → n ∉ s.aborted := by
        rcases htimely with hfresh | hfree | hfull
        · exact hfresh
        · exact absurd hfree hserved.1
        · exact absurd hfull hserved.2
      unfold Dead at hdead
      rw [hlisteners, haborted] at hdead
      obtain ⟨hwaits, l, hl, rfl, hsignal⟩ := hdead
      rcases List.mem_append.1 hl with hold | hnew
      · -- an old listener is for an old call
        have hlt := lt_of_call (h.listeners l hold)
        refine hs p' l.ticket ⟨?_, l, hold, rfl, hsignal⟩
        rw [hqueue] at hwaits
        split at hwaits
        · next hp =>
            rw [hp]
            rcases List.mem_append.1 hwaits with hwaits | hlast
            · exact hwaits
            · rw [List.mem_singleton.1 hlast] at hlt
              exact absurd hlt (lt_irrefl _)
        · exact hwaits
      · cases signal with
        | none => cases hnew
        | some n =>
            have hlast : l = ⟨n, p, s.calls.length⟩ := List.mem_singleton.1 hnew
            rw [hlast] at hsignal
            exact hfresh n rfl hsignal

/-! ### Aborts -/

/-- A listener takes its call out of the queue. -/
theorem Sound.queue_fire (h : s.Sound maxConcurrent queueCap) (l : AbortListener) :
    (∀ p, ∀ t ∈ (s.fire l).guard.queue p, t ∈ s.guard.queue p) ∧
      l.ticket ∉ (s.fire l).guard.queue l.provider := by
  unfold Shedding.fire LoadShedGuard.onAbort
  dsimp only
  split
  · constructor
    · intro p t ht
      rw [LoadShedGuard.queue_setQueue] at ht
      split at ht
      · next hp =>
          rw [hp]
          exact List.mem_of_mem_erase ht
      · exact ht
    · rw [LoadShedGuard.queue_setQueue, if_pos rfl, h.queue]
      have hnodup : (s.waiting l.provider).Nodup := nodup_waitingOf
      exact hnodup.not_mem_erase
  · next hnot => exact ⟨fun p t ht => ht, hnot⟩

theorem Sound.queue_foldl_fire (h : s.Sound maxConcurrent queueCap) {ls : List AbortListener}
    (hls : ∀ l ∈ ls, s.calls[l.ticket]? = some l.provider) :
    (∀ p, ∀ t ∈ (ls.foldl Shedding.fire s).guard.queue p, t ∈ s.guard.queue p) ∧
      (∀ l ∈ ls, l.ticket ∉ (ls.foldl Shedding.fire s).guard.queue l.provider) ∧
      (ls.foldl Shedding.fire s).listeners = s.listeners ∧
      (ls.foldl Shedding.fire s).aborted = s.aborted := by
  induction ls generalizing s with
  | nil => exact ⟨fun p t ht => ht, fun l hl => absurd hl List.not_mem_nil, rfl, rfl⟩
  | cons l ls ih =>
      obtain ⟨hfewer, hout⟩ := h.queue_fire l
      obtain ⟨hfewer', hout', hlisteners, haborted⟩ :=
        ih (h.fire (hls l List.mem_cons_self)) fun l' hl' => hls l' (List.mem_cons_of_mem l hl')
      refine ⟨fun p t ht => hfewer p t (hfewer' p t ht), ?_, hlisteners, haborted⟩
      intro l' hl' hmem
      rcases List.mem_cons.1 hl' with rfl | hl'
      · exact hout (hfewer' _ _ hmem)
      · exact hout' l' hl' hmem

/-- **An abort leaves no dead waiter.** -/
theorem Sound.noDeadWaiter_abort (h : s.Sound maxConcurrent queueCap) (hs : s.NoDeadWaiter)
    (signal : ℕ) : (s.abort signal).NoDeadWaiter := by
  unfold Shedding.abort
  split
  · exact hs
  · have hsound : Sound maxConcurrent queueCap { s with aborted := signal :: s.aborted } :=
      { h with }
    have hcalls : ∀ l ∈ s.listeners.filter fun l => l.signal = signal,
        s.calls[l.ticket]? = some l.provider := fun l hl => h.listeners l (List.mem_of_mem_filter hl)
    obtain ⟨hfewer, hout, hlisteners, haborted⟩ := hsound.queue_foldl_fire hcalls
    intro p t hdead
    unfold Dead at hdead
    rw [hlisteners, haborted] at hdead
    obtain ⟨hwaits, l, hl, rfl, hsignal⟩ := hdead
    have hwas : l.ticket ∈ s.guard.queue p := hfewer p _ hwaits
    rcases List.mem_cons.1 hsignal with hnow | hbefore
    · -- its listener has just been told
      have hcall := h.listeners l hl
      rw [h.queue] at hwas
      have hp : p = l.provider := by
        rw [(mem_waitingOf.1 hwas).1] at hcall
        exact Option.some.inj hcall
      rw [hp] at hwaits
      exact hout l (List.mem_filter.2 ⟨hl, decide_eq_true hnow⟩) hwaits
    · exact hs p l.ticket ⟨hwas, l, hl, rfl, hbefore⟩

/-! ### Releases -/

theorem queue_release (p p' : Uuid) :
    ∀ t ∈ (s.guard.release p).1.queue p', t ∈ s.guard.queue p' := by
  intro t ht
  unfold LoadShedGuard.release at ht
  dsimp only at ht
  rw [LoadShedGuard.queue_setInFlight] at ht
  split at ht
  · exact ht
  · next next rest hq =>
      split at ht
      · rw [LoadShedGuard.queue_setInFlight, LoadShedGuard.queue_setQueue] at ht
        split at ht
        · next hp =>
            rw [hp, hq]
            exact List.mem_cons_of_mem _ ht
        · exact ht
      · exact ht

theorem noDeadWaiter_release (hs : s.NoDeadWaiter) (p : Uuid) (t : Ticket) :
    (s.release p t).NoDeadWaiter := by
  intro p' t' hdead
  obtain ⟨hwaits, hlistener⟩ := hdead
  exact hs p' t' ⟨queue_release p p' t' hwaits, hlistener⟩

/-- A slot is handed to a waiting call. -/
theorem waits_of_release {next : Ticket} (h : (s.guard.release p).2 = some next) :
    next ∈ s.guard.queue p := by
  unfold LoadShedGuard.release at h
  dsimp only at h
  rw [LoadShedGuard.queue_setInFlight] at h
  split at h
  · cases h
  · next hq =>
      split at h
      · cases h
        rw [hq]
        exact List.mem_cons_self
      · cases h

/-! ### Runs -/

theorem reachable_of_timely (h : Relation.ReflTransGen TimelyStep (initial maxConcurrent queueCap) s) :
    Reachable maxConcurrent queueCap s :=
  Relation.ReflTransGen.mono (fun _ _ hs => TimelyStep.step hs) _ _ h

theorem noDeadWaiter_of_timely
    (h : Relation.ReflTransGen TimelyStep (initial maxConcurrent queueCap) s) : s.NoDeadWaiter := by
  induction h with
  | refl =>
      intro p t hdead
      exact absurd hdead.1 List.not_mem_nil
  | tail hreach hs ih =>
      have hsound := (reachable_of_timely hreach).sound
      cases hs with
      | acquire htimely => exact (hsound.noDeadWaiter_acquire ih _ _).2 htimely
      | abort signal => exact hsound.noDeadWaiter_abort ih signal
      | release _ _ _ => exact noDeadWaiter_release ih _ _

/-- **Exactly when nobody waits in vain.**  As long as no call that has to wait comes with an aborted
signal, no waiting call has an aborted signal, and a slot is never handed to one that has; and one
call that is not timely is enough for a dead waiter. -/
theorem noDeadWaiter_iff (h : Relation.ReflTransGen TimelyStep (initial maxConcurrent queueCap) s) :
    s.NoDeadWaiter ∧
    (∀ p next, (s.guard.release p).2 = some next →
      ∀ l ∈ s.listeners, l.ticket = next → l.signal ∉ s.aborted) ∧
    ∀ p signal, (s.acquire p signal).NoDeadWaiter ↔ s.Timely p signal := by
  have hnone := noDeadWaiter_of_timely h
  refine ⟨hnone, fun p next hnext l hl ht hsignal => ?_, fun p signal => ?_⟩
  · exact hnone p next ⟨waits_of_release hnext, l, hl, ht, hsignal⟩
  · exact (reachable_of_timely h).sound.noDeadWaiter_acquire hnone p signal

end Shedding

namespace Sample

theorem handedOver_timely :
    Relation.ReflTransGen Shedding.TimelyStep (Shedding.initial 1 1) handedOver := by
  have hfirst : (Shedding.initial 1 1).Timely shedProvider none := by
    refine Or.inl fun n hn => ?_
    cases hn
  have hsecond : ((Shedding.initial 1 1).acquire shedProvider none).Timely shedProvider (some 0) :=
    Or.inl fun n _ => List.not_mem_nil
  refine .tail (.tail (.single (.acquire hfirst)) (.acquire hsecond)) ?_
  exact .release (by decide) (by decide) (by decide)

theorem noDeadWaiter_handedOver : handedOver.NoDeadWaiter :=
  (Shedding.noDeadWaiter_iff handedOver_timely).1

/-- The only slot is taken, and a call comes whose signal is aborted already. -/
def tooLate : Shedding :=
  (((Shedding.initial 1 1).acquire shedProvider none).abort 0).acquire shedProvider (some 0)

/-- **A call that comes with an aborted signal waits.** -/
theorem tooLate_waits : Shedding.Reachable 1 1 tooLate ∧ tooLate.Dead shedProvider 1 := by
  refine ⟨.tail (.tail (.single (.acquire _ shedProvider none)) (.abort _ 0))
    (.acquire _ shedProvider (some 0)), by decide, ⟨0, shedProvider, 1⟩, ?_, rfl, ?_⟩
  · exact List.mem_singleton_self _
  · exact List.mem_singleton_self _

end Sample

end VibeRouter
