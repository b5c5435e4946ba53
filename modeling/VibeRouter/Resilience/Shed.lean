import VibeRouter.Db.Schema
import VibeRouter.Lib.JsMap
import Mathlib.Data.Finset.Card
import Mathlib.Data.Finset.Range
import Mathlib.Logic.Relation

/-! # The load-shed guard

A semaphore for each provider with a bounded queue.  A call of `acquire` is known by its number;
it is resolved at once, with a slot or with null, or its entry waits in the queue.  The queue
hands the slot over when one is released, and the abort of a call's signal takes its entry out.

`Shedding` is the guard with the calls made so far and what has become of them.
`shedding_sound` is about every order of calls, aborts and releases. -/

namespace VibeRouter

/-- The number of a call of `acquire`. -/
abbrev Ticket : Type := ℕ

structure LoadShedGuard where
  maxConcurrent : ℕ
  queueCap : ℕ
  inFlight : JsMap Uuid ℤ
  queues : JsMap Uuid (List Ticket)

namespace LoadShedGuard

/-- `new LoadShedGuard(maxConcurrent, queueCap)`. -/
def new (maxConcurrent queueCap : ℕ) : LoadShedGuard := ⟨maxConcurrent, queueCap, .empty, .empty⟩

/-- `stats(p).inFlight`. -/
def flying (g : LoadShedGuard) (p : Uuid) : ℤ := (g.inFlight.get p).getD 0

/-- The queue of a provider. -/
def queue (g : LoadShedGuard) (p : Uuid) : List Ticket := (g.queues.get p).getD []

def setInFlight (g : LoadShedGuard) (p : Uuid) (n : ℤ) : LoadShedGuard :=
  { g with inFlight := g.inFlight.set p n }

def setQueue (g : LoadShedGuard) (p : Uuid) (ts : List Ticket) : LoadShedGuard :=
  { g with queues := g.queues.set p ts }

/-- `acquire` for the call `t`: the guard after, and whether there is a slot unless it waits. -/
def acquire (g : LoadShedGuard) (p : Uuid) (t : Ticket) : LoadShedGuard × Option Bool :=
  if g.flying p < g.maxConcurrent then (g.setInFlight p (g.flying p + 1), some true)
  else if g.queueCap ≤ (g.queue p).length then (g, some false)
  else (g.setQueue p (g.queue p ++ [t]), none)

/-- The abort listener of the call `t`: the guard after, and whether the call is resolved with
null. -/
def onAbort (g : LoadShedGuard) (p : Uuid) (t : Ticket) : LoadShedGuard × Bool :=
  if t ∈ g.queue p then (g.setQueue p ((g.queue p).erase t), true) else (g, false)

/-- `release`: the guard after, and the call that is resolved with the slot. -/
def release (g : LoadShedGuard) (p : Uuid) : LoadShedGuard × Option Ticket :=
  let current := (g.inFlight.get p).getD 1 - 1
  let g := g.setInFlight p current
  match g.queue p with
  | [] => (g, none)
  | next :: rest =>
      if current < g.maxConcurrent then
        ((g.setQueue p rest).setInFlight p (current + 1), some next)
      else (g, none)

section
variable (g : LoadShedGuard) (p p' : Uuid)

@[simp] theorem flying_setInFlight (n : ℤ) :
    (g.setInFlight p n).flying p' = if p' = p then n else g.flying p' := by
  unfold flying setInFlight
  rw [JsMap.get_set]
  split <;> rfl

@[simp] theorem queue_setInFlight (n : ℤ) : (g.setInFlight p n).queue p' = g.queue p' := rfl

@[simp] theorem flying_setQueue (ts : List Ticket) : (g.setQueue p ts).flying p' = g.flying p' := rfl

@[simp] theorem queue_setQueue (ts : List Ticket) :
    (g.setQueue p ts).queue p' = if p' = p then ts else g.queue p' := by
  unfold queue setQueue
  rw [JsMap.get_set]
  split <;> rfl

@[simp] theorem maxConcurrent_setInFlight (n : ℤ) :
    (g.setInFlight p n).maxConcurrent = g.maxConcurrent := rfl

@[simp] theorem maxConcurrent_setQueue (ts : List Ticket) :
    (g.setQueue p ts).maxConcurrent = g.maxConcurrent := rfl

@[simp] theorem queueCap_setInFlight (n : ℤ) : (g.setInFlight p n).queueCap = g.queueCap := rfl

@[simp] theorem queueCap_setQueue (ts : List Ticket) : (g.setQueue p ts).queueCap = g.queueCap := rfl

end

end LoadShedGuard

/-! ### Calls -/

/-- An abort listener: the signal it listens to, and the call it is for. -/
structure AbortListener where
  signal : ℕ
  provider : Uuid
  ticket : Ticket

/-- The guard, the providers of the calls made, and the slots given back.  `outcomes` is what
the promises of the calls have been resolved with, one entry for each call of `resolve`. -/
structure Shedding where
  guard : LoadShedGuard
  calls : List Uuid := []
  outcomes : List (Ticket × Bool) := []
  released : List Ticket := []
  listeners : List AbortListener := []
  aborted : List ℕ := []

namespace Shedding

/-- A new call of `acquire`. -/
def acquire (s : Shedding) (p : Uuid) (signal : Option ℕ) : Shedding :=
  let t := s.calls.length
  let r := s.guard.acquire p t
  { s with
    guard := r.1
    calls := s.calls ++ [p]
    outcomes := s.outcomes ++ (r.2.map fun ok => (t, ok)).toList
    listeners := s.listeners ++
      if r.2.isNone then (signal.map fun signal => ⟨signal, p, t⟩).toList else [] }

/-- One listener is told of the abort. -/
def fire (s : Shedding) (l : AbortListener) : Shedding :=
  let r := s.guard.onAbort l.provider l.ticket
  { s with
    guard := r.1
    outcomes := if r.2 then s.outcomes ++ [(l.ticket, false)] else s.outcomes }

/-- A signal is aborted.  It tells its listeners once; a listener that is added later hears
nothing. -/
def abort (s : Shedding) (signal : ℕ) : Shedding :=
  if signal ∈ s.aborted then s
  else
    (s.listeners.filter fun l => l.signal = signal).foldl fire
      { s with aborted := signal :: s.aborted }

/-- The release function of the call `t` is called. -/
def release (s : Shedding) (p : Uuid) (t : Ticket) : Shedding :=
  let r := s.guard.release p
  { s with
    guard := r.1
    released := t :: s.released
    outcomes := s.outcomes ++ (r.2.map fun next => (next, true)).toList }

/-- One event.  A grant is released once. -/
inductive Step : Shedding → Shedding → Prop
  | acquire (s : Shedding) (p : Uuid) (signal : Option ℕ) : Step s (s.acquire p signal)
  | abort (s : Shedding) (signal : ℕ) : Step s (s.abort signal)
  | release {s : Shedding} {p : Uuid} {t : Ticket} (hp : s.calls[t]? = some p)
      (hgrant : (t, true) ∈ s.outcomes) (honce : t ∉ s.released) : Step s (s.release p t)

/-- Before any call. -/
def initial (maxConcurrent queueCap : ℕ) : Shedding := { guard := .new maxConcurrent queueCap }

/-- The states that some sequence of events leads to. -/
def Reachable (maxConcurrent queueCap : ℕ) (s : Shedding) : Prop :=
  Relation.ReflTransGen Step (initial maxConcurrent queueCap) s

/-- The calls for `p` that wait, oldest first. -/
def waitingOf (calls : List Uuid) (outcomes : List (Ticket × Bool)) (p : Uuid) : List Ticket :=
  (List.range calls.length).filter fun t => calls[t]? = some p ∧ t ∉ outcomes.map Prod.fst

/-- The calls for `p` that have been granted a slot and have not given it back. -/
def holdersOf (calls : List Uuid) (outcomes : List (Ticket × Bool)) (released : List Ticket)
    (p : Uuid) : Finset Ticket :=
  (Finset.range calls.length).filter fun t =>
    calls[t]? = some p ∧ (t, true) ∈ outcomes ∧ t ∉ released

def waiting (s : Shedding) (p : Uuid) : List Ticket := waitingOf s.calls s.outcomes p

def holders (s : Shedding) (p : Uuid) : Finset Ticket := holdersOf s.calls s.outcomes s.released p

/-! ### Who waits and who holds a slot -/

section
variable {calls : List Uuid} {outcomes : List (Ticket × Bool)} {released : List Ticket} {p p' : Uuid}
  {t : Ticket}

theorem lt_of_call (h : calls[t]? = some p) : t < calls.length :=
  (List.getElem?_eq_some_iff.1 h).1

theorem mem_waitingOf :
    t ∈ waitingOf calls outcomes p ↔ calls[t]? = some p ∧ t ∉ outcomes.map Prod.fst := by
  unfold waitingOf
  simp only [List.mem_filter, List.mem_range, decide_eq_true_eq]
  exact ⟨And.right, fun h => ⟨lt_of_call h.1, h⟩⟩

theorem mem_holdersOf : t ∈ holdersOf calls outcomes released p ↔
    calls[t]? = some p ∧ (t, true) ∈ outcomes ∧ t ∉ released := by
  unfold holdersOf
  simp only [Finset.mem_filter, Finset.mem_range]
  exact ⟨And.right, fun h => ⟨lt_of_call h.1, h⟩⟩

theorem pairwise_waitingOf : (waitingOf calls outcomes p).Pairwise (· < ·) :=
  List.pairwise_lt_range.sublist List.filter_sublist

theorem nodup_waitingOf : (waitingOf calls outcomes p).Nodup :=
  List.nodup_range.sublist List.filter_sublist

/-- An old call is the same call after a new one. -/
theorem call_append (p' : Uuid) (h : t < calls.length) : (calls ++ [p'])[t]? = calls[t]? :=
  List.getElem?_append_left h

theorem waitingOf_call (hnew : calls.length ∉ outcomes.map Prod.fst) :
    waitingOf (calls ++ [p']) outcomes p =
      waitingOf calls outcomes p ++ if p' = p then [calls.length] else [] := by
  unfold waitingOf
  rw [List.length_append, List.length_singleton, List.range_succ, List.filter_append]
  refine congrArg₂ _ (List.filter_congr fun t ht => ?_) ?_
  · rw [call_append p' (List.mem_range.1 ht)]
  · by_cases h : p' = p
    · rw [if_pos h, List.filter_eq_self.2]
      intro t ht
      obtain rfl := List.mem_singleton.1 ht
      exact decide_eq_true ⟨by simp [h], hnew⟩
    · rw [if_neg h, List.filter_eq_nil_iff.2]
      intro t ht
      obtain rfl := List.mem_singleton.1 ht
      simp [h]

theorem waitingOf_resolve (ok : Bool) :
    waitingOf calls (outcomes ++ [(t, ok)]) p = (waitingOf calls outcomes p).filter (· ≠ t) := by
  unfold waitingOf
  rw [List.filter_filter]
  refine List.filter_congr fun t' _ => ?_
  simp only [List.map_append, List.map_singleton, List.mem_append, List.mem_singleton, not_or,
    ← Bool.decide_and, ← and_assoc, and_comm]

/-- A new call that is resolved at once does not wait. -/
theorem waitingOf_call_resolve (hnew : calls.length ∉ outcomes.map Prod.fst) (ok : Bool) :
    waitingOf (calls ++ [p']) (outcomes ++ [(calls.length, ok)]) p = waitingOf calls outcomes p := by
  have hold : ∀ t ∈ waitingOf calls outcomes p, decide (t ≠ calls.length) = true := fun t ht =>
    decide_eq_true (lt_of_call (mem_waitingOf.1 ht).1).ne
  rw [waitingOf_resolve, waitingOf_call hnew, List.filter_append, List.filter_eq_self.2 hold]
  split <;> simp

theorem holdersOf_call (hnew : calls.length ∉ outcomes.map Prod.fst) :
    holdersOf (calls ++ [p']) outcomes released p = holdersOf calls outcomes released p := by
  ext t
  rw [mem_holdersOf, mem_holdersOf]
  refine ⟨fun ⟨hp, hgrant, hrel⟩ => ⟨?_, hgrant, hrel⟩, fun ⟨hp, hgrant, hrel⟩ => ⟨?_, hgrant, hrel⟩⟩
  · have hlt := lt_of_call hp
    have hne : t ≠ calls.length := by
      rintro rfl
      exact hnew (List.mem_map_of_mem hgrant)
    rw [List.length_append, List.length_singleton] at hlt
    rwa [call_append p' (lt_of_le_of_ne (Nat.lt_succ_iff.1 hlt) hne)] at hp
  · rwa [call_append p' (lt_of_call hp)]

theorem holdersOf_null (t : Ticket) :
    holdersOf calls (outcomes ++ [(t, false)]) released p = holdersOf calls outcomes released p := by
  ext t'
  simp [mem_holdersOf]

theorem holdersOf_grant (ht : calls[t]? = some p') (hrel : t ∉ released) :
    holdersOf calls (outcomes ++ [(t, true)]) released p =
      if p' = p then insert t (holdersOf calls outcomes released p)
      else holdersOf calls outcomes released p := by
  ext t'
  split
  · next h =>
      subst h
      simp only [mem_holdersOf, List.mem_append, List.mem_singleton, Prod.mk.injEq, and_true,
        Finset.mem_insert]
      by_cases hne : t' = t
      · subst hne
        simp [ht, hrel]
      · simp [hne]
  · next h =>
      simp only [mem_holdersOf, List.mem_append, List.mem_singleton, Prod.mk.injEq, and_true]
      by_cases hne : t' = t
      · subst hne
        simp [ht, h]
      · simp [hne]

theorem holdersOf_release :
    holdersOf calls outcomes (t :: released) p = (holdersOf calls outcomes released p).erase t := by
  ext t'
  simp only [mem_holdersOf, List.mem_cons, not_or, Finset.mem_erase]
  tauto

end

/-! ### The invariant -/

structure Sound (maxConcurrent queueCap : ℕ) (s : Shedding) : Prop where
  limits : s.guard.maxConcurrent = maxConcurrent ∧ s.guard.queueCap = queueCap
  queue : ∀ p, s.guard.queue p = s.waiting p
  flying : ∀ p, s.guard.flying p = (s.holders p).card
  bounded : ∀ p, s.guard.flying p ≤ maxConcurrent
  capped : ∀ p, (s.guard.queue p).length ≤ queueCap
  full : ∀ p, s.guard.queue p ≠ [] → s.guard.flying p = maxConcurrent
  once : (s.outcomes.map Prod.fst).Nodup
  known : ∀ t ∈ s.outcomes.map Prod.fst, t < s.calls.length
  granted : ∀ t ∈ s.released, (t, true) ∈ s.outcomes
  listeners : ∀ l ∈ s.listeners, s.calls[l.ticket]? = some l.provider

theorem sound_initial (maxConcurrent queueCap : ℕ) :
    (initial maxConcurrent queueCap).Sound maxConcurrent queueCap where
  limits := ⟨rfl, rfl⟩
  queue _ := rfl
  flying _ := rfl
  bounded _ := Int.natCast_nonneg _
  capped _ := Nat.zero_le _
  full _ h := absurd rfl h
  once := List.nodup_nil
  known _ h := absurd h List.not_mem_nil
  granted _ h := absurd h List.not_mem_nil
  listeners _ h := absurd h List.not_mem_nil

variable {maxConcurrent queueCap : ℕ} {s : Shedding} {p : Uuid} {t : Ticket}

theorem Sound.fresh (h : s.Sound maxConcurrent queueCap) :
    s.calls.length ∉ s.outcomes.map Prod.fst := fun hmem => (h.known _ hmem).false

/-- Resolving a call that has not been resolved. -/
theorem nodup_resolve {outcomes : List (Ticket × Bool)} (h : (outcomes.map Prod.fst).Nodup)
    (ht : t ∉ outcomes.map Prod.fst) (ok : Bool) : ((outcomes ++ [(t, ok)]).map Prod.fst).Nodup := by
  rw [List.map_append, List.map_singleton, List.nodup_append_comm]
  exact List.nodup_cons.2 ⟨ht, h⟩

theorem Sound.known_call (h : s.Sound maxConcurrent queueCap) (ok : Bool) :
    ∀ t ∈ (s.outcomes ++ [(s.calls.length, ok)]).map Prod.fst, t < (s.calls ++ [p]).length := by
  intro t ht
  rw [List.map_append, List.mem_append] at ht
  rw [List.length_append, List.length_singleton]
  rcases ht with ht | ht
  · exact Nat.lt_succ_of_lt (h.known t ht)
  · rw [List.mem_singleton.1 ht]
    exact Nat.lt_succ_self _

theorem Sound.known_old (h : s.Sound maxConcurrent queueCap) (ht : s.calls[t]? = some p)
    (ok : Bool) : ∀ t' ∈ (s.outcomes ++ [(t, ok)]).map Prod.fst, t' < s.calls.length := by
  intro t' ht'
  rw [List.map_append, List.mem_append] at ht'
  rcases ht' with ht' | ht'
  · exact h.known t' ht'
  · rw [List.mem_singleton.1 ht']
    exact lt_of_call ht

theorem Sound.listeners_call (h : s.Sound maxConcurrent queueCap) (p : Uuid) :
    ∀ l ∈ s.listeners, (s.calls ++ [p])[l.ticket]? = some l.provider := fun l hl =>
  (call_append p (lt_of_call (h.listeners l hl))).trans (h.listeners l hl)

/-- A new call gets a slot. -/
theorem Sound.acquire_slot (h : s.Sound maxConcurrent queueCap)
    (hfree : s.guard.flying p < maxConcurrent) :
    { s with
      guard := s.guard.setInFlight p (s.guard.flying p + 1)
      calls := s.calls ++ [p]
      outcomes := s.outcomes ++ [(s.calls.length, true)] }.Sound maxConcurrent queueCap := by
  have hlast : (s.calls ++ [p])[s.calls.length]? = some p := by simp
  have hrel : s.calls.length ∉ s.released := fun hmem =>
    h.fresh (List.mem_map_of_mem (h.granted _ hmem))
  have hout : s.calls.length ∉ holdersOf s.calls s.outcomes s.released p := fun hmem =>
    (lt_of_call (mem_holdersOf.1 hmem).1).false
  exact
    { limits := h.limits
      queue := fun p' => (h.queue p').trans (waitingOf_call_resolve h.fresh true).symm
      flying := by
        intro p'
        show _ = ((holdersOf (s.calls ++ [p]) _ s.released p').card : ℤ)
        rw [holdersOf_grant hlast hrel, holdersOf_call h.fresh, LoadShedGuard.flying_setInFlight]
        by_cases hp : p' = p
        · subst hp
          rw [if_pos rfl, if_pos rfl, Finset.card_insert_of_notMem hout, h.flying]
          rfl
        · rw [if_neg hp, if_neg (Ne.symm hp)]
          exact h.flying p'
      bounded := by
        intro p'
        rw [LoadShedGuard.flying_setInFlight]
        split
        · omega
        · exact h.bounded p'
      capped := h.capped
      full := by
        intro p' hq
        rw [LoadShedGuard.flying_setInFlight]
        split
        · next hp =>
            subst hp
            have := h.full p' hq
            omega
        · exact h.full p' hq
      once := nodup_resolve h.once h.fresh true
      known := h.known_call true
      granted := fun t ht => List.mem_append_left _ (h.granted t ht)
      listeners := h.listeners_call p }

/-- A new call that finds the queue full is resolved with null. -/
theorem Sound.acquire_shed (h : s.Sound maxConcurrent queueCap) (p : Uuid) :
    { s with
      calls := s.calls ++ [p]
      outcomes := s.outcomes ++ [(s.calls.length, false)] }.Sound maxConcurrent queueCap where
  limits := h.limits
  queue p' := (h.queue p').trans (waitingOf_call_resolve h.fresh false).symm
  flying p' := by
    show _ = ((holdersOf (s.calls ++ [p]) _ s.released p').card : ℤ)
    rw [holdersOf_null, holdersOf_call h.fresh]
    exact h.flying p'
  bounded := h.bounded
  capped := h.capped
  full := h.full
  once := nodup_resolve h.once h.fresh false
  known := h.known_call false
  granted t ht := List.mem_append_left _ (h.granted t ht)
  listeners := h.listeners_call p

/-- A new call waits, and listens to its signal. -/
theorem Sound.acquire_wait (h : s.Sound maxConcurrent queueCap)
    (hbusy : ¬s.guard.flying p < maxConcurrent) (hroom : ¬queueCap ≤ (s.guard.queue p).length)
    (signal : Option ℕ) :
    { s with
      guard := s.guard.setQueue p (s.guard.queue p ++ [s.calls.length])
      calls := s.calls ++ [p]
      listeners := s.listeners ++
        (signal.map fun signal => AbortListener.mk signal p s.calls.length).toList }.Sound
      maxConcurrent queueCap where
  limits := h.limits
  queue p' := by
    show _ = waitingOf (s.calls ++ [p]) s.outcomes p'
    rw [waitingOf_call h.fresh, LoadShedGuard.queue_setQueue]
    by_cases hp : p' = p
    · subst hp
      rw [if_pos rfl, if_pos rfl, h.queue]
      rfl
    · rw [if_neg hp, if_neg (Ne.symm hp), List.append_nil]
      exact h.queue p'
  flying p' := by
    show _ = ((holdersOf (s.calls ++ [p]) s.outcomes s.released p').card : ℤ)
    rw [holdersOf_call h.fresh]
    exact h.flying p'
  bounded := h.bounded
  capped p' := by
    rw [LoadShedGuard.queue_setQueue]
    split
    · rw [List.length_append, List.length_singleton]
      omega
    · exact h.capped p'
  full p' hq := by
    by_cases hp : p' = p
    · subst hp
      exact le_antisymm (h.bounded p') (not_lt.1 hbusy)
    · rw [LoadShedGuard.queue_setQueue, if_neg hp] at hq
      exact h.full p' hq
  once := h.once
  known t ht := by
    rw [List.length_append, List.length_singleton]
    exact Nat.lt_succ_of_lt (h.known t ht)
  granted := h.granted
  listeners l hl := by
    rcases List.mem_append.1 hl with hl | hl
    · exact h.listeners_call p l hl
    · cases signal with
      | none => cases hl
      | some signal =>
          obtain rfl := List.mem_singleton.1 hl
          simp

theorem Sound.acquire (h : s.Sound maxConcurrent queueCap) (p : Uuid) (signal : Option ℕ) :
    (s.acquire p signal).Sound maxConcurrent queueCap := by
  obtain ⟨hmax, hcap⟩ := h.limits
  by_cases hfree : s.guard.flying p < maxConcurrent
  · have := h.acquire_slot hfree
    simpa [Shedding.acquire, LoadShedGuard.acquire, hmax, hfree] using this
  · by_cases hroom : queueCap ≤ (s.guard.queue p).length
    · have := h.acquire_shed p
      simpa [Shedding.acquire, LoadShedGuard.acquire, hmax, hcap, hfree, hroom] using this
    · have := h.acquire_wait hfree hroom signal
      simpa [Shedding.acquire, LoadShedGuard.acquire, hmax, hcap, hfree, hroom] using this

/-- A waiting call leaves the queue when its promise is resolved. -/
theorem waiting_resolve {ts : List Ticket} (hq : s.waiting p = t :: ts) (ok : Bool) :
    waitingOf s.calls (s.outcomes ++ [(t, ok)]) p = ts := by
  have hnodup : (t :: ts).Nodup := hq ▸ nodup_waitingOf
  have ht : t ∉ ts := (List.nodup_cons.1 hnodup).1
  replace hq : waitingOf s.calls s.outcomes p = t :: ts := hq
  rw [waitingOf_resolve, hq, List.filter_cons_of_neg (by simp), List.filter_eq_self]
  intro t' ht'
  exact decide_eq_true fun heq => ht (heq ▸ ht')

/-- It waits for one provider only. -/
theorem waiting_resolve_of_ne {p' : Uuid} (ht : s.calls[t]? = some p) (hp : p' ≠ p) (ok : Bool) :
    waitingOf s.calls (s.outcomes ++ [(t, ok)]) p' = s.waiting p' := by
  rw [waitingOf_resolve, waiting, List.filter_eq_self]
  intro t' ht'
  refine decide_eq_true ?_
  rintro rfl
  rw [(mem_waitingOf.1 ht').1] at ht
  exact hp (Option.some.inj ht)

/-- The abort of a waiting call. -/
theorem Sound.cancel (h : s.Sound maxConcurrent queueCap) (ht : s.calls[t]? = some p)
    (hmem : t ∈ s.guard.queue p) :
    { s with
      guard := s.guard.setQueue p ((s.guard.queue p).erase t)
      outcomes := s.outcomes ++ [(t, false)] }.Sound maxConcurrent queueCap where
  limits := h.limits
  queue p' := by
    show _ = waitingOf s.calls (s.outcomes ++ [(t, false)]) p'
    rw [LoadShedGuard.queue_setQueue]
    by_cases hp : p' = p
    · subst hp
      rw [if_pos rfl, h.queue, waiting, nodup_waitingOf.erase_eq_filter, waitingOf_resolve]
      exact List.filter_congr fun t' _ => by simp [bne, beq_eq_decide]
    · rw [if_neg hp, waiting_resolve_of_ne ht hp]
      exact h.queue p'
  flying p' := by
    show _ = ((holdersOf s.calls _ s.released p').card : ℤ)
    rw [holdersOf_null]
    exact h.flying p'
  bounded := h.bounded
  capped p' := by
    rw [LoadShedGuard.queue_setQueue]
    split
    · exact (List.erase_sublist.length_le).trans (h.capped p)
    · exact h.capped p'
  full p' hq := by
    rw [LoadShedGuard.queue_setQueue] at hq
    split at hq
    · next hp =>
        subst hp
        exact h.full p' (List.ne_nil_of_mem hmem)
    · exact h.full p' hq
  once := by
    rw [h.queue] at hmem
    exact nodup_resolve h.once (mem_waitingOf.1 hmem).2 false
  known := h.known_old ht false
  granted t' ht' := List.mem_append_left _ (h.granted t' ht')
  listeners := h.listeners

theorem Sound.fire (h : s.Sound maxConcurrent queueCap) {l : AbortListener}
    (hl : s.calls[l.ticket]? = some l.provider) : (s.fire l).Sound maxConcurrent queueCap := by
  by_cases hmem : l.ticket ∈ s.guard.queue l.provider
  · simpa [Shedding.fire, LoadShedGuard.onAbort, hmem] using h.cancel hl hmem
  · simpa [Shedding.fire, LoadShedGuard.onAbort, hmem] using h

theorem Sound.foldl_fire (h : s.Sound maxConcurrent queueCap) {ls : List AbortListener}
    (hls : ∀ l ∈ ls, s.calls[l.ticket]? = some l.provider) :
    (ls.foldl Shedding.fire s).Sound maxConcurrent queueCap := by
  induction ls generalizing s with
  | nil => exact h
  | cons l ls ih =>
      refine ih (h.fire (hls l List.mem_cons_self)) fun l' hl' => ?_
      exact hls l' (List.mem_cons_of_mem l hl')

theorem Sound.abort (h : s.Sound maxConcurrent queueCap) (signal : ℕ) :
    (s.abort signal).Sound maxConcurrent queueCap := by
  unfold Shedding.abort
  split
  · exact h
  · refine Sound.foldl_fire (s := { s with aborted := signal :: s.aborted }) { h with } ?_
    intro l hl
    exact h.listeners l (List.mem_of_mem_filter hl)

/-- Who gives a slot back held one. -/
theorem card_release (p' : Uuid) (ht : t ∈ s.holders p) :
    ((holdersOf s.calls s.outcomes (t :: s.released) p').card : ℤ) =
      if p' = p then ((s.holders p).card : ℤ) - 1 else ((s.holders p').card : ℤ) := by
  rw [holdersOf_release]
  split
  · next hp =>
      subst hp
      have hcard : ((s.holders p').erase t).card + 1 = (s.holders p').card :=
        Finset.card_erase_add_one ht
      show (((s.holders p').erase t).card : ℤ) = _
      omega
  · next hp =>
      rw [Finset.erase_eq_of_notMem]
      · rfl
      · intro ht'
        have heq := (mem_holdersOf.1 ht).1.symm.trans (mem_holdersOf.1 ht').1
        exact hp (Option.some.inj heq).symm

theorem Sound.granted_cons (h : s.Sound maxConcurrent queueCap) (ht : (t, true) ∈ s.outcomes) :
    ∀ t' ∈ t :: s.released, (t', true) ∈ s.outcomes := by
  intro t' ht'
  rcases List.mem_cons.1 ht' with rfl | ht'
  · exact ht
  · exact h.granted t' ht'

/-- A slot is given back, and nobody waits. -/
theorem Sound.release_idle (h : s.Sound maxConcurrent queueCap) (ht : t ∈ s.holders p)
    (hq : s.guard.queue p = []) :
    { s with
      guard := s.guard.setInFlight p (s.guard.flying p - 1)
      released := t :: s.released }.Sound maxConcurrent queueCap where
  limits := h.limits
  queue := h.queue
  flying p' := by
    show _ = ((holdersOf s.calls s.outcomes (t :: s.released) p').card : ℤ)
    rw [LoadShedGuard.flying_setInFlight, card_release p' ht, h.flying, h.flying]
  bounded p' := by
    rw [LoadShedGuard.flying_setInFlight]
    split
    · have := h.bounded p
      omega
    · exact h.bounded p'
  capped := h.capped
  full p' hq' := by
    rw [LoadShedGuard.flying_setInFlight]
    split
    · next hp =>
        subst hp
        exact absurd hq hq'
    · exact h.full p' hq'
  once := h.once
  known := h.known
  granted := h.granted_cons (mem_holdersOf.1 ht).2.1
  listeners := h.listeners

/-- A slot is given back, and the oldest waiting call gets it. -/
theorem Sound.release_next (h : s.Sound maxConcurrent queueCap) (ht : t ∈ s.holders p)
    {next : Ticket} {rest : List Ticket} (hq : s.guard.queue p = next :: rest) :
    { s with
      guard := ((s.guard.setInFlight p (s.guard.flying p - 1)).setQueue p rest).setInFlight p
        (s.guard.flying p - 1 + 1)
      released := t :: s.released
      outcomes := s.outcomes ++ [(next, true)] }.Sound maxConcurrent queueCap := by
  have hwait : s.waiting p = next :: rest := (h.queue p).symm.trans hq
  have hnext : s.calls[next]? = some p ∧ next ∉ s.outcomes.map Prod.fst :=
    mem_waitingOf.1 (hwait ▸ List.mem_cons_self : next ∈ s.waiting p)
  have hrel : next ∉ t :: s.released := fun hmem =>
    hnext.2 (List.mem_map_of_mem (h.granted_cons (mem_holdersOf.1 ht).2.1 next hmem))
  have hout : next ∉ holdersOf s.calls s.outcomes (t :: s.released) p := fun hmem =>
    hnext.2 (List.mem_map_of_mem (mem_holdersOf.1 hmem).2.1)
  exact
    { limits := h.limits
      queue := by
        intro p'
        show _ = waitingOf s.calls (s.outcomes ++ [(next, true)]) p'
        rw [LoadShedGuard.queue_setInFlight, LoadShedGuard.queue_setQueue]
        by_cases hp : p' = p
        · subst hp
          rw [if_pos rfl, waiting_resolve hwait]
        · rw [if_neg hp, waiting_resolve_of_ne hnext.1 hp]
          exact h.queue p'
      flying := by
        intro p'
        show _ = ((holdersOf s.calls (s.outcomes ++ [(next, true)]) (t :: s.released) p').card : ℤ)
        rw [holdersOf_grant hnext.1 hrel]
        simp only [LoadShedGuard.flying_setInFlight, LoadShedGuard.flying_setQueue]
        by_cases hp : p' = p
        · subst hp
          rw [if_pos rfl, if_pos rfl, Finset.card_insert_of_notMem hout, Int.natCast_succ,
            card_release p' ht, if_pos rfl, h.flying]
        · rw [if_neg hp, if_neg hp, if_neg (Ne.symm hp), card_release p' ht, if_neg hp]
          exact h.flying p'
      bounded := by
        intro p'
        simp only [LoadShedGuard.flying_setInFlight, LoadShedGuard.flying_setQueue]
        have hp := h.bounded p
        have hp' := h.bounded p'
        split <;> omega
      capped := by
        intro p'
        rw [LoadShedGuard.queue_setInFlight, LoadShedGuard.queue_setQueue]
        split
        · have := h.capped p
          rw [hq, List.length_cons] at this
          omega
        · exact h.capped p'
      full := by
        intro p' hq'
        simp only [LoadShedGuard.flying_setInFlight, LoadShedGuard.flying_setQueue]
        rw [LoadShedGuard.queue_setInFlight, LoadShedGuard.queue_setQueue] at hq'
        have hfull := h.full p (by rw [hq]; exact List.cons_ne_nil _ _)
        by_cases hp : p' = p
        · rw [if_pos hp]
          omega
        · rw [if_neg hp] at hq'
          rw [if_neg hp, if_neg hp]
          exact h.full p' hq'
      once := nodup_resolve h.once hnext.2 true
      known := h.known_old hnext.1 true
      granted := fun t' ht' => List.mem_append_left _
        (h.granted_cons (mem_holdersOf.1 ht).2.1 t' ht')
      listeners := h.listeners }

/-- What `release` does when a slot is held. -/
theorem Sound.release_eq (h : s.Sound maxConcurrent queueCap) (ht : t ∈ s.holders p) :
    s.guard.release p = match s.guard.queue p with
      | [] => (s.guard.setInFlight p (s.guard.flying p - 1), none)
      | next :: rest =>
          (((s.guard.setInFlight p (s.guard.flying p - 1)).setQueue p rest).setInFlight p
            (s.guard.flying p - 1 + 1), some next) := by
  have hpos : 0 < s.guard.flying p := by
    rw [h.flying]
    exact_mod_cast Finset.card_pos.2 ⟨t, ht⟩
  have hget : (s.guard.inFlight.get p).getD 1 = s.guard.flying p := by
    unfold LoadShedGuard.flying at hpos ⊢
    cases hg : s.guard.inFlight.get p with
    | none =>
        rw [hg] at hpos
        exact absurd hpos (by simp)
    | some n => rfl
  have hlt : s.guard.flying p - 1 < s.guard.maxConcurrent := by
    have := h.bounded p
    rw [h.limits.1]
    omega
  unfold LoadShedGuard.release
  rw [hget]
  simp only [LoadShedGuard.queue_setInFlight, LoadShedGuard.maxConcurrent_setInFlight, hlt, if_true]

theorem Sound.release (h : s.Sound maxConcurrent queueCap) (hp : s.calls[t]? = some p)
    (hgrant : (t, true) ∈ s.outcomes) (honce : t ∉ s.released) :
    (s.release p t).Sound maxConcurrent queueCap := by
  have ht : t ∈ s.holders p := mem_holdersOf.2 ⟨hp, hgrant, honce⟩
  unfold Shedding.release
  rw [h.release_eq ht]
  cases hq : s.guard.queue p with
  | nil => simpa using h.release_idle ht hq
  | cons next rest => exact h.release_next ht hq

theorem Sound.step {s' : Shedding} (h : s.Sound maxConcurrent queueCap) (hs : Step s s') :
    s'.Sound maxConcurrent queueCap := by
  cases hs with
  | acquire p signal => exact h.acquire p signal
  | abort signal => exact h.abort signal
  | release hp hgrant honce => exact h.release hp hgrant honce

theorem Reachable.sound (h : Reachable maxConcurrent queueCap s) :
    s.Sound maxConcurrent queueCap := by
  induction h with
  | refl => exact sound_initial maxConcurrent queueCap
  | tail _ hs ih => exact ih.step hs

/-! ### The order of the grants -/

/-- A call that is granted a slot has waited for the longest. -/
def InOrder (s s' : Shedding) : Prop :=
  ∀ t p, s'.calls[t]? = some p → (t, true) ∈ s'.outcomes → (t, true) ∉ s.outcomes →
    ∀ t' ∈ s.waiting p, t ≤ t'

/-- An abort grants nothing. -/
theorem granted_abort {signal : ℕ} (h : (t, true) ∈ (s.abort signal).outcomes) :
    (t, true) ∈ s.outcomes := by
  have hfire : ∀ (ls : List AbortListener) (s : Shedding),
      (t, true) ∈ (ls.foldl Shedding.fire s).outcomes → (t, true) ∈ s.outcomes := by
    intro ls
    induction ls with
    | nil => exact fun _ h => h
    | cons l ls ih =>
        intro s h
        have hl := ih (s.fire l) h
        unfold Shedding.fire at hl
        dsimp only at hl
        split at hl
        · simpa using hl
        · exact hl
  unfold Shedding.abort at h
  split at h
  · exact h
  · exact hfire _ { s with aborted := signal :: s.aborted } h

theorem Sound.inOrder_acquire (h : s.Sound maxConcurrent queueCap) (p : Uuid)
    (signal : Option ℕ) : InOrder s (s.acquire p signal) := by
  intro t p' hp hnew hold
  have hmax := h.limits.1
  unfold Shedding.acquire LoadShedGuard.acquire at hp hnew
  dsimp only at hp hnew
  rcases List.mem_append.1 hnew with hnew | hnew
  · exact absurd hnew hold
  · split at hnew
    · next hfree =>
        obtain ⟨rfl, -⟩ := Prod.mk.inj (List.mem_singleton.1 hnew)
        obtain rfl : p = p' := by simpa using hp
        have hidle : s.waiting p = [] := by
          by_contra hq
          rw [← h.queue] at hq
          have := h.full p hq
          omega
        rw [hidle]
        exact fun _ h => absurd h List.not_mem_nil
    · split at hnew <;> simp at hnew

theorem Sound.inOrder_release (h : s.Sound maxConcurrent queueCap) (ht : t ∈ s.holders p) :
    InOrder s (s.release p t) := by
  intro t₁ p₁ hp hnew hold
  unfold Shedding.release at hp hnew
  rw [h.release_eq ht] at hnew
  dsimp only at hp hnew
  rcases List.mem_append.1 hnew with hnew | hnew
  · exact absurd hnew hold
  · cases hq : s.guard.queue p with
    | nil =>
        rw [hq] at hnew
        exact absurd hnew List.not_mem_nil
    | cons next rest =>
        rw [hq] at hnew
        obtain ⟨rfl, -⟩ := Prod.mk.inj (List.mem_singleton.1 hnew)
        rw [h.queue] at hq
        have hnext : t₁ ∈ s.waiting p := hq ▸ List.mem_cons_self
        obtain rfl : p₁ = p := Option.some.inj (hp.symm.trans (mem_waitingOf.1 hnext).1)
        have hsorted : (t₁ :: rest).Pairwise (· < ·) := hq ▸ pairwise_waitingOf
        intro t' ht'
        rw [hq] at ht'
        rcases List.mem_cons.1 ht' with rfl | ht'
        · exact le_rfl
        · exact (List.rel_of_pairwise_cons hsorted ht').le

theorem Sound.inOrder {s' : Shedding} (h : s.Sound maxConcurrent queueCap) (hs : Step s s') :
    InOrder s s' := by
  cases hs with
  | acquire p signal => exact h.inOrder_acquire p signal
  | abort signal => exact fun t p _ hnew hold => absurd (granted_abort hnew) hold
  | release hp hgrant honce => exact h.inOrder_release (mem_holdersOf.2 ⟨hp, hgrant, honce⟩)

/-- **The guard keeps its books.**  After every sequence of events the slots in use are those
granted and not given back, within the limit; the queue holds the waiting calls, within its cap,
and is empty unless every slot is in use; each promise is resolved once; and every further grant
goes to the call that has waited for the longest. -/
theorem shedding_sound (h : Reachable maxConcurrent queueCap s) :
    s.Sound maxConcurrent queueCap ∧ ∀ s', Step s s' → InOrder s s' :=
  ⟨h.sound, fun _ hs => h.sound.inOrder hs⟩

end Shedding

namespace Sample

def shedProvider : Uuid := ⟨"99999999-9999-4999-8999-999999999999", by decide⟩

/-- Two calls for the only slot, and the first gives it back. -/
def handedOver : Shedding :=
  (((Shedding.initial 1 1).acquire shedProvider none).acquire shedProvider (some 0)).release
    shedProvider 0

theorem handedOver_reachable : Shedding.Reachable 1 1 handedOver := by
  refine .tail (.tail (.single (.acquire _ shedProvider none)) (.acquire _ shedProvider (some 0))) ?_
  exact .release (by decide) (by decide) (by decide)

end Sample

theorem sample_shedding_sound : Sample.handedOver.Sound 1 1 ∧
    ∀ s', Shedding.Step Sample.handedOver s' → Shedding.InOrder Sample.handedOver s' :=
  Shedding.shedding_sound Sample.handedOver_reachable

end VibeRouter
