import VibeRouter.Lib.Prog
import Mathlib.Data.Set.Basic

/-! # Interleaved programs over a shared state

A `System` runs any number of programs (threads, named by `ι`) over one shared state `σ`.
A thread takes a step when the operation it waits for is answered: the answer must be allowed
in the thread's local state (`env`), and the shared state moves by `handler`, which sees both.
Between such steps new threads start (`start`) and the shared state may move by itself
(`drift`).  Every interleaving of such steps is a run of the system.

`System.invariant` is the rule for safety: if every program that may start satisfies its
weakest precondition, and every single step of an operation that is `ok` keeps a relation
between the shared state and the local states, that relation holds in every reachable state.
The weakest precondition may rely on what the relation says of the answers.

`Pool.exec` runs a finite schedule against a function that answers; `reachable_exec` says that
what it computes is reachable. -/

namespace Effects

variable {ι E : Type} {R : E → Type} {α σ Q : Type}

/-- The state of a system: the shared state and, for each thread that has started, what is
left of its program and its local state. -/
structure Pool (ι E : Type) (R : E → Type) (α σ Q : Type) where
  shared : σ
  thread : ι → Option (Prog E R α × Q)

/-- The steps a system may take. -/
structure System (ι E : Type) (R : E → Type) (α σ Q : Type) where
  env : Env E R Q
  handler : ι → σ → Q → (e : E) → R e → σ → Prop
  start : ι → σ → Prog E R α → Q → Prop
  drift : σ → σ → Prop

namespace Pool

/-- The local states of the threads that have started. -/
def locals (P : Pool ι E R α σ Q) (i : ι) : Option Q := (P.thread i).map Prod.snd

/-- The operation a thread waits for. -/
def pending (P : Pool ι E R α σ Q) (i : ι) : Option E :=
  match P.thread i with
  | some (.call e _, _) => some e
  | _ => none

theorem thread_of_pending {P : Pool ι E R α σ Q} {i : ι} {e : E} (h : P.pending i = some e) :
    ∃ k q, P.thread i = some (.call e k, q) := by
  unfold pending at h
  split at h
  · next e' k q heq =>
      cases h
      exact ⟨k, q, heq⟩
  · cases h

end Pool

namespace System

variable [DecidableEq ι] (S : System ι E R α σ Q)

/-- One step of a system. -/
inductive Step : Pool ι E R α σ Q → Pool ι E R α σ Q → Prop
  | spawn {P : Pool ι E R α σ Q} {i : ι} {p : Prog E R α} {q : Q} :
      P.thread i = none → S.start i P.shared p q →
      Step P { P with thread := Function.update P.thread i (some (p, q)) }
  | act {P : Pool ι E R α σ Q} {i : ι} {e : E} {k : R e → Prog E R α} {q : Q} {r : R e} {s' : σ} :
      P.thread i = some (.call e k, q) → S.env.allows q e r → S.handler i P.shared q e r s' →
      Step P ⟨s', Function.update P.thread i (some (k r, S.env.next q e r))⟩
  | drift {P : Pool ι E R α σ Q} {s' : σ} : S.drift P.shared s' → Step P { P with shared := s' }

/-- The system with no thread started yet. -/
def initial (s : σ) : Pool ι E R α σ Q := ⟨s, fun _ => none⟩

/-- The states reachable from the shared state `s`. -/
def Reachable (s : σ) : Pool ι E R α σ Q → Prop := Relation.ReflTransGen S.Step (initial s)

variable {S} {rely : Q → (e : E) → R e → Prop} {ok : Q → E → Prop} {post : α → Q → Prop}
  {I : σ → (ι → Option Q) → Prop}

theorem locals_update (P : Pool ι E R α σ Q) (i : ι) (p : Prog E R α) (q : Q) (s : σ) :
    Pool.locals ⟨s, Function.update P.thread i (some (p, q))⟩ =
      Function.update P.locals i (some q) := by
  funext j
  unfold Pool.locals
  by_cases h : j = i
  · subst h; simp
  · simp [h]

/-- The surroundings of one thread when the shared state is known to satisfy a relation: the
answers are also restricted by `rely`. -/
def view (S : System ι E R α σ Q) (rely : Q → (e : E) → R e → Prop) : Env E R Q where
  allows q e r := S.env.allows q e r ∧ rely q e r
  next := S.env.next

omit [DecidableEq ι] in
theorem wp_view {p : Prog E R α} {q : Q} (h : p.wp S.env ok post q) :
    p.wp (S.view rely) ok post q := by
  induction p generalizing q with
  | ret a => exact h
  | call e k ih => exact ⟨h.1, fun r hr => ih r (h.2 r hr.1)⟩

/-- What the rule for safety asks of a relation between the shared and the local states. -/
structure Preserves (S : System ι E R α σ Q) (rely : Q → (e : E) → R e → Prop)
    (ok : Q → E → Prop) (post : α → Q → Prop) (I : σ → (ι → Option Q) → Prop) : Prop where
  start_wp : ∀ i s p q, S.start i s p q → p.wp (S.view rely) ok post q
  spawn : ∀ i s L p q, I s L → L i = none → S.start i s p q → I s (Function.update L i (some q))
  rely : ∀ i s L q e r s', I s L → L i = some q → S.env.allows q e r → S.handler i s q e r s' →
    rely q e r
  act : ∀ i s L q e r s', I s L → L i = some q → ok q e → S.env.allows q e r →
    S.handler i s q e r s' → I s' (Function.update L i (some (S.env.next q e r)))
  drift : ∀ s s' L, I s L → S.drift s s' → I s' L

/-- What holds of a reachable state: the relation, and what is left of each program still
satisfies its weakest precondition. -/
def Holds (S : System ι E R α σ Q) (rely : Q → (e : E) → R e → Prop) (ok : Q → E → Prop)
    (post : α → Q → Prop) (I : σ → (ι → Option Q) → Prop) (P : Pool ι E R α σ Q) : Prop :=
  I P.shared P.locals ∧ ∀ i p q, P.thread i = some (p, q) → p.wp (S.view rely) ok post q

theorem Preserves.step (h : Preserves S rely ok post I) {P P' : Pool ι E R α σ Q}
    (hP : Holds S rely ok post I P) (hs : S.Step P P') : Holds S rely ok post I P' := by
  obtain ⟨hI, hwp⟩ := hP
  cases hs with
  | @spawn i p q hn hst =>
      have hL : P.locals i = none := by simp [Pool.locals, hn]
      refine ⟨?_, ?_⟩
      · rw [locals_update]
        exact h.spawn i _ _ p q hI hL hst
      · intro j p' q' hj
        by_cases hji : j = i
        · subst hji
          simp only [Function.update_self, Option.some.injEq, Prod.mk.injEq] at hj
          obtain ⟨rfl, rfl⟩ := hj
          exact h.start_wp _ _ _ _ hst
        · simp only [Function.update_of_ne hji] at hj
          exact hwp j p' q' hj
  | @act i e k q r s' ht hr hh =>
      have hL : P.locals i = some q := by simp [Pool.locals, ht]
      obtain ⟨hok, hk⟩ := hwp i _ _ ht
      refine ⟨?_, ?_⟩
      · rw [locals_update]
        exact h.act i _ _ q e r s' hI hL hok hr hh
      · intro j p' q' hj
        by_cases hji : j = i
        · subst hji
          simp only [Function.update_self, Option.some.injEq, Prod.mk.injEq] at hj
          obtain ⟨rfl, rfl⟩ := hj
          exact hk r ⟨hr, h.rely j _ _ q e r s' hI hL hr hh⟩
        · simp only [Function.update_of_ne hji] at hj
          exact hwp j p' q' hj
  | drift hd => exact ⟨h.drift _ _ _ hI hd, hwp⟩

/-- **The rule for safety.** -/
theorem invariant (h : Preserves S rely ok post I) {s : σ} (h0 : I s fun _ => none)
    {P : Pool ι E R α σ Q} (hP : S.Reachable s P) : Holds S rely ok post I P := by
  induction hP with
  | refl => exact ⟨h0, fun i p q hi => by simp [initial] at hi⟩
  | tail _ hs ih => exact h.step ih hs

end System

/-! ### Schedules -/

/-- One entry of a schedule: start a thread, let a thread take some steps, or move the shared
state. -/
inductive Action (ι E : Type) (R : E → Type) (α σ Q : Type) : Type
  | spawn (i : ι) (p : Prog E R α) (q : Q)
  | run (i : ι) (n : ℕ)
  | drift (s' : σ → σ)

/-- The thread an entry of a schedule is about. -/
def Action.concerns : Action ι E R α σ Q → Option ι
  | .spawn i _ _ => some i
  | .run i _ => some i
  | .drift _ => none

namespace Prog

/-- At most `n` steps of one program over a shared state. -/
def steps (next : Q → (e : E) → R e → Q) (ans : σ → Q → (e : E) → R e × σ) :
    ℕ → Prog E R α → Q → σ → (Prog E R α × Q) × σ
  | n + 1, call e k, q, s => steps next ans n (k (ans s q e).1) (next q e (ans s q e).1) (ans s q e).2
  | _, p, q, s => ((p, q), s)

end Prog

namespace Pool

variable [DecidableEq ι]

/-- Carry out one entry of a schedule; a thread that has not started takes no step. -/
def perform (next : Q → (e : E) → R e → Q) (ans : ι → σ → Q → (e : E) → R e × σ)
    (P : Pool ι E R α σ Q) : Action ι E R α σ Q → Pool ι E R α σ Q
  | .spawn i p q => { P with thread := Function.update P.thread i (some (p, q)) }
  | .run i n => match P.thread i with
    | none => P
    | some (p, q) =>
        let out := p.steps next (ans i) n q P.shared
        ⟨out.2, Function.update P.thread i (some out.1)⟩
  | .drift f => { P with shared := f P.shared }

/-- Carry out a schedule. -/
def exec (next : Q → (e : E) → R e → Q) (ans : ι → σ → Q → (e : E) → R e × σ)
    (P : Pool ι E R α σ Q) (as : List (Action ι E R α σ Q)) : Pool ι E R α σ Q :=
  as.foldl (perform next ans) P

/-- A thread that no entry of a schedule is about takes no step. -/
theorem thread_exec {next : Q → (e : E) → R e → Q} {ans : ι → σ → Q → (e : E) → R e × σ} {i : ι}
    (P : Pool ι E R α σ Q) {as : List (Action ι E R α σ Q)}
    (h : ∀ a ∈ as, Action.concerns a ≠ some i) : (P.exec next ans as).thread i = P.thread i := by
  induction as generalizing P with
  | nil => rfl
  | cons a as ih =>
      have hstep : (P.perform next ans a).thread i = P.thread i := by
        have ha := h a (List.mem_cons_self ..)
        cases a with
        | spawn j p q =>
            have hij : i ≠ j := fun heq => ha (by rw [heq]; rfl)
            simp [perform, hij]
        | run j n =>
            have hij : i ≠ j := fun heq => ha (by rw [heq]; rfl)
            simp only [perform]
            split <;> simp [hij]
        | drift f => rfl
      show (Pool.exec next ans (P.perform next ans a) as).thread i = P.thread i
      rw [ih _ fun a' ha' => h a' (List.mem_cons_of_mem _ ha'), hstep]

/-- A schedule the system permits from `P`: threads start once and as `start` says, and the
shared state moves by itself only as `drift` says. -/
def Permits (S : System ι E R α σ Q) (ans : ι → σ → Q → (e : E) → R e × σ) :
    Pool ι E R α σ Q → List (Action ι E R α σ Q) → Prop
  | _, [] => True
  | P, .spawn i p q :: as => P.thread i = none ∧ S.start i P.shared p q ∧
      Permits S ans (P.perform S.env.next ans (.spawn i p q)) as
  | P, .run i n :: as => Permits S ans (P.perform S.env.next ans (.run i n)) as
  | P, .drift f :: as => S.drift P.shared (f P.shared) ∧
      Permits S ans (P.perform S.env.next ans (.drift f)) as

end Pool

namespace System

variable [DecidableEq ι] {S : System ι E R α σ Q}

/-- The answering function only gives answers the system allows. -/
def Sound (S : System ι E R α σ Q) (ans : ι → σ → Q → (e : E) → R e × σ) : Prop :=
  ∀ i s q e, S.env.allows q e (ans i s q e).1 ∧ S.handler i s q e (ans i s q e).1 (ans i s q e).2

variable {ans : ι → σ → Q → (e : E) → R e × σ}

theorem steps_reach (hans : S.Sound ans) (i : ι) (n : ℕ) (p : Prog E R α) (q : Q)
    (P : Pool ι E R α σ Q) (hP : P.thread i = some (p, q)) :
    Relation.ReflTransGen S.Step P
      ⟨(p.steps S.env.next (ans i) n q P.shared).2,
        Function.update P.thread i (some (p.steps S.env.next (ans i) n q P.shared).1)⟩ := by
  induction n generalizing p q P with
  | zero =>
      have hu : Function.update P.thread i (some (p, q)) = P.thread := by
        rw [← hP]; exact Function.update_eq_self i P.thread
      simp only [Prog.steps, hu]
      exact .refl
  | succ n ih =>
      cases p with
      | ret a =>
          have hu : Function.update P.thread i (some (.ret a, q)) = P.thread := by
            rw [← hP]; exact Function.update_eq_self i P.thread
          simp only [Prog.steps, hu]
          exact .refl
      | call e k =>
          obtain ⟨ha, hh⟩ := hans i P.shared q e
          refine .head (.act hP ha hh) ?_
          have := ih (k (ans i P.shared q e).1) (S.env.next q e (ans i P.shared q e).1)
            ⟨(ans i P.shared q e).2, Function.update P.thread i
              (some (k (ans i P.shared q e).1, S.env.next q e (ans i P.shared q e).1))⟩
            (by simp)
          simpa only [Prog.steps, Function.update_idem] using this

theorem perform_reach (hans : S.Sound ans) (P : Pool ι E R α σ Q) (a : Action ι E R α σ Q)
    (as : List (Action ι E R α σ Q)) (h : P.Permits S ans (a :: as)) :
    Relation.ReflTransGen S.Step P (P.perform S.env.next ans a) ∧
      (P.perform S.env.next ans a).Permits S ans as := by
  cases a with
  | spawn i p q => exact ⟨.single (.spawn h.1 h.2.1), h.2.2⟩
  | run i n =>
      refine ⟨?_, h⟩
      cases hi : P.thread i with
      | none =>
          simp only [Pool.perform, hi]
          exact .refl
      | some pq =>
          simp only [Pool.perform, hi]
          exact steps_reach hans i n pq.1 pq.2 P hi
  | drift f => exact ⟨.single (.drift h.1), h.2⟩

/-- What a permitted schedule computes is reachable. -/
theorem reachable_exec (hans : S.Sound ans) {s : σ} {P : Pool ι E R α σ Q}
    {as : List (Action ι E R α σ Q)} (hP : S.Reachable s P) (h : P.Permits S ans as) :
    S.Reachable s (P.exec S.env.next ans as) := by
  induction as generalizing P with
  | nil => exact hP
  | cons a as ih =>
      obtain ⟨hr, hp⟩ := perform_reach hans P a as h
      exact ih (hP.trans hr) hp

/-! ### Guarded systems -/

/-- The system in which no thread performs an operation that is barred. -/
def guarded (S : System ι E R α σ Q) (B : ι → σ → E → Prop) : System ι E R α σ Q :=
  { S with handler := fun i s q e r s' => S.handler i s q e r s' ∧ ¬B i s e }

end System

namespace Prog

/-- None of the first `n` operations of a program is barred. -/
def Clear (B : σ → E → Prop) (next : Q → (e : E) → R e → Q) (ans : σ → Q → (e : E) → R e × σ) :
    ℕ → Prog E R α → Q → σ → Prop
  | n + 1, call e k, q, s => ¬B s e ∧
      Clear B next ans n (k (ans s q e).1) (next q e (ans s q e).1) (ans s q e).2
  | _, _, _, _ => True

instance decidableClear (B : σ → E → Prop) [∀ s e, Decidable (B s e)]
    (next : Q → (e : E) → R e → Q) (ans : σ → Q → (e : E) → R e × σ) :
    ∀ (n : ℕ) (p : Prog E R α) (q : Q) (s : σ), Decidable (p.Clear B next ans n q s)
  | 0, _, _, _ => .isTrue trivial
  | _ + 1, ret _, _, _ => .isTrue trivial
  | n + 1, call e k, q, s =>
      let := decidableClear B next ans n (k (ans s q e).1) (next q e (ans s q e).1) (ans s q e).2
      inferInstanceAs (Decidable (_ ∧ _))

/-- `Clear` of a thread that may not have started. -/
def ThreadClear (B : σ → E → Prop) (next : Q → (e : E) → R e → Q)
    (ans : σ → Q → (e : E) → R e × σ) (n : ℕ) (s : σ) : Option (Prog E R α × Q) → Prop
  | none => True
  | some (p, q) => p.Clear B next ans n q s

instance decidableThreadClear (B : σ → E → Prop) [∀ s e, Decidable (B s e)]
    (next : Q → (e : E) → R e → Q) (ans : σ → Q → (e : E) → R e × σ) (n : ℕ) (s : σ) :
    ∀ t : Option (Prog E R α × Q), Decidable (ThreadClear B next ans n s t)
  | none => .isTrue trivial
  | some (p, q) => decidableClear B next ans n p q s

end Prog

namespace Pool

variable [DecidableEq ι]

/-- One entry of a schedule performs no operation that is barred. -/
def ClearEntry (B : ι → σ → E → Prop) (next : Q → (e : E) → R e → Q)
    (ans : ι → σ → Q → (e : E) → R e × σ) (P : Pool ι E R α σ Q) : Action ι E R α σ Q → Prop
  | .run i n => Prog.ThreadClear (B i) next (ans i) n P.shared (P.thread i)
  | _ => True

/-- A schedule performs no operation that is barred. -/
def Clear (B : ι → σ → E → Prop) (next : Q → (e : E) → R e → Q)
    (ans : ι → σ → Q → (e : E) → R e × σ) : Pool ι E R α σ Q → List (Action ι E R α σ Q) → Prop
  | _, [] => True
  | P, a :: as => P.ClearEntry B next ans a ∧ Clear B next ans (P.perform next ans a) as

section
variable (B : ι → σ → E → Prop) [∀ i s e, Decidable (B i s e)] (next : Q → (e : E) → R e → Q)
  (ans : ι → σ → Q → (e : E) → R e × σ)

instance decidableClearEntry (P : Pool ι E R α σ Q) :
    ∀ a, Decidable (P.ClearEntry B next ans a)
  | .spawn _ _ _ => .isTrue trivial
  | .drift _ => .isTrue trivial
  | .run i n => Prog.decidableThreadClear (B i) next (ans i) n P.shared (P.thread i)

instance decidableClear : ∀ (P : Pool ι E R α σ Q) (as : List (Action ι E R α σ Q)),
    Decidable (P.Clear B next ans as)
  | _, [] => .isTrue trivial
  | P, a :: as =>
      let := decidableClear (P.perform next ans a) as
      inferInstanceAs (Decidable (_ ∧ _))

end

end Pool

namespace System

variable [DecidableEq ι] {S : System ι E R α σ Q} {B : ι → σ → E → Prop}
  {ans : ι → σ → Q → (e : E) → R e × σ}

theorem Step.of_guarded {P P' : Pool ι E R α σ Q} (h : (S.guarded B).Step P P') : S.Step P P' := by
  cases h with
  | spawn hnone hstart => exact .spawn hnone hstart
  | act hthread hallows hhandler => exact .act hthread hallows hhandler.1
  | drift hdrift => exact .drift hdrift

theorem reachable_of_guarded {s : σ} {P : Pool ι E R α σ Q} (h : (S.guarded B).Reachable s P) :
    S.Reachable s P := by
  induction h with
  | refl => exact .refl
  | tail _ hstep ih => exact ih.tail hstep.of_guarded

theorem steps_reach_guarded (hans : S.Sound ans) (i : ι) (n : ℕ) (p : Prog E R α) (q : Q)
    (P : Pool ι E R α σ Q) (hP : P.thread i = some (p, q))
    (hclear : p.Clear (B i) S.env.next (ans i) n q P.shared) :
    Relation.ReflTransGen (S.guarded B).Step P
      ⟨(p.steps S.env.next (ans i) n q P.shared).2,
        Function.update P.thread i (some (p.steps S.env.next (ans i) n q P.shared).1)⟩ := by
  have hstay : Function.update P.thread i (some (p, q)) = P.thread := by
    rw [← hP]
    exact Function.update_eq_self i P.thread
  induction n generalizing p q P with
  | zero =>
      simp only [Prog.steps, hstay]
      exact .refl
  | succ n ih =>
      cases p with
      | ret a =>
          simp only [Prog.steps, hstay]
          exact .refl
      | call e k =>
          obtain ⟨ha, hh⟩ := hans i P.shared q e
          obtain ⟨hgood, hclear⟩ := hclear
          refine .head (.act hP ha ⟨hh, hgood⟩) ?_
          have hrest := ih (k (ans i P.shared q e).1) (S.env.next q e (ans i P.shared q e).1)
            ⟨(ans i P.shared q e).2, Function.update P.thread i
              (some (k (ans i P.shared q e).1, S.env.next q e (ans i P.shared q e).1))⟩
            (Function.update_self ..) hclear (Function.update_idem ..)
          simpa only [Prog.steps, guarded, Function.update_idem] using hrest

/-- What a permitted schedule computes is reachable in the guarded system if no operation of it is
barred. -/
theorem reachable_guarded (hans : S.Sound ans) {s : σ} {P : Pool ι E R α σ Q}
    {as : List (Action ι E R α σ Q)} (hP : (S.guarded B).Reachable s P) (h : P.Permits S ans as)
    (hclear : P.Clear B S.env.next ans as) :
    (S.guarded B).Reachable s (P.exec S.env.next ans as) := by
  induction as generalizing P with
  | nil => exact hP
  | cons a as ih =>
      obtain ⟨hentry, hclear⟩ := hclear
      have hrest := (perform_reach hans P a as h).2
      refine ih (hP.trans ?_) hrest hclear
      cases a with
      | spawn i p q => exact .single (.spawn h.1 h.2.1)
      | run i n =>
          cases hi : P.thread i with
          | none =>
              simp only [Pool.perform, hi]
              exact .refl
          | some pq =>
              simp only [Pool.ClearEntry, Prog.ThreadClear, hi] at hentry
              simp only [Pool.perform, hi]
              exact steps_reach_guarded hans i n pq.1 pq.2 P hi hentry
      | drift f => exact .single (.drift h.1)

end System

end Effects
