import Mathlib.Logic.Relation
import Mathlib.Logic.Function.Basic

/-! # Programs that perform operations

`Prog E R α` is a program that returns a value of type `α` or performs an operation `e : E`
and continues with the answer, of type `R e`, that its surroundings give.  A program is a
well-founded tree, so every run of it ends or stops at an operation that is not answered.

The surroundings are described by an `Env`: which answers they may give, and a local state
that records what has happened so far (a history, a ghost variable, a protocol state).
`Prog.wp V ok p post q` says that, whatever allowed answers `p` gets from the state `q` on,
every operation it performs is `ok` in the state where it performs it, and `post` holds when
it returns.  `Run` is the operational counterpart (`wp_run`), `eval` runs a program against
surroundings that answer by a function (`run_eval`). -/

namespace Effects

/-- A program over the operations `E` with answers `R`. -/
inductive Prog (E : Type) (R : E → Type) (α : Type) : Type
  | ret (a : α)
  | call (e : E) (k : R e → Prog E R α)

/-- Surroundings of a program: the answers allowed in a local state, and the state after. -/
structure Env (E : Type) (R : E → Type) (Q : Type) where
  allows : Q → (e : E) → R e → Prop
  next : Q → (e : E) → R e → Q

namespace Prog

variable {E : Type} {R : E → Type} {Q α β γ : Type}

def bind : Prog E R α → (α → Prog E R β) → Prog E R β
  | ret a, f => f a
  | call e k, f => call e fun r => (k r).bind f

/-- Perform one operation and return its answer. -/
def perform (e : E) : Prog E R (R e) := call e ret

instance : Monad (Prog E R) where
  pure := ret
  bind := bind

@[simp] theorem pure_eq_ret (a : α) : (pure a : Prog E R α) = ret a := rfl

@[simp] theorem bind_eq (p : Prog E R α) (f : α → Prog E R β) : (p >>= f) = p.bind f := rfl

@[simp] theorem ret_bind (a : α) (f : α → Prog E R β) : (ret a).bind f = f a := rfl

@[simp] theorem call_bind (e : E) (k : R e → Prog E R α) (f : α → Prog E R β) :
    (call e k).bind f = call e fun r => (k r).bind f := rfl

theorem bind_assoc (p : Prog E R α) (f : α → Prog E R β) (g : β → Prog E R γ) :
    (p.bind f).bind g = p.bind fun a => (f a).bind g := by
  induction p with
  | ret a => rfl
  | call e k ih => simp only [call_bind, ih]

/-! ### Weakest preconditions -/

variable (V : Env E R Q) (ok : Q → E → Prop)

/-- From the state `q` on, `p` only performs operations that are `ok` where it performs them,
and returns only values and in states that satisfy `post`. -/
def wp : Prog E R α → (α → Q → Prop) → Q → Prop
  | ret a, post, q => post a q
  | call e k, post, q => ok q e ∧ ∀ r, V.allows q e r → (k r).wp post (V.next q e r)

variable {V ok}

@[simp] theorem wp_ret (a : α) (post : α → Q → Prop) (q : Q) :
    (ret a : Prog E R α).wp V ok post q ↔ post a q := Iff.rfl

@[simp] theorem wp_call (e : E) (k : R e → Prog E R α) (post : α → Q → Prop) (q : Q) :
    (call e k).wp V ok post q ↔
      ok q e ∧ ∀ r, V.allows q e r → (k r).wp V ok post (V.next q e r) := Iff.rfl

@[simp] theorem wp_perform (e : E) (post : R e → Q → Prop) (q : Q) :
    (perform e).wp V ok post q ↔ ok q e ∧ ∀ r, V.allows q e r → post r (V.next q e r) := Iff.rfl

theorem wp_bind (p : Prog E R α) (f : α → Prog E R β) (post : β → Q → Prop) (q : Q) :
    (p.bind f).wp V ok post q ↔ p.wp V ok (fun a => (f a).wp V ok post) q := by
  induction p generalizing q with
  | ret a => rfl
  | call e k ih => simp only [call_bind, wp_call, ih]

theorem wp_mono {p : Prog E R α} {post post' : α → Q → Prop} {q : Q}
    (h : p.wp V ok post q) (hpost : ∀ a q, post a q → post' a q) : p.wp V ok post' q := by
  induction p generalizing q with
  | ret a => exact hpost _ _ h
  | call e k ih => exact ⟨h.1, fun r hr => ih r (h.2 r hr)⟩

/-- A weakest precondition stays one in surroundings that allow less. -/
theorem wp_narrow {V' : Env E R Q} {ok' : Q → E → Prop} {post : α → Q → Prop}
    (hallows : ∀ q e r, V'.allows q e r → V.allows q e r) (hnext : V'.next = V.next)
    (hok : ∀ q e, ok q e → ok' q e) {p : Prog E R α} {q : Q} (h : p.wp V ok post q) :
    p.wp V' ok' post q := by
  induction p generalizing q with
  | ret a => exact h
  | call e k ih =>
      refine ⟨hok q e h.1, fun r hr => ?_⟩
      rw [hnext]
      exact ih r (h.2 r (hallows q e r hr))

/-- Two weakest preconditions of one program, the second in surroundings that allow more. -/
theorem wp_and {Q' : Type} {V' : Env E R Q'} {ok' : Q' → E → Prop} {post : α → Q → Prop}
    {post' : α → Q' → Prop} (hV : ∀ q q' e r, V.allows q e r → V'.allows q' e r)
    {p : Prog E R α} {q : Q} {q' : Q'} (h : p.wp V ok post q) (h' : p.wp V' ok' post' q') :
    p.wp V (fun q e => ok q e ∧ ∃ q', ok' q' e) (fun a q => post a q ∧ ∃ q', post' a q') q := by
  induction p generalizing q q' with
  | ret a => exact ⟨h, q', h'⟩
  | call e k ih =>
      refine ⟨⟨h.1, q', h'.1⟩, fun r hr => ?_⟩
      exact ih r (h.2 r hr) (h'.2 r (hV q q' e r hr))

/-! ### Runs -/

variable (V)

/-- `Run V p q p' q'`: from `p` in the state `q`, allowed answers lead to `p'` in `q'`. -/
inductive Run : Prog E R α → Q → Prog E R α → Q → Prop
  | refl (p : Prog E R α) (q : Q) : Run p q p q
  | step {e : E} {k : R e → Prog E R α} {q q' : Q} {p' : Prog E R α} (r : R e) :
      V.allows q e r → Run (k r) (V.next q e r) p' q' → Run (call e k) q p' q'

variable {V}

theorem Run.trans {p₁ p₂ p₃ : Prog E R α} {q₁ q₂ q₃ : Q}
    (h₁ : Run V p₁ q₁ p₂ q₂) (h₂ : Run V p₂ q₂ p₃ q₃) : Run V p₁ q₁ p₃ q₃ := by
  induction h₁ with
  | refl => exact h₂
  | step r hr _ ih => exact .step r hr (ih h₂)

theorem Run.bind {p p' : Prog E R α} {q q' : Q} (h : Run V p q p' q') (f : α → Prog E R β) :
    Run V (p.bind f) q (p'.bind f) q' := by
  induction h with
  | refl => exact .refl _ _
  | step r hr _ ih => exact .step r hr ih

/-- A run is one in surroundings that allow more. -/
theorem Run.widen {V' : Env E R Q} (hallows : ∀ q e r, V.allows q e r → V'.allows q e r)
    (hnext : V'.next = V.next) {p p' : Prog E R α} {q q' : Q} (h : Run V p q p' q') : Run V' p q p' q' := by
  induction h with
  | refl => exact .refl _ _
  | step r hr _ ih => exact .step r (hallows _ _ r hr) (hnext ▸ ih)

/-- A weakest precondition holds along every run. -/
theorem wp_run {p p' : Prog E R α} {post : α → Q → Prop} {q q' : Q}
    (h : p.wp V ok post q) (hr : Run V p q p' q') : p'.wp V ok post q' := by
  induction hr with
  | refl => exact h
  | step r hr _ ih => exact ih (h.2 r hr)

/-- Every operation reached by a run is `ok` in the state where it is performed. -/
theorem ok_of_run {p : Prog E R α} {post : α → Q → Prop} {q q' : Q} {e : E}
    {k : R e → Prog E R α} (h : p.wp V ok post q) (hr : Run V p q (call e k) q') : ok q' e :=
  (wp_run h hr).1

/-- Every value returned by a run satisfies the postcondition. -/
theorem post_of_run {p : Prog E R α} {post : α → Q → Prop} {q q' : Q} {a : α}
    (h : p.wp V ok post q) (hr : Run V p q (ret a) q') : post a q' :=
  wp_run h hr

/-- What every answer keeps, every run keeps. -/
theorem Run.preserves {J : Q → Prop} (hJ : ∀ q e r, J q → V.allows q e r → J (V.next q e r))
    {p p' : Prog E R α} {q q' : Q} (h : Run V p q p' q') (hq : J q) : J q' := by
  induction h with
  | refl => exact hq
  | step r hr _ ih => exact ih (hJ _ _ _ hq hr)

/-- Where every operation can be answered, every program comes to its end. -/
theorem exists_run (hV : ∀ q e, ∃ r, V.allows q e r) (p : Prog E R α) (q : Q) :
    ∃ a q', Run V p q (ret a) q' := by
  induction p generalizing q with
  | ret a => exact ⟨a, q, .refl _ _⟩
  | call e k ih =>
      obtain ⟨r, hr⟩ := hV q e
      obtain ⟨a, q', hrun⟩ := ih r (V.next q e r)
      exact ⟨a, q', .step r hr hrun⟩

/-! ### Surroundings that answer by a function -/

/-- Run a program against surroundings that answer by the function `h`. -/
def eval (h : Q → (e : E) → R e × Q) : Prog E R α → Q → α × Q
  | ret a, q => (a, q)
  | call e k, q => (k (h q e).1).eval h (h q e).2

variable {h : Q → (e : E) → R e × Q}

@[simp] theorem eval_ret (a : α) (q : Q) : (ret a : Prog E R α).eval h q = (a, q) := rfl

@[simp] theorem eval_call (e : E) (k : R e → Prog E R α) (q : Q) :
    (call e k).eval h q = (k (h q e).1).eval h (h q e).2 := rfl

@[simp] theorem eval_perform (e : E) (q : Q) : (perform e).eval h q = h q e := rfl

@[simp] theorem eval_bind (p : Prog E R α) (f : α → Prog E R β) (q : Q) :
    (p.bind f).eval h q = (f (p.eval h q).1).eval h (p.eval h q).2 := by
  induction p generalizing q with
  | ret a => rfl
  | call e k ih => simp only [call_bind, eval_call, ih]

/-- Every operation that a program comes to passes a check. -/
def checked (ok : Q → E → Bool) (h : Q → (e : E) → R e × Q) : Prog E R α → Q → Bool
  | ret _, _ => true
  | call e k, q => ok q e && (k (h q e).1).checked ok h (h q e).2

/-- Answers that are allowed at the operations that pass the check make a run to the end of a program
that comes to no others. -/
theorem run_eval_of_checked (ok : Q → E → Bool)
    (hh : ∀ q e, ok q e = true → V.allows q e (h q e).1 ∧ V.next q e (h q e).1 = (h q e).2)
    (p : Prog E R α) (q : Q) (hp : p.checked ok h q = true) :
    Run V p q (ret (p.eval h q).1) (p.eval h q).2 := by
  induction p generalizing q with
  | ret a => exact .refl _ _
  | call e k ih =>
      obtain ⟨hok, hrest⟩ := Bool.and_eq_true_iff.1 hp
      obtain ⟨ha, hn⟩ := hh q e hok
      refine .step (h q e).1 ha ?_
      rw [hn]
      exact ih _ _ hrest

theorem checked_true (p : Prog E R α) (q : Q) : p.checked (fun _ _ => true) h q = true := by
  induction p generalizing q with
  | ret a => rfl
  | call e k ih => exact ih _ _

/-- Answers given by a function that only gives allowed ones make a run to the end. -/
theorem run_eval (hh : ∀ q e, V.allows q e (h q e).1 ∧ V.next q e (h q e).1 = (h q e).2)
    (p : Prog E R α) (q : Q) : Run V p q (ret (p.eval h q).1) (p.eval h q).2 :=
  run_eval_of_checked _ (fun q e _ => hh q e) p q (checked_true p q)

/-- At most `n` steps of a program against `h`. -/
def advance (h : Q → (e : E) → R e × Q) : Nat → Prog E R α → Q → Prog E R α × Q
  | n + 1, call e k, q => advance h n (k (h q e).1) (h q e).2
  | _, p, q => (p, q)

theorem run_advance (hh : ∀ q e, V.allows q e (h q e).1 ∧ V.next q e (h q e).1 = (h q e).2)
    (n : Nat) (p : Prog E R α) (q : Q) : Run V p q (advance h n p q).1 (advance h n p q).2 := by
  induction n generalizing p q with
  | zero => exact .refl _ _
  | succ n ih =>
      cases p with
      | ret a => exact .refl _ _
      | call e k =>
          obtain ⟨ha, hn⟩ := hh q e
          refine .step (h q e).1 ha ?_
          rw [hn]
          exact ih _ _

end Prog

end Effects
