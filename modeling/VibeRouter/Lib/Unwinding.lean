import VibeRouter.Lib.Pool

/-! # Noninterference

The threads of a system may belong to owners who share its state.  `Twins` pairs two runs that have the
threads of one owner in common: these start and step in both at once, and what the surroundings
contribute to their answers is the same in both; the threads of the other owners run in each as they
like.  `Unwinding` is what has to be shown of single operations so that the threads of the owner cannot
tell the two runs apart, and `Twins.same` says that they cannot. -/

namespace Effects

variable {ι E : Type} {R : E → Type} {α σ Q O δ : Type}

/-- The first `n` operations of a program. -/
def Prog.performed (next : Q → (e : E) → R e → Q) (ans : σ → Q → (e : E) → R e × σ) :
    ℕ → Prog E R α → Q → σ → List E
  | n + 1, call e k, q, s =>
      e :: performed next ans n (k (ans s q e).1) (next q e (ans s q e).1) (ans s q e).2
  | _, _, _, _ => []

/-- A thread that takes no step leaves the pool as it is. -/
theorem Pool.perform_idle [DecidableEq ι] {next : Q → (e : E) → R e → Q}
    {ans : ι → σ → Q → (e : E) → R e × σ} {P : Pool ι E R α σ Q} {i : ι} {n : ℕ} {p : Prog E R α}
    {q : Q} (hP : P.thread i = some (p, q))
    (hidle : p.steps next (ans i) n q P.shared = ((p, q), P.shared)) :
    P.perform next ans (.run i n) = P := by
  have hu : Function.update P.thread i (some (p, q)) = P.thread := by
    rw [← hP]
    exact Function.update_eq_self i P.thread
  simp only [Pool.perform, hP, hidle, hu]

namespace System

variable [DecidableEq ι]

/-- A step of a thread whose owner is another one than `F`. -/
inductive StepOfOthers (S : System ι E R α σ Q) (owner : ι → O) (F : O) :
    Pool ι E R α σ Q → Pool ι E R α σ Q → Prop
  | spawn {P : Pool ι E R α σ Q} {i : ι} {p : Prog E R α} {q : Q} :
      owner i ≠ F → P.thread i = none → S.start i P.shared p q →
      StepOfOthers S owner F P { P with thread := Function.update P.thread i (some (p, q)) }
  | act {P : Pool ι E R α σ Q} {i : ι} {e : E} {k : R e → Prog E R α} {q : Q} {r : R e} {s' : σ} :
      owner i ≠ F → P.thread i = some (.call e k, q) → S.env.allows q e r →
      S.handler i P.shared q e r s' →
      StepOfOthers S owner F P ⟨s', Function.update P.thread i (some (k r, S.env.next q e r))⟩

variable {S : System ι E R α σ Q} {owner : ι → O} {F : O}

theorem StepOfOthers.step {P P' : Pool ι E R α σ Q} (h : S.StepOfOthers owner F P P') :
    S.Step P P' := by
  cases h with
  | spawn _ hnone hstart => exact .spawn hnone hstart
  | act _ hthread hallows hhandler => exact .act hthread hallows hhandler

/-- Two runs from `s₀` and `t₀` with the threads of `F` in common.  `Same` says of two answers that the
surroundings contribute the same to them, and the shared state moves by itself in both runs alike. -/
inductive Twins (S : System ι E R α σ Q) (owner : ι → O) (F : O)
    (Same : (e : E) → R e → R e → Prop) (ev : δ → σ → σ) (s₀ t₀ : σ) :
    Pool ι E R α σ Q → Pool ι E R α σ Q → Prop
  | initial : Twins S owner F Same ev s₀ t₀ (initial s₀) (initial t₀)
  | spawn {P P' : Pool ι E R α σ Q} {i : ι} {p : Prog E R α} {q : Q} :
      Twins S owner F Same ev s₀ t₀ P P' → owner i = F → P.thread i = none → P'.thread i = none →
      S.start i P.shared p q → S.start i P'.shared p q →
      Twins S owner F Same ev s₀ t₀
        { P with thread := Function.update P.thread i (some (p, q)) }
        { P' with thread := Function.update P'.thread i (some (p, q)) }
  | act {P P' : Pool ι E R α σ Q} {i : ι} {e : E} {k : R e → Prog E R α} {q : Q} {r r' : R e}
      {s' t' : σ} :
      Twins S owner F Same ev s₀ t₀ P P' → owner i = F → P.thread i = some (.call e k, q) →
      P'.thread i = some (.call e k, q) → S.env.allows q e r → S.env.allows q e r' →
      S.handler i P.shared q e r s' → S.handler i P'.shared q e r' t' → Same e r r' →
      Twins S owner F Same ev s₀ t₀
        ⟨s', Function.update P.thread i (some (k r, S.env.next q e r))⟩
        ⟨t', Function.update P'.thread i (some (k r', S.env.next q e r'))⟩
  | left {P P' P₁ : Pool ι E R α σ Q} :
      Twins S owner F Same ev s₀ t₀ P P' → S.StepOfOthers owner F P P₁ →
      Twins S owner F Same ev s₀ t₀ P₁ P'
  | right {P P' P₁ : Pool ι E R α σ Q} :
      Twins S owner F Same ev s₀ t₀ P P' → S.StepOfOthers owner F P' P₁ →
      Twins S owner F Same ev s₀ t₀ P P₁
  | drift {P P' : Pool ι E R α σ Q} (d : δ) :
      Twins S owner F Same ev s₀ t₀ P P' → S.drift P.shared (ev d P.shared) →
      S.drift P'.shared (ev d P'.shared) →
      Twins S owner F Same ev s₀ t₀ { P with shared := ev d P.shared }
        { P' with shared := ev d P'.shared }

variable {Same : (e : E) → R e → R e → Prop} {ev : δ → σ → σ} {s₀ t₀ : σ}
  {P P' : Pool ι E R α σ Q}

/-- Each of the two is a run. -/
theorem Twins.reachable (h : S.Twins owner F Same ev s₀ t₀ P P') :
    S.Reachable s₀ P ∧ S.Reachable t₀ P' := by
  induction h with
  | initial => exact ⟨.refl, .refl⟩
  | spawn _ _ hnone hnone' hstart hstart' ih =>
      exact ⟨ih.1.tail (.spawn hnone hstart), ih.2.tail (.spawn hnone' hstart')⟩
  | act _ _ hthread hthread' hallows hallows' hhandler hhandler' _ ih =>
      exact ⟨ih.1.tail (.act hthread hallows hhandler), ih.2.tail (.act hthread' hallows' hhandler')⟩
  | left _ hstep ih => exact ⟨ih.1.tail hstep.step, ih.2⟩
  | right _ hstep ih => exact ⟨ih.1, ih.2.tail hstep.step⟩
  | drift d _ hdrift hdrift' ih => exact ⟨ih.1.tail (.drift hdrift), ih.2.tail (.drift hdrift')⟩

/-- What single operations have to satisfy: `Sim` says that the part of `F` is the same in two shared
states, and `Own` which operations the threads of an owner perform. -/
structure Unwinding (S : System ι E R α σ Q) (owner : ι → O) (Own : O → E → Prop) (F : O)
    (Same : (e : E) → R e → R e → Prop) (ev : δ → σ → σ) (Sim : σ → σ → Prop) : Prop where
  own : ∀ i s t q e r r' s' t', owner i = F → Own F e → Sim s t → S.handler i s q e r s' →
    S.handler i t q e r' t' → Same e r r' → r = r' ∧ Sim s' t'
  left : ∀ i s t q e r s', owner i ≠ F → Own (owner i) e → Sim s t → S.handler i s q e r s' →
    Sim s' t
  right : ∀ i s t q e r t', owner i ≠ F → Own (owner i) e → Sim s t → S.handler i t q e r t' →
    Sim s t'
  drift : ∀ d s t, Sim s t → Sim (ev d s) (ev d t)

variable {Own : O → E → Prop} {Sim : σ → σ → Prop}

/-- The threads of an owner only perform operations of this owner. -/
def Owns (S : System ι E R α σ Q) (owner : ι → O) (Own : O → E → Prop) (s₀ : σ) : Prop :=
  ∀ P, S.Reachable s₀ P → ∀ i e k q, P.thread i = some (.call e k, q) → Own (owner i) e

/-- A step of the others leaves the threads of `F` alone. -/
theorem StepOfOthers.thread (h : S.StepOfOthers owner F P P') {i : ι} (hi : owner i = F) :
    P'.thread i = P.thread i := by
  have hne : ∀ {j : ι}, owner j ≠ F → i ≠ j := by
    rintro j hj rfl
    exact hj hi
  cases h with
  | spawn hj _ _ => exact Function.update_of_ne (hne hj) _ _
  | act hj _ _ _ => exact Function.update_of_ne (hne hj) _ _

theorem Unwinding.step_left (hu : S.Unwinding owner Own F Same ev Sim) (howns : S.Owns owner Own s₀)
    (hP : S.Reachable s₀ P) {P₁ : Pool ι E R α σ Q} (h : S.StepOfOthers owner F P P₁) {t : σ}
    (hsim : Sim P.shared t) : Sim P₁.shared t := by
  cases h with
  | spawn _ _ _ => exact hsim
  | act hi hthread _ hhandler =>
      exact hu.left _ _ _ _ _ _ _ hi (howns _ hP _ _ _ _ hthread) hsim hhandler

theorem Unwinding.step_right (hu : S.Unwinding owner Own F Same ev Sim)
    (howns : S.Owns owner Own s₀) (hP : S.Reachable s₀ P) {P₁ : Pool ι E R α σ Q}
    (h : S.StepOfOthers owner F P P₁) {s : σ} (hsim : Sim s P.shared) : Sim s P₁.shared := by
  cases h with
  | spawn _ _ _ => exact hsim
  | act hi hthread _ hhandler =>
      exact hu.right _ _ _ _ _ _ _ hi (howns _ hP _ _ _ _ hthread) hsim hhandler

/-- The same change of one thread of two pools. -/
theorem update_same {f g : ι → Option (Prog E R α × Q)} {i : ι} {v : Option (Prog E R α × Q)}
    (h : ∀ j, owner j = F → f j = g j) (j : ι) (hj : owner j = F) :
    Function.update f i v j = Function.update g i v j := by
  by_cases hji : j = i
  · rw [hji, Function.update_self, Function.update_self]
  · rw [Function.update_of_ne hji, Function.update_of_ne hji, h j hj]

/-- **The rule for noninterference.**  The threads of `F` are the same in both runs, and so is the part
of `F` of what is shared. -/
theorem Twins.same (h : S.Twins owner F Same ev s₀ t₀ P P')
    (hu : S.Unwinding owner Own F Same ev Sim) (howns : S.Owns owner Own s₀)
    (howns' : S.Owns owner Own t₀) (hinit : Sim s₀ t₀) :
    Sim P.shared P'.shared ∧ ∀ i, owner i = F → P.thread i = P'.thread i := by
  induction h with
  | initial => exact ⟨hinit, fun _ _ => rfl⟩
  | spawn _ _ _ _ _ _ ih => exact ⟨ih.1, update_same ih.2⟩
  | act htwins hi hthread _ _ _ hhandler hhandler' hsame ih =>
      have hown := howns _ htwins.reachable.1 _ _ _ _ hthread
      rw [hi] at hown
      obtain ⟨rfl, hsim⟩ := hu.own _ _ _ _ _ _ _ _ _ hi hown ih.1 hhandler hhandler' hsame
      exact ⟨hsim, update_same ih.2⟩
  | left htwins hstep ih =>
      refine ⟨hu.step_left howns htwins.reachable.1 hstep ih.1, fun i hi => ?_⟩
      rw [hstep.thread hi]
      exact ih.2 i hi
  | right htwins hstep ih =>
      refine ⟨hu.step_right howns' htwins.reachable.2 hstep ih.1, fun i hi => ?_⟩
      rw [hstep.thread hi]
      exact ih.2 i hi
  | drift d _ _ _ ih => exact ⟨hu.drift d _ _ ih.1, ih.2⟩

/-! ### Twins that are computed -/

/-- What an answering function gives is what the system allows for the operations in `Ok`. -/
def SoundFor (S : System ι E R α σ Q) (Ok : E → Prop) (ans : σ → Q → (e : E) → R e × σ) : Prop :=
  ∀ i s q e, Ok e → S.env.allows q e (ans s q e).1 ∧ S.handler i s q e (ans s q e).1 (ans s q e).2

variable {ans : σ → Q → (e : E) → R e × σ} {Ok : E → Prop}

/-- Both runs let a thread of `F` take some steps. -/
theorem Twins.steps (hans : S.SoundFor Ok ans)
    (hsame : ∀ s t q e, Ok e → Same e (ans s q e).1 (ans t q e).1)
    (hu : S.Unwinding owner Own F Same ev Sim) (howns : S.Owns owner Own s₀)
    (howns' : S.Owns owner Own t₀) (hinit : Sim s₀ t₀) {i : ι} (hi : owner i = F) (n : ℕ)
    {p : Prog E R α} {q : Q} (h : S.Twins owner F Same ev s₀ t₀ P P')
    (hP : P.thread i = some (p, q))
    (hok : ∀ e ∈ p.performed S.env.next ans n q P.shared, Ok e) :
    S.Twins owner F Same ev s₀ t₀ (P.perform S.env.next (fun _ => ans) (.run i n))
      (P'.perform S.env.next (fun _ => ans) (.run i n)) := by
  induction n generalizing p q P P' with
  | zero =>
      have hP' : P'.thread i = some (p, q) := by rw [← (h.same hu howns howns' hinit).2 i hi, hP]
      rw [Pool.perform_idle hP rfl, Pool.perform_idle hP' rfl]
      exact h
  | succ n ih =>
      have hP' : P'.thread i = some (p, q) := by rw [← (h.same hu howns howns' hinit).2 i hi, hP]
      cases p with
      | ret a =>
          rw [Pool.perform_idle hP rfl, Pool.perform_idle hP' rfl]
          exact h
      | call e k =>
          have he : Ok e := hok e (List.mem_cons_self ..)
          obtain ⟨hallows, hhandler⟩ := hans i P.shared q e he
          obtain ⟨hallows', hhandler'⟩ := hans i P'.shared q e he
          have hnext := ih (.act h hi hP hP' hallows hallows' hhandler hhandler' (hsame _ _ _ _ he))
            (Function.update_self ..) fun e' he' => hok e' (List.mem_cons_of_mem _ he')
          simpa [Pool.perform, Prog.steps, hP, hP'] using hnext

/-- The first run lets a thread of another owner take some steps. -/
theorem Twins.steps_left (hans : S.SoundFor Ok ans) {i : ι} (hi : owner i ≠ F) (n : ℕ)
    {p : Prog E R α} {q : Q} (h : S.Twins owner F Same ev s₀ t₀ P P')
    (hP : P.thread i = some (p, q))
    (hok : ∀ e ∈ p.performed S.env.next ans n q P.shared, Ok e) :
    S.Twins owner F Same ev s₀ t₀ (P.perform S.env.next (fun _ => ans) (.run i n)) P' := by
  induction n generalizing p q P with
  | zero =>
      rw [Pool.perform_idle hP rfl]
      exact h
  | succ n ih =>
      cases p with
      | ret a =>
          rw [Pool.perform_idle hP rfl]
          exact h
      | call e k =>
          obtain ⟨hallows, hhandler⟩ := hans i P.shared q e (hok e (List.mem_cons_self ..))
          have hnext := ih (.left h (.act hi hP hallows hhandler)) (Function.update_self ..)
            fun e' he' => hok e' (List.mem_cons_of_mem _ he')
          simpa [Pool.perform, Prog.steps, hP] using hnext

end System

end Effects
