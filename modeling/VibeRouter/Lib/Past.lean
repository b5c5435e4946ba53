import VibeRouter.Lib.Code
import VibeRouter.Lib.Pool

/-! # Threads that remember

The local state of a thread may be its past: the operations that were answered, with their answers.
What is left of such a thread is its program after these answers (`run_of_thread`), so a law that all of
them obey may be used of the program after the fact (`keeps_of_past`).  `past_since` says that from some
state on every answer obeys the laws that the shared state gives. -/

namespace Effects

variable {ι E : Type} {R : E → Type} {α σ : Type}

/-- The operations that were answered, the last first. -/
abbrev Past (E : Type) (R : E → Type) : Type := List (Σ e : E, R e)

/-- Surroundings that remember what they have answered. -/
def remembering (L₀ : (e : E) → R e → Prop) : Env E R (Past E R) where
  allows _ e r := L₀ e r
  next h e r := ⟨e, r⟩ :: h

namespace Prog

variable {L₀ L : (e : E) → R e → Prop} {A : E → Prop} {post : α → Unit → Prop} {p p' : Prog E R α}
  {h h' : Past E R}

theorem past_subset (hrun : Run (remembering L₀) p h p' h') : h ⊆ h' := by
  induction hrun with
  | refl => exact List.Subset.refl _
  | step r _ _ ih => exact fun x hx => ih (List.mem_cons_of_mem _ hx)

/-- A run is lawful. -/
theorem past_lawful (hrun : Run (remembering L₀) p h p' h') (hh : ∀ x ∈ h, L₀ x.1 x.2) :
    ∀ x ∈ h', L₀ x.1 x.2 := by
  induction hrun with
  | refl => exact hh
  | step r hr _ ih =>
      apply ih
      intro x hx
      rcases List.mem_cons.1 hx with rfl | hx
      · exact hr
      · exact hh x hx

/-- What a program does under laws that its past obeys, it has done, and goes on to do. -/
theorem keeps_of_past (hp : p.wp (Code.lawsOnly L) (fun _ e => A e) post ())
    (hrun : Run (remembering L₀) p h p' h') (hL : ∀ x ∈ h', L x.1 x.2) (hh : ∀ x ∈ h, A x.1) :
    p'.wp (Code.lawsOnly L) (fun _ e => A e) post () ∧ ∀ x ∈ h', A x.1 := by
  induction hrun with
  | refl => exact ⟨hp, hh⟩
  | @step e k h h' p' r _ hrest ih =>
      have hlaw : L e r := hL ⟨e, r⟩ (past_subset hrest List.mem_cons_self)
      apply ih (hp.2 r hlaw) hL
      intro x hx
      rcases List.mem_cons.1 hx with rfl | hx
      · exact hp.1
      · exact hh x hx

end Prog

namespace System

variable [DecidableEq ι] {S : System ι E R α σ (Past E R)} {L₀ : (e : E) → R e → Prop}

/-- A thread behind a step of the thread `j` is that one, or it is as it was. -/
theorem thread_updated {β : Type} {f : ι → Option β} {i j : ι} {v w : β}
    (h : Function.update f j (some v) i = some w) : i = j ∧ v = w ∨ f i = some w := by
  by_cases hij : i = j
  · rw [hij, Function.update_self] at h
    exact Or.inl ⟨hij, Option.some.inj h⟩
  · rw [Function.update_of_ne hij] at h
    exact Or.inr h

/-- The threads of the system remember. -/
structure Remembers (S : System ι E R α σ (Past E R)) (L₀ : (e : E) → R e → Prop) : Prop where
  env : S.env = remembering L₀
  start : ∀ i s p h, S.start i s p h → h = []

/-- A thread is where its program is after its past. -/
theorem run_of_thread (hS : S.Remembers L₀) {s₀ : σ} {P : Pool ι E R α σ (Past E R)}
    (hP : S.Reachable s₀ P) {i : ι} {p : Prog E R α} {h : Past E R} (hi : P.thread i = some (p, h)) :
    ∃ s p₀, S.start i s p₀ [] ∧ Prog.Run (remembering L₀) p₀ [] p h := by
  induction hP generalizing p h with
  | refl => cases hi
  | tail _ hstep ih =>
      cases hstep with
      | @spawn j p₁ q₁ _ hstart =>
          rcases thread_updated hi with ⟨rfl, heq⟩ | hi
          · cases heq
            obtain rfl := hS.start _ _ _ _ hstart
            exact ⟨_, _, hstart, .refl _ _⟩
          · exact ih hi
      | @act j e k q r s' hthread hr _ =>
          rcases thread_updated hi with ⟨rfl, heq⟩ | hi
          · obtain ⟨s, p₀, hstart, hrun⟩ := ih hthread
            rw [hS.env] at heq hr
            cases heq
            exact ⟨s, p₀, hstart, hrun.trans (.step r hr (.refl _ _))⟩
          · exact ih hi
      | drift _ => exact ih hi

/-- What the steps of a system tell when its threads perform operations in `A` only: `J` of the shared
state, and `K` of the answers it has given. -/
structure Tells (S : System ι E R α σ (Past E R)) (A : E → Prop) (J : σ → Prop)
    (K : σ → (e : E) → R e → Prop) : Prop where
  act : ∀ i s q e r s', J s → A e → S.handler i s q e r s' →
    J s' ∧ K s' e r ∧ ∀ e' r', K s e' r' → K s' e' r'
  drift : ∀ s s', J s → S.drift s s' → J s' ∧ ∀ e r, K s e r → K s' e r

/-- From a state in which `J` holds on, a thread whose past obeyed `K` is only told what obeys it. -/
theorem past_since (hS : S.Remembers L₀) {A : E → Prop} {J : σ → Prop}
    {K : σ → (e : E) → R e → Prop} (htells : S.Tells A J K) {P P' : Pool ι E R α σ (Past E R)}
    (hsteps : Relation.ReflTransGen S.Step P P')
    (hcalls : ∀ Q, Relation.ReflTransGen S.Step P Q → ∀ j e k h, Q.thread j = some (.call e k, h) → A e)
    (hJ : J P.shared) {i : ι}
    (hbefore : ∀ p h, P.thread i = some (p, h) → ∀ x ∈ h, K P.shared x.1 x.2) :
    J P'.shared ∧ ∀ p h, P'.thread i = some (p, h) → ∀ x ∈ h, K P'.shared x.1 x.2 := by
  induction hsteps with
  | refl => exact ⟨hJ, hbefore⟩
  | tail hbefore hstep ih =>
      obtain ⟨hJ', hK⟩ := ih
      cases hstep with
      | @spawn j p₁ q₁ _ hstart =>
          refine ⟨hJ', fun p h hi => ?_⟩
          rcases thread_updated hi with ⟨rfl, heq⟩ | hi
          · cases heq
            obtain rfl := hS.start _ _ _ _ hstart
            exact fun x hx => absurd hx List.not_mem_nil
          · exact hK p h hi
      | @act j e k q r s' hthread _ hhandler =>
          obtain ⟨hJ'', htold, hkeep⟩ := htells.act _ _ _ _ _ _ hJ' (hcalls _ hbefore _ _ _ _ hthread) hhandler
          refine ⟨hJ'', fun p h hi => ?_⟩
          rcases thread_updated hi with ⟨rfl, heq⟩ | hi
          · rw [hS.env] at heq
            cases heq
            intro x hx
            rcases List.mem_cons.1 hx with rfl | hx
            · exact htold
            · exact hkeep _ _ (hK _ _ hthread x hx)
          · exact fun x hx => hkeep _ _ (hK p h hi x hx)
      | drift hdrift =>
          obtain ⟨hJ'', hkeep⟩ := htells.drift _ _ hJ' hdrift
          exact ⟨hJ'', fun p h hi x hx => hkeep _ _ (hK p h hi x hx)⟩

end System

end Effects
