import VibeRouter.Lib.Code
import Mathlib.Order.Defs.PartialOrder

/-! # Code that learns

The local state of a body may record what the body has learnt: what it has read, and what it was
told of its writes.  When such a state only moves up in an order, what is known at one point is known
at every later one, and the rules below say so for each construct.  The object of the body does not
matter to them, nor how it ends when it throws. -/

namespace Effects.Code

variable {E : Type} {R : E → Type} {S T ε α β Q : Type} [Preorder Q]
variable (V : Env E R Q) (ok : Q → E → Prop)

/-- From `q` on, every operation is `ok` where it is performed, the local state only moves up, and
what is returned satisfies `post`. -/
def Learns (c : Code E R S ε α) (q : Q) (post : α → Q → Prop) : Prop :=
  ∀ s, c.wp V ok (fun r _ q' => q ≤ q' ∧ ∀ a, r = .ok a → post a q') s q

variable {V ok} {q : Q} {post : α → Q → Prop}

theorem learns_pure {a : α} (h : post a q) : (pure a : Code E R S ε α).Learns V ok q post := by
  intro s
  rw [wp_pure]
  refine ⟨le_refl q, ?_⟩
  rintro a' ⟨⟩
  exact h

theorem learns_throw (e : ε) : (throw e : Code E R S ε α).Learns V ok q post := by
  intro s
  rw [wp_throw]
  refine ⟨le_refl q, ?_⟩
  rintro a ⟨⟩

theorem learns_write {f : S → S} {post : Unit → Q → Prop} (h : post () q) :
    (write f : Code E R S ε Unit).Learns V ok q post := by
  intro s
  rw [wp_write]
  exact ⟨le_refl q, fun _ _ => h⟩

theorem learns_read {post : S → Q → Prop} (h : ∀ s, post s q) :
    (read : Code E R S ε S).Learns V ok q post := by
  intro s
  rw [wp_read]
  exact ⟨le_refl q, fun s' _ => h s'⟩

theorem learns_ofExcept {r : Except ε α} (h : ∀ a, r = .ok a → post a q) :
    (ofExcept r : Code E R S ε α).Learns V ok q post := by
  intro s
  rw [wp_ofExcept]
  exact ⟨le_refl q, h⟩

theorem learns_perform {e : E} {post : R e → Q → Prop} (hok : ok q e)
    (h : ∀ r, V.allows q e r → q ≤ V.next q e r ∧ post r (V.next q e r)) :
    (perform e : Code E R S ε (R e)).Learns V ok q post := by
  intro s
  rw [wp_perform]
  refine ⟨hok, fun r hr => ?_⟩
  obtain ⟨hle, hpost⟩ := h r hr
  refine ⟨hle, ?_⟩
  rintro a ⟨⟩
  exact hpost

theorem Learns.bind {c : Code E R S ε α} {f : α → Code E R S ε β} {post' : β → Q → Prop}
    (hc : c.Learns V ok q post)
    (hf : ∀ a q', q ≤ q' → post a q' → (f a).Learns V ok q' post') :
    (c >>= f).Learns V ok q post' := by
  intro s
  refine wp_seq (hc s) ?_ ?_
  · rintro a s' q' ⟨hle, hpost⟩
    refine wp_mono (hf a q' hle (hpost a rfl) s') ?_
    rintro r s'' q'' ⟨hle', hpost'⟩
    exact ⟨le_trans hle hle', hpost'⟩
  · rintro e s' q' ⟨hle, -⟩
    refine ⟨hle, ?_⟩
    rintro a ⟨⟩

/-- A body of which nothing more is needed, and what comes behind it. -/
theorem Learns.andThen {c : Code E R S ε α} {f : α → Code E R S ε β} {post' : β → Q → Prop}
    (hc : c.Learns V ok q fun _ _ => True)
    (hf : ∀ a q', q ≤ q' → (f a).Learns V ok q' post') : (c >>= f).Learns V ok q post' :=
  hc.bind fun a q' hle _ => hf a q' hle

theorem Learns.handle {c : Code E R S ε α} {f : ε → Code E R S ε α}
    (hc : c.Learns V ok q post)
    (hf : ∀ e q', q ≤ q' → (f e).Learns V ok q' post) : (c.handle f).Learns V ok q post := by
  intro s
  rw [wp_handle]
  refine wp_mono (hc s) ?_
  rintro (e | a) s' q' ⟨hle, hpost⟩
  · refine wp_mono (hf e q' hle s') ?_
    rintro r s'' q'' ⟨hle', hpost'⟩
    exact ⟨le_trans hle hle', hpost'⟩
  · refine ⟨hle, ?_⟩
    rintro a' ⟨⟩
    exact hpost a rfl

theorem Learns.mono {c : Code E R S ε α} {post' : α → Q → Prop} (hc : c.Learns V ok q post)
    (h : ∀ a q', q ≤ q' → post a q' → post' a q') : c.Learns V ok q post' := by
  intro s
  refine wp_mono (hc s) ?_
  rintro r s' q' ⟨hle, hpost⟩
  exact ⟨hle, fun a ha => h a q' hle (hpost a ha)⟩

/-- A body run from an object of its own. -/
theorem Learns.lift {c : Code E R S ε α} {s : S} {f : Except ε α × S → Except ε β}
    {post' : β → Q → Prop} (hc : c.Learns V ok q post)
    (h : ∀ r s b q', f (r, s) = .ok b → q ≤ q' → (∀ a, r = .ok a → post a q') → post' b q') :
    (Code.lift ((c s).bind fun r => .ret (f r)) : Code E R T ε β).Learns V ok q post' := by
  intro t
  unfold wp Code.lift
  rw [Prog.wp_bind, Prog.wp_bind]
  refine Prog.wp_mono (hc s) ?_
  rintro ⟨r, s'⟩ q' ⟨hle, hpost⟩
  exact ⟨hle, fun b hb => h r s' b q' hb hle hpost⟩

/-- The program of a body of which only the effects matter. -/
theorem Learns.prog {c : Code E R S ε α} (hc : c.Learns V ok q post) (s : S) :
    ((c s).bind fun _ => .ret ()).wp V ok (fun _ q' => q ≤ q') q := by
  rw [Prog.wp_bind]
  refine Prog.wp_mono (hc s) ?_
  rintro r q' ⟨hle, -⟩
  exact hle

end Effects.Code
