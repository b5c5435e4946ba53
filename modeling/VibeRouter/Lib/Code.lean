import VibeRouter.Lib.Prog

/-! # Asynchronous code with a mutable object and exceptions

`Code E R S ε α` is the body of an asynchronous function: it reads and writes an object of
type `S`, performs operations of `E`, and returns an `α` or throws an `ε`.  What is written
before a throw stays written, as with an object shared by reference: the state is returned
next to the result, also when the result is an exception.

`Code.wp` is `Prog.wp` for such bodies; there is one lemma per construct. -/

namespace Effects

/-- A function body over an object `S` that may throw `ε`. -/
def Code (E : Type) (R : E → Type) (S ε α : Type) : Type := S → Prog E R (Except ε α × S)

namespace Code

variable {E : Type} {R : E → Type} {S ε ε' Q α β : Type}

def ret (a : α) : Code E R S ε α := fun s => .ret (.ok a, s)

def bind (c : Code E R S ε α) (f : α → Code E R S ε β) : Code E R S ε β := fun s =>
  (c s).bind fun r => match r with
    | (.ok a, s') => f a s'
    | (.error e, s') => .ret (.error e, s')

instance : Monad (Code E R S ε) where
  pure := ret
  bind := bind

/-- `throw e`. -/
def raise (e : ε) : Code E R S ε α := fun s => .ret (.error e, s)

/-- `try { c } catch (e) { f(e) }`. -/
def handle (c : Code E R S ε α) (f : ε → Code E R S ε α) : Code E R S ε α := fun s =>
  (c s).bind fun r => match r with
    | (.ok a, s') => .ret (.ok a, s')
    | (.error e, s') => f e s'

/-- `try { c } finally { f }`: `f` runs on either exit; an exception of `f` itself wins. -/
def ensure (c : Code E R S ε α) (f : Code E R S ε Unit) : Code E R S ε α := fun s =>
  (c s).bind fun r => (f r.2).bind fun r' => match r' with
    | (.ok _, s') => .ret (r.1, s')
    | (.error e, s') => .ret (.error e, s')

/-- Run `c` and return how it ended, with no exception. -/
def outcome (c : Code E R S ε α) : Code E R S ε' (Except ε α) := fun s =>
  (c s).bind fun r => .ret (.ok r.1, r.2)

/-- Throw `f e` where `c` throws `e`. -/
def mapError (f : ε → ε') (c : Code E R S ε α) : Code E R S ε' α := fun s =>
  (c s).bind fun r => .ret (r.1.mapError f, r.2)

/-- The object. -/
def read : Code E R S ε S := fun s => .ret (.ok s, s)

/-- Assign to the object. -/
def write (f : S → S) : Code E R S ε Unit := fun s => .ret (.ok (), f s)

/-- Perform one operation and return its answer. -/
def perform (e : E) : Code E R S ε (R e) := fun s => .call e fun r => .ret (.ok r, s)

/-- Return or throw an already computed result. -/
def ofExcept (r : Except ε α) : Code E R S ε α := fun s => .ret (r, s)

/-- Code that does not touch the object. -/
def lift (p : Prog E R (Except ε α)) : Code E R S ε α := fun s => p.bind fun r => .ret (r, s)

instance : MonadExceptOf ε (Code E R S ε) where
  throw := raise
  tryCatch := handle

theorem bind_assoc {γ : Type} (c : Code E R S ε α) (f : α → Code E R S ε β)
    (g : β → Code E R S ε γ) : c >>= f >>= g = c >>= fun a => f a >>= g := by
  funext s
  show ((c s).bind _).bind _ = (c s).bind _
  rw [Prog.bind_assoc]
  congr 1
  funext r
  obtain ⟨r | a, s'⟩ := r <;> rfl

/-! ### Weakest preconditions -/

variable (V : Env E R Q) (ok : Q → E → Prop)

/-- Weakest precondition of a body: the postcondition sees how it ended, the object and the
local state of the surroundings. -/
def wp (c : Code E R S ε α) (post : Except ε α → S → Q → Prop) (s : S) (q : Q) : Prop :=
  (c s).wp V ok (fun r => post r.1 r.2) q

variable {V ok} {post : Except ε α → S → Q → Prop} {s : S} {q : Q}

@[simp] theorem wp_ret (a : α) : (ret a : Code E R S ε α).wp V ok post s q ↔ post (.ok a) s q :=
  Iff.rfl

@[simp] theorem wp_pure (a : α) :
    (pure a : Code E R S ε α).wp V ok post s q ↔ post (.ok a) s q := Iff.rfl

@[simp] theorem wp_raise (e : ε) :
    (raise e : Code E R S ε α).wp V ok post s q ↔ post (.error e) s q := Iff.rfl

@[simp] theorem wp_throw (e : ε) :
    (throw e : Code E R S ε α).wp V ok post s q ↔ post (.error e) s q := Iff.rfl

@[simp] theorem wp_ofExcept (r : Except ε α) :
    (ofExcept r : Code E R S ε α).wp V ok post s q ↔ post r s q := Iff.rfl

@[simp] theorem wp_read {post : Except ε S → S → Q → Prop} :
    (read : Code E R S ε S).wp V ok post s q ↔ post (.ok s) s q := Iff.rfl

@[simp] theorem wp_write (f : S → S) {post : Except ε Unit → S → Q → Prop} :
    (write f : Code E R S ε Unit).wp V ok post s q ↔ post (.ok ()) (f s) q := Iff.rfl

@[simp] theorem wp_perform (e : E) {post : Except ε (R e) → S → Q → Prop} :
    (perform e : Code E R S ε (R e)).wp V ok post s q ↔
      ok q e ∧ ∀ r, V.allows q e r → post (.ok r) s (V.next q e r) := Iff.rfl

@[simp] theorem wp_bind (c : Code E R S ε α) (f : α → Code E R S ε β)
    {post : Except ε β → S → Q → Prop} :
    (c >>= f).wp V ok post s q ↔ c.wp V ok (fun r s' q' => match r with
      | .ok a => (f a).wp V ok post s' q'
      | .error e => post (.error e) s' q') s q := by
  show ((c s).bind _).wp V ok _ q ↔ _
  rw [Prog.wp_bind]
  unfold wp
  constructor <;> intro h <;> refine Prog.wp_mono h ?_ <;> rintro ⟨r | r, s'⟩ q' hr <;> exact hr

@[simp] theorem wp_handle (c : Code E R S ε α) (f : ε → Code E R S ε α) :
    (c.handle f).wp V ok post s q ↔ c.wp V ok (fun r s' q' => match r with
      | .ok a => post (.ok a) s' q'
      | .error e => (f e).wp V ok post s' q') s q := by
  show ((c s).bind _).wp V ok _ q ↔ _
  rw [Prog.wp_bind]
  unfold wp
  constructor <;> intro h <;> refine Prog.wp_mono h ?_ <;> rintro ⟨r | r, s'⟩ q' hr <;> exact hr

@[simp] theorem wp_outcome (c : Code E R S ε α) {post : Except ε' (Except ε α) → S → Q → Prop} :
    c.outcome.wp V ok post s q ↔ c.wp V ok (fun r => post (.ok r)) s q := by
  show ((c s).bind _).wp V ok _ q ↔ _
  rw [Prog.wp_bind]
  rfl

@[simp] theorem wp_mapError (f : ε → ε') (c : Code E R S ε α) {post : Except ε' α → S → Q → Prop} :
    (c.mapError f).wp V ok post s q ↔ c.wp V ok (fun r => post (r.mapError f)) s q := by
  show ((c s).bind _).wp V ok _ q ↔ _
  rw [Prog.wp_bind]
  rfl

@[simp] theorem wp_ensure (c : Code E R S ε α) (f : Code E R S ε Unit) :
    (c.ensure f).wp V ok post s q ↔
      c.wp V ok (fun r => f.wp V ok fun r' s'' q'' => match r' with
        | .ok _ => post r s'' q''
        | .error e => post (.error e) s'' q'') s q := by
  show ((c s).bind _).wp V ok _ q ↔ _
  rw [Prog.wp_bind]
  unfold wp
  constructor <;> intro h <;> refine Prog.wp_mono h ?_ <;> rintro ⟨r, s'⟩ q' hr
  · rw [Prog.wp_bind] at hr
    refine Prog.wp_mono hr ?_
    rintro ⟨r' | r', s''⟩ q'' hr' <;> exact hr'
  · rw [Prog.wp_bind]
    refine Prog.wp_mono hr ?_
    rintro ⟨r' | r', s''⟩ q'' hr' <;> exact hr'

theorem wp_mono {c : Code E R S ε α} {post' : Except ε α → S → Q → Prop}
    (h : c.wp V ok post s q) (hpost : ∀ r s q, post r s q → post' r s q) :
    c.wp V ok post' s q :=
  Prog.wp_mono h fun r q => hpost r.1 r.2 q

/-- A weakest precondition stays one in surroundings that allow less. -/
theorem wp_narrow {V' : Env E R Q} {ok' : Q → E → Prop} {c : Code E R S ε α}
    (hallows : ∀ q e r, V'.allows q e r → V.allows q e r) (hnext : V'.next = V.next)
    (hok : ∀ q e, ok q e → ok' q e) (h : c.wp V ok post s q) : c.wp V' ok' post s q :=
  Prog.wp_narrow hallows hnext hok h

/-- The rule of sequencing: prove the first body, then the second from where it ends. -/
theorem wp_seq {c : Code E R S ε α} {f : α → Code E R S ε β} {post : Except ε β → S → Q → Prop}
    {mid : Except ε α → S → Q → Prop} (hc : c.wp V ok mid s q)
    (hok : ∀ a s q, mid (.ok a) s q → (f a).wp V ok post s q)
    (herr : ∀ e s q, mid (.error e) s q → post (.error e) s q) : (c >>= f).wp V ok post s q := by
  rw [wp_bind]
  refine wp_mono hc ?_
  rintro (e | a) s q h
  · exact herr e s q h
  · exact hok a s q h

/-- The rule of `finally`: prove the body, then the block that runs on either exit. -/
theorem wp_finally {c : Code E R S ε α} {f : Code E R S ε Unit} (mid : Except ε α → S → Q → Prop)
    (hc : c.wp V ok mid s q)
    (hf : ∀ r s q, mid r s q → f.wp V ok (fun r' s' q' => r' = .ok () ∧ post r s' q') s q) :
    (c.ensure f).wp V ok post s q := by
  rw [wp_ensure]
  refine wp_mono hc fun r s' q' hmid => wp_mono (hf r s' q' hmid) ?_
  rintro _ s'' q'' ⟨rfl, hpost⟩
  exact hpost

@[simp] theorem wp_ite {c c' : Code E R S ε α} (b : Prop) [Decidable b] :
    (if b then c else c').wp V ok post s q ↔
      if b then c.wp V ok post s q else c'.wp V ok post s q := by
  split <;> rfl

/-! ### What code does in any surroundings -/

/-- Surroundings about which only the laws `L` of the answers are known. -/
def lawsOnly (L : (e : E) → R e → Prop) : Env E R Unit where
  allows _ e r := L e r
  next _ _ _ := ()

/-- Whatever lawful answers it gets, `c` only performs operations in `A` and ends as `post`
says. -/
def Meets (L : (e : E) → R e → Prop) (A : E → Prop) (c : Code E R S ε α) (s : S)
    (post : Except ε α → S → Prop) : Prop :=
  c.wp (lawsOnly L) (fun _ e => A e) (fun r s _ => post r s) s ()

section
variable {L : (e : E) → R e → Prop} {A : E → Prop} {c : Code E R S ε α} {s : S}
  {post : Except ε α → S → Prop}

@[simp] theorem meets_pure (a : α) :
    (pure a : Code E R S ε α).Meets L A s post ↔ post (.ok a) s := Iff.rfl

@[simp] theorem meets_throw (e : ε) :
    (throw e : Code E R S ε α).Meets L A s post ↔ post (.error e) s := Iff.rfl

@[simp] theorem meets_ofExcept (r : Except ε α) :
    (ofExcept r : Code E R S ε α).Meets L A s post ↔ post r s := Iff.rfl

@[simp] theorem meets_read {post : Except ε S → S → Prop} :
    (read : Code E R S ε S).Meets L A s post ↔ post (.ok s) s := Iff.rfl

@[simp] theorem meets_write (f : S → S) {post : Except ε Unit → S → Prop} :
    (write f : Code E R S ε Unit).Meets L A s post ↔ post (.ok ()) (f s) := Iff.rfl

@[simp] theorem meets_perform (e : E) {post : Except ε (R e) → S → Prop} :
    (perform e : Code E R S ε (R e)).Meets L A s post ↔
      A e ∧ ∀ r, L e r → post (.ok r) s := Iff.rfl

@[simp] theorem meets_outcome {post : Except ε' (Except ε α) → S → Prop} :
    (c.outcome : Code E R S ε' (Except ε α)).Meets L A s post ↔
      c.Meets L A s fun r s => post (.ok r) s :=
  wp_outcome c

@[simp] theorem meets_bind (f : α → Code E R S ε β) {post : Except ε β → S → Prop} :
    (c >>= f).Meets L A s post ↔ c.Meets L A s fun r s' => match r with
      | .ok a => (f a).Meets L A s' post
      | .error e => post (.error e) s' :=
  wp_bind c f

@[simp] theorem meets_handle (f : ε → Code E R S ε α) :
    (c.handle f).Meets L A s post ↔ c.Meets L A s fun r s' => match r with
      | .ok a => post (.ok a) s'
      | .error e => (f e).Meets L A s' post :=
  wp_handle c f

@[simp] theorem meets_ensure (f : Code E R S ε Unit) :
    (c.ensure f).Meets L A s post ↔ c.Meets L A s fun r s' =>
      f.Meets L A s' fun r' s'' => match r' with
        | .ok _ => post r s''
        | .error e => post (.error e) s'' :=
  wp_ensure c f

theorem Meets.mono (h : c.Meets L A s post) {post' : Except ε α → S → Prop}
    (hpost : ∀ r s, post r s → post' r s) : c.Meets L A s post' :=
  wp_mono h fun r s _ => hpost r s

theorem Meets.seq {f : α → Code E R S ε β} {post : Except ε β → S → Prop}
    {mid : Except ε α → S → Prop} (hc : c.Meets L A s mid)
    (hok : ∀ a s, mid (.ok a) s → (f a).Meets L A s post)
    (herr : ∀ e s, mid (.error e) s → post (.error e) s) : (c >>= f).Meets L A s post :=
  wp_seq hc (fun a s _ => hok a s) fun e s _ => herr e s

theorem Meets.weaken (h : c.Meets L A s post) {A' : E → Prop} (hA : ∀ e, A e → A' e) :
    c.Meets L A' s post := by
  unfold Meets Code.wp at *
  generalize c s = p at h
  induction p with
  | ret a => exact h
  | call e k ih => exact ⟨hA e h.1, fun r hr => ih r (h.2 r hr)⟩

/-- In surroundings that obey the laws, and in which the operations in `A` keep `J`, the code
keeps `J` and ends as it does in any surroundings. -/
theorem Meets.wp (h : c.Meets L A s post) {V : Env E R Q} {ok : Q → E → Prop} {J : Q → Prop}
    {post' : Except ε α → S → Q → Prop} {q : Q} (hL : ∀ q e r, V.allows q e r → L e r)
    (hJ : J q)
    (hA : ∀ q e, J q → A e → ok q e ∧ ∀ r, V.allows q e r → J (V.next q e r))
    (hpost : ∀ r s q, post r s → J q → post' r s q) : c.wp V ok post' s q := by
  unfold Meets Code.wp at h
  unfold Code.wp
  generalize c s = p at h
  induction p generalizing q with
  | ret a => exact hpost _ _ _ h hJ
  | call e k ih =>
      obtain ⟨hok, hnext⟩ := hA q e hJ h.1
      exact ⟨hok, fun r hr => ih r (hnext r hr) (h.2 r (hL q e r hr))⟩

end

/-! ### Surroundings that answer by a function -/

section
variable (h : Q → (e : E) → R e × Q)

/-- Run a body against surroundings that answer by the function `h`. -/
def eval (c : Code E R S ε α) (s : S) (q : Q) : (Except ε α × S) × Q := (c s).eval h q

variable {h} {s : S} {q : Q}

@[simp] theorem eval_pure (a : α) :
    (pure a : Code E R S ε α).eval h s q = ((.ok a, s), q) := rfl

@[simp] theorem eval_throw (e : ε) :
    (throw e : Code E R S ε α).eval h s q = ((.error e, s), q) := rfl

@[simp] theorem eval_ofExcept (r : Except ε α) :
    (ofExcept r : Code E R S ε α).eval h s q = ((r, s), q) := rfl

@[simp] theorem eval_read : (read : Code E R S ε S).eval h s q = ((.ok s, s), q) := rfl

@[simp] theorem eval_write (f : S → S) :
    (write f : Code E R S ε Unit).eval h s q = ((.ok (), f s), q) := rfl

@[simp] theorem eval_perform (e : E) :
    (perform e : Code E R S ε (R e)).eval h s q = ((.ok (h q e).1, s), (h q e).2) := rfl

@[simp] theorem eval_bind (c : Code E R S ε α) (f : α → Code E R S ε β) :
    (c >>= f).eval h s q = match c.eval h s q with
      | ((.ok a, s'), q') => (f a).eval h s' q'
      | ((.error e, s'), q') => ((.error e, s'), q') := by
  show ((c s).bind _).eval h q = _
  rw [Prog.eval_bind]
  unfold eval
  rcases (c s).eval h q with ⟨⟨r | r, s'⟩, q'⟩ <;> rfl

@[simp] theorem eval_outcome (c : Code E R S ε α) :
    (c.outcome : Code E R S ε' (Except ε α)).eval h s q =
      ((.ok (c.eval h s q).1.1, (c.eval h s q).1.2), (c.eval h s q).2) := by
  show ((c s).bind _).eval h q = _
  rw [Prog.eval_bind]
  rfl

@[simp] theorem eval_ensure (c : Code E R S ε α) (f : Code E R S ε Unit) :
    (c.ensure f).eval h s q = match f.eval h (c.eval h s q).1.2 (c.eval h s q).2 with
      | ((.ok _, s''), q'') => (((c.eval h s q).1.1, s''), q'')
      | ((.error e, s''), q'') => ((.error e, s''), q'') := by
  show ((c s).bind _).eval h q = _
  rw [Prog.eval_bind, Prog.eval_bind]
  unfold eval
  rcases (f ((c s).eval h q).1.2).eval h ((c s).eval h q).2 with ⟨⟨r | r, s'⟩, q'⟩ <;> rfl

variable (h) in
/-- A body that is the same whatever the object is, and keeps it. -/
def Aside (c : Code E R S ε α) : Prop :=
  ∀ s s' q, c.eval h s' q = (((c.eval h s q).1.1, s'), (c.eval h s q).2)

theorem aside_pure (a : α) : Aside h (pure a : Code E R S ε α) := fun _ _ _ => rfl

theorem aside_throw (e : ε) : Aside h (throw e : Code E R S ε α) := fun _ _ _ => rfl

theorem aside_ofExcept (r : Except ε α) : Aside h (ofExcept r : Code E R S ε α) := fun _ _ _ => rfl

theorem aside_perform (e : E) : Aside h (perform e : Code E R S ε (R e)) := fun _ _ _ => rfl

theorem Aside.bind {c : Code E R S ε α} {f : α → Code E R S ε β} (hc : Aside h c)
    (hf : ∀ a, Aside h (f a)) : Aside h (c >>= f) := by
  intro s s' q
  rw [eval_bind, eval_bind, hc s s' q, hc s s q]
  cases (c.eval h s q).1.1 with
  | error e => rfl
  | ok a => exact hf a s s' _

/-- What a body does in any surroundings that satisfy the laws, it does against `h`. -/
theorem Meets.eval {L : (e : E) → R e → Prop} {A : E → Prop} {c : Code E R S ε α}
    {post : Except ε α → S → Prop} (hc : c.Meets L A s post) (hh : ∀ q e, L e (h q e).1) :
    post (c.eval h s q).1.1 (c.eval h s q).1.2 := by
  unfold Meets Code.wp at hc
  unfold Code.eval
  generalize c s = p at hc
  induction p generalizing q with
  | ret a => exact hc
  | call e k ih => exact ih _ (hc.2 _ (hh q e))

/-- A weakest precondition holds of what a body does against `h`. -/
theorem eval_of_wp {V : Env E R Q} {ok : Q → E → Prop} {c : Code E R S ε α}
    {post : Except ε α → S → Q → Prop} (hc : c.wp V ok post s q)
    (hh : ∀ q e, V.allows q e (h q e).1 ∧ V.next q e (h q e).1 = (h q e).2) :
    post (c.eval h s q).1.1 (c.eval h s q).1.2 (c.eval h s q).2 :=
  Prog.wp_run hc (Prog.run_eval hh (c s) q)

end

end Code

end Effects
