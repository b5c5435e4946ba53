import VibeRouter.Lib.Code

/-! # Generators

A generator is a program that, besides the operations of `E`, may `yield` a value and is then
resumed, or made to return, by its consumer.  `Prog.embed` puts a program without `yield` inside
a generator; `Prog.next` runs a generator to its next `yield`; `Prog.consume` is the loop
`for await (const y of generator)`. -/

namespace Effects

/-- The operations of a generator. -/
inductive GenOp (E Y : Type) : Type
  | op (e : E)
  | yield (y : Y)

/-- How a consumer resumes a generator that has yielded. -/
inductive Resume
  | next | return_
deriving DecidableEq, Repr

/-- The answers to the operations of a generator. -/
@[reducible] def GenOp.Answer {E : Type} (R : E → Type) (Y : Type) : GenOp E Y → Type
  | .op e => R e
  | .yield _ => Resume

variable {E : Type} {R : E → Type} {Y S τ ε ε' Q α β : Type}

/-- A program that may yield values of type `Y`. -/
abbrev GenProg (E : Type) (R : E → Type) (Y α : Type) : Type := Prog (GenOp E Y) (GenOp.Answer R Y) α

/-- A generator that has run to its next `yield` or to its end. -/
inductive Suspended (E : Type) (R : E → Type) (Y α : Type) : Type
  | done (a : α)
  | yielded (y : Y) (k : Resume → GenProg E R Y α)

namespace Suspended

/-- The generator from where it is suspended. -/
def resume : Suspended E R Y α → GenProg E R Y α
  | done a => .ret a
  | yielded y k => .call (.yield y) k

end Suspended

namespace Prog

/-- A program without `yield` inside a generator. -/
def embed (Y : Type) : Prog E R α → GenProg E R Y α
  | ret a => ret a
  | call e k => call (.op e) fun r => (k r).embed Y

/-- `generator.next()`. -/
def next : GenProg E R Y α → Prog E R (Suspended E R Y α)
  | ret a => ret (.done a)
  | call (.op e) k => call e fun r => next (k r)
  | call (.yield y) k => ret (.yielded y k)

/-- `generator.return()`: make every further `yield` return. -/
def drain : GenProg E R Y α → Prog E R α
  | ret a => ret a
  | call (.op e) k => call e fun r => drain (k r)
  | call (.yield _) k => drain (k .return_)

/-- `for await (const y of generator)` with a body that says whether to go on; leaving the loop
makes the generator return. -/
def consume (body : Y → τ → Prog E R (Bool × τ)) : GenProg E R Y α → τ → Prog E R (α × τ)
  | ret a, t => ret (a, t)
  | call (.op e) k, t => call e fun r => consume body (k r) t
  | call (.yield y) k, t => (body y t).bind fun r =>
      if r.1 then consume body (k .next) r.2
      else (k .return_).drain.bind fun a => ret (a, r.2)

end Prog

namespace Env

/-- What surroundings of a generator say about the operations. -/
def onOps (V : Env (GenOp E Y) (GenOp.Answer R Y) Q) : Env E R Q where
  allows q e r := V.allows q (.op e) r
  next q e r := V.next q (.op e) r

/-- Surroundings in which a generator may be resumed in either way, and yielding is no event. -/
def withYield (V : Env E R Q) (Y : Type) : Env (GenOp E Y) (GenOp.Answer R Y) Q where
  allows q e r := match e, r with
    | .op e, r => V.allows q e r
    | .yield _, _ => True
  next q e r := match e, r with
    | .op e, r => V.next q e r
    | .yield _, _ => q

end Env

/-- What is asked of the operations of a generator when nothing is asked of its yields. -/
def okOps (ok : Q → E → Prop) (Y : Type) (q : Q) : GenOp E Y → Prop
  | .op e => ok q e
  | .yield _ => True

namespace Prog

variable {V : Env E R Q} {ok : Q → E → Prop}

theorem wp_embed {W : Env (GenOp E Y) (GenOp.Answer R Y) Q} {okW : Q → GenOp E Y → Prop}
    (p : Prog E R α) (post : α → Q → Prop) (q : Q) :
    (p.embed Y).wp W okW post q ↔ p.wp W.onOps (fun q e => okW q (.op e)) post q := by
  induction p generalizing q with
  | ret a => rfl
  | call e k ih =>
      simp only [embed, wp_call, ih]
      rfl

/-- What a generator may do, its consumer may still see after it has run to a `yield`. -/
theorem wp_next {g : GenProg E R Y α} {post : α → Q → Prop} {q : Q}
    (h : g.wp (V.withYield Y) (okOps ok Y) post q) :
    g.next.wp V ok (fun s q => s.resume.wp (V.withYield Y) (okOps ok Y) post q) q := by
  induction g generalizing q with
  | ret a => exact h
  | call e k ih =>
      cases e with
      | op e => exact ⟨h.1, fun r hr => ih r (h.2 r hr)⟩
      | yield y => exact h

theorem wp_drain {g : GenProg E R Y α} {post : α → Q → Prop} {q : Q}
    (h : g.wp (V.withYield Y) (okOps ok Y) post q) : g.drain.wp V ok post q := by
  induction g generalizing q with
  | ret a => exact h
  | call e k ih =>
      cases e with
      | op e => exact ⟨h.1, fun r hr => ih r (h.2 r hr)⟩
      | yield y => exact ih _ (h.2 .return_ trivial)

/-- The rule for consuming loops: `J` holds of the consumer's state between iterations. -/
theorem wp_consume {g : GenProg E R Y α} {body : Y → τ → Prog E R (Bool × τ)}
    {post : α → Q → Prop} {J : τ → Prop} {q : Q} {t : τ}
    (h : g.wp (V.withYield Y) (okOps ok Y) (fun a q => post a q) q) (ht : J t)
    (hbody : ∀ y t q, J t → (body y t).wp V ok (fun r q' => q' = q ∧ J r.2) q) :
    (consume body g t).wp V ok (fun r q => post r.1 q ∧ J r.2) q := by
  induction g generalizing q t with
  | ret a => exact ⟨h, ht⟩
  | call e k ih =>
      cases e with
      | op e => exact ⟨h.1, fun r hr => ih r (h.2 r hr) ht⟩
      | yield y =>
          show ((body y t).bind _).wp V ok _ q
          rw [wp_bind]
          refine wp_mono (hbody y t q ht) ?_
          rintro ⟨b, t'⟩ q' ⟨rfl, hJ⟩
          cases b with
          | true => exact ih _ (h.2 .next trivial) hJ
          | false =>
              simp only [Bool.false_eq_true, if_false]
              rw [wp_bind]
              exact wp_mono (wp_drain (h.2 .return_ trivial)) fun a q ha => ⟨ha, hJ⟩

/-! ### Generators and consumers with local states of their own -/

section
variable {Q₁ : Type} {W : Env (GenOp E Y) (GenOp.Answer R Y) Q₁} {okW : Q₁ → GenOp E Y → Prop}
  {post₁ : α → Q₁ → Prop} {q : Q} {q₁ : Q₁}

/-- The local state `q₁` of a generator follows the surroundings `V` of its consumer in `I`. -/
def Follows (V : Env E R Q) (ok : Q → E → Prop) (W : Env (GenOp E Y) (GenOp.Answer R Y) Q₁)
    (okW : Q₁ → GenOp E Y → Prop) (I : Q → Q₁ → Prop) : Prop :=
  ∀ q q₁ e, I q q₁ → okW q₁ (.op e) → ok q e ∧ ∀ r, V.allows q e r →
    W.allows q₁ (.op e) r ∧ I (V.next q e r) (W.next q₁ (.op e) r)

/-- A generator that follows its consumer, run to its next `yield`. -/
theorem Follows.next {I : Q → Q₁ → Prop} (hI : Follows V ok W okW I) {g : GenProg E R Y α}
    (h : g.wp W okW post₁ q₁) (hq : I q q₁) :
    g.next.wp V ok (fun s q => ∃ q₁, s.resume.wp W okW post₁ q₁ ∧ I q q₁) q := by
  induction g generalizing q q₁ with
  | ret a => exact ⟨q₁, h, hq⟩
  | call e k ih =>
      cases e with
      | op e =>
          obtain ⟨hok, hnext⟩ := hI q q₁ e hq h.1
          refine ⟨hok, fun r hr => ?_⟩
          obtain ⟨hallowed, hq'⟩ := hnext r hr
          exact ih r (h.2 r hallowed) hq'
      | yield y => exact ⟨q₁, h, hq⟩

/-- The same for a generator that is made to return. -/
theorem Follows.drain {I : Q → Q₁ → Prop} (hI : Follows V ok W okW I)
    (hyield : ∀ q q₁ y, I q q₁ → W.allows q₁ (.yield y) .return_ ∧
      I q (W.next q₁ (.yield y) .return_)) {g : GenProg E R Y α}
    (h : g.wp W okW post₁ q₁) (hq : I q q₁) :
    g.drain.wp V ok (fun a q => ∃ q₁, post₁ a q₁ ∧ I q q₁) q := by
  induction g generalizing q q₁ with
  | ret a => exact ⟨q₁, h, hq⟩
  | call e k ih =>
      cases e with
      | op e =>
          obtain ⟨hok, hnext⟩ := hI q q₁ e hq h.1
          refine ⟨hok, fun r hr => ?_⟩
          obtain ⟨hallowed, hq'⟩ := hnext r hr
          exact ih r (h.2 r hallowed) hq'
      | yield y =>
          obtain ⟨hallowed, hq'⟩ := hyield q q₁ y hq
          exact ih _ (h.2 .return_ hallowed) hq'

/-- The rule for consuming loops whose body has effects of its own: what the body does keeps the
generator's local state in step. -/
theorem Follows.consume {I : Q → Q₁ → Prop} (hI : Follows V ok W okW I)
    (hyield : ∀ q q₁ y r, I q q₁ → W.allows q₁ (.yield y) r ∧ I q (W.next q₁ (.yield y) r))
    {body : Y → τ → Prog E R (Bool × τ)}
    (hbody : ∀ y t q q₁, I q q₁ → okW q₁ (.yield y) →
      (body y t).wp V ok (fun _ q' => I q' q₁) q)
    {g : GenProg E R Y α} (h : g.wp W okW post₁ q₁) (hq : I q q₁) (t : τ) :
    (consume body g t).wp V ok (fun r q => ∃ q₁, post₁ r.1 q₁ ∧ I q q₁) q := by
  induction g generalizing q q₁ t with
  | ret a => exact ⟨q₁, h, hq⟩
  | call e k ih =>
      cases e with
      | op e =>
          obtain ⟨hok, hnext⟩ := hI q q₁ e hq h.1
          refine ⟨hok, fun r hr => ?_⟩
          obtain ⟨hallowed, hq'⟩ := hnext r hr
          exact ih r (h.2 r hallowed) hq' t
      | yield y =>
          show ((body y t).bind _).wp V ok _ q
          rw [wp_bind]
          refine wp_mono (hbody y t q q₁ hq h.1) ?_
          intro r q' hq'
          obtain ⟨b, t'⟩ := r
          cases b with
          | true =>
              obtain ⟨hallowed, hq''⟩ := hyield q' q₁ y .next hq'
              exact ih _ (h.2 .next hallowed) hq'' t'
          | false =>
              obtain ⟨hallowed, hq''⟩ := hyield q' q₁ y .return_ hq'
              have hdrain := hI.drain (fun q q₁ y hq => hyield q q₁ y .return_ hq)
                (h.2 .return_ hallowed) hq''
              show (((k .return_).drain).bind _).wp V ok _ q'
              rw [wp_bind]
              exact wp_mono hdrain fun a q ha => ha

end

end Prog

namespace Code

/-- Code without `yield` inside a generator; `f` says what an exception becomes. -/
def embed (Y : Type) (f : ε → ε') (c : Code E R S ε α) :
    Code (GenOp E Y) (GenOp.Answer R Y) S ε' α := fun s =>
  ((c s).embed Y).bind fun r => .ret (r.1.mapError f, r.2)

theorem wp_embed {W : Env (GenOp E Y) (GenOp.Answer R Y) Q} {okW : Q → GenOp E Y → Prop}
    (f : ε → ε') (c : Code E R S ε α) {post : Except ε' α → S → Q → Prop} {s : S} {q : Q} :
    (c.embed Y f).wp W okW post s q ↔
      c.wp W.onOps (fun q e => okW q (.op e)) (fun r => post (r.mapError f)) s q := by
  show (((c s).embed Y).bind _).wp W okW _ q ↔ _
  rw [Prog.wp_bind, Prog.wp_embed]
  rfl

end Code

/-! ### What a generator does in any surroundings -/

namespace GenOp

/-- The laws of the answers inside a generator: nothing is known of how it is resumed. -/
def laws (L : (e : E) → R e → Prop) (Y : Type) : (e : GenOp E Y) → GenOp.Answer R Y e → Prop
  | .op e, r => L e r
  | .yield _, _ => True

/-- A generator may yield anything. -/
def within (A : E → Prop) : GenOp E Y → Prop
  | .op e => A e
  | .yield _ => True

theorem lawsOnly_withYield (L : (e : E) → R e → Prop) :
    (Code.lawsOnly L).withYield Y = Code.lawsOnly (laws L Y) := by
  unfold Code.lawsOnly Env.withYield
  congr

theorem okOps_within (A : E → Prop) :
    okOps (fun (_ : Unit) e => A e) Y = fun _ e => within A e := by
  funext _ e
  cases e <;> rfl

end GenOp

/-- `Meets` for what is left of a generator. -/
def Prog.GenMeets (L : (e : E) → R e → Prop) (A : E → Prop) (g : GenProg E R Y α)
    (post : α → Prop) : Prop :=
  g.wp (Code.lawsOnly (GenOp.laws L Y)) (fun _ => GenOp.within A) (fun a _ => post a) ()

namespace Prog.GenMeets

variable {L : (e : E) → R e → Prop} {A : E → Prop} {g : GenProg E R Y α} {post : α → Prop}

theorem next (h : g.GenMeets L A post) :
    g.next.wp (Code.lawsOnly L) (fun _ => A) (fun s _ => s.resume.GenMeets L A post) () := by
  unfold GenMeets at *
  rw [← GenOp.lawsOnly_withYield, ← GenOp.okOps_within] at *
  exact wp_next h

theorem consume {body : Y → τ → Prog E R (Bool × τ)} {J : τ → Prop} {t : τ}
    (h : g.GenMeets L A post) (ht : J t)
    (hbody : ∀ y t, J t → (body y t).wp (Code.lawsOnly L) (fun _ => A) (fun r _ => J r.2) ()) :
    (Prog.consume body g t).wp (Code.lawsOnly L) (fun _ => A) (fun r _ => post r.1 ∧ J r.2) () := by
  unfold GenMeets at h
  rw [← GenOp.lawsOnly_withYield, ← GenOp.okOps_within] at h
  exact wp_consume h ht fun y t _ hJ => wp_mono (hbody y t hJ) fun r _ hr => ⟨rfl, hr⟩

end Prog.GenMeets

theorem Code.meets_embed {L : (e : E) → R e → Prop} {A : E → Prop} (f : ε → ε')
    (c : Code E R S ε α) {post : Except ε' α → S → Prop} {s : S} :
    (c.embed Y f).Meets (GenOp.laws L Y) (GenOp.within A) s post ↔
      c.Meets L A s fun r => post (r.mapError f) := by
  unfold Meets
  rw [wp_embed]
  rfl

end Effects
