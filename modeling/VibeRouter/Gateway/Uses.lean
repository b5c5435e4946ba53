import VibeRouter.Policy.Cache

/-! # What a function uses

`Async.Uses L ps c s post`: from the object `s` on, and whatever answers that satisfy the laws
`L` it gets, `c` only performs operations on the parts `ps` of the surroundings, and ends as
`post` says.  Facts of this form say once what a function does; a proof about particular
surroundings takes from them that the parts it does not care about are left alone. -/

namespace VibeRouter

open Effects

/-- A provider row is only ever stored under the key of its firm and kind, and spend is only ever added. -/
def Op.WellKeyed : Op → Prop
  | .providerCacheSet key entry => ∃ firmId kind, key = PolicyEngine.providerKey firmId kind ∧
      ∀ row, entry.value = some row → row.firmId = firmId ∧ row.kind = kind
  | .incrementBudget _ _ _ amount => 0 < amount
  | _ => True

/-- An operation on one of the parts `ps`. -/
def Op.Within (ps : List Op.Part) (e : Op) : Prop := e.part ∈ ps ∧ e.WellKeyed

theorem Op.Within.widen {ps ps' : List Op.Part} (hps : ps ⊆ ps') (e : Op) (h : e.Within ps) :
    e.Within ps' := ⟨hps h.1, h.2⟩

namespace Async

variable {S α β : Type} {L : (e : Op) → e.Answer → Prop} {A : Op → Prop} {ps ps' : List Op.Part}

abbrev Uses (L : (e : Op) → e.Answer → Prop) (ps : List Op.Part) (c : Async S α) (s : S)
    (post : Except Thrown α → S → Prop) : Prop :=
  c.Meets L (Op.Within ps) s post

variable {c : Async S α} {s : S} {post : Except Thrown α → S → Prop}

@[simp] theorem meets_fail (code : ErrorCode) (message : String) (detail : Detail) :
    Code.Meets L A (fail code message detail : Async S α) s post ↔
      post (.error (.router { code, message, detail })) s := Iff.rfl

@[simp] theorem meets_op (e : Op) {post : Except Thrown e.Answer → S → Prop} :
    @Code.Meets Op Op.Answer S Thrown (no_index e.Answer) L A (op e) s post ↔
      A e ∧ ∀ r, L e r → post (.ok r) s := Iff.rfl

@[simp] theorem meets_dateNow {post : Except Thrown ℕ → S → Prop} :
    Code.Meets L A (dateNow : Async S ℕ) s post ↔
      A .now ∧ ∀ r, L .now r → post (.ok r) s := Iff.rfl

@[simp] theorem meets_await (e : Async S (Except Thrown α)) :
    Code.Meets L A (await e) s post ↔
      e.Meets L A s (fun r s => match r with
        | .ok r => post r s
        | .error e => post (.error e) s) := by
  unfold await
  rw [Code.meets_bind]
  constructor <;> intro h <;> refine h.mono ?_ <;> rintro (e | r) s h <;> exact h

section
variable {Q : Type} {V : Env Op Op.Answer Q} {ok : Q → Op → Prop} {q : Q}
  {post : Except Thrown α → S → Q → Prop}

@[simp] theorem wp_op (e : Op) {post : Except Thrown e.Answer → S → Q → Prop} :
    @Code.wp Op Op.Answer S Thrown Q (no_index e.Answer) V ok (op e) post s q ↔
      ok q e ∧ ∀ r, V.allows q e r → post (.ok r) s (V.next q e r) := Iff.rfl

@[simp] theorem wp_dateNow {post : Except Thrown ℕ → S → Q → Prop} :
    (dateNow : Async S ℕ).wp V ok post s q ↔
      ok q .now ∧ ∀ r, V.allows q .now r → post (.ok r) s (V.next q .now r) := Iff.rfl

@[simp] theorem wp_await (e : Async S (Except Thrown α)) :
    (await e).wp V ok post s q ↔ e.wp V ok (fun r s q => match r with
      | .ok r => post r s q
      | .error e => post (.error e) s q) s q := by
  unfold await
  rw [Code.wp_bind]
  constructor <;> intro h <;> refine Code.wp_mono h ?_ <;> rintro (e | r) s q h <;> exact h

end

section
variable {Q : Type} {h : Q → (e : Op) → e.Answer × Q} {q : Q}

@[simp] theorem eval_op (e : Op) :
    @Code.eval Op Op.Answer S Thrown Q (no_index e.Answer) h (op e) s q =
      ((.ok (h q e).1, s), (h q e).2) := rfl

end

/-- The rule for a call: what the callee does, then what follows it. -/
theorem Uses.call {post' : Except Thrown α → S → Prop} (h : Uses L ps' c s post')
    (hps : ps' ⊆ ps) (hpost : ∀ r s, post' r s → post r s) : Uses L ps c s post :=
  (h.weaken (Op.Within.widen hps)).mono hpost

end Async

/-! ### The policy engine -/

namespace PolicyEngine

open Async Code

variable {S : Type} {L : (e : Op) → e.Answer → Prop} {s : S}

theorem fresh_uses {α : Type} (hit : Option (Cached α)) :
    Uses L [.clock] (fresh hit : Async S (Option α)) s fun r s' => s' = s ∧
      ∃ o, r = .ok o ∧ ∀ v, o = some v → ∃ entry, hit = some entry ∧ entry.value = v := by
  cases hit with
  | none => exact ⟨rfl, none, rfl, by simp⟩
  | some entry =>
      refine ⟨⟨by simp [Op.part], trivial⟩, fun now _ => ⟨rfl, _, rfl, ?_⟩⟩
      intro v hv
      split at hv
      · exact ⟨entry, rfl, by simpa using hv⟩
      · simp at hv

theorem firmSettings_uses (ttlMs : ℕ) (firmId : Uuid) :
    Uses L [.clock, .engine] (firmSettings ttlMs firmId : Async S FirmSettings) s
      fun _ s' => s' = s := by
  simp only [firmSettings, meets_bind, meets_op]
  refine ⟨by simp [Op.Within, Op.part, Op.WellKeyed], fun hit _ => ?_⟩
  refine (fresh_uses hit).call (by simp) ?_
  rintro _ s' ⟨rfl, o, rfl, -⟩
  cases o with
  | some v => exact rfl
  | none =>
      simp only [meets_bind, meets_await, meets_op]
      refine ⟨by simp [Op.Within, Op.part, Op.WellKeyed], fun r _ => ?_⟩
      cases r <;> simp [Op.Within, Op.part, Op.WellKeyed]

theorem providerKey_inj {firmId firmId' : Uuid} {kind kind' : ProviderKind}
    (h : providerKey firmId kind = providerKey firmId' kind') : firmId = firmId' ∧ kind = kind' := by
  obtain ⟨hf, hk⟩ := HexText.key_inj h
  refine ⟨hf, ?_⟩
  cases kind <;> cases kind' <;> first | rfl | exact absurd hk (by decide)

/-- What the provider cache answers when rows are only stored under their own key. -/
def KeyedAnswer : (e : Op) → e.Answer → Prop
  | .providerCacheGet key, r => ∀ entry firmId kind, r = some entry →
      key = providerKey firmId kind → ∀ row, entry.value = some row → row.kind = kind
  | _, _ => True

/-- A row from the database is stored under the key it was asked for; a row from the cache is of
the kind asked for when the cache is well keyed. -/
theorem providerFor_uses (hL : ∀ e r, L e r → e.Lawful r) (ttlMs : ℕ) (firmId : Uuid)
    (kind : ProviderKind) :
    Uses L [.clock, .engine] (providerFor ttlMs firmId kind : Async S (Option ProviderRow)) s
      fun r s' => s' = s ∧ ((∀ e r, L e r → KeyedAnswer e r) →
        ∀ row, r = .ok (some row) → row.kind = kind) := by
  simp only [providerFor, meets_bind, meets_op]
  refine ⟨by simp [Op.Within, Op.part, Op.WellKeyed], fun hit hhit => ?_⟩
  refine (fresh_uses hit).call (by simp) ?_
  rintro _ s' ⟨rfl, o, rfl, ho⟩
  cases o with
  | some v =>
      refine ⟨rfl, fun hK row hrow => ?_⟩
      obtain ⟨entry, rfl, hv⟩ := ho v rfl
      simp only [Except.ok.injEq] at hrow
      exact hK _ _ hhit entry firmId kind rfl rfl row (hv.trans hrow)
  | none =>
      simp only [meets_bind, meets_await, meets_op]
      refine ⟨by simp [Op.Within, Op.part, Op.WellKeyed], fun r hr => ?_⟩
      cases r with
      | error e => simp
      | ok row =>
          have hlaw := hL _ _ hr
          simp only [meets_dateNow, meets_pure, Except.ok.injEq, true_and]
          refine ⟨by simp [Op.Within, Op.part, Op.WellKeyed], fun now _ => ?_⟩
          refine ⟨⟨by simp [Op.part], firmId, kind, rfl, fun row' h => ?_⟩, fun _ _ _ row' h => ?_⟩
          · obtain ⟨hf, hk, -⟩ := hlaw row' (by rw [← h])
            exact ⟨hf, hk⟩
          · exact (hlaw row' (by rw [h])).2.1

theorem load_uses (firmId : Uuid) (taskClassKey : String) (settings : FirmSettings) :
    Uses L [.engine] (load firmId taskClassKey settings : Async S EffectivePolicy) s
      fun _ s' => s' = s := by
  simp only [load, meets_bind, meets_await, meets_op]
  refine ⟨by simp [Op.Within, Op.part, Op.WellKeyed], fun r _ => ?_⟩
  rcases r with e | _ | tc
  · simp
  · simp
  · simp only [meets_bind, meets_await, meets_op]
    refine ⟨by simp [Op.Within, Op.part, Op.WellKeyed], fun r _ => ?_⟩
    rcases r with e | _ | policy
    · simp
    · simp
    · dsimp only
      split
      · simp
      · simp only [meets_bind, meets_await, meets_op]
        refine ⟨by simp [Op.Within, Op.part, Op.WellKeyed], fun r _ => ?_⟩
        rcases r with e | rows
        · simp
        · dsimp only
          split
          · simp
          · simp only [meets_bind, meets_await, meets_op, meets_pure]
            refine ⟨by simp [Op.Within, Op.part, Op.WellKeyed], fun r _ => ?_⟩
            cases r <;> simp

theorem resolve_uses (ttlMs : ℕ) (firmId : Uuid) (taskClassKey : String)
    (settings : FirmSettings) :
    Uses L [.clock, .engine] (resolve ttlMs firmId taskClassKey settings : Async S EffectivePolicy)
      s fun _ s' => s' = s := by
  simp only [resolve, meets_bind, meets_op]
  refine ⟨by simp [Op.Within, Op.part, Op.WellKeyed], fun hit _ => ?_⟩
  refine (fresh_uses hit).call (by simp) ?_
  rintro _ s' ⟨rfl, o, rfl, -⟩
  cases o with
  | some v => exact rfl
  | none =>
      simp only [meets_bind]
      refine (load_uses firmId taskClassKey settings).call (by simp) ?_
      rintro (e | value) s'' rfl
      · rfl
      · simp [Op.Within, Op.part, Op.WellKeyed]

end PolicyEngine

end VibeRouter
