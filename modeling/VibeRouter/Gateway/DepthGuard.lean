import VibeRouter.Gateway.Ingress

/-! # The guard against deep bodies

`jsonDepth` stops one level past its ceiling, with a depth that is not that of the value; still it
is above the ceiling exactly when the value is nested deeper (`jsonDepth_le`).  `tracedDepth` is the
same recursion and notes how deep it calls itself.  `depth_guard`: the guard of `toEnvelope` rejects
the bodies that are too deep and no others. -/

namespace VibeRouter

open Zod

/-! ### The depth below the ceiling -/

mutual

/-- Below its ceiling the depth is measured right. -/
theorem jsonDepth_le (c d : ℕ) (v : Json) : jsonDepth c d v ≤ c ↔ d + depth v ≤ c := by
  cases v with
  | arr vs =>
      rw [jsonDepth, depth]
      split
      · omega
      · rw [jsonDepthList_le c (d + 1) (d + 1) (le_refl _) vs]
        omega
  | obj ms =>
      rw [jsonDepth, depth]
      split
      · omega
      · rw [jsonDepthValues_le c (d + 1) (d + 1) (le_refl _) ms]
        omega
  | _ => exact Iff.rfl

theorem jsonDepthList_le (c d m : ℕ) (hm : d ≤ m) (vs : List Json) :
    jsonDepthList c d m vs ≤ c ↔ m ≤ c ∧ d + depthList vs ≤ c := by
  cases vs with
  | nil =>
      rw [jsonDepthList, depthList]
      omega
  | cons v vs =>
      have hv := jsonDepth_le c d v
      have hle := Nat.le_max_left m (jsonDepth c d v)
      rw [jsonDepthList, depthList, jsonDepthList_le c d _ (hm.trans hle) vs]
      show max m (jsonDepth c d v) ≤ c ∧ _ ↔ _
      rw [max_le_iff, hv]
      omega

theorem jsonDepthValues_le (c d m : ℕ) (hm : d ≤ m) (ms : Members) :
    jsonDepthValues c d m ms ≤ c ↔ m ≤ c ∧ d + depthMembers ms ≤ c := by
  cases ms with
  | nil =>
      rw [jsonDepthValues, depthMembers]
      omega
  | cons e ms =>
      have hv := jsonDepth_le c d e.2
      have hle := Nat.le_max_left m (jsonDepth c d e.2)
      rw [jsonDepthValues, depthMembers, jsonDepthValues_le c d _ (hm.trans hle) ms]
      show max m (jsonDepth c d e.2) ≤ c ∧ _ ↔ _
      rw [max_le_iff, hv]
      omega

end

/-! ### The calls of the recursion -/

mutual

/-- The result of `jsonDepth`, and the depth of its deepest call. -/
def tracedDepth (ceiling depth : ℕ) : Json → ℕ × ℕ
  | .arr vs =>
      if ceiling < depth then (depth, depth)
      else tracedList ceiling (depth + 1) (depth + 1) depth vs
  | .obj members =>
      if ceiling < depth then (depth, depth)
      else tracedValues ceiling (depth + 1) (depth + 1) depth members
  | _ => (depth, depth)

def tracedList (ceiling depth max deepest : ℕ) : List Json → ℕ × ℕ
  | [] => (max, deepest)
  | v :: vs =>
      let call := tracedDepth ceiling depth v
      tracedList ceiling depth (Nat.max max call.1) (Nat.max deepest call.2) vs

def tracedValues (ceiling depth max deepest : ℕ) : Members → ℕ × ℕ
  | [] => (max, deepest)
  | m :: ms =>
      let call := tracedDepth ceiling depth m.2
      tracedValues ceiling depth (Nat.max max call.1) (Nat.max deepest call.2) ms

end

mutual

/-- The trace changes no result. -/
theorem tracedDepth_fst (c d : ℕ) (v : Json) : (tracedDepth c d v).1 = jsonDepth c d v := by
  cases v with
  | arr vs =>
      rw [tracedDepth, jsonDepth]
      split
      · rfl
      · exact tracedList_fst c (d + 1) (d + 1) d vs
  | obj ms =>
      rw [tracedDepth, jsonDepth]
      split
      · rfl
      · exact tracedValues_fst c (d + 1) (d + 1) d ms
  | _ => rfl

theorem tracedList_fst (c d m deepest : ℕ) (vs : List Json) :
    (tracedList c d m deepest vs).1 = jsonDepthList c d m vs := by
  cases vs with
  | nil => rfl
  | cons v vs =>
      rw [tracedList, jsonDepthList, ← tracedDepth_fst c d v]
      exact tracedList_fst c d _ _ vs

theorem tracedValues_fst (c d m deepest : ℕ) (ms : Members) :
    (tracedValues c d m deepest ms).1 = jsonDepthValues c d m ms := by
  cases ms with
  | nil => rfl
  | cons e ms =>
      rw [tracedValues, jsonDepthValues, ← tracedDepth_fst c d e.2]
      exact tracedValues_fst c d _ _ ms

end

mutual

/-- A call at a depth past the ceiling makes no further call. -/
theorem tracedDepth_snd_le (c d : ℕ) (hd : d ≤ c + 1) (v : Json) :
    (tracedDepth c d v).2 ≤ c + 1 := by
  cases v with
  | arr vs =>
      rw [tracedDepth]
      split
      · exact hd
      · exact tracedList_snd_le c (d + 1) (d + 1) d (by omega) hd vs
  | obj ms =>
      rw [tracedDepth]
      split
      · exact hd
      · exact tracedValues_snd_le c (d + 1) (d + 1) d (by omega) hd ms
  | _ => exact hd

theorem tracedList_snd_le (c d m deepest : ℕ) (hd : d ≤ c + 1) (hdeepest : deepest ≤ c + 1)
    (vs : List Json) : (tracedList c d m deepest vs).2 ≤ c + 1 := by
  cases vs with
  | nil => exact hdeepest
  | cons v vs =>
      have hcall := tracedDepth_snd_le c d hd v
      exact tracedList_snd_le c d _ _ hd (max_le hdeepest hcall) vs

theorem tracedValues_snd_le (c d m deepest : ℕ) (hd : d ≤ c + 1) (hdeepest : deepest ≤ c + 1)
    (ms : Members) : (tracedValues c d m deepest ms).2 ≤ c + 1 := by
  cases ms with
  | nil => exact hdeepest
  | cons e ms =>
      have hcall := tracedDepth_snd_le c d hd e.2
      exact tracedValues_snd_le c d _ _ hd (max_le hdeepest hcall) ms

end

/-! ### The guard -/

/-- The error of a body that is too deep. -/
def tooDeep (limits : EnvelopeLimits) : RouterError where
  code := .invalid_request
  message := "request JSON exceeds max depth " ++ toString limits.maxJsonDepth

/-- The other errors have other messages. -/
theorem ne_tooDeep {limits : EnvelopeLimits} {e : RouterError} {c : Char}
    (hmessage : e.message.toList.head? = some c) (hc : c ≠ 'r') : e ≠ tooDeep limits := by
  rintro rfl
  have hfirst : (tooDeep limits).message.toList.head? = some 'r' := by
    unfold tooDeep
    rw [String.toList_append]
    rfl
  rw [hfirst] at hmessage
  exact hc (Option.some.inj hmessage).symm

/-- **The guard rejects exactly the bodies that are nested too deep, and never looks deeper than one
level past the ceiling.** -/
theorem depth_guard :
    (∀ (c : ℕ) (v : Json), (c < jsonDepth c 0 v ↔ c < depth v) ∧
      (tracedDepth c 0 v).1 = jsonDepth c 0 v ∧ (tracedDepth c 0 v).2 ≤ c + 1) ∧
    ∀ (raw : Option Json) (taskClass : String) (metadata : AIRequestMetadata)
      (limits : EnvelopeLimits), toEnvelope raw taskClass metadata limits = .error (tooDeep limits) ↔
        ∃ v, raw = some v ∧ limits.maxJsonDepth < depth v := by
  have hexact : ∀ (c : ℕ) (v : Json), c < jsonDepth c 0 v ↔ c < depth v := by
    intro c v
    have hle := jsonDepth_le c 0 v
    omega
  refine ⟨fun c v => ⟨hexact c v, tracedDepth_fst c 0 v, tracedDepth_snd_le c 0 (by omega) v⟩, ?_⟩
  intro raw taskClass metadata limits
  have hdeep : limits.maxJsonDepth < (raw.map (jsonDepth limits.maxJsonDepth 0)).getD 0 ↔
      ∃ v, raw = some v ∧ limits.maxJsonDepth < depth v := by
    cases raw with
    | none => simp
    | some v => simpa using hexact limits.maxJsonDepth v
  rw [← hdeep]
  unfold toEnvelope
  split
  · next h => exact iff_of_true rfl h
  · next h =>
      refine iff_of_false ?_ h
      split
      · next issue _ =>
          intro herror
          refine ne_tooDeep (c := 'i') ?_ (by decide) (Except.error.inj herror)
          rw [String.toList_append, String.toList_append, String.toList_append]
          rfl
      · split
        · intro herror
          refine ne_tooDeep (c := 't') ?_ (by decide) (Except.error.inj herror)
          rw [String.toList_append, String.toList_append]
          rfl
        · split
          · intro herror
            exact ne_tooDeep (c := 'n') rfl (by decide) (Except.error.inj herror)
          · intro hok
            cases hok

end VibeRouter
