import Mathlib.Data.Rat.Floor
import VibeRouter.Lib.JsMap
import VibeRouter.Lib.TokenBucket

/-! # The rate limiter

A token bucket for each key, filled with `rpm` tokens a minute.  Over any window of time a key is
admitted at most as often as the bucket holds plus what flows in, a refusal names a wait after
which the next call is admitted, and the pruning of idle buckets, which the server does now and
then, is not seen by any call (`limiter_law`). -/

namespace VibeRouter

structure RateLimiter where
  rpm : ℚ
  burst : ℚ
  buckets : JsMap String (Bucket ℚ)

namespace RateLimiter

/-- `Math.max(5, Math.floor(rpm / 4))`. -/
def defaultBurst (rpm : ℚ) : ℚ := max 5 (⌊rpm / 4⌋ : ℤ)

def new (rpm burst : ℚ) : RateLimiter := ⟨rpm, burst, .empty⟩

variable (l : RateLimiter)

def refillPerMs : ℚ := l.rpm / 60000

/-- The bucket of a key at a moment; a new one is full. -/
def filled (key : String) (now : ℚ) : Bucket ℚ :=
  ((l.buckets.get key).getD ⟨l.burst, now⟩).refill l.refillPerMs l.burst now

/-- Nothing when the call is admitted, else the seconds to wait. -/
def take (key : String) (now : ℚ) : Option ℤ × RateLimiter :=
  if l.rpm ≤ 0 then (none, l)
  else
    let b := l.filled key now
    if 1 ≤ b.tokens then (none, { l with buckets := l.buckets.set key b.spend })
    else (some ⌈(1 - b.tokens) / l.refillPerMs / 1000⌉, { l with buckets := l.buckets.set key b })

def prune (maxIdleMs now : ℚ) : RateLimiter :=
  { l with buckets := l.buckets.filterKeys fun key =>
      (l.buckets.get key).all fun b => now - b.updatedAt ≤ maxIdleMs }

end RateLimiter

/-! ### Calls -/

/-- A call of the limiter and its time; the server prunes with the default limit. -/
inductive LimiterCall
  | take (key : String) (now : ℚ)
  | prune (now : ℚ)

def LimiterCall.now : LimiterCall → ℚ
  | take _ now => now
  | prune now => now

def LimiterCall.isTake : LimiterCall → Bool
  | take _ _ => true
  | prune _ => false

/-- What a `take` answered. -/
structure LimiterAnswer where
  key : String
  now : ℚ
  wait : Option ℤ
deriving DecidableEq

namespace RateLimiter

/-- The idle limit of the server. -/
def maxIdleMs : ℚ := 600000

def after (l : RateLimiter) : List LimiterCall → RateLimiter
  | [] => l
  | .take key now :: calls => (l.take key now).2.after calls
  | .prune now :: calls => (l.prune maxIdleMs now).after calls

def answers (l : RateLimiter) : List LimiterCall → List LimiterAnswer
  | [] => []
  | .take key now :: calls =>
      ⟨key, now, (l.take key now).1⟩ :: (l.take key now).2.answers calls
  | .prune now :: calls => (l.prune maxIdleMs now).answers calls

/-- The calls for `key` that were admitted from `s` to `t`. -/
def admissions (key : String) (s t : ℚ) (as : List LimiterAnswer) : ℕ :=
  as.countP fun a => a.key = key ∧ a.wait = none ∧ s ≤ a.now ∧ a.now ≤ t

/-- The calls come in the order of their times. -/
def InOrder (calls : List LimiterCall) : Prop := calls.Pairwise fun a b => a.now ≤ b.now

/-! ### One call -/

variable {l : RateLimiter} {key : String} {now : ℚ}

@[simp] theorem take_rpm : (l.take key now).2.rpm = l.rpm := by
  unfold take
  split
  · rfl
  · dsimp only
    split <;> rfl

@[simp] theorem take_burst : (l.take key now).2.burst = l.burst := by
  unfold take
  split
  · rfl
  · dsimp only
    split <;> rfl

@[simp] theorem after_rpm (calls : List LimiterCall) : (l.after calls).rpm = l.rpm := by
  induction calls generalizing l with
  | nil => rfl
  | cons c calls ih =>
      cases c with
      | take key now => exact ih.trans take_rpm
      | prune now => exact ih

@[simp] theorem after_burst (calls : List LimiterCall) : (l.after calls).burst = l.burst := by
  induction calls generalizing l with
  | nil => rfl
  | cons c calls ih =>
      cases c with
      | take key now => exact ih.trans take_burst
      | prune now => exact ih

/-- What the bucket of a key holds after a call. -/
theorem get_take (hrpm : 0 < l.rpm) (key : String) (now : ℚ) (key' : String) :
    (l.take key now).2.buckets.get key' =
      if key' = key then
        some (if 1 ≤ (l.filled key now).tokens then (l.filled key now).spend else l.filled key now)
      else l.buckets.get key' := by
  unfold take
  rw [if_neg (not_le.2 hrpm)]
  dsimp only
  split <;> exact JsMap.get_set ..

/-- A call is admitted exactly when there is a token. -/
theorem take_eq_none_iff (hrpm : 0 < l.rpm) :
    (l.take key now).1 = none ↔ 1 ≤ (l.filled key now).tokens := by
  unfold take
  rw [if_neg (not_le.2 hrpm)]
  dsimp only
  split
  · next h => exact ⟨fun _ => h, fun _ => rfl⟩
  · next h => exact ⟨fun hnone => (by cases hnone), fun htoken => absurd htoken h⟩

/-! ### Windows -/

/-- Every bucket holds something and was filled before `now`. -/
def Sound (l : RateLimiter) (now : ℚ) : Prop :=
  ∀ key b, l.buckets.get key = some b → 0 ≤ b.tokens ∧ b.updatedAt ≤ now

theorem Sound.mono {later : ℚ} (h : l.Sound now) (hle : now ≤ later) : l.Sound later :=
  fun key b hb => ⟨(h key b hb).1, (h key b hb).2.trans hle⟩

theorem refillPerMs_pos (hrpm : 0 < l.rpm) : 0 < l.refillPerMs := by
  unfold refillPerMs
  positivity

theorem filled_nonneg (hrpm : 0 < l.rpm) (hburst : 1 ≤ l.burst) (h : l.Sound now) (key : String) :
    0 ≤ (l.filled key now).tokens := by
  have hrate := (refillPerMs_pos hrpm).le
  unfold filled
  cases hget : l.buckets.get key with
  | none => exact Bucket.refill_tokens_nonneg hrate (by linarith) (by dsimp; linarith) le_rfl
  | some b =>
      exact Bucket.refill_tokens_nonneg hrate (by linarith) (h key b hget).1 (h key b hget).2

theorem Sound.take (hrpm : 0 < l.rpm) (hburst : 1 ≤ l.burst) (h : l.Sound now) :
    (l.take key now).2.Sound now := by
  intro key' b hb
  rw [get_take hrpm] at hb
  by_cases hk : key' = key
  · rw [if_pos hk, Option.some.injEq] at hb
    subst hb
    split
    · next htoken => exact ⟨sub_nonneg.2 htoken, le_rfl⟩
    · exact ⟨filled_nonneg hrpm hburst h key, le_rfl⟩
  · rw [if_neg hk] at hb
    exact h key' b hb

/-- What flows into the bucket of a key. -/
theorem filled_le_add {later : ℚ} (hrpm : 0 < l.rpm) (hle : now ≤ later) (key : String) :
    (l.filled key later).tokens ≤ (l.filled key now).tokens + (later - now) * l.refillPerMs := by
  have hrate := (refillPerMs_pos hrpm).le
  unfold filled
  cases l.buckets.get key with
  | none =>
      have hgain := mul_nonneg (sub_nonneg.2 hle) hrate
      simp only [Option.getD_none, Bucket.refill, sub_self, zero_mul, add_zero, min_self]
      linarith
  | some b => exact Bucket.refill_tokens_le_add hrate hle

/-- What the bucket of a key holds right after a call for it. -/
theorem filled_take_self (hrpm : 0 < l.rpm) (key : String) (now : ℚ) :
    ((l.take key now).2.filled key now).tokens ≤
      (l.filled key now).tokens - if 1 ≤ (l.filled key now).tokens then 1 else 0 := by
  have hget := get_take hrpm key now key
  rw [if_pos rfl] at hget
  have hstep : ∀ b : Bucket ℚ, (l.take key now).2.buckets.get key = some b → b.updatedAt = now →
      ((l.take key now).2.filled key now).tokens ≤ b.tokens := by
    intro b hb hnow
    unfold filled
    rw [hb, ← hnow]
    exact Bucket.refill_updatedAt_le
  split at hget
  · next htoken =>
      rw [if_pos htoken]
      exact hstep _ hget rfl
  · next htoken =>
      rw [if_neg htoken, sub_zero]
      exact hstep _ hget rfl

theorem filled_take_other {key' : String} (hrpm : 0 < l.rpm) (h : key ≠ key') (later : ℚ) :
    (l.take key' now).2.filled key later = l.filled key later := by
  unfold filled refillPerMs
  rw [get_take hrpm, if_neg h, take_rpm, take_burst]

/-- Answers are given at the times of the calls. -/
theorem exists_call_of_answer {calls : List LimiterCall} {a : LimiterAnswer}
    (h : a ∈ l.answers calls) : ∃ c ∈ calls, c.now = a.now := by
  induction calls generalizing l with
  | nil => cases h
  | cons c calls ih =>
      cases c with
      | take key now =>
          rcases List.mem_cons.1 h with rfl | h
          · exact ⟨_, List.mem_cons_self .., rfl⟩
          · obtain ⟨c, hc, hnow⟩ := ih h
            exact ⟨c, List.mem_cons_of_mem _ hc, hnow⟩
      | prune now =>
          obtain ⟨c, hc, hnow⟩ := ih h
          exact ⟨c, List.mem_cons_of_mem _ hc, hnow⟩

theorem admissions_eq_zero {calls : List LimiterCall} {s t : ℚ} (h : ∀ c ∈ calls, t < c.now) :
    admissions key s t (l.answers calls) = 0 := by
  refine List.countP_eq_zero.2 fun a ha hcounted => ?_
  obtain ⟨c, hc, hnow⟩ := exists_call_of_answer ha
  have hlate := h c hc
  rw [decide_eq_true_eq] at hcounted
  linarith [hcounted.2.2.2]

theorem admissions_cons (s t : ℚ) (a : LimiterAnswer) (as : List LimiterAnswer) :
    admissions key s t (a :: as) = admissions key s t as +
      if a.key = key ∧ a.wait = none ∧ s ≤ a.now ∧ a.now ≤ t then 1 else 0 := by
  unfold admissions
  rw [List.countP_cons]
  simp only [decide_eq_true_eq]

/-- From `now` on a key is admitted at most as often as its bucket holds and gains. -/
theorem admissions_le_filled (key : String) (s : ℚ) {t : ℚ} {calls : List LimiterCall}
    (hrpm : 0 < l.rpm) (hburst : 1 ≤ l.burst) (htakes : ∀ c ∈ calls, c.isTake = true) (horder : InOrder calls)
    (h : l.Sound now) (hnow : ∀ c ∈ calls, now ≤ c.now) (ht : now ≤ t) :
    (admissions key s t (l.answers calls) : ℚ) ≤
      (l.filled key now).tokens + (t - now) * l.refillPerMs := by
  induction calls generalizing l now with
  | nil =>
      have hgain := mul_nonneg (sub_nonneg.2 ht) (refillPerMs_pos hrpm).le
      have hfilled := filled_nonneg hrpm hburst h key
      show ((0 : ℕ) : ℚ) ≤ _
      push_cast
      linarith
  | cons c calls ih =>
      obtain ⟨hfirst, horder'⟩ := List.pairwise_cons.1 horder
      cases c with
      | prune n => exact absurd (htakes _ (List.mem_cons_self ..)) (by simp [LimiterCall.isTake])
      | take key' n =>
          have hn : now ≤ n := hnow _ (List.mem_cons_self ..)
          have hadd := filled_le_add hrpm hn key
          by_cases hlate : t < n
          · have hzero : admissions key s t (l.answers (.take key' n :: calls)) = 0 := by
              refine admissions_eq_zero fun c hc => ?_
              rcases List.mem_cons.1 hc with rfl | hc
              · exact hlate
              · exact hlate.trans_le (hfirst c hc)
            have hgain := mul_nonneg (sub_nonneg.2 ht) (refillPerMs_pos hrpm).le
            have hfilled := filled_nonneg hrpm hburst h key
            rw [hzero]
            push_cast
            linarith
          · have hrest := ih (l := (l.take key' n).2) (by simpa using hrpm)
              (by simpa using hburst) (fun c hc => htakes c (List.mem_cons_of_mem _ hc)) horder'
              ((h.mono hn).take hrpm hburst) hfirst (not_lt.1 hlate)
            have hrate : (l.take key' n).2.refillPerMs = l.refillPerMs := by
              unfold refillPerMs
              rw [take_rpm]
            have hsplit : (t - now) * l.refillPerMs =
                (n - now) * l.refillPerMs + (t - n) * l.refillPerMs := by ring
            rw [hrate] at hrest
            show ((admissions key s t (⟨key', n, (l.take key' n).1⟩ ::
              (l.take key' n).2.answers calls) : ℕ) : ℚ) ≤ _
            rw [admissions_cons, hsplit]
            push_cast
            by_cases hk : key' = key
            · subst hk
              have hself := filled_take_self hrpm key' n
              by_cases htoken : 1 ≤ (l.filled key' n).tokens
              · rw [if_pos htoken] at hself
                split <;> linarith
              · rw [if_neg htoken] at hself
                rw [if_neg fun hcounted => htoken ((take_eq_none_iff hrpm).1 hcounted.2.1)]
                linarith
            · rw [filled_take_other hrpm (Ne.symm hk)] at hrest
              rw [if_neg fun hcounted => hk hcounted.1]
              linarith

/-- **A window of time.** -/
theorem admissions_le (key : String) {calls : List LimiterCall} {s t : ℚ} (hrpm : 0 < l.rpm)
    (hburst : 1 ≤ l.burst) (htakes : ∀ c ∈ calls, c.isTake = true) (horder : InOrder calls)
    (h : l.Sound now) (hnow : ∀ c ∈ calls, now ≤ c.now) (hst : s ≤ t) :
    (admissions key s t (l.answers calls) : ℚ) ≤ l.burst + (t - s) * l.refillPerMs := by
  have hrate := refillPerMs_pos hrpm
  have hgain := mul_nonneg (sub_nonneg.2 hst) hrate.le
  induction calls generalizing l now with
  | nil =>
      show ((0 : ℕ) : ℚ) ≤ _
      push_cast
      linarith
  | cons c calls ih =>
      obtain ⟨hfirst, horder'⟩ := List.pairwise_cons.1 horder
      cases c with
      | prune n => exact absurd (htakes _ (List.mem_cons_self ..)) (by simp [LimiterCall.isTake])
      | take key' n =>
          have hn : now ≤ n := hnow _ (List.mem_cons_self ..)
          have hall : ∀ c ∈ LimiterCall.take key' n :: calls, n ≤ c.now := by
            intro c hc
            rcases List.mem_cons.1 hc with rfl | hc
            · exact le_rfl
            · exact hfirst c hc
          by_cases hearly : n < s
          · -- a call before the window only changes the buckets
            have hrate' : (l.take key' n).2.refillPerMs = l.refillPerMs := by
              unfold refillPerMs
              rw [take_rpm]
            have hrest := ih (l := (l.take key' n).2) (by simpa using hrpm)
              (by simpa using hburst) (fun c hc => htakes c (List.mem_cons_of_mem _ hc)) horder'
              ((h.mono hn).take hrpm hburst) hfirst (by rw [hrate']; exact hrate)
              (by rw [hrate']; exact hgain)
            rw [hrate', take_burst] at hrest
            show ((admissions key s t (⟨key', n, (l.take key' n).1⟩ ::
              (l.take key' n).2.answers calls) : ℕ) : ℚ) ≤ _
            rw [admissions_cons, if_neg fun hcounted => not_le.2 hearly hcounted.2.2.1, add_zero]
            exact hrest
          · by_cases hlate : t < n
            · have hzero : admissions key s t (l.answers (.take key' n :: calls)) = 0 :=
                admissions_eq_zero fun c hc => hlate.trans_le (hall c hc)
              rw [hzero]
              push_cast
              linarith
            · have hle := admissions_le_filled key s hrpm hburst htakes horder (h.mono hn) hall
                (not_lt.1 hlate)
              have hfull : (l.filled key n).tokens ≤ l.burst := Bucket.refill_tokens_le
              have hshort : (t - n) * l.refillPerMs ≤ (t - s) * l.refillPerMs :=
                mul_le_mul_of_nonneg_right (by linarith [not_lt.1 hearly]) hrate.le
              linarith

/-! ### Waiting -/

/-- **A refused caller that waits is admitted.** -/
theorem take_after_wait (hrpm : 0 < l.rpm) (hburst : 1 ≤ l.burst) {wait : ℤ}
    (h : (l.take key now).1 = some wait) :
    ((l.take key now).2.take key (now + wait * 1000)).1 = none := by
  have hrate := refillPerMs_pos hrpm
  have htoken : ¬1 ≤ (l.filled key now).tokens := by
    intro htoken
    rw [(take_eq_none_iff hrpm).2 htoken] at h
    cases h
  have hget := get_take hrpm key now key
  rw [if_pos rfl, if_neg htoken] at hget
  unfold take at h
  rw [if_neg (not_le.2 hrpm)] at h
  dsimp only at h
  rw [if_neg htoken, Option.some.injEq] at h
  have hwait : (1 - (l.filled key now).tokens) / l.refillPerMs / 1000 ≤ wait := h ▸ Int.le_ceil _
  rw [take_eq_none_iff (by simpa using hrpm)]
  unfold filled
  rw [hget, take_burst]
  have hrate' : (l.take key now).2.refillPerMs = l.refillPerMs := by
    unfold refillPerMs
    rw [take_rpm]
  rw [hrate']
  refine Bucket.one_le_refill_tokens hburst ?_
  show 1 - (l.filled key now).tokens ≤ (now + wait * 1000 - now) * l.refillPerMs
  rw [div_le_iff₀ (by norm_num), div_le_iff₀ hrate] at hwait
  linarith

/-! ### Pruning -/

/-- A limiter that was pruned and one that was not: a bucket that is missing is full. -/
structure Alike (l l' : RateLimiter) (now : ℚ) : Prop where
  rpm : l'.rpm = l.rpm
  burst : l'.burst = l.burst
  sound : l.Sound now
  buckets : ∀ key, l'.buckets.get key = l.buckets.get key ∨
    l'.buckets.get key = none ∧ ∃ b, l.buckets.get key = some b ∧
      l.burst ≤ (now - b.updatedAt) * l.refillPerMs

variable {l' : RateLimiter}

theorem Alike.mono {later : ℚ} (h : Alike l l' now) (hrpm : 0 < l.rpm) (hle : now ≤ later) :
    Alike l l' later where
  rpm := h.rpm
  burst := h.burst
  sound := h.sound.mono hle
  buckets key := by
    refine (h.buckets key).imp_right fun ⟨hnone, b, hb, hidle⟩ => ⟨hnone, b, hb, hidle.trans ?_⟩
    exact mul_le_mul_of_nonneg_right (by linarith) (refillPerMs_pos hrpm).le

theorem Alike.refillPerMs (h : Alike l l' now) : l'.refillPerMs = l.refillPerMs := by
  unfold RateLimiter.refillPerMs
  rw [h.rpm]

theorem Alike.filled (h : Alike l l' now) (key : String) :
    l'.filled key now = l.filled key now := by
  unfold RateLimiter.filled
  rw [h.refillPerMs, h.burst]
  rcases h.buckets key with hsame | ⟨hnone, b, hb, hidle⟩
  · rw [hsame]
  · rw [hnone, hb]
    have hfull := Bucket.refill_tokens_eq (h.sound key b hb).1 hidle
    show Bucket.mk _ _ = Bucket.mk _ _
    congr 1
    refine Eq.trans ?_ hfull.symm
    simp

theorem Alike.take (h : Alike l l' now) (hrpm : 0 < l.rpm) (hburst : 1 ≤ l.burst) (key : String) :
    (l'.take key now).1 = (l.take key now).1 ∧
      Alike (l.take key now).2 (l'.take key now).2 now := by
  have hrpm' : 0 < l'.rpm := h.rpm ▸ hrpm
  refine ⟨?_, ?_, ?_, h.sound.take hrpm hburst, fun key' => ?_⟩
  · unfold RateLimiter.take
    rw [if_neg (not_le.2 hrpm), if_neg (not_le.2 hrpm'), h.filled, h.refillPerMs]
    dsimp only
    split <;> rfl
  · rw [take_rpm, take_rpm, h.rpm]
  · rw [take_burst, take_burst, h.burst]
  · rw [get_take hrpm, get_take hrpm', h.filled]
    by_cases hk : key' = key
    · rw [if_pos hk, if_pos hk]
      exact Or.inl rfl
    · rw [if_neg hk, if_neg hk, take_burst]
      unfold RateLimiter.refillPerMs
      rw [take_rpm]
      exact h.buckets key'

/-- A bucket is pruned only when it has been idle for long enough to be full. -/
theorem Alike.prune (h : Alike l l' now) (hrpm : 0 < l.rpm)
    (hidle : l.burst ≤ maxIdleMs * l.refillPerMs) : Alike l (l'.prune maxIdleMs now) now where
  rpm := h.rpm
  burst := h.burst
  sound := h.sound
  buckets key := by
    show (l'.buckets.filterKeys _).get key = _ ∨ (l'.buckets.filterKeys _).get key = none ∧ _
    rw [JsMap.get_filterKeys]
    rcases h.buckets key with hsame | ⟨hnone, hfull⟩
    · rw [hsame]
      cases hget : l.buckets.get key with
      | none => exact Or.inl (ite_self none)
      | some b =>
          rw [Option.all_some]
          by_cases hkept : now - b.updatedAt ≤ maxIdleMs
          · rw [if_pos (decide_eq_true hkept)]
            exact Or.inl rfl
          · rw [if_neg (by simpa using hkept)]
            refine Or.inr ⟨rfl, b, rfl, hidle.trans ?_⟩
            exact mul_le_mul_of_nonneg_right (not_le.1 hkept).le (refillPerMs_pos hrpm).le
    · rw [hnone]
      exact Or.inr ⟨ite_self none, hfull⟩

/-- **Pruning is not seen.** -/
theorem answers_of_alike {calls : List LimiterCall} (hrpm : 0 < l.rpm) (hburst : 1 ≤ l.burst)
    (hidle : l.burst ≤ maxIdleMs * l.refillPerMs) (horder : InOrder calls) (h : Alike l l' now)
    (hnow : ∀ c ∈ calls, now ≤ c.now) :
    l'.answers calls = l.answers (calls.filter LimiterCall.isTake) := by
  induction calls generalizing l l' now with
  | nil => rfl
  | cons c calls ih =>
      obtain ⟨hfirst, horder'⟩ := List.pairwise_cons.1 horder
      have hlater := h.mono hrpm (hnow c (List.mem_cons_self ..))
      cases c with
      | take key n =>
          replace hlater : Alike l l' n := hlater
          obtain ⟨hanswer, hnext⟩ := hlater.take hrpm hburst key
          have hrate : (l.take key n).2.refillPerMs = l.refillPerMs := by
            unfold RateLimiter.refillPerMs
            rw [take_rpm]
          have hrest := ih (by simpa using hrpm) (by simpa using hburst)
            (by rw [take_burst, hrate]; exact hidle) horder' hnext hfirst
          show ⟨key, n, (l'.take key n).1⟩ :: (l'.take key n).2.answers calls = _
          rw [hanswer, hrest]
          rfl
      | prune n => exact ih hrpm hburst hidle horder' (hlater.prune hrpm hidle) hfirst

/-! ### Main result -/

theorem new_sound (rpm burst now : ℚ) : (new rpm burst).Sound now := by
  intro key b hb
  cases hb

/-- The default bucket fills up while it is idle for as long as the server keeps it. -/
theorem defaultBurst_le {rpm : ℤ} (h : 1 ≤ rpm) :
    1 ≤ defaultBurst rpm ∧ defaultBurst rpm ≤ maxIdleMs * (new rpm (defaultBurst rpm)).refillPerMs := by
  have hrpm : (1 : ℚ) ≤ rpm := by exact_mod_cast h
  have hfloor : ((⌊(rpm : ℚ) / 4⌋ : ℤ) : ℚ) ≤ rpm / 4 := Int.floor_le _
  constructor
  · exact le_trans (by norm_num) (le_max_left ..)
  · unfold maxIdleMs refillPerMs new
    dsimp only
    refine max_le ?_ ?_ <;> linarith

/-- **The law of the rate limiter.**  For calls in the order of their times: the admissions of a key in
a window of time, the wait of a refused caller, and the pruning with the idle limit of the server,
which no call sees when the bucket has its default size and `rpm` is a positive integer. -/
theorem limiter_law {rpm burst : ℚ} (hrpm : 0 < rpm) (hburst : 1 ≤ burst)
    {calls : List LimiterCall} (horder : InOrder calls) :
    (∀ key s t, s ≤ t →
      (admissions key s t ((new rpm burst).answers (calls.filter LimiterCall.isTake)) : ℚ) ≤
        burst + (t - s) * rpm / 60000) ∧
    (∀ key now wait, let l := (new rpm burst).after (calls.filter LimiterCall.isTake)
      (l.take key now).1 = some wait →
        ((l.take key now).2.take key (now + wait * 1000)).1 = none) ∧
    ((∃ n : ℤ, 1 ≤ n ∧ rpm = n) → burst = defaultBurst rpm →
      (new rpm burst).answers calls =
        (new rpm burst).answers (calls.filter LimiterCall.isTake)) := by
  have htakes : ∀ c ∈ calls.filter LimiterCall.isTake, c.isTake = true :=
    fun c hc => (List.mem_filter.1 hc).2
  refine ⟨fun key s t hst => ?_, ?_, ?_⟩
  · obtain ⟨first, hfirst⟩ : ∃ first, ∀ c ∈ calls.filter LimiterCall.isTake, first ≤ c.now := by
      cases hcalls : calls.filter LimiterCall.isTake with
      | nil => exact ⟨0, fun c hc => absurd hc List.not_mem_nil⟩
      | cons c rest =>
          have hsorted : InOrder (c :: rest) := hcalls ▸ horder.filter _
          refine ⟨c.now, fun c' hc' => ?_⟩
          rcases List.mem_cons.1 hc' with rfl | hc'
          · exact le_rfl
          · exact (List.pairwise_cons.1 hsorted).1 c' hc'
    have hle := admissions_le key (l := new rpm burst) hrpm hburst htakes
      (horder.filter _) (new_sound rpm burst first) hfirst hst
    rw [mul_div_assoc]
    exact hle
  · intro key now wait l hwait
    have hstate : l.rpm = rpm ∧ l.burst = burst := by
      show ((new rpm burst).after _).rpm = rpm ∧ ((new rpm burst).after _).burst = burst
      rw [after_rpm, after_burst]
      exact ⟨rfl, rfl⟩
    exact take_after_wait (hstate.1 ▸ hrpm) (hstate.2 ▸ hburst) hwait
  · rintro ⟨n, hn, rfl⟩ rfl
    obtain ⟨hone, hidle⟩ := defaultBurst_le hn
    cases hcalls : calls with
    | nil => rfl
    | cons c rest =>
        rw [← hcalls]
        have hfirst : ∀ c' ∈ calls, c.now ≤ c'.now := by
          intro c' hc'
          rw [hcalls] at hc' horder
          rcases List.mem_cons.1 hc' with rfl | hc'
          · exact le_rfl
          · exact (List.pairwise_cons.1 horder).1 c' hc'
        exact answers_of_alike hrpm hone hidle horder
          ⟨rfl, rfl, new_sound _ _ c.now, fun key => Or.inl rfl⟩ hfirst

end RateLimiter

/-! ### Samples -/

namespace Sample

/-- Five calls exhaust the bucket, the sixth is refused; the server prunes in between. -/
def burstCalls : List LimiterCall :=
  List.replicate 3 (.take "k" 0) ++ [.prune 0] ++ List.replicate 3 (.take "k" 0)

theorem burstCalls_inOrder : RateLimiter.InOrder burstCalls := by
  unfold RateLimiter.InOrder
  decide

/-- The limiter after six calls at once. -/
def exhausted : RateLimiter :=
  (RateLimiter.new 20 5).after (burstCalls.filter LimiterCall.isTake)

/-- Six calls at once: five are admitted at most, the next caller is told to wait three seconds and
is admitted then, and the pruning is not seen. -/
theorem burstCalls_limited :
    (RateLimiter.admissions "k" 0 0 ((RateLimiter.new 20 5).answers
      (burstCalls.filter LimiterCall.isTake)) : ℚ) ≤ 5 + (0 - 0) * 20 / 60000 ∧
    ((exhausted.take "k" 0).2.take "k" (0 + (3 : ℤ) * 1000)).1 = none ∧
    (RateLimiter.new 20 5).answers burstCalls =
      (RateLimiter.new 20 5).answers (burstCalls.filter LimiterCall.isTake) := by
  have h := @RateLimiter.limiter_law 20 5 (by norm_num) (by norm_num) _ burstCalls_inOrder
  have hrefused : (exhausted.take "k" 0).1 = some 3 := by decide +kernel
  refine ⟨h.1 "k" 0 0 le_rfl, h.2.1 "k" 0 3 hrefused, h.2.2 ⟨20, by norm_num, by norm_num⟩ ?_⟩
  unfold RateLimiter.defaultBurst
  norm_num

end Sample

end VibeRouter
