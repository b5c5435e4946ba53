import VibeRouter.Gateway.StageSpecs
import VibeRouter.Db.Tables
import VibeRouter.Resilience.Limiter

/-! # The quota of refused requests

The first stage asks two limiters: that of the app token and, when the request names a user, that of
the user.  Each answers for itself, so a request that one of them refuses has spent a token of the
other when that one has any.  A refused request costs nothing exactly when the limiters agree
(`refused_requests_free`). -/

namespace VibeRouter

open Effects Async Code

/-! ### One limiter -/

namespace RateLimiter

variable {l l' : RateLimiter} {key : String} {now : ℚ}

/-- There is no token for the key. -/
def Refuses (l : RateLimiter) (key : String) (now : ℚ) : Prop :=
  0 < l.rpm ∧ (l.filled key now).tokens < 1

/-- A call for the key spends a token. -/
def Charges (l : RateLimiter) (key : String) (now : ℚ) : Prop :=
  0 < l.rpm ∧ 1 ≤ (l.filled key now).tokens

/-- From a moment on, the limiters hold the same for every key. -/
structure SameFrom (l l' : RateLimiter) (t : ℚ) : Prop where
  rpm : l'.rpm = l.rpm
  burst : l'.burst = l.burst
  filled : ∀ key later, t ≤ later → l'.filled key later = l.filled key later

theorem SameFrom.refl (l : RateLimiter) (t : ℚ) : SameFrom l l t := ⟨rfl, rfl, fun _ _ _ => rfl⟩

theorem SameFrom.symm {t : ℚ} (h : SameFrom l l' t) : SameFrom l' l t :=
  ⟨h.rpm.symm, h.burst.symm, fun key later hle => (h.filled key later hle).symm⟩

theorem SameFrom.trans {l'' : RateLimiter} {t : ℚ} (h : SameFrom l l' t) (h' : SameFrom l' l'' t) :
    SameFrom l l'' t where
  rpm := h'.rpm.trans h.rpm
  burst := h'.burst.trans h.burst
  filled key later hle := (h'.filled key later hle).trans (h.filled key later hle)

theorem SameFrom.mono {t t' : ℚ} (h : SameFrom l l' t) (hle : t ≤ t') : SameFrom l l' t' where
  rpm := h.rpm
  burst := h.burst
  filled key later hlater := h.filled key later (hle.trans hlater)

/-- What a call answers: a wait when there is no token. -/
theorem take_eq_some_iff :
    (∃ wait, (l.take key now).1 = some wait) ↔ l.Refuses key now := by
  unfold Refuses
  by_cases hrpm : 0 < l.rpm
  · have hnone : (l.take key now).1 = none ↔ 1 ≤ (l.filled key now).tokens := take_eq_none_iff hrpm
    rw [and_iff_right hrpm, ← not_le, ← hnone, ← Option.ne_none_iff_exists']
  · have hdisabled : (l.take key now).1 = none := by
      unfold take
      rw [if_pos (not_lt.1 hrpm)]
    rw [hdisabled]
    exact iff_of_false (by simp) fun h => hrpm h.1

theorem wait_pos {wait : ℤ} (h : (l.take key now).1 = some wait) : 0 < wait := by
  obtain ⟨hrpm, htokens⟩ := take_eq_some_iff.1 ⟨wait, h⟩
  unfold take at h
  dsimp only at h
  rw [if_neg (not_le.2 hrpm), if_neg (not_le.2 htokens)] at h
  rw [← Option.some.inj h, Int.ceil_pos]
  have hrate := refillPerMs_pos hrpm
  have hmissing : 0 < 1 - (l.filled key now).tokens := sub_pos.2 htokens
  positivity

/-- What a bucket holds later does not depend on its having been looked at. -/
theorem refill_filled (hrpm : 0 < l.rpm) {later : ℚ} (hle : now ≤ later) :
    (l.filled key now).refill l.refillPerMs l.burst later = l.filled key later := by
  have hrate := (refillPerMs_pos hrpm).le
  unfold filled
  rw [Bucket.refill_refill hrate hle]
  cases l.buckets.get key with
  | some b => rfl
  | none =>
      have hgain : 0 ≤ (later - now) * l.refillPerMs := mul_nonneg (sub_nonneg.2 hle) hrate
      unfold Bucket.refill
      simp [hgain]

/-- A call that spends nothing leaves the limiter as it was. -/
theorem sameFrom_take (h : ¬l.Charges key now) : SameFrom l (l.take key now).2 now := by
  refine ⟨take_rpm, take_burst, fun key' later hle => ?_⟩
  by_cases hrpm : 0 < l.rpm
  · by_cases hkey : key' = key
    · have htoken : ¬1 ≤ (l.filled key now).tokens := fun htoken => h ⟨hrpm, htoken⟩
      have hget := get_take hrpm key now key
      rw [if_pos rfl, if_neg htoken] at hget
      rw [hkey, ← refill_filled hrpm hle]
      unfold filled refillPerMs
      rw [hget, take_rpm, take_burst]
      rfl
    · exact filled_take_other hrpm hkey later
  · unfold take
    rw [if_pos (not_lt.1 hrpm)]

/-- A call that spends a token is seen at once. -/
theorem not_sameFrom_take (h : l.Charges key now) : ¬SameFrom l (l.take key now).2 now := by
  intro hsame
  obtain ⟨hrpm, htoken⟩ := h
  have hself := filled_take_self hrpm key now
  rw [hsame.filled key now le_rfl, if_pos htoken] at hself
  linarith

/-- Limiters that hold the same answer the same, and hold the same afterwards. -/
theorem SameFrom.take {t : ℚ} (h : SameFrom l l' t) (hle : t ≤ now) :
    (l'.take key now).1 = (l.take key now).1 ∧
      SameFrom (l.take key now).2 (l'.take key now).2 now := by
  have hfilled := h.filled key now hle
  have hrate : l'.refillPerMs = l.refillPerMs := by
    unfold refillPerMs
    rw [h.rpm]
  by_cases hrpm : 0 < l.rpm
  · have hrpm' : 0 < l'.rpm := h.rpm ▸ hrpm
    refine ⟨?_, ?_, ?_, fun key' later hlater => ?_⟩
    · unfold RateLimiter.take
      rw [if_neg (not_le.2 hrpm), if_neg (not_le.2 hrpm'), hfilled, hrate]
      dsimp only
      split <;> rfl
    · rw [take_rpm, take_rpm, h.rpm]
    · rw [take_burst, take_burst, h.burst]
    · by_cases hkey : key' = key
      · unfold RateLimiter.filled
        rw [get_take hrpm, get_take hrpm', if_pos hkey, if_pos hkey, hfilled]
        unfold RateLimiter.refillPerMs
        rw [take_rpm, take_rpm, take_burst, take_burst, h.rpm, h.burst]
      · rw [filled_take_other hrpm hkey, filled_take_other hrpm' hkey]
        exact h.filled key' later (hle.trans hlater)
  · have hrpm' : ¬0 < l'.rpm := h.rpm ▸ hrpm
    unfold RateLimiter.take
    rw [if_pos (not_lt.1 hrpm), if_pos (not_lt.1 hrpm')]
    exact ⟨rfl, h.mono hle⟩

end RateLimiter

/-! ### Both limiters -/

/-- The two limiters. -/
abbrev Quotas : Type := Limiter → RateLimiter

/-- The limiters answer for themselves, at the times of the two calls; the other operations answer
as they like. -/
def Quotas.serve (rest : (e : Op) → e.Answer) (time : Limiter → ℚ) (σ : Quotas) :
    (e : Op) → e.Answer × Quotas
  | .take limiter key =>
      (((σ limiter).take key (time limiter)).1.map Int.toNat,
        Function.update σ limiter ((σ limiter).take key (time limiter)).2)
  | e => (rest e, σ)

/-- A request at the first stage: what it brings, what the operations other than the limiters answer
it, and when it asks each limiter. -/
structure Asking where
  bearerToken : Option String
  ctx : PipelineCtx
  rest : (e : Op) → e.Answer
  time : Limiter → ℚ
  inOrder : time .perToken ≤ time .perUser

namespace Asking

variable [Platform] (deps : PipelineDeps) (r : Asking)

/-- The first stage. -/
def run (σ : Quotas) : Except Thrown Unit × Quotas :=
  let out := (stageAuth deps r.bearerToken).eval (Quotas.serve r.rest r.time) r.ctx σ
  (out.1.1, out.2)

/-- Who the request is from. -/
def authenticated : Except Thrown AuthContext :=
  ((authenticateAppToken r.bearerToken).eval (fun _ e => (r.rest e, ())) r.ctx ()).1.1

omit [Platform] in
/-- What the request asks a limiter for, if it asks it. -/
def key (auth : AuthContext) : Limiter → Option String
  | .perToken => some ("t:" ++ auth.tokenId.text)
  | .perUser => (truthyText r.ctx.envelope.metadata.userId).map fun userId =>
      "u:" ++ auth.firmId.text ++ ":" ++ userId

end Asking

/-- The stage refuses the request. -/
def refused : Except Thrown Unit → Bool
  | .error (.router e) => e.code = .rate_limited
  | _ => false

section
variable [Platform] {deps : PipelineDeps} {r : Asking} {σ : Quotas}

theorem authenticate_eval : (authenticateAppToken r.bearerToken).eval
    (Quotas.serve r.rest r.time) r.ctx σ = ((r.authenticated, r.ctx), σ) := by
  unfold Asking.authenticated authenticateAppToken
  cases truthyText r.bearerToken with
  | none => rfl
  | some token =>
      simp only [await, eval_bind, eval_op]
      have hserve : (Quotas.serve r.rest r.time σ (.findAppToken (hashToken token))) =
          (r.rest (.findAppToken (hashToken token)), σ) := rfl
      rw [hserve]
      cases r.rest (.findAppToken (hashToken token)) with
      | error e => rfl
      | ok row =>
          cases row with
          | none => rfl
          | some row =>
              simp only [eval_ofExcept]
              split
              · rfl
              · split <;> rfl

theorem run_of_error {e : Thrown} (h : r.authenticated = .error e) :
    r.run deps σ = (.error e, σ) := by
  unfold Asking.run stageAuth
  rw [eval_bind, authenticate_eval, h]

theorem run_unlimited {auth : AuthContext} (h : r.authenticated = .ok auth)
    (hlimits : deps.rateLimits = false) : r.run deps σ = (.ok (), σ) := by
  unfold Asking.run stageAuth
  rw [eval_bind, authenticate_eval, h, hlimits]
  rfl

/-- The limiters after a request has asked them. -/
def Asking.after (r : Asking) (auth : AuthContext) (σ : Quotas) : Quotas := fun limiter =>
  match r.key auth limiter with
  | some key => ((σ limiter).take key (r.time limiter)).2
  | none => σ limiter

/-- The wait that a limiter answers, 0 when it admits. -/
def Asking.wait (r : Asking) (auth : AuthContext) (σ : Quotas) (limiter : Limiter) : ℕ :=
  match r.key auth limiter with
  | some key => (((σ limiter).take key (r.time limiter)).1.map Int.toNat).getD 0
  | none => 0

omit [Platform] in
theorem wait_pos_iff (auth : AuthContext) (limiter : Limiter) :
    0 < r.wait auth σ limiter ↔
      ∃ key, r.key auth limiter = some key ∧ (σ limiter).Refuses key (r.time limiter) := by
  unfold Asking.wait
  cases r.key auth limiter with
  | none => exact iff_of_false (by simp) (by simp)
  | some key =>
      simp only [Option.some.injEq, exists_eq_left']
      rw [← RateLimiter.take_eq_some_iff]
      cases hwait : ((σ limiter).take key (r.time limiter)).1 with
      | none => exact iff_of_false (by simp) (by simp)
      | some wait =>
          have hpos := RateLimiter.wait_pos hwait
          refine iff_of_true ?_ ⟨wait, rfl⟩
          simp only [Option.map_some, Option.getD_some]
          omega

omit [Platform] in
/-- The end of the rate limit check. -/
theorem refuse_eval (wait : ℕ) (entry : AuditEntry) {error : RouterError} (σ : Quotas)
    (herror : error.code = .rate_limited) (c : PipelineCtx) :
    let out := (if 0 < wait then do
      op (.audit entry)
      throw (.router error)
      else pure () : Stage Unit).eval (Quotas.serve r.rest r.time) c σ
    out.2 = σ ∧ (refused out.1.1 = true ↔ 0 < wait) := by
  by_cases hwait : 0 < wait
  · simp only [if_pos hwait, eval_bind, eval_op, eval_throw]
    exact ⟨rfl, iff_of_true (decide_eq_true herror) hwait⟩
  · simp only [if_neg hwait, eval_pure]
    exact ⟨trivial, iff_of_false Bool.false_ne_true hwait⟩

/-- What the stage does for an authenticated request. -/
theorem run_limited {auth : AuthContext} (h : r.authenticated = .ok auth)
    (hlimits : deps.rateLimits = true) :
    (r.run deps σ).2 = r.after auth σ ∧
      (refused (r.run deps σ).1 = true ↔ ∃ limiter, 0 < r.wait auth σ limiter) := by
  have hexists : (∃ limiter, 0 < r.wait auth σ limiter) ↔
      0 < max (r.wait auth σ .perToken) (r.wait auth σ .perUser) := by
    rw [lt_max_iff]
    constructor
    · rintro ⟨limiter, hwait⟩
      cases limiter
      · exact Or.inl hwait
      · exact Or.inr hwait
    · rintro (hwait | hwait)
      · exact ⟨_, hwait⟩
      · exact ⟨_, hwait⟩
  rw [hexists]
  unfold Asking.run stageAuth
  rw [eval_bind, authenticate_eval, h, hlimits]
  unfold assign checkRateLimits
  simp only [eval_bind, eval_write, eval_op, if_true, ctx, eval_read]
  cases huser : truthyText r.ctx.envelope.metadata.userId with
  | none =>
      have hafter : Function.update σ .perToken
          ((σ .perToken).take ("t:" ++ auth.tokenId.text) (r.time .perToken)).2 =
          r.after auth σ := by
        funext limiter
        unfold Asking.after Asking.key
        rw [huser]
        cases limiter <;> rfl
      have hwait : r.wait auth σ .perUser = 0 := by
        unfold Asking.wait Asking.key
        rw [huser]
        rfl
      dsimp only
      rw [hwait, ← hafter]
      exact refuse_eval _ _ _ rfl _
  | some userId =>
      have hafter : Function.update (Function.update σ .perToken
          ((σ .perToken).take ("t:" ++ auth.tokenId.text) (r.time .perToken)).2) .perUser
          ((σ .perUser).take ("u:" ++ auth.firmId.text ++ ":" ++ userId) (r.time .perUser)).2 =
          r.after auth σ := by
        funext limiter
        unfold Asking.after Asking.key
        rw [huser]
        cases limiter <;> rfl
      have hwait : r.wait auth σ .perUser = (((σ .perUser).take
          ("u:" ++ auth.firmId.text ++ ":" ++ userId) (r.time .perUser)).1.map Int.toNat).getD 0 := by
        unfold Asking.wait Asking.key
        rw [huser]
        rfl
      dsimp only
      rw [hwait, ← hafter]
      exact refuse_eval _ _ _ rfl _

/-! ### One request -/

/-- Every limiter holds what it would hold without the request. -/
def Untouched (r : Asking) (σ σ' : Quotas) : Prop :=
  ∀ limiter, (σ limiter).SameFrom (σ' limiter) (r.time limiter)

/-- The limiters that the request asks agree: none refuses it, or none spends a token on it. -/
def Asking.Agrees (deps : PipelineDeps) (r : Asking) (σ : Quotas) : Prop :=
  ∀ auth, r.authenticated = .ok auth → deps.rateLimits = true →
    (∀ limiter key, r.key auth limiter = some key → ¬(σ limiter).Refuses key (r.time limiter)) ∨
    ∀ limiter key, r.key auth limiter = some key → ¬(σ limiter).Charges key (r.time limiter)

omit [Platform] in
theorem untouched_refl (r : Asking) (σ : Quotas) : Untouched r σ σ :=
  fun _ => RateLimiter.SameFrom.refl ..

omit [Platform] in
theorem untouched_after_iff (auth : AuthContext) : Untouched r σ (r.after auth σ) ↔
    ∀ limiter key, r.key auth limiter = some key → ¬(σ limiter).Charges key (r.time limiter) := by
  refine forall_congr' fun limiter => ?_
  unfold Asking.after
  cases r.key auth limiter with
  | none => exact iff_of_true (RateLimiter.SameFrom.refl ..) fun key h => by cases h
  | some key =>
      simp only [Option.some.injEq, forall_eq']
      exact ⟨fun hsame hcharges => RateLimiter.not_sameFrom_take hcharges hsame,
        RateLimiter.sameFrom_take⟩

/-- A request that is refused costs nothing exactly when the limiters agree about it. -/
theorem refused_untouched_iff :
    (refused (r.run deps σ).1 = true → Untouched r σ (r.run deps σ).2) ↔ r.Agrees deps σ := by
  unfold Asking.Agrees
  cases hauth : r.authenticated with
  | error e =>
      rw [run_of_error hauth]
      exact iff_of_true (fun _ => untouched_refl r σ) fun auth h => by cases h
  | ok auth =>
      cases hlimits : deps.rateLimits with
      | false =>
          rw [run_unlimited hauth hlimits]
          exact iff_of_true (fun _ => untouched_refl r σ) fun auth _ h => by cases h
      | true =>
          have hrun : (r.run deps σ).2 = r.after auth σ ∧
              (refused (r.run deps σ).1 = true ↔ ∃ limiter, 0 < r.wait auth σ limiter) :=
            run_limited hauth hlimits
          obtain ⟨hstate, hrefused⟩ := hrun
          rw [hrefused, hstate, untouched_after_iff]
          simp only [wait_pos_iff, Except.ok.injEq, forall_eq', forall_const]
          rw [imp_iff_not_or]
          refine or_congr_left ?_
          push Not
          rfl

/-! ### A run -/

/-- The limiters after the requests, one after the other. -/
def runAll (deps : PipelineDeps) (σ : Quotas) : List Asking → Quotas
  | [] => σ
  | r :: rs => runAll deps (r.run deps σ).2 rs

/-- No refused request of the run costs anything. -/
def RefusedFree (deps : PipelineDeps) (σ : Quotas) : List Asking → Prop
  | [] => True
  | r :: rs => (refused (r.run deps σ).1 = true → Untouched r σ (r.run deps σ).2) ∧
      RefusedFree deps (r.run deps σ).2 rs

/-- The limiters agree about each request of the run. -/
def AllAgree (deps : PipelineDeps) (σ : Quotas) : List Asking → Prop
  | [] => True
  | r :: rs => r.Agrees deps σ ∧ AllAgree deps (r.run deps σ).2 rs

/-- The requests of the run that are not refused. -/
def admitted (deps : PipelineDeps) (σ : Quotas) : List Asking → List Asking
  | [] => []
  | r :: rs =>
      if refused (r.run deps σ).1 then admitted deps (r.run deps σ).2 rs
      else r :: admitted deps (r.run deps σ).2 rs

/-- A request leaves limiters that hold the same as ones that hold the same. -/
theorem run_same {σ' : Quotas} {t : ℚ} (hsame : ∀ limiter, (σ limiter).SameFrom (σ' limiter) t)
    (ht : t ≤ r.time .perToken) (limiter : Limiter) :
    ((r.run deps σ).2 limiter).SameFrom ((r.run deps σ').2 limiter) (r.time .perUser) := by
  have hle : t ≤ r.time limiter ∧ r.time limiter ≤ r.time .perUser := by
    cases limiter
    · exact ⟨ht, r.inOrder⟩
    · exact ⟨ht.trans r.inOrder, le_rfl⟩
  have hlater := (hsame limiter).mono (hle.1.trans hle.2)
  cases hauth : r.authenticated with
  | error e =>
      rw [run_of_error hauth, run_of_error hauth]
      exact hlater
  | ok auth =>
      cases hlimits : deps.rateLimits with
      | false =>
          rw [run_unlimited hauth hlimits, run_unlimited hauth hlimits]
          exact hlater
      | true =>
          rw [(run_limited hauth hlimits).1, (run_limited hauth hlimits).1]
          unfold Asking.after
          cases r.key auth limiter with
          | none => exact hlater
          | some key => exact ((hsame limiter).take hle.1).2.mono hle.2

theorem refusedFree_iff (rs : List Asking) : RefusedFree deps σ rs ↔ AllAgree deps σ rs := by
  induction rs generalizing σ with
  | nil => exact Iff.rfl
  | cons r rs ih => exact and_congr refused_untouched_iff ih

theorem refusedFree_append {rs rs' : List Asking} (h : RefusedFree deps σ (rs ++ rs')) :
    RefusedFree deps (runAll deps σ rs) rs' := by
  induction rs generalizing σ with
  | nil => exact h
  | cons r rs ih => exact ih h.2

/-- The refused requests of a run leave nothing behind. -/
theorem runAll_admitted {σ' : Quotas} {rs : List Asking} {t : ℚ}
    (hsame : ∀ limiter, (σ limiter).SameFrom (σ' limiter) t)
    (ht : ∀ r ∈ rs, t ≤ r.time .perToken)
    (horder : rs.Pairwise fun a b => a.time .perUser ≤ b.time .perToken)
    (hagree : AllAgree deps σ rs) {now : ℚ} (hnow : t ≤ now) (hlast : ∀ r ∈ rs, r.time .perUser ≤ now)
    (limiter : Limiter) :
    ((runAll deps σ rs) limiter).SameFrom ((runAll deps σ' (admitted deps σ rs)) limiter) now := by
  induction rs generalizing σ σ' t with
  | nil => exact (hsame limiter).mono hnow
  | cons r rs ih =>
      obtain ⟨hr, hrs⟩ := hagree
      obtain ⟨hfirst, horder⟩ := List.pairwise_cons.1 horder
      obtain ⟨htr, -⟩ := List.forall_mem_cons.1 ht
      obtain ⟨hnowr, hlast⟩ := List.forall_mem_cons.1 hlast
      unfold admitted
      split
      · next hrefused =>
        refine ih (fun limiter => ?_) hfirst horder hrs hnowr hlast
        have huntouched := refused_untouched_iff.2 hr hrefused limiter
        have hle : r.time limiter ≤ r.time .perUser := by
          cases limiter
          · exact r.inOrder
          · exact le_rfl
        exact (huntouched.mono hle).symm.trans ((hsame limiter).mono (htr.trans r.inOrder))
      · exact ih (run_same hsame htr) hfirst horder hrs hnowr hlast

/-- **What refused requests cost.**  In a run no refused request costs anything exactly when the
limiters agree about each request; and then, when the requests come in the order of their times,
the limiters hold what they would hold had only the admitted requests been made. -/
theorem refused_requests_free (deps : PipelineDeps) (σ : Quotas) (rs : List Asking) :
    (RefusedFree deps σ rs ↔ AllAgree deps σ rs) ∧
    (rs.Pairwise (fun a b => a.time .perUser ≤ b.time .perToken) → AllAgree deps σ rs →
      ∀ now, (∀ r ∈ rs, r.time .perUser ≤ now) → ∀ limiter,
        ((runAll deps σ rs) limiter).SameFrom ((runAll deps σ (admitted deps σ rs)) limiter) now) := by
  refine ⟨refusedFree_iff rs, fun horder hagree now hlast limiter => ?_⟩
  cases rs with
  | nil => exact RateLimiter.SameFrom.refl ..
  | cons r rs =>
      obtain ⟨hfirst, -⟩ := List.pairwise_cons.1 horder
      have ht : ∀ r' ∈ r :: rs, r.time .perToken ≤ r'.time .perToken := by
        rw [List.forall_mem_cons]
        exact ⟨le_rfl, fun r' hr' => r.inOrder.trans (hfirst r' hr')⟩
      have hnow : r.time .perToken ≤ now := r.inOrder.trans (hlast r List.mem_cons_self)
      exact runAll_admitted (fun _ => RateLimiter.SameFrom.refl ..) ht horder hagree hnow hlast limiter

end

/-! ### A user who keeps retrying -/

namespace Sample

def limitedDeps : PipelineDeps := { deps with rateLimits := true }

/-- A request of a user, at the time 0. -/
def userRequest : Asking where
  bearerToken := some token
  ctx :=
    let envelope := request "hello"
    @newPipelineCtx platform "r" 0
      { envelope with metadata := { envelope.metadata with userId := some "u1" } }
  rest := tables.answer
  time _ := 0
  inOrder := le_rfl

/-- Limits of 4 requests a minute, one at once, for the app token and for the user. -/
def tight : Quotas := fun _ => .new 4 1

theorem userRequest_authenticated : @Asking.authenticated platform userRequest = .ok auth := by
  decide +kernel

/-- Both limiters admit the first request and refuse the second. -/
theorem tight_agree :
    @AllAgree platform limitedDeps tight [userRequest, userRequest] := by
  have hauth : ∀ auth', @Asking.authenticated platform userRequest = .ok auth' → auth' = auth := by
    intro auth' h
    rw [userRequest_authenticated] at h
    exact (Except.ok.inj h).symm
  refine ⟨fun auth' h _ => ?_, fun auth' h _ => ?_, trivial⟩
  · rw [hauth auth' h]
    refine Or.inl fun limiter key hkey => not_and_of_not_right _ ?_
    cases limiter <;> cases hkey <;> decide +kernel
  · rw [hauth auth' h]
    refine Or.inr fun limiter key hkey => not_and_of_not_right _ ?_
    cases limiter <;> cases hkey <;> decide +kernel

/-- Limits of 600 requests a minute for the app token and 4 for the user. -/
def fresh : Quotas
  | .perToken => .new 600 150
  | .perUser => .new 4 5

/-- The limiters after five requests. -/
def spent : Quotas := @runAll platform limitedDeps fresh (List.replicate 5 userRequest)

theorem refused_spends :
    ((spent .perToken).filled "t:22222222-2222-4222-8222-222222222222" 0).tokens = 145 ∧
    refused (@Asking.run platform limitedDeps userRequest spent).1 = true ∧
    (((@Asking.run platform limitedDeps userRequest spent).2 .perToken).filled
      "t:22222222-2222-4222-8222-222222222222" 0).tokens = 144 := by
  decide +kernel

end Sample

/-- Two requests: what the limiters hold is what they hold after the first alone. -/
theorem refused_requests_free_tight :
    @RefusedFree Sample.platform Sample.limitedDeps Sample.tight
      [Sample.userRequest, Sample.userRequest] ∧
    RateLimiter.SameFrom
      (@runAll Sample.platform Sample.limitedDeps Sample.tight
        [Sample.userRequest, Sample.userRequest] .perUser)
      (@runAll Sample.platform Sample.limitedDeps Sample.tight
        (@admitted Sample.platform Sample.limitedDeps Sample.tight
          [Sample.userRequest, Sample.userRequest]) .perUser) 0 := by
  obtain ⟨hfree, hadmitted⟩ := @refused_requests_free Sample.platform Sample.limitedDeps
    Sample.tight [Sample.userRequest, Sample.userRequest]
  refine ⟨hfree.2 Sample.tight_agree, hadmitted ?_ Sample.tight_agree 0 ?_ .perUser⟩
  · exact List.pairwise_pair.2 le_rfl
  · intro r hr
    simp only [List.mem_cons, List.not_mem_nil, or_false, or_self] at hr
    rw [hr]
    exact le_rfl

/-- The sixth request of the user is refused, and the app token pays for it. -/
theorem throttled_user_costs :
    ¬@RefusedFree Sample.platform Sample.limitedDeps Sample.fresh
      (List.replicate 6 Sample.userRequest) := by
  intro h
  obtain ⟨hbefore, hrefused, hafter⟩ := Sample.refused_spends
  rw [List.replicate_succ'] at h
  have hlast : @RefusedFree Sample.platform Sample.limitedDeps Sample.spent [Sample.userRequest] :=
    @refusedFree_append Sample.platform _ _ _ _ h
  replace hlast := hlast.1 hrefused
  have hsame := (hlast .perToken).filled "t:22222222-2222-4222-8222-222222222222" 0 le_rfl
  have htokens := (congrArg Bucket.tokens hsame).symm.trans hafter
  exact absurd (hbefore.symm.trans htokens) (by norm_num)

end VibeRouter
