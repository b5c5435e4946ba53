import VibeRouter.Resilience.Turns

/-! # Refusals

A provider refuses when it finishes with `content_filter` and answers neither content nor tool
calls.  `verifyResponse` exempts a refusal from the check for emptiness, but not from those of a
forced-JSON request (`verify_refusal`).  `Refusal` watches the last answer of a provider: a refusal
that no JSON check stands against ends the request.  A stream without content is never the answer,
whatever it finishes with (`refusals_end_requests`). -/

namespace VibeRouter

open Effects Async Code

/-- A provider refuses to answer. -/
def Refuses (res : AIResponse) : Prop :=
  res.finishReason = .content_filter ∧ res.message.content.trim = [] ∧
    res.message.toolCalls.getD [] = []

instance (res : AIResponse) : Decidable (Refuses res) := by
  unfold Refuses
  infer_instance

/-- A stream by which a provider refuses to answer. -/
def RefusesStream (chunks : List StreamChunk) : Prop :=
  (∃ usage, .finish .content_filter usage ∈ chunks) ∧ ∀ chunk ∈ chunks, chunk.isContent = false

/-- What verification finds in a refusal. -/
def refusedJson : VerifyFinding :=
  { reason := .response_not_json, message := "forced-JSON response did not parse as JSON" }

section
variable [Platform]

/-- A refusal passes exactly when no JSON is wanted. -/
theorem verify_refusal {res : AIResponse} (h : Refuses res) (env : AIRequest)
    (mode : SchemaValidationMode) :
    verifyResponse res env mode = .ok (if wantsJson env then some refusedJson else none, []) := by
  obtain ⟨hfinish, hcontent, hcalls⟩ := h
  have hempty : Json.parse (stripFence []) = none := by decide
  unfold verifyResponse
  dsimp only
  rw [hfinish, hcontent, hcalls, if_neg (by decide), if_neg (by decide)]
  cases wantsJson env with
  | false => rfl
  | true =>
      simp only [List.find?_nil, Bool.not_true, Bool.false_eq_true, if_false, ne_eq,
        not_true_eq_false, List.head?_nil, Option.map_none, Option.getD_none, reduceCtorEq, hempty]
      rfl

/-! ### Without streaming -/

namespace Refusal

/-- What the last provider that was asked has answered, and to which envelope. -/
abbrev Last : Type := Option (AIResponse × AIRequest)

def next (q : Last) : (e : Op) → e.Answer → Last
  | .execute _ _ env, .ok res => some (res, env)
  | .execute _ _ _, .error _ => none
  | _, _ => q

def env : Env Op Op.Answer Last where
  allows _ e r := e.Lawful r
  next := next

variable (cfg : ResilienceConfig)

/-- The last answer is a refusal, and no check of JSON stands against it. -/
def Final (q : Last) : Prop := ∃ res env, q = some (res, env) ∧ Refuses res ∧
  (cfg.verifyResponses = true → wantsJson env = false)

/-- No provider is asked after a final answer, and none is blamed. -/
def Ok (q : Last) : Op → Prop
  | .execute _ _ _ | .openStream _ _ _ | .breakerRecord _ false => ¬Final cfg q
  | _ => True

/-- A final answer is returned, and what is returned is the last answer. -/
def Ends (r : Except Thrown AIResponse) (q : Last) : Prop :=
  (Final cfg q → ∃ res env, q = some (res, env) ∧ r = .ok res) ∧
    ∀ res, r = .ok res → ∃ env, q = some (res, env) ∧ Accepts cfg env res

variable {cfg} {s : PipelineCtx} {q : Last} {route : RouteDecision}

omit [Platform] in
theorem not_final_none : ¬Final cfg none := by
  intro h
  obtain ⟨res, env, hq, -⟩ := h
  cases hq

theorem Ends.not_final {err : Thrown} (h : Ends cfg (.error err) q) : ¬Final cfg q := by
  intro hfinal
  obtain ⟨res, env, -, hr⟩ := h.1 hfinal
  cases hr

theorem ends_error {err : Thrown} (h : ¬Final cfg q) : Ends cfg (.error err) q :=
  ⟨fun hfinal => absurd hfinal h, fun res hr => by cases hr⟩

omit [Platform] in
/-- Code that asks no provider, and blames none after a final answer. -/
theorem wp_of_uses {S α : Type} {s : S} {c : Async S α} {ps : List Op.Part}
    {post : Except Thrown α → S → Prop} (h : Uses Op.Lawful ps c s post) (ha : .adapter ∉ ps)
    (hb : ¬Final cfg q ∨ .breaker ∉ ps) :
    c.wp env (Ok cfg) (fun r s' q' => post r s' ∧ q' = q) s q := by
  refine h.wp (J := fun q' => q' = q) (fun _ _ _ hr => hr) rfl ?_ fun _ _ _ hpost hq' => ⟨hpost, hq'⟩
  intro q' e hq' he
  subst hq'
  have hpart : e.part ≠ .adapter := fun heq => ha (heq ▸ he.1)
  refine ⟨?_, fun r _ => ?_⟩
  · cases e with
    | execute => exact absurd rfl hpart
    | openStream => exact absurd rfl hpart
    | breakerRecord p ok =>
        cases ok with
        | true => trivial
        | false => exact hb.resolve_right fun h => h he.1
    | _ => trivial
  · cases e with
    | execute => exact absurd rfl hpart
    | _ => rfl

/-- A response that was verified is returned. -/
theorem executeAttempt_wp (hauth : s.auth.isSome = true) (hq : ¬Final cfg q) :
    (executeAttempt cfg route).wp env (Ok cfg) (fun r s' q' => s' = s ∧ Ends cfg r q') s q := by
  simp only [executeAttempt, wp_bind, wp_ctx, wp_await, wp_op]
  refine ⟨hq, fun r _ => ?_⟩
  rcases r with e | res
  · exact ⟨trivial, ends_error not_final_none⟩
  have hverified : (verifyIfEnabled cfg route res).wp env (Ok cfg) (fun r s' q' => s' = s ∧
      q' = some (res, hopEnvelope route s) ∧
        (r = .ok () → Accepts cfg (hopEnvelope route s) res) ∧ (Final cfg q' → r = .ok ())) s
      (some (res, hopEnvelope route s)) := by
    by_cases hfinal : Final cfg (some (res, hopEnvelope route s))
    · obtain ⟨res', env', heq, hrefuses, hwants⟩ := hfinal
      obtain ⟨rfl, rfl⟩ := Prod.mk.inj (Option.some.inj heq)
      unfold verifyIfEnabled
      split
      · next hverify =>
        have hfound := verify_refusal hrefuses (hopEnvelope route s) cfg.schemaValidationDefault
        rw [hwants hverify, if_neg Bool.false_ne_true] at hfound
        simp only [verifyHop, wp_bind, wp_ctx, hfound, wp_ofExcept]
        exact ⟨rfl, rfl, fun _ _ => ⟨[], hfound⟩, fun _ => rfl⟩
      · next hverify => exact ⟨rfl, rfl, fun _ h => absurd h hverify, fun _ => rfl⟩
    · refine wp_mono (wp_of_uses (verifyIfEnabled_uses cfg route res) (by simp) (.inl hfinal)) ?_
      rintro r s' q' ⟨⟨rfl, haccepts⟩, rfl⟩
      exact ⟨rfl, rfl, haccepts, fun h => absurd h hfinal⟩
  refine wp_mono hverified ?_
  rintro (e | _) s' q' ⟨rfl, rfl, haccepts, hok⟩
  · refine ⟨rfl, ends_error fun hfinal => ?_⟩
    cases hok hfinal
  refine ⟨trivial, fun _ _ => ?_⟩
  refine wp_mono (wp_of_uses (recordHealth_uses route true) (by simp) (.inr (by simp))) ?_
  rintro r s'' q'' ⟨⟨rfl, hr⟩, rfl⟩
  rw [hr hauth]
  exact ⟨rfl, fun _ => ⟨res, _, rfl, rfl⟩, fun res' hres' => by
    cases hres'
    exact ⟨_, rfl, haccepts rfl⟩⟩

/-- A hop is only tried again after an answer that is not final. -/
theorem retryLoop_wp (hauth : s.auth.isSome = true) (left attempt : ℕ)
    (lastErr : Option RouterError) (hq : ¬Final cfg q) :
    (retryLoop cfg route left attempt lastErr).wp env (Ok cfg)
      (fun r s' q' => s' = s ∧ Ends cfg r q') s q := by
  induction left generalizing q attempt lastErr with
  | zero => exact ⟨rfl, ends_error hq⟩
  | succ left ih =>
      simp only [retryLoop, wp_bind, wp_op]
      refine ⟨trivial, fun aborted _ => ?_⟩
      cases aborted with
      | true => exact ⟨rfl, ends_error hq⟩
      | false =>
          simp only [Bool.false_eq_true, if_false, wp_bind, wp_outcome]
          refine wp_mono (executeAttempt_wp hauth hq) ?_
          rintro (e | res) s' q' ⟨rfl, hends⟩
          · have hq' := hends.not_final
            simp only [wp_bind]
            refine wp_mono (wp_of_uses (afterFailure_uses route attempt _) (by simp)
              (.inl hq')) ?_
            rintro (e | _) s'' q'' ⟨rfl, rfl⟩
            · exact ⟨rfl, ends_error hq'⟩
            · exact ih _ _ hq'
          · exact ⟨rfl, hends⟩

/-- What is left of a hop, with its error or its response. -/
def HopEnds (cfg : ResilienceConfig) (r : Except Thrown (Except (RouterError × Bool) AIResponse))
    (q : Last) : Prop :=
  match r with
  | .ok (.ok res) => Ends cfg (.ok res) q
  | _ => ¬Final cfg q

theorem runHop_wp (hauth : s.auth.isSome = true) (lastErr : Option RouterError)
    (previousModel : String) (hq : ¬Final cfg q) :
    (runHop cfg route lastErr previousModel).wp env (Ok cfg)
      (fun r s' q' => s'.auth.isSome = true ∧ HopEnds cfg r q') s q := by
  simp only [runHop, wp_ensure, wp_bind, wp_outcome]
  refine wp_mono (wp_of_uses (enterHop_uses route lastErr previousModel) (by simp) (.inl hq)) ?_
  rintro _ s' q' ⟨⟨rfl, rfl⟩, rfl⟩
  refine wp_mono (retryLoop_wp (s := { s with route := some route }) hauth _ _ _ hq) ?_
  rintro (e | res) s'' q'' ⟨rfl, hends⟩
  · simp only [wp_bind, wp_op]
    exact ⟨trivial, fun aborted _ => ⟨trivial, fun _ _ => ⟨hauth, hends.not_final⟩⟩⟩
  · exact ⟨trivial, fun _ _ => ⟨hauth, hends⟩⟩

variable (cfg) (deps : PipelineDeps)

/-- The response of the candidates, or their last error. -/
def LoopEnds (r : Except Thrown (Except (Option RouterError) AIResponse)) (q : Last) : Prop :=
  match r with
  | .ok (.ok res) => Ends cfg (.ok res) q
  | _ => ¬Final cfg q

theorem hopLoop_wp (hauth : s.auth.isSome = true) (effective : EffectivePolicy) (ids : List Uuid)
    (lastErr : Option RouterError) (previousModel : String) (hq : ¬Final cfg q) :
    (hopLoop deps cfg effective ids lastErr previousModel).wp env (Ok cfg)
      (fun r _ q' => LoopEnds cfg r q') s q := by
  induction ids generalizing s q lastErr previousModel with
  | nil => exact hq
  | cons id ids ih =>
      simp only [hopLoop, wp_bind, wp_op]
      refine ⟨trivial, fun aborted _ => ?_⟩
      cases aborted with
      | true => exact hq
      | false =>
          simp only [Bool.false_eq_true, if_false]
          split
          · exact ih hauth _ _ hq
          · simp only [wp_bind]
            refine wp_mono (wp_of_uses (admitHop_uses deps (fun _ _ h => h) _ _ _ _) (by simp)
              (.inl hq)) ?_
            rintro (e | ⟨route⟩ | rerr) s' q' ⟨⟨⟨b, rfl⟩, -⟩, rfl⟩
            · exact hq
            · simp only [wp_bind]
              refine wp_mono (runHop_wp (s := { s with cloudBlockAudited := b }) hauth _ _ hq) ?_
              rintro (e | ⟨rerr, _ | _⟩ | res) s'' q'' ⟨hauth', hends⟩
              · exact hends
              · exact ih hauth' _ _ hends
              · exact hends
              · exact hends
            · exact ih (s := { s with cloudBlockAudited := b }) hauth _ _ hq

theorem executeResilient_wp (hauth : s.auth.isSome = true) :
    (executeResilient deps cfg).wp env (Ok cfg) (fun r _ q' => Ends cfg r q') s none := by
  simp only [executeResilient, wp_bind]
  refine wp_mono (wp_of_uses requireEffective_uses (by simp) (.inl not_final_none)) ?_
  rintro (e | effective) s' q' ⟨⟨rfl, -⟩, rfl⟩
  · exact ends_error not_final_none
  simp only [wp_op, wp_ensure, wp_bind, wp_ctx, wp_ofExcept]
  refine ⟨trivial, fun _ _ => ?_⟩
  cases candidateModels effective s'.envelope with
  | error e => exact ⟨trivial, fun _ _ => ends_error not_final_none⟩
  | ok ids =>
      refine wp_mono (hopLoop_wp cfg deps hauth effective ids none "" not_final_none) ?_
      rintro (e | lastErr | res) s'' q'' hends
      · exact ⟨trivial, fun _ _ => ends_error hends⟩
      · simp only [wp_bind, wp_op]
        refine ⟨trivial, fun timedOut _ => ?_⟩
        cases timedOut <;> exact ⟨trivial, fun _ _ => ends_error hends⟩
      · exact ⟨trivial, fun _ _ => hends⟩

/-- **A refusal is returned exactly when no check of JSON stands against it.** -/
theorem returned_iff {r : Except Thrown AIResponse} (h : Ends cfg r q) {res : AIResponse}
    {env : AIRequest} (hq : q = some (res, env)) (hrefuses : Refuses res) :
    r = .ok res ↔ (cfg.verifyResponses = true → wantsJson env = false) := by
  constructor
  · intro hr hverify
    obtain ⟨env', hq', haccepts⟩ := h.2 res hr
    obtain ⟨-, rfl⟩ := Prod.mk.inj (Option.some.inj (hq.symm.trans hq'))
    obtain ⟨soft, hsoft⟩ := haccepts hverify
    rw [verify_refusal hrefuses] at hsoft
    cases hwants : wantsJson env with
    | false => rfl
    | true =>
        rw [hwants] at hsoft
        cases hsoft
  · intro hwants
    obtain ⟨res', env', hq', hr⟩ := h.1 ⟨res, env, hq, hrefuses, hwants⟩
    obtain ⟨rfl, -⟩ := Prod.mk.inj (Option.some.inj (hq.symm.trans hq'))
    exact hr

/-! ### Streaming -/

/-- The stream that was opened last. -/
abbrev Opened : Type := Option (List StreamChunk)

/-- What is opened replaces what was opened before. -/
def opens (o : Opened) : (e : GenOp Op Yielded) → GenOp.Answer Op.Answer Yielded e → Opened
  | .op (.openStream _ _ _), chunks => some chunks
  | _, _ => o

def streamEnv : Env (GenOp Op Yielded) (GenOp.Answer Op.Answer Yielded) Opened where
  allows _ e r := match e, r with
    | .op e, r => e.Lawful r
    | .yield _, _ => True
  next := opens

/-- The stream that was opened last has content. -/
def HasContent (o : Opened) : Prop := ∃ chunks, o = some chunks ∧ ∃ chunk ∈ chunks, chunk.isContent

/-- Only a stream with content is relayed. -/
def StreamOk (o : Opened) : GenOp Op Yielded → Prop
  | .yield _ => HasContent o
  | .op _ => True

omit [Platform] in
theorem HasContent.not_refuses {chunks : List StreamChunk} (h : HasContent (some chunks)) :
    ¬RefusesStream chunks := by
  obtain ⟨chunks', heq, chunk, hmem, hcontent⟩ := h
  cases heq
  intro hrefuses
  rw [hrefuses.2 chunk hmem] at hcontent
  cases hcontent

section
variable {α : Type} {o : Opened}

/-- A generator, with any consumer. -/
abbrev Streams (g : Generator α) (post : Except Abrupt α → PipelineCtx → Opened → Prop)
    (s : PipelineCtx) (o : Opened) : Prop :=
  g.wp streamEnv StreamOk post s o

omit [Platform] in
theorem streams_inGenerator_op (e : Op)
    {post : Except Abrupt e.Answer → PipelineCtx → Opened → Prop} :
    @Code.wp _ _ PipelineCtx Abrupt Opened (no_index e.Answer) streamEnv StreamOk
      (inGenerator (op e)) post s o ↔
      True ∧ ∀ r, e.Lawful r → post (.ok r) s (opens o (.op e) r) := Iff.rfl

omit [Platform] in
/-- Code that opens no stream. -/
theorem streams_of_uses {c : Stage α} {ps : List Op.Part} {post : Except Thrown α → PipelineCtx → Prop}
    (h : Uses Op.Lawful ps c s post) (ha : .adapter ∉ ps) :
    Streams (inGenerator c) (fun r s' o' => (∃ r', r = r'.mapError .thrown ∧ post r' s') ∧ o' = o)
      s o := by
  refine (wp_embed _ c).2 ?_
  refine h.wp (J := fun o' => o' = o) (fun _ _ _ hr => hr) rfl ?_
    fun r _ _ hpost ho' => ⟨⟨r, rfl, hpost⟩, ho'⟩
  intro o' e ho' he
  subst ho'
  refine ⟨trivial, fun r _ => ?_⟩
  cases e with
  | openStream => exact absurd he.1 ha
  | _ => rfl

omit [Platform] in
theorem yieldChunk_streams (chunk : StreamChunk) (ho : HasContent o) :
    Streams (yieldChunk chunk) (fun _ _ o' => o' = o) s o := by
  simp only [yieldChunk, Streams, wp_bind, wp_read, wp_perform]
  refine ⟨ho, fun resumed _ => ?_⟩
  cases resumed with
  | next => rfl
  | return_ =>
      simp only [wp_bind, streams_inGenerator_op]
      refine ⟨trivial, fun r _ => ?_⟩
      cases r <;> rfl

omit [Platform] in
theorem yieldAll_streams (chunks : List StreamChunk) (ho : HasContent o) :
    Streams (yieldAll chunks) (fun _ _ o' => o' = o) s o := by
  induction chunks generalizing s with
  | nil => rfl
  | cons chunk chunks ih =>
      simp only [yieldAll, Streams, wp_bind]
      refine wp_mono (yieldChunk_streams chunk ho) ?_
      rintro (e | _ | e) s' o' rfl
      · rfl
      · exact ih
      · rfl

omit [Platform] in
/-- Content that has been seen, or is still to come, is content of the stream. -/
theorem relayStream_streams (chunks : List StreamChunk) (contentSeen : Bool)
    (pending : List StreamChunk) (hseen : contentSeen = true → HasContent o)
    (hrest : ∀ chunk ∈ chunks, chunk.isContent = true → HasContent o) :
    Streams (relayStream cfg chunks contentSeen pending)
      (fun r _ o' => o' = o ∧ (r = .ok (.finished true) → HasContent o)) s o := by
  induction chunks generalizing contentSeen pending s with
  | nil =>
      simp only [relayStream, Streams, wp_bind, streams_inGenerator_op]
      refine ⟨trivial, fun r _ => ?_⟩
      rcases r with e | _
      · exact ⟨rfl, fun h => by cases h⟩
      · exact ⟨rfl, fun h => by
          cases h
          exact hseen rfl⟩
  | cons chunk rest ih =>
      have hrest' : ∀ chunk ∈ rest, chunk.isContent = true → HasContent o :=
        fun chunk hmem => hrest chunk (List.mem_cons_of_mem _ hmem)
      simp only [relayStream, Streams, wp_bind, streams_inGenerator_op]
      refine ⟨trivial, fun r _ => ?_⟩
      rcases r with e | _
      · exact ⟨rfl, fun h => by cases h⟩
      simp only [wp_bind, streams_inGenerator_op]
      refine ⟨trivial, fun _ _ => ?_⟩
      split
      · exact ih false _ (fun h => by cases h) hrest'
      case isFalse hheld =>
        have ho : HasContent o := by
          cases hs : contentSeen with
          | true => exact hseen hs
          | false =>
              refine hrest chunk List.mem_cons_self ?_
              rw [hs] at hheld
              simpa using hheld
        rw [wp_bind]
        have hcommit : Streams (commit contentSeen) (fun r _ o' => r = .ok () ∧ o' = o) s o := by
          unfold commit
          split
          · exact ⟨rfl, rfl⟩
          · exact ⟨trivial, fun _ _ => ⟨rfl, rfl⟩⟩
        refine wp_mono hcommit ?_
        rintro _ s' o' ⟨rfl, rfl⟩
        dsimp only
        rw [wp_bind]
        refine wp_mono (yieldAll_streams _ ho) ?_
        rintro (e | _ | e) s'' o'' rfl
        · exact ⟨rfl, fun h => by cases h⟩
        · exact ih true _ (fun _ => ho) hrest'
        · exact ⟨rfl, fun h => by cases h⟩

omit [Platform] in
theorem streamTry_streams (lastErr : Option RouterError) (previousModel : String) :
    Streams (streamTry cfg route lastErr previousModel)
      (fun r _ o' => ∀ seen, r = .ok (.finished seen) → HasContent o') s o := by
  simp only [streamTry, Streams, wp_bind]
  refine wp_mono (streams_of_uses (enterHop_uses route lastErr previousModel) (by simp)) ?_
  rintro _ s' o' ⟨⟨_, rfl, rfl, rfl⟩, rfl⟩
  dsimp only [Except.mapError]
  simp only [wp_read, streams_inGenerator_op]
  refine ⟨trivial, fun chunks _ => ?_⟩
  have hchunks : ∀ chunk ∈ (chunks : List StreamChunk), chunk.isContent = true →
      HasContent (some chunks) := fun chunk hmem hc => ⟨chunks, rfl, chunk, hmem, hc⟩
  refine wp_mono (relayStream_streams cfg chunks false [] (fun h => by cases h) hchunks) ?_
  rintro (e | ⟨_ | _⟩ | ⟨err, seen⟩) s'' o'' ⟨rfl, hfinished⟩
  · exact fun seen h => by cases h
  · exact fun seen h => by cases h
  · exact ⟨trivial, fun _ _ _ _ => hfinished rfl⟩
  · exact fun seen h => by cases h

omit [Platform] in
theorem streamHop_streams (lastErr : Option RouterError) (previousModel : String) :
    Streams (streamHop cfg route lastErr previousModel)
      (fun r _ o' => r = .ok none → HasContent o') s o := by
  have hclose : ∀ (r : Except Abrupt (Option RouterError)) (s : PipelineCtx) {o : Opened},
      (r = .ok none → HasContent o) →
      (inGenerator (do op .closeHop; op (.shedRelease route.provider.id))).wp streamEnv StreamOk
        (fun r' _ o' => match r' with
          | .ok _ => r = .ok none → HasContent o'
          | .error e => (.error e : Except Abrupt (Option RouterError)) = .ok none → HasContent o')
        s o := fun _ _ _ h => ⟨trivial, fun _ _ => ⟨trivial, fun _ _ => h⟩⟩
  simp only [streamHop, Streams, wp_bind, wp_ensure, streams_inGenerator_op]
  refine ⟨trivial, fun _ _ => ?_⟩
  refine wp_mono (streamTry_streams cfg lastErr previousModel) ?_
  rintro (e | ⟨seen⟩ | ⟨err, seen⟩) s' o' hfinished
  · exact hclose (.error e) s' fun h => by cases h
  · exact hclose (.ok none) s' fun _ => hfinished seen rfl
  · simp only [wp_bind]
    refine wp_mono (streams_of_uses (streamCatch_uses route err seen) (by simp)) ?_
    rintro _ s'' o'' ⟨⟨e | rerr, rfl, -⟩, rfl⟩
    · exact hclose (.error (.thrown e)) s'' fun h => by cases h
    · exact hclose (.ok (some rerr)) s'' fun h => by cases h

theorem streamLoop_streams (effective : EffectivePolicy) (ids : List Uuid)
    (lastErr : Option RouterError) (previousModel : String) :
    Streams (streamLoop deps cfg effective ids lastErr previousModel)
      (fun r _ o' => r = .ok none → HasContent o') s o := by
  induction ids generalizing s o lastErr previousModel with
  | nil => exact fun h => by cases h
  | cons id ids ih =>
      simp only [streamLoop, Streams, wp_bind, streams_inGenerator_op]
      refine ⟨trivial, fun aborted _ => ?_⟩
      cases aborted with
      | true => exact fun h => by cases h
      | false =>
          simp only [Bool.false_eq_true, if_false]
          split
          · exact ih _ _
          · rw [wp_bind]
            refine wp_mono (streams_of_uses (admitHop_uses deps (fun _ _ h => h) _ _ _ _)
              (by simp)) ?_
            rintro _ s' o' ⟨⟨e | ⟨route⟩ | rerr, rfl, -⟩, rfl⟩
            · exact fun h => by cases h
            · dsimp only [Except.mapError]
              rw [wp_bind]
              refine wp_mono (streamHop_streams cfg _ _) ?_
              rintro (e | _ | rerr) s'' o'' hrelayed
              · exact fun h => by cases h
              · exact fun _ => hrelayed rfl
              · exact ih _ _
            · exact ih _ _

theorem executeResilientStream_streams :
    Streams (executeResilientStream deps cfg) (fun r _ o' => r = .ok () → HasContent o') s o := by
  simp only [executeResilientStream, Streams, wp_bind, wp_ensure]
  refine wp_mono (streams_of_uses requireEffective_uses (by simp)) ?_
  rintro _ s' o' ⟨⟨e | effective, rfl, -⟩, rfl⟩
  · exact fun h => by cases h
  dsimp only [Except.mapError]
  simp only [streams_inGenerator_op]
  refine ⟨trivial, fun _ _ => ?_⟩
  have hids : Streams (inGenerator (do Code.ofExcept (candidateModels effective (← ctx).envelope)))
      (fun r _ o'' => (∃ r', r = Except.mapError Abrupt.thrown r') ∧ o'' = o') s' o' := by
    refine (wp_embed _ _).2 ?_
    simp only [wp_bind, wp_ctx, wp_ofExcept]
    exact ⟨⟨_, rfl⟩, trivial⟩
  refine wp_mono hids ?_
  rintro _ s'' o'' ⟨⟨e | ids, rfl⟩, rfl⟩
  · exact ⟨trivial, fun _ _ h => by cases h⟩
  dsimp only [Except.mapError]
  refine wp_mono (streamLoop_streams cfg deps effective ids none "") ?_
  rintro (e | _ | lastErr) s₃ o₃ hrelayed
  · exact ⟨trivial, fun _ _ h => by cases h⟩
  · exact ⟨trivial, fun _ _ _ => hrelayed rfl⟩
  · simp only [wp_bind, streams_inGenerator_op]
    refine ⟨trivial, fun timedOut _ => ?_⟩
    cases timedOut <;> exact ⟨trivial, fun _ _ h => by cases h⟩

end

end Refusal

end

/-- **Refusals end requests that want no JSON and no stream.**  Verification lets a refusal pass
exactly when no JSON is wanted.  In a run without streaming, a refusal that is the last answer is
returned exactly when no JSON was wanted of it or nothing is verified, and then no provider is asked
or blamed after it.  In a run with streaming, a refusal is neither relayed nor the answer. -/
theorem refusals_end_requests [Platform] {deps : PipelineDeps} {cfg : ResilienceConfig} {c : PipelineCtx}
    (hauth : c.auth.isSome = true) :
    (∀ (res : AIResponse) (env : AIRequest) (mode : SchemaValidationMode), Refuses res →
      (verifyResponse res env mode = .ok (none, []) ↔ wantsJson env = false)) ∧
    (∀ r c' res env,
      Prog.Run Refusal.env (executeResilient deps cfg c) none (.ret (r, c')) (some (res, env)) →
        Refuses res → (r = .ok res ↔ (cfg.verifyResponses = true → wantsJson env = false))) ∧
    (∀ e k q, Prog.Run Refusal.env (executeResilient deps cfg c) none (.call e k) q →
      Refusal.Ok cfg q e) ∧
    (∀ y k chunks, Prog.Run Refusal.streamEnv (executeResilientStream deps cfg c) none
      (.call (.yield y) k) (some chunks) → ¬RefusesStream chunks) ∧
    ∀ c' chunks, Prog.Run Refusal.streamEnv (executeResilientStream deps cfg c) none
      (.ret (.ok (), c')) (some chunks) → ¬RefusesStream chunks := by
  have hplain := Refusal.executeResilient_wp cfg deps hauth
  have hstream := Refusal.executeResilientStream_streams (s := c) (o := none) cfg deps
  refine ⟨?_, ?_, ?_, ?_, ?_⟩
  · intro res env mode hrefuses
    rw [verify_refusal hrefuses]
    cases wantsJson env <;> simp
  · intro r c' res env hrun hrefuses
    have hends := Prog.post_of_run hplain hrun
    exact Refusal.returned_iff cfg hends rfl hrefuses
  · intro e k q hrun
    exact Prog.ok_of_run hplain hrun
  · intro y k chunks hrun
    exact Refusal.HasContent.not_refuses (Prog.ok_of_run hstream hrun)
  · intro c' chunks hrun
    have hcontent := Prog.post_of_run hstream hrun
    exact Refusal.HasContent.not_refuses (hcontent rfl)

namespace Sample

def refusal (served : Served) : AIResponse :=
  { message := { content := [] }, finishReason := .content_filter, usage := EMPTY_USAGE, served }

def refusedChunks : List StreamChunk := [.finish .content_filter none]

/-- Providers that refuse. -/
def refusing : (e : GenOp Op Yielded) → GenOp.Answer Op.Answer Yielded e
  | .op (.execute _ route _) => .ok (refusal ⟨route.model.canonicalId, route.provider.id, 1⟩)
  | .op (.openStream _ _ _) => refusedChunks
  | .op e => tables.answer e
  | .yield _ => .next

theorem lawful_refusing (e : Op) : e.Lawful (refusing (.op e)) := by
  have hlaw := tables.lawful_answer e
  cases e with
  | execute c route env => trivial
  | openStream c route env => trivial
  | _ => exact hlaw

/-- A request whose provider refuses. -/
def refusedRequest : (Except Thrown AIResponse × PipelineCtx) × Refusal.Last :=
  letI := platform
  (executeResilient deps chainConfig (chainCtx [localModelId])).eval
    (fun q e => (refusing (.op e), Refusal.next q e (refusing (.op e)))) none

/-- A stream whose providers refuse. -/
def refusedStream :
    GenProg Op Op.Answer Yielded (Except Abrupt Unit × PipelineCtx) × Refusal.Opened :=
  letI := platform
  Prog.advance (fun o e => (refusing e, Refusal.opens o e (refusing e))) 60
    (executeResilientStream deps chainConfig (chainCtx [localModelId])) none

theorem refusedRequest_run :
    letI := platform
    Prog.Run Refusal.env (executeResilient deps chainConfig (chainCtx [localModelId])) none
      (.ret refusedRequest.1) refusedRequest.2 := by
  let := platform
  exact Prog.run_eval (fun q e => ⟨lawful_refusing e, rfl⟩) _ _

theorem refusedStream_run :
    letI := platform
    Prog.Run Refusal.streamEnv (executeResilientStream deps chainConfig (chainCtx [localModelId]))
      none refusedStream.1 refusedStream.2 := by
  let := platform
  refine Prog.run_advance (fun o e => ⟨?_, rfl⟩) 60 _ _
  cases e with
  | yield y => trivial
  | op e => exact lawful_refusing e

end Sample

/-- The refusal of a request without a response format is its answer. -/
theorem refused_request_ends : ∃ res env, Sample.refusedRequest.2 = some (res, env) ∧ Refuses res ∧
    Sample.refusedRequest.1.1 = .ok res := by
  let := Sample.platform
  have hlast : (Sample.refusedRequest.2.map fun p => (decide (Refuses p.1), wantsJson p.2)) =
      some (true, false) := by decide
  obtain ⟨p, hp, heq⟩ := Option.map_eq_some_iff.1 hlast
  obtain ⟨hrefuses, hwants⟩ := Prod.mk.inj heq
  have hrun := Sample.refusedRequest_run
  rw [hp] at hrun
  refine ⟨p.1, p.2, hp, of_decide_eq_true hrefuses, ?_⟩
  exact ((refusals_end_requests rfl).2.1 _ _ _ _ hrun (of_decide_eq_true hrefuses)).2 fun _ => hwants

/-- A refusal does not satisfy a request for JSON, and a stream that refuses ends with an error. -/
theorem json_and_streams_refused :
    letI := Sample.platform
    (¬∀ (res : AIResponse) (env : AIRequest) (mode : SchemaValidationMode), Refuses res →
      verifyResponse res env mode = .ok (none, [])) ∧
    ¬∀ (err : Thrown) (c c' : PipelineCtx) (chunks : List StreamChunk),
      Prog.Run Refusal.streamEnv (executeResilientStream Sample.deps Sample.chainConfig c) none
        (.ret (.error (.thrown err), c')) (some chunks) → ¬RefusesStream chunks := by
  let := Sample.platform
  constructor
  · intro h
    have hpassed := h (Sample.refusal ⟨"", Sample.cloudProviderId, 0⟩)
      { Sample.request "hello" with responseFormat := some .json_object } .structural
      ⟨rfl, rfl, rfl⟩
    rw [verify_refusal ⟨rfl, rfl, rfl⟩] at hpassed
    cases hpassed
  · intro h
    have hthrown : Sample.hasThrown Sample.refusedStream.1 = true ∧
        Sample.refusedStream.2 = some Sample.refusedChunks := by decide +kernel
    obtain ⟨err, c', hend⟩ := Sample.eq_of_hasThrown hthrown.1
    have hrun := Sample.refusedStream_run
    rw [hend, hthrown.2] at hrun
    exact h err _ c' _ hrun ⟨⟨none, List.mem_singleton_self _⟩, by decide⟩

end VibeRouter
