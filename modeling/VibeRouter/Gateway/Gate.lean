import VibeRouter.Resilience.ExecutorSpecs

/-! # The gate

Which messages of a request may leave for a provider outside the local tier.  `Egress` is the
condition on a call of an adapter; `Gate` is what the scrub stage establishes and every later
step keeps; a hop that passes the gate respects the condition. -/

namespace VibeRouter

open Effects Async Code

/-- The scrubber mode of the firm; redaction is the default. -/
def scrubberMode (effective : EffectivePolicy) : ScrubberMode :=
  effective.firmSettings.scrubber_mode.getD .redact

/-- What the request `q` may hand to a provider outside the local tier. -/
structure Permitted (q : AIRequest) (effective : EffectivePolicy) (messages : List AIMessage) :
    Prop where
  sensitivity : effective.taskClass.sensitivity ≠ .local_only
  redact : scrubberMode effective = .redact → messages = (redactEnvelope q).1.messages
  block : scrubberMode effective = .block → (scanEnvelope q).total = 0

/-- A call of an adapter for the request `q` respects the boundary. -/
def Egress (q : AIRequest) : Op → Prop
  | .execute c route env | .openStream c route env => isLocalKind route.provider.kind = false →
      ∃ effective, c.effective = some effective ∧ Permitted q effective env.messages
  | _ => True

def Op.Bounded (q : AIRequest) (e : Op) : Prop := e.WellKeyed ∧ Egress q e

theorem Op.Within.bounded {q : AIRequest} {ps : List Op.Part} (hps : .adapter ∉ ps) (e : Op)
    (h : e.Within ps) : e.Bounded q := by
  refine ⟨h.2, ?_⟩
  cases e with
  | execute => exact absurd h.1 hps
  | openStream => exact absurd h.1 hps
  | _ => trivial

theorem Op.Bounded.of_uses {L : (e : Op) → e.Answer → Prop} {q : AIRequest} {S α : Type} {c : Async S α} {s : S} {ps : List Op.Part}
    {post post' : Except Thrown α → S → Prop} (h : Uses L ps c s post) (hps : .adapter ∉ ps)
    (hpost : ∀ r s, post r s → post' r s) : c.Meets L (Op.Bounded q) s post' :=
  (h.weaken (Op.Within.bounded hps)).mono hpost

/-! ### The gate -/

/-- Neither the selected model nor any model of the chain is outside the local tier. -/
def CloudFree (effective : EffectivePolicy) (model : ModelRow) : Prop :=
  isLocalKind model.providerKind = true ∧ cloudInChain effective = false

/-- The models a request may be sent to: the selected one and those of the chain. -/
def Candidate (effective : EffectivePolicy) (model m : ModelRow) : Prop :=
  m = model ∨ m.id ∈ effective.policy.fallbackChain ∧ effective.modelsById.get m.id = some m

theorem CloudFree.local {effective : EffectivePolicy} {model m : ModelRow}
    (h : CloudFree effective model) (hm : Candidate effective model m) :
    isLocalKind m.providerKind = true := by
  rcases hm with rfl | ⟨hmem, hget⟩
  · exact h.1
  · have := List.any_eq_false.1 h.2 _ hmem
    simpa [hget] using this

/-! ### Scrubbing -/

/-- Scrubbing a request that is not scrubbed yet. -/
theorem runScrubber_uses {L : (e : Op) → e.Answer → Prop} {q : AIRequest} {s : PipelineCtx}
    (hq : s.envelope.messages = q.messages) (hcloud : s.cloudEnvelope = none)
    (mode : ScrubberMode) (cloudPrimary : Bool) :
    Uses L [] (runScrubber mode cloudPrimary) s fun r s' => ∃ report, r = .ok report ∧
      s'.auth = s.auth ∧ s'.effective = s.effective ∧
      s'.cloudBlockedCounts = s.cloudBlockedCounts ∧ SameShape s.envelope s'.envelope ∧
      (mode = .redact → match s'.cloudEnvelope with
        | some cloud => cloudPrimary = false ∧ cloud.messages = (redactEnvelope q).1.messages
        | none => s'.envelope.messages = (redactEnvelope q).1.messages) ∧
      (mode ≠ .redact → report.total = (scanEnvelope q).total) := by
  have hred := redactEnvelope_messages_congr hq
  unfold runScrubber
  simp only [meets_bind, meets_ctx]
  split
  · next hmode =>
      split
      · simp only [meets_bind, meets_assign]
        cases cloudPrimary with
        | true =>
            exact ⟨_, rfl, rfl, rfl, rfl, redactEnvelope_sameShape _,
              fun _ => by simp [hcloud, hred], fun h => absurd hmode h⟩
        | false =>
            exact ⟨_, rfl, rfl, rfl, rfl, .refl _, fun _ => ⟨rfl, hred⟩,
              fun h => absurd hmode h⟩
      · next htotal =>
          have hclean : (redactEnvelope s.envelope).2.total = 0 := by omega
          refine ⟨_, rfl, rfl, rfl, rfl, .refl _, fun _ => ?_, fun h => absurd hmode h⟩
          rw [hcloud, ← hred]
          exact (redactEnvelope_messages_of_clean hclean).symm
  · next hmode =>
      have hscan : (scanEnvelope s.envelope).total = (scanEnvelope q).total := by
        rw [scanEnvelope_congr hq]
      split
      · exact ⟨_, rfl, rfl, rfl, rfl, .refl _, fun h => absurd h hmode, fun _ => hscan⟩
      · exact ⟨_, rfl, rfl, rfl, rfl, .refl _, fun h => absurd h hmode, fun _ => hscan⟩

theorem actOnReport_uses {L : (e : Op) → e.Answer → Prop} {s : PipelineCtx} (auth : AuthContext)
    (effective : EffectivePolicy) (mode : ScrubberMode) (cloudPrimary : Bool)
    (counts : List (String × ℕ)) :
    Uses L [.audit] (actOnReport auth effective mode cloudPrimary counts) s fun r s' =>
      (mode ≠ .block → s' = s) ∧
        (mode = .block → r = .ok () → s' = { s with cloudBlockedCounts := some counts }) := by
  cases mode with
  | block =>
      simp only [actOnReport]
      split
      · exact ⟨by simp, fun _ _ => rfl⟩
      · simp only [meets_bind]
        refine (auditRequest_uses _ _ _).mono ?_
        rintro _ s' ⟨rfl, rfl⟩
        exact ⟨by simp, by simp⟩
  | redact =>
      refine (auditRequest_uses _ _ _).mono ?_
      rintro _ s' ⟨rfl, rfl⟩
      exact ⟨fun _ => rfl, by simp⟩
  | warn =>
      refine (auditRequest_uses _ _ _).mono ?_
      rintro _ s' ⟨rfl, rfl⟩
      exact ⟨fun _ => rfl, by simp⟩

variable [Platform]

/-- The request has been scrubbed for hops outside the local tier. -/
structure Cleared (q : AIRequest) (effective : EffectivePolicy) (model : ModelRow)
    (c : PipelineCtx) : Prop where
  redact : scrubberMode effective = .redact →
    match c.cloudEnvelope with
    | some cloud => isLocalKind model.providerKind = true ∧
        cloud.messages = (redactEnvelope q).1.messages
    | none => c.envelope.messages = (redactEnvelope q).1.messages
  block : scrubberMode effective = .block →
    (scanEnvelope q).total = 0 ∨ c.cloudBlockedCounts ≠ none

/-- What holds of the context of the request `q` from the scrub stage on. -/
structure Gate (q : AIRequest) (effective : EffectivePolicy) (model : ModelRow)
    (c : PipelineCtx) : Prop where
  effective_eq : c.effective = some effective
  selected : selectModel effective c.envelope = .ok model
  scrubbed : CloudFree effective model ∨ Cleared q effective model c

/-- Contexts the gate cannot tell apart. -/
structure PipelineCtx.SameGate (c c' : PipelineCtx) : Prop where
  effective : c'.effective = c.effective
  envelope : c'.envelope = c.envelope
  cloudEnvelope : c'.cloudEnvelope = c.cloudEnvelope
  cloudBlockedCounts : c'.cloudBlockedCounts = c.cloudBlockedCounts

variable {q : AIRequest} {effective : EffectivePolicy} {model : ModelRow} {c c' : PipelineCtx}

theorem Gate.congr (h : Gate q effective model c) (hc : c.SameGate c') :
    Gate q effective model c' := by
  obtain ⟨heff, henv, hcloud, hcounts⟩ := hc
  refine ⟨heff.trans h.effective_eq, by rw [henv]; exact h.selected, ?_⟩
  refine h.scrubbed.imp id fun hs => ⟨?_, ?_⟩
  · rw [hcloud, henv]
    exact hs.redact
  · rw [hcounts]
    exact hs.block

/-- A hop outside the local tier gets the messages the boundary permits. -/
theorem Gate.permitted (h : Gate q effective model c) {m : ModelRow} {route : RouteDecision}
    (hm : Candidate effective model m) (hr : RouteFor c m route)
    (hcloud : isLocalKind m.providerKind = false) :
    Permitted q effective (hopEnvelope route c).messages := by
  obtain ⟨heq, ⟨effective', heff', hviol⟩, hbar⟩ := hr
  obtain rfl : effective' = effective := Option.some.inj (heff'.symm.trans h.effective_eq)
  have hclear : Cleared q effective' model c := by
    refine h.scrubbed.resolve_left fun hfree => ?_
    simp [hfree.local hm] at hcloud
  refine ⟨fun hs => ?_, fun hmode => ?_, fun hmode => ?_⟩
  · simp [local_of_modelViolation_none hviol hs] at hcloud
  · have hred := hclear.redact hmode
    unfold hopEnvelope
    rw [clampToModel_messages]
    split at hred
    · next cloud heq' => simpa [heq', heq, hcloud] using hred.2
    · next heq' => simpa [heq'] using hred
  · refine (hclear.block hmode).resolve_right fun hcounts => ?_
    rcases hbar with hnone | hloc
    · exact hcounts hnone
    · simp [hloc] at hcloud

/-! ### The scrub stage -/

variable {L : (e : Op) → e.Answer → Prop} {s : PipelineCtx}

theorem scrubTarget_eq_ok {env : AIRequest} (h : scrubTarget effective env = .ok model) :
    selectModel effective env = .ok model := by
  unfold scrubTarget at h
  split at h
  · next heq =>
      cases h
      exact heq
  · cases h
  · cases h

theorem stageScrub_uses (hq : s.envelope.messages = q.messages) (hcloud : s.cloudEnvelope = none) :
    Uses L [.audit] stageScrub s fun r s' =>
      r = .ok () → ∃ effective model, Gate q effective model s' := by
  simp only [stageScrub, meets_bind]
  refine requireEffective_uses.call (by simp) ?_
  rintro (e | effective) s ⟨rfl, heff⟩
  · simp
  refine requireAuth_uses.call (by simp) ?_
  rintro (e | auth) s ⟨rfl, -⟩
  · simp
  simp only [meets_ctx, meets_ofExcept]
  cases htarget : scrubTarget effective s.envelope with
  | error e => simp
  | ok model =>
      have hsel := scrubTarget_eq_ok htarget
      dsimp only
      split
      · next hfree =>
          refine fun _ => ⟨effective, model, heff _ rfl, hsel, .inl ?_⟩
          simpa [CloudFree] using hfree
      · simp only [meets_bind]
        refine (runScrubber_uses hq hcloud _ _).call (by simp) ?_
        rintro _ s' ⟨report, rfl, -, heff', hcounts, hshape, hred, hscan⟩
        have hgate : ∀ s'' : PipelineCtx, s''.effective = s'.effective →
            s''.envelope = s'.envelope → s''.cloudEnvelope = s'.cloudEnvelope →
            (scrubberMode effective = .block → (scanEnvelope q).total = 0 ∨
              s''.cloudBlockedCounts ≠ none) → Gate q effective model s'' := by
          intro s'' h₁ h₂ h₃ hblock
          refine ⟨by rw [h₁, heff', heff _ rfl], ?_, .inr ⟨fun hmode => ?_, hblock⟩⟩
          · rw [h₂, hshape.selectModel]
            exact hsel
          · have := hred hmode
            rw [h₃, h₂]
            cases hce : s'.cloudEnvelope with
            | none => simpa [hce] using this
            | some cloud => simpa [hce] using this
        dsimp only
        split
        · next htotal =>
            refine fun _ => ⟨effective, model, hgate s' rfl rfl rfl fun hmode => .inl ?_⟩
            have hne : scrubberMode effective ≠ .redact := by simp [hmode]
            rw [← hscan hne, htotal]
        · refine (actOnReport_uses _ _ _ _ _).mono ?_
          rintro r s'' ⟨hkeep, hset⟩ hr
          by_cases hmode : scrubberMode effective = .block
          · obtain rfl := hset hmode hr
            exact ⟨effective, model, hgate _ rfl rfl rfl fun _ => .inr (by simp)⟩
          · obtain rfl := hkeep hmode
            exact ⟨effective, model, hgate _ rfl rfl rfl fun h => absurd h hmode⟩

/-! ### Calls of adapters -/

/-- A call of a hop that passes the gate respects the boundary. -/
theorem Gate.bounded (h : Gate q effective model c) {m : ModelRow} {route : RouteDecision}
    (hm : Candidate effective model m) (hr : RouteFor c m route)
    (hkind : route.provider.kind = m.providerKind) :
    Op.Bounded q (.execute c route (hopEnvelope route c)) ∧
      Op.Bounded q (.openStream c route (hopEnvelope route c)) := by
  have hegress : isLocalKind route.provider.kind = false → ∃ effective,
      c.effective = some effective ∧ Permitted q effective (hopEnvelope route c).messages := by
    intro hcloud
    rw [hkind] at hcloud
    exact ⟨effective, h.effective_eq, h.permitted hm hr hcloud⟩
  exact ⟨⟨trivial, hegress⟩, ⟨trivial, hegress⟩⟩

/-- The direct path hands the envelope itself to the adapter of the selected model. -/
theorem Gate.bounded_direct (h : Gate q effective model c) {route : RouteDecision}
    (hr : RouteFor c model route) (hkind : route.provider.kind = model.providerKind) :
    Op.Bounded q (.execute c route (clampToModel c.envelope route.model)) ∧
      Op.Bounded q (.openStream c route (clampToModel c.envelope route.model)) := by
  have hegress : isLocalKind route.provider.kind = false → ∃ effective,
      c.effective = some effective ∧
        Permitted q effective (clampToModel c.envelope route.model).messages := by
    intro hcloud
    rw [hkind] at hcloud
    have hp := h.permitted (.inl rfl) hr hcloud
    refine ⟨effective, h.effective_eq, hp.sensitivity, fun hmode => ?_, hp.block⟩
    rw [clampToModel_messages]
    have hclear : Cleared q effective model c :=
      h.scrubbed.resolve_left fun hfree => by simp [hfree.1] at hcloud
    have hred := hclear.redact hmode
    split at hred
    · simp [hred.1] at hcloud
    · exact hred
  exact ⟨⟨trivial, hegress⟩, ⟨trivial, hegress⟩⟩

/-- The models of the candidate list. -/
def Candidates (effective : EffectivePolicy) (model : ModelRow) (ids : List Uuid) : Prop :=
  ∀ id ∈ ids, ∀ m, effective.modelsById.get id = some m → Candidate effective model m

theorem candidateModels_candidates {ids : List Uuid} (h : Gate q effective model s)
    (hids : candidateModels effective s.envelope = .ok ids) : Candidates effective model ids := by
  unfold candidateModels at hids
  rw [h.selected] at hids
  obtain rfl := Except.ok.inj hids
  intro id hid m hm
  rcases List.mem_cons.1 hid with rfl | hid
  · exact .inl (Option.some.inj (hm.symm.trans (selectModel_known h.selected)))
  · refine .inr ⟨?_, ModelsById.get_id hm⟩
    rw [effective.modelsById.keyed id m hm]
    exact (List.mem_filter.1 hid).1

end VibeRouter
