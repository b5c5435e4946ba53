import VibeRouter.Policy.Engine
import VibeRouter.Protect.Scrub

/-! # What redaction leaves alone

Redaction replaces matched spans and nothing else.  A request in which it counts nothing is
unchanged by it, and it never touches what the selection of a model depends on. -/

namespace VibeRouter

/-! ### Texts without matches -/

/-- A redacting traversal that only counts up, and changes nothing where it counts nothing. -/
def Quiet {α : Type} (f : α → StateM ScrubReport α) : Prop :=
  ∀ a r, r.total ≤ ((f a).run r).2.total ∧
    (((f a).run r).2.total = r.total → ((f a).run r).1 = a)

theorem countText_total (r : ScrubReport) (text : JsString) :
    (r.countText text).total = r.total + (scanText text).length := by
  unfold ScrubReport.countText
  generalize scanText text = ms
  induction ms generalizing r with
  | nil => rfl
  | cons m ms ih =>
      rw [List.foldl_cons, ih, List.length_cons]
      simp only [ScrubReport.count]
      omega

theorem Quiet.mapM {α : Type} {f : α → StateM ScrubReport α} (hf : Quiet f) :
    Quiet fun as : List α => as.mapM f := by
  intro as
  induction as with
  | nil => exact fun r => ⟨le_refl _, fun _ => rfl⟩
  | cons a as ih =>
      intro r
      obtain ⟨hle, heq⟩ := hf a r
      obtain ⟨hle', heq'⟩ := ih ((f a).run r).2
      simp only [List.mapM_cons, StateT.run_bind, StateT.run_pure]
      refine ⟨hle.trans hle', fun h => ?_⟩
      exact congrArg₂ _ (heq (le_antisymm (hle'.trans h.le) hle))
        (heq' (le_antisymm (h.le.trans hle) hle'))

theorem scrubString_quiet : Quiet scrubString := by
  intro text r
  have h := countText_total r text
  constructor
  · show r.total ≤ (r.countText text).total
    omega
  · intro heq
    have hzero : (scanText text).length = 0 := by
      have : (r.countText text).total = r.total := heq
      omega
    show (if 0 < (scanText text).length then redactText text (scanText text) else text) = text
    rw [if_neg (by omega)]

theorem scrubPart_quiet : Quiet scrubPart := by
  rintro (text | url) r
  · obtain ⟨hle, heq⟩ := scrubString_quiet text r
    exact ⟨hle, fun h => congrArg ContentPart.text (heq h)⟩
  · exact ⟨le_refl _, fun _ => rfl⟩

theorem scrubContent_quiet : Quiet scrubContent := by
  rintro (text | parts) r
  · obtain ⟨hle, heq⟩ := scrubString_quiet text r
    exact ⟨hle, fun h => congrArg Content.text (heq h)⟩
  · obtain ⟨hle, heq⟩ := scrubPart_quiet.mapM parts r
    exact ⟨hle, fun h => congrArg Content.parts (heq h)⟩

theorem scrubToolCall_quiet : Quiet scrubToolCall := by
  intro tc r
  obtain ⟨hle, heq⟩ := scrubString_quiet tc.arguments r
  exact ⟨hle, fun h => congrArg (fun a => { tc with arguments := a }) (heq h)⟩

theorem scrubMessage_quiet : Quiet scrubMessage := by
  rintro ⟨role, content, toolCalls, toolCallId⟩ r
  obtain ⟨hle, heq⟩ := scrubContent_quiet content r
  cases toolCalls with
  | none => exact ⟨hle, fun h => congrArg (AIMessage.mk role · none toolCallId) (heq h)⟩
  | some tcs =>
      obtain ⟨hle', heq'⟩ := scrubToolCall_quiet.mapM tcs ((scrubContent content).run r).2
      refine ⟨hle.trans hle', fun h => ?_⟩
      exact congrArg₂ (fun c t => AIMessage.mk role c (some t) toolCallId)
        (heq (le_antisymm (hle'.trans (le_of_eq h)) hle))
        (heq' (le_antisymm ((le_of_eq h).trans hle) hle'))

/-- Redaction that finds nothing changes nothing. -/
theorem redactEnvelope_messages_of_clean {env : AIRequest}
    (h : (redactEnvelope env).2.total = 0) : (redactEnvelope env).1.messages = env.messages :=
  (scrubMessage_quiet.mapM env.messages .empty).2 h

theorem redactEnvelope_messages_congr {env env' : AIRequest} (h : env.messages = env'.messages) :
    (redactEnvelope env).1.messages = (redactEnvelope env').1.messages := by
  show ((env.messages.mapM scrubMessage).run .empty).1 = _
  rw [h]
  rfl

theorem scanEnvelope_congr {env env' : AIRequest} (h : env.messages = env'.messages) :
    scanEnvelope env = scanEnvelope env' := by
  simp only [scanEnvelope, textFields, h]

/-! ### Selection does not see redaction -/

/-- Envelopes that model selection cannot tell apart. -/
structure SameShape (env env' : AIRequest) : Prop where
  modelRequested : env'.modelRequested = env.modelRequested
  tools : env'.tools = env.tools
  responseFormat : env'.responseFormat = env.responseFormat
  images : (env'.messages.any fun m => m.content.hasImage) =
    env.messages.any fun m => m.content.hasImage

theorem SameShape.refl (env : AIRequest) : SameShape env env := ⟨rfl, rfl, rfl, rfl⟩

theorem SameShape.requiredCapabilities {env env' : AIRequest} (h : SameShape env env')
    (effective : EffectivePolicy) :
    requiredCapabilities effective env' = requiredCapabilities effective env := by
  simp only [VibeRouter.requiredCapabilities, requestRequires, h.tools, h.responseFormat, h.images]

theorem SameShape.selectModelWith [Platform] {env env' : AIRequest} (h : SameShape env env')
    (effective : EffectivePolicy) : selectModelWith effective env' = selectModelWith effective env := by
  simp only [VibeRouter.selectModelWith, h.requiredCapabilities, requestedModel, h.modelRequested]

theorem SameShape.selectModel [Platform] {env env' : AIRequest} (h : SameShape env env')
    (effective : EffectivePolicy) : selectModel effective env' = selectModel effective env := by
  simp only [VibeRouter.selectModel, h.selectModelWith]

theorem any_mapM {α : Type} {f : α → StateM ScrubReport α} {b : α → Bool}
    (hf : ∀ a r, b ((f a).run r).1 = b a) (as : List α) (r : ScrubReport) :
    ((as.mapM f).run r).1.any b = as.any b := by
  induction as generalizing r with
  | nil => rfl
  | cons a as ih =>
      simp only [List.mapM_cons, StateT.run_bind, StateT.run_pure]
      show (b ((f a).run r).1 || ((as.mapM f).run _).1.any b) = _
      rw [hf, ih, List.any_cons]

theorem scrubContent_hasImage (c : Content) (r : ScrubReport) :
    ((scrubContent c).run r).1.hasImage = c.hasImage := by
  cases c with
  | text s => rfl
  | parts ps =>
      refine any_mapM ?_ ps r
      rintro (text | url) r <;> rfl

theorem scrubMessage_hasImage (m : AIMessage) (r : ScrubReport) :
    ((scrubMessage m).run r).1.content.hasImage = m.content.hasImage := by
  rw [← scrubContent_hasImage m.content r]
  cases hcalls : m.toolCalls with
  | none => simp only [scrubMessage, hcalls]; rfl
  | some tcs => simp only [scrubMessage, hcalls]; rfl

theorem redactEnvelope_sameShape (env : AIRequest) : SameShape env (redactEnvelope env).1 :=
  ⟨rfl, rfl, rfl, any_mapM scrubMessage_hasImage env.messages .empty⟩

@[simp] theorem clampToModel_messages (env : AIRequest) (model : ModelRow) :
    (clampToModel env model).messages = env.messages := by
  unfold clampToModel
  split
  · split <;> rfl
  · rfl

end VibeRouter
