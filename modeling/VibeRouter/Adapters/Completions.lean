import VibeRouter.Adapters.OneFinish
import VibeRouter.Adapters.Streamed

/-! # OpenAI-compatible completions, whole and streamed

`translateResponse` translates a completion at once, `executeStream` frame by frame.  For a
completion that is streamed in frames, whatever the fragments, the two agree exactly when it leaves
nothing to their defaults (`completion_streamed_iff`). -/

namespace VibeRouter

namespace OpenaiCompat

open Json
open Anthropic (TranslatedCall TranslatedResponse)
open OpenAiStreamState (syntheticId)

/-! ### Whole completions -/

/-- A tool call of a completion. -/
structure WholeCall where
  id : Option JsString
  name : JsString
  arguments : JsString

structure CompletionChoice where
  content : Option JsString
  tool_calls : List WholeCall
  finish_reason : Option JsString

structure RawCompletion extends CompletionChoice where
  usage : Option RawUsage

def wholeCallSchema : Json → Option WholeCall := object fun v => do
  let id ← optionalMember asString "id" v
  let function ← member (object fun f => do
    let name ← member asString "name" f
    let arguments ← member asString "arguments" f
    pure (name, arguments)) "function" v
  pure ⟨id, function.1, function.2⟩

def completionChoiceSchema : Json → Option CompletionChoice := object fun v => do
  let message ← member (object fun m => do
    let content ← nullishMember asString "content" m
    let calls ← nullishMember (array wholeCallSchema) "tool_calls" m
    pure (content, calls.getD [])) "message" v
  let finish ← nullishMember asString "finish_reason" v
  pure ⟨message.1, message.2, finish⟩

/-- `completionSchema`; of the choices only the first, which must be there, is read. -/
def completionSchema : Json → Option RawCompletion := object fun v => do
  let choices ← member (array completionChoiceSchema) "choices" v
  let usage ← nullishMember usageSchema "usage" v
  let choice ← choices.head?
  pure ⟨choice, usage⟩

section
variable [Platform]

/-- `translateResponse` on a completion its schema accepts. -/
def RawCompletion.translated (c : RawCompletion) (served : Served) : TranslatedResponse :=
  let toolCalls := c.tool_calls.mapIdx fun i tc =>
    (⟨tc.id.getD (syntheticId i), tc.name, tc.arguments⟩ : TranslatedCall)
  { content := c.content.getD []
    toolCalls
    finishReason :=
      if toolCalls ≠ [] ∧ nonEmpty c.finish_reason = none then .tool_calls
      else normalizeFinishReason c.finish_reason
    usage := extractUsage c.usage
    served
    thinking := [] }

/-- `issue` is the message of the schema's first issue. -/
def translateResponse (issue : String) (raw : Json) (served : Served) :
    Except RouterError TranslatedResponse :=
  match completionSchema raw with
  | none => .error { code := .provider_unavailable, message := "malformed provider response"
                     detail := [("reason", .str issue)] }
  | some c => .ok (c.translated served)

/-- `execute`, on the body of an answer: usage that the provider has omitted is estimated. -/
def executeOn (env : AIRequest) (issue : String) (raw : Json) (served : Served) :
    Except RouterError TranslatedResponse :=
  (translateResponse issue raw served).map fun res =>
    if res.usage.estimated then { res with usage := estimateUsage env res.content } else res

end

/-! ### Streamed completions -/

/-- The call that the fragments are cut from. -/
def ProviderCall.unstreamed (call : ProviderCall) : WholeCall :=
  ⟨call.id, call.name, call.arguments⟩

/-- The indices of the fragments that have a name. -/
def namedIndices (tcs : List RawToolCall) : List ℚ :=
  tcs.filterMap fun tc => tc.name.bind fun _ => tc.index

/-- A completion in choices of a stream: its text in fragments, its tool calls at indices of their
own, in order and in fragments that may interleave, and its finish reason on the last choice. -/
structure SentAs (c : RawCompletion) (calls : List (ℚ × ProviderCall)) (choices : List RawChoice) :
    Prop where
  text : (choices.flatMap fun choice => choice.content.getD []) = c.content.getD []
  wholes : c.tool_calls = calls.map fun k => k.2.unstreamed
  indices : (calls.map Prod.fst).Nodup
  fragments : List.Interleaves (calls.map fun k => k.2.fragments (some k.1))
    (choices.flatMap RawChoice.tool_calls)
  order : namedIndices (choices.flatMap RawChoice.tool_calls) = calls.map Prod.fst
  finish : ∃ front last, choices = front ++ [last] ∧
    (∀ choice ∈ front, nonEmpty choice.finish_reason = none) ∧ last.finish_reason = c.finish_reason

/-- Usage on a frame of its own. -/
def TrailingUsage : Option RawUsage → List RawChunk → Prop
  | none, frames => frames = []
  | some u, frames => ∃ f : RawChunk, frames = [f] ∧ f.usage = some u ∧ f.bare = true ∧ f.reason = none

/-- The frames of choices, without usage. -/
def choiceFrames (choices : List RawChoice) : List RawChunk :=
  choices.map fun choice => ⟨some choice, none⟩

/-- A stream that sends a completion, with anything that is not a frame in between. -/
def Streams (c : RawCompletion) (calls : List (ℚ × ProviderCall)) (s : ProviderStream) : Prop :=
  (s.ended = .ok () ∨ js "[DONE]" ∈ s.events) ∧
    ∃ choices trailing, SentAs c calls choices ∧ TrailingUsage c.usage trailing ∧
      acceptedFrames s = choiceFrames choices ++ trailing

/-! ### Agreement -/

def CollectedCall.translated (c : CollectedCall) : TranslatedCall := ⟨c.id, c.name, c.arguments⟩

/-- The chunks say what the response says: usage is estimated for both, or measured and the
same. -/
structure SameAnswer (chunks : List StreamChunk) (t : TranslatedResponse) : Prop where
  content : textOf chunks = t.content
  toolCalls : (collectCalls chunks).map CollectedCall.translated = t.toolCalls
  finish : ∃ usage, chunks.filter (fun c => !c.isContent) = [.finish t.finishReason (some usage)] ∧
    usage.estimated = t.usage.estimated ∧ (t.usage.estimated = false → usage = t.usage)

/-- A completion that leaves nothing to defaults: with tool calls there is a finish reason, with
completion tokens there are prompt tokens, and a tool call without an id is streamed at its own
position. -/
structure Explicit [Platform] (c : RawCompletion) (calls : List (ℚ × ProviderCall)) : Prop where
  reason : c.tool_calls ≠ [] → nonEmpty c.finish_reason ≠ none
  usage : ∀ u, c.usage = some u → u.completion_tokens.isSome = true → u.prompt_tokens.isSome = true
  ids : ∀ (k : ℕ) call, calls[k]? = some call → call.2.id = none →
    syntheticId call.1 = syntheticId k

/-! ### The content of frames -/

theorem textOf_calls {cs : List StreamChunk} (h : ∀ c ∈ cs, c.callIndex.isSome = true) :
    textOf cs = [] := by
  unfold textOf
  rw [List.flatMap_eq_nil_iff]
  intro c hc
  cases c with
  | text_delta delta => cases h _ hc
  | _ => rfl

theorem textOf_finishOf (f : RawChunk) : textOf (OpenAiStreamState.finishOf f) = [] := by
  rw [← textOf_content, List.filter_eq_nil_iff.2]
  · rfl
  · intro c hc
    rw [finishOf_not_content hc]
    exact Bool.false_ne_true

theorem textOf_text (f : RawChunk) : textOf f.text = (f.choice.bind RawChoice.content).getD [] := by
  unfold RawChunk.text
  cases f.choice with
  | none => rfl
  | some choice =>
      rw [Option.bind_some, Option.bind_some, OpenAiStreamState.nonEmpty_getD]
      by_cases hnil : choice.content.getD [] = []
      · rw [if_pos hnil, hnil]
        rfl
      · rw [if_neg hnil]
        exact List.append_nil _

section
variable [Platform] {st : OpenAiStreamState}

theorem textOf_emitted (hst : st.Steady) (fs : List RawChunk) :
    textOf (emitted st fs).1 = fs.flatMap fun f => (f.choice.bind RawChoice.content).getD [] := by
  induction fs generalizing st with
  | nil => rfl
  | cons f fs ih =>
      rw [emitted_cons, textOf_append, textOf_append, textOf_append, textOf_text,
        textOf_calls fun c hc => OpenAiStreamState.toolCalls_callIndex hst hc, textOf_finishOf,
        List.append_nil, List.append_nil, ih (OpenAiStreamState.toolCalls_steady hst _),
        List.flatMap_cons]

/-- The chunks of tool calls are those of all fragments. -/
theorem emitted_calls (hst : st.Steady) (fs : List RawChunk) :
    (emitted st fs).1.filter (fun c => c.callIndex.isSome) =
      (st.toolCalls (fs.flatMap RawChunk.calls)).1 := by
  induction fs generalizing st with
  | nil => rfl
  | cons f fs ih =>
      have htext : f.text.filter (fun c => c.callIndex.isSome) = [] := by
        unfold RawChunk.text
        cases f.choice.bind fun c => nonEmpty c.content <;> rfl
      have hcalls : (st.toolCalls f.calls).1.filter (fun c => c.callIndex.isSome) =
          (st.toolCalls f.calls).1 :=
        List.filter_eq_self.2 fun c hc => OpenAiStreamState.toolCalls_callIndex hst hc
      have hfinish : (OpenAiStreamState.finishOf f).filter (fun c => c.callIndex.isSome) = [] := by
        rw [List.filter_eq_nil_iff]
        intro c hc
        rw [OpenAiStreamState.finishOf_callIndex hc]
        exact Bool.false_ne_true
      rw [emitted_cons, List.filter_append, List.filter_append, List.filter_append, htext, hcalls,
        hfinish, List.nil_append, List.append_nil, ih (OpenAiStreamState.toolCalls_steady hst _),
        List.flatMap_cons, OpenAiStreamState.toolCalls_append]

omit [Platform] in
/-- A finish is not collected. -/
theorem collectCalls_content (cs : List StreamChunk) :
    collectCalls (cs.filter StreamChunk.isContent) = collectCalls cs := by
  rw [← collectCalls_filter, List.filter_filter, ← collectCalls_filter cs]
  congr 1
  apply List.filter_congr
  intro c _
  cases c <;> rfl

/-! ### The calls in order -/

/-- Calls are started in the order of the names. -/
theorem starts_toolCalls (hst : st.Steady) {tcs : List RawToolCall}
    (hindex : ∀ tc ∈ tcs, tc.index.isSome = true) (hnodup : (namedIndices tcs).Nodup)
    (hfree : ∀ i ∈ namedIndices tcs, st.isStarted i = false) :
    (st.toolCalls tcs).1.filterMap StreamChunk.starts = namedIndices tcs := by
  induction tcs generalizing st with
  | nil => rfl
  | cons tc tcs ih =>
      obtain ⟨hi, hrest⟩ := List.forall_mem_cons.1 hindex
      obtain ⟨i, hi⟩ := Option.isSome_iff_exists.1 hi
      obtain ⟨hout, hsteady, -, -⟩ := OpenAiStreamState.toolCall_spec hst tc
      have hslot : st.slot tc = i := OpenAiStreamState.slot_of_index hi
      have hdelta : (st.deltaOf tc).filterMap StreamChunk.starts = [] := by
        unfold OpenAiStreamState.deltaOf
        split <;> rfl
      have hnamed : namedIndices (tc :: tcs) =
          (tc.name.bind fun _ => tc.index).toList ++ namedIndices tcs := by
        unfold namedIndices
        rw [List.filterMap_cons]
        cases tc.name.bind fun _ => tc.index <;> rfl
      have hstarted := fun j => OpenAiStreamState.isStarted_toolCall hst tc j
      rw [hslot] at hstarted
      rw [OpenAiStreamState.toolCalls_cons, List.filterMap_append, hout, List.filterMap_append,
        hdelta, List.append_nil]
      rw [hnamed] at hnodup hfree ⊢
      unfold OpenAiStreamState.startOf OpenAiStreamState.opens
      rw [hslot]
      cases hname : tc.name with
      | none =>
          rw [hname] at hnodup hfree hstarted
          rw [ih hsteady hrest hnodup]
          · rfl
          · intro j hj
            rw [hstarted j]
            split
            · rw [hfree j hj]
              rfl
            · exact hfree j hj
      | some name =>
          rw [hname, Option.bind_some, hi, Option.toList_some, List.singleton_append] at hnodup hfree
          obtain ⟨hnew, hnodup⟩ := List.nodup_cons.1 hnodup
          obtain ⟨hopen, hfree⟩ := List.forall_mem_cons.1 hfree
          rw [ih hsteady hrest hnodup, hopen, hi]
          · rfl
          · intro j hj
            rw [hstarted j, if_neg (fun heq : j = i => hnew (heq ▸ hj))]
            exact hfree j hj

end

/-- Two orders of the same elements are equal when their keys are, and no key comes twice. -/
theorem eq_of_perm_of_keys {α κ : Type} {f : α → κ} {l l' : List α} (hperm : l.Perm l')
    (hkeys : l.map f = l'.map f) (hnodup : (l.map f).Nodup) : l = l' := by
  apply List.ext_getElem hperm.length_eq
  intro k hk hk'
  obtain ⟨j, hj, heq⟩ := List.mem_iff_getElem.1 (hperm.mem_iff.1 (List.getElem_mem hk))
  have hk₁ : k < (l.map f).length := by simpa using hk
  have hj₁ : j < (l.map f).length := by simpa using hperm.length_eq ▸ hj
  have hkey : (l.map f)[k] = (l.map f)[j] := by
    rw [List.getElem_map, ← heq]
    simp [hkeys]
  have hsame : k = j := (List.Nodup.getElem_inj_iff hnodup).1 hkey
  rw [← heq]
  congr 1
  exact hsame.symm

/-! ### What a completion is streamed as -/

theorem bare_iff {f : RawChunk} : f.bare = true ↔ f.text = [] ∧ f.calls = [] := by
  unfold RawChunk.bare RawChunk.text
  rw [Bool.and_eq_true, List.isEmpty_iff]
  cases f.choice.bind fun c => nonEmpty c.content <;> simp

theorem choiceFrames_calls (choices : List RawChoice) :
    (choiceFrames choices).flatMap RawChunk.calls = choices.flatMap RawChoice.tool_calls := by
  unfold choiceFrames
  rw [List.flatMap_map]
  rfl

theorem choiceFrames_unreported (choices : List RawChoice) :
    ∀ f ∈ choiceFrames choices, f.brings = false := by
  intro f hf
  obtain ⟨choice, -, rfl⟩ := List.mem_map.1 hf
  rfl

section
variable [Platform] {c : RawCompletion} {calls : List (ℚ × ProviderCall)} {choices : List RawChoice}
  {env : AIRequest} {s : ProviderStream}

omit [Platform] in
theorem SentAs.reasons (h : SentAs c calls choices) :
    finishReasons (choiceFrames choices) = (nonEmpty c.finish_reason).toList := by
  obtain ⟨front, last, rfl, hfront, hlast⟩ := h.finish
  have hnone : finishReasons (choiceFrames front) = [] := by
    unfold finishReasons
    rw [List.filterMap_eq_nil_iff]
    intro f hf
    obtain ⟨choice, hchoice, rfl⟩ := List.mem_map.1 hf
    exact hfront choice hchoice
  unfold finishReasons choiceFrames at hnone ⊢
  rw [List.map_append, List.filterMap_append, hnone, List.nil_append, ← hlast]
  have hreason : (⟨some last, none⟩ : RawChunk).reason = nonEmpty last.finish_reason := rfl
  rw [List.map_singleton, List.filterMap_cons, hreason]
  cases nonEmpty last.finish_reason <;> rfl

theorem SentAs.text_emitted (h : SentAs c calls choices) :
    textOf (emitted {} (choiceFrames choices)).1 = c.content.getD [] := by
  rw [textOf_emitted OpenAiStreamState.steady_empty, ← h.text]
  unfold choiceFrames
  rw [List.flatMap_map]
  rfl

/-- The calls are collected whole and in order. -/
theorem SentAs.collected (h : SentAs c calls choices) :
    collectCalls (emitted {} (choiceFrames choices)).1 = calls.map fun k => k.2.whole k.1 := by
  rw [← collectCalls_filter, emitted_calls OpenAiStreamState.steady_empty, choiceFrames_calls]
  have hperm := OpenAiStreamState.collect_interleaved h.indices h.fragments
  have hkeys : (calls.map fun k => k.2.whole k.1).map CollectedCall.index = calls.map Prod.fst := by
    rw [List.map_map]
    rfl
  have hindex : ∀ tc ∈ choices.flatMap RawChoice.tool_calls, tc.index.isSome = true := by
    intro tc htc
    obtain ⟨l, hl, hmem⟩ := h.fragments.mem htc
    obtain ⟨k, -, rfl⟩ := List.mem_map.1 hl
    rw [ProviderCall.mem_fragments hmem]
    rfl
  have hstarts := starts_toolCalls OpenAiStreamState.steady_empty hindex
    (h.order ▸ h.indices) fun i _ => rfl
  apply eq_of_perm_of_keys (f := CollectedCall.index) hperm
  · rw [collectCalls_index, hstarts, h.order, hkeys]
  · rw [collectCalls_index, hstarts, h.order]
    exact h.indices

/-- A trailing frame has no content. -/
theorem TrailingUsage.silent {usage : Option RawUsage} {trailing : List RawChunk}
    (h : TrailingUsage usage trailing) (st : OpenAiStreamState) :
    (emitted st trailing).1.filter StreamChunk.isContent = [] ∧ finishReasons trailing = [] ∧
      ((usage.bind RawUsage.prompt_tokens).isSome = false → ∀ f ∈ trailing, f.brings = false) := by
  cases usage with
  | none =>
      cases h
      exact ⟨rfl, rfl, fun _ f hf => (by cases hf)⟩
  | some u =>
      obtain ⟨f, rfl, hf, hbare, hreason⟩ := h
      obtain ⟨htext, hcalls⟩ := bare_iff.1 hbare
      have hfinish : (OpenAiStreamState.finishOf f).filter StreamChunk.isContent = [] := by
        rw [List.filter_eq_nil_iff]
        intro c hc
        rw [finishOf_not_content hc]
        exact Bool.false_ne_true
      refine ⟨?_, ?_, fun hprompt g hg => ?_⟩
      · rw [emitted_cons, htext, hcalls, List.filter_append, List.filter_append, hfinish]
        rfl
      · unfold finishReasons
        rw [List.filterMap_cons, hreason]
        rfl
      · rw [List.mem_singleton.1 hg]
        have hreported : f.reported = none := by
          unfold RawChunk.reported
          rw [hf, Option.filter_eq_none_iff]
          intro v hv
          cases hv
          rw [Option.bind_some] at hprompt
          rw [hprompt]
          exact Bool.false_ne_true
        unfold RawChunk.brings
        rw [hreported]
        rfl

/-- The usage at the end of the stream. -/
def streamedUsage (env : AIRequest) (c : RawCompletion) : AIUsage :=
  if (c.usage.bind RawUsage.prompt_tokens).isSome then extractUsage c.usage
  else estimateUsage env (c.content.getD [])

omit [Platform] in
/-- Without a finish reason the answer stops. -/
theorem normalize_nonEmpty (reason : Option JsString) :
    (((nonEmpty reason).toList.map fun r => normalizeFinishReason (some r)).getLast?).getD .stop =
      normalizeFinishReason reason := by
  cases reason with
  | none => rfl
  | some r =>
      by_cases hr : r = []
      · rw [hr]
        decide
      · have hsome : nonEmpty (some r) = some r := by
          rw [OpenAiStreamState.nonEmpty_getD]
          exact if_neg hr
        rw [hsome]
        rfl

/-- The content of a stream, then its finish. -/
theorem Streams.ends (h : Streams c calls s) (env : AIRequest) :
    ∃ content, executeStream env s = (content ++ [.finish (normalizeFinishReason c.finish_reason)
        (some (streamedUsage env c))], .ok ()) ∧ (∀ x ∈ content, x.isContent = true) ∧
      textOf content = c.content.getD [] ∧
      collectCalls content = calls.map fun k => k.2.whole k.1 := by
  obtain ⟨hends, choices, trailing, hsent, htrailing, hframes⟩ := h
  have hok : (executeStream env s).2 = .ok () := by
    cases hresult : (executeStream env s).2 with
    | ok _ => rfl
    | error e =>
        obtain ⟨⟨failure, hfailure⟩, hdone⟩ := (executeStream_throws_iff s).1 ⟨e, hresult⟩
        rcases hends with hends | hends
        · rw [hends] at hfailure
          cases hfailure
        · exact absurd hends hdone
  have hout : (executeStream env s).1 = _ := relayFrames_eq {} s.events hok
  refine ⟨(emitted {} (choiceFrames choices)).1.filter StreamChunk.isContent,
    Prod.ext (hout.trans ?_) hok, fun x hx => (List.mem_filter.1 hx).2,
    (textOf_content _).trans hsent.text_emitted, (collectCalls_content _).trans hsent.collected⟩
  show (StreamLoop.chunks {} (emitted {} (acceptedFrames s)).1).1 ++
    (StreamLoop.chunks {} (emitted {} (acceptedFrames s)).1).2.close env = _
  rw [hframes]
  cases hprompt : (c.usage.bind RawUsage.prompt_tokens).isSome with
  | true =>
      obtain ⟨u, hu⟩ : ∃ u, c.usage = some u := by
        cases husage : c.usage with
        | none => rw [husage] at hprompt; cases hprompt
        | some u => exact ⟨u, rfl⟩
      rw [hu] at htrailing hprompt
      obtain ⟨f, rfl, hf, hbare, hreason⟩ := htrailing
      obtain ⟨htext, hcalls⟩ := bare_iff.1 hbare
      have hreported : f.reported = some u := by
        unfold RawChunk.reported
        rw [hf]
        exact Option.filter_eq_some_iff.2 ⟨rfl, hprompt⟩
      have hbrings : f.brings = true := by
        unfold RawChunk.brings
        rw [hreported, hbare, Bool.or_true]
        rfl
      obtain ⟨body, q, rfl, hyielded⟩ := @yielded_usage _ env (choiceFrames choices) [] f
        (choiceFrames_unreported choices) hbrings
      have husage : streamedUsage env c = extractUsage (some u) := by
        unfold streamedUsage
        rw [hu, if_pos hprompt]
      have hnormal : normalizeFinishReason none = .stop := rfl
      have hnothing : (([] : List StreamChunk) ++
          ((emitted {} (choiceFrames choices)).2.toolCalls []).1) = [] := rfl
      rw [hyielded, htext, hcalls, hreported, hreason, hsent.reasons, husage, hnormal, hnothing,
        normalize_nonEmpty, List.append_nil]
      rfl
  | false =>
      have husage : streamedUsage env c = estimateUsage env (c.content.getD []) := by
        unfold streamedUsage
        rw [hprompt]
        rfl
      obtain ⟨hsilent, hreasons, hunreported⟩ := htrailing.silent
        (emitted {} (choiceFrames choices)).2
      have hnone : ∀ f ∈ choiceFrames choices ++ trailing, f.brings = false := by
        intro f hf
        rcases List.mem_append.1 hf with hf | hf
        · exact choiceFrames_unreported choices f hf
        · exact hunreported hprompt f hf
      have hreason : finishReasons (choiceFrames choices ++ trailing) =
          (nonEmpty c.finish_reason).toList := by
        rw [← hsent.reasons, ← List.append_nil (finishReasons (choiceFrames choices)), ← hreasons]
        exact List.filterMap_append
      have hcontent : (emitted {} (choiceFrames choices ++ trailing)).1.filter
          StreamChunk.isContent = (emitted {} (choiceFrames choices)).1.filter
            StreamChunk.isContent := by
        rw [emitted_append, List.filter_append, hsilent, List.append_nil]
      rw [yielded_estimate hnone, hcontent, hreason, textOf_content, hsent.text_emitted, husage,
        normalize_nonEmpty]

/-- **What is collected of a streamed completion.** -/
theorem Streams.yields (h : Streams c calls s) (env : AIRequest) :
    ∃ chunks, executeStream env s = (chunks, .ok ()) ∧ textOf chunks = c.content.getD [] ∧
      collectCalls chunks = (calls.map fun k => k.2.whole k.1) ∧
      chunks.filter (fun c => !c.isContent) =
        [.finish (normalizeFinishReason c.finish_reason) (some (streamedUsage env c))] := by
  obtain ⟨content, hrun, hcontent, htext, hcalls⟩ := h.ends env
  refine ⟨_, hrun, ?_, ?_, ?_⟩
  · rw [textOf_append, htext]
    exact List.append_nil _
  · rw [← hcalls]
    unfold collectCalls
    rw [List.foldl_append]
    rfl
  · rw [List.filter_append, List.filter_eq_nil_iff.2]
    · rfl
    · intro x hx
      rw [hcontent x hx]
      exact Bool.false_ne_true

/-! ### Where the defaults agree -/

omit [Platform] in
theorem normalize_none {reason : Option JsString} (h : nonEmpty reason = none) :
    normalizeFinishReason reason = .stop := by
  rw [← normalize_nonEmpty, h]
  rfl

/-- A reason is made up for tool calls alone. -/
theorem finishReason_iff (c : RawCompletion) (served : Served) :
    normalizeFinishReason c.finish_reason = (c.translated served).finishReason ↔
      (c.tool_calls ≠ [] → nonEmpty c.finish_reason ≠ none) := by
  unfold RawCompletion.translated
  dsimp only
  have hcalls : (c.tool_calls.mapIdx fun i tc =>
      (⟨tc.id.getD (syntheticId i), tc.name, tc.arguments⟩ : TranslatedCall)) ≠ [] ↔
        c.tool_calls ≠ [] := by
    rw [ne_eq, List.mapIdx_eq_nil_iff]
  by_cases hboth : c.tool_calls ≠ [] ∧ nonEmpty c.finish_reason = none
  · rw [if_pos ⟨hcalls.2 hboth.1, hboth.2⟩, normalize_none hboth.2]
    exact ⟨fun h => (by cases h), fun h => absurd hboth.2 (h hboth.1)⟩
  · rw [if_neg fun h => hboth ⟨hcalls.1 h.1, h.2⟩]
    exact ⟨fun _ hne hnone => hboth ⟨hne, hnone⟩, fun _ => rfl⟩

omit [Platform] in
theorem extractUsage_estimated (u : RawUsage) : (extractUsage (some u)).estimated =
    (u.prompt_tokens.isNone && u.completion_tokens.isNone) := by
  unfold extractUsage
  dsimp only
  split
  · rename_i hnone
    rw [hnone]
  · rename_i hsome
    exact (Bool.eq_false_iff.2 hsome).symm

/-- Usage without prompt tokens is usage for the one and none for the other. -/
theorem usage_iff (env : AIRequest) (c : RawCompletion) :
    (streamedUsage env c).estimated = (extractUsage c.usage).estimated ∧
        ((extractUsage c.usage).estimated = false → streamedUsage env c = extractUsage c.usage) ↔
      ∀ u, c.usage = some u → u.completion_tokens.isSome = true →
        u.prompt_tokens.isSome = true := by
  unfold streamedUsage
  cases husage : c.usage with
  | none => exact ⟨fun _ u hu => (by cases hu), fun _ => ⟨rfl, fun h => (by cases h)⟩⟩
  | some u =>
      rw [Option.bind_some]
      by_cases hprompt : u.prompt_tokens.isSome = true
      · rw [if_pos hprompt]
        exact ⟨fun _ v hv _ => Option.some.inj hv ▸ hprompt, fun _ => ⟨rfl, fun _ => rfl⟩⟩
      · rw [if_neg hprompt]
        have hnone : u.prompt_tokens = none := Option.not_isSome_iff_eq_none.1 hprompt
        cases hcompletion : u.completion_tokens with
        | none =>
            have hestimated : (extractUsage (some u)).estimated = true := by
              rw [extractUsage_estimated, hnone, hcompletion]
              rfl
            rw [hestimated]
            constructor
            · intro _ v hv hsome
              rw [← Option.some.inj hv, hcompletion] at hsome
              cases hsome
            · intro _
              exact ⟨rfl, fun h => (by cases h)⟩
        | some n =>
            have hmeasured : (extractUsage (some u)).estimated = false := by
              rw [extractUsage_estimated, hnone, hcompletion]
              rfl
            rw [hmeasured]
            constructor
            · intro h
              cases h.1
            · intro h
              exact absurd (h u rfl (by rw [hcompletion]; rfl)) hprompt

/-- The ids that are made up agree. -/
theorem calls_iff {c : RawCompletion} (h : c.tool_calls = calls.map fun k => k.2.unstreamed)
    (served : Served) :
    (calls.map fun k => k.2.whole k.1).map CollectedCall.translated =
        (c.translated served).toolCalls ↔
      ∀ (k : ℕ) call, calls[k]? = some call → call.2.id = none →
        syntheticId call.1 = syntheticId k := by
  have hwhole : (c.translated served).toolCalls = calls.mapIdx fun i k =>
      ⟨k.2.id.getD (syntheticId i), k.2.name, k.2.arguments⟩ := by
    unfold RawCompletion.translated
    dsimp only
    apply List.ext_getElem?
    intro k
    rw [List.getElem?_mapIdx, List.getElem?_mapIdx, h, List.getElem?_map, Option.map_map]
    rfl
  rw [hwhole, List.map_map]
  constructor
  · intro heq k call hcall hid
    have hk : (calls.map _)[k]? = _ := congrArg (fun l : List TranslatedCall => l[k]?) heq
    rw [List.getElem?_map, List.getElem?_mapIdx, hcall] at hk
    have hsame := congrArg TranslatedCall.id (Option.some.inj hk)
    have hleft : (CollectedCall.translated (call.2.whole call.1)).id =
        call.2.id.getD (syntheticId call.1) := rfl
    rw [Function.comp_apply, hleft] at hsame
    dsimp only at hsame
    rw [hid] at hsame
    exact hsame
  · intro hids
    apply List.ext_getElem?
    intro k
    rw [List.getElem?_map, List.getElem?_mapIdx]
    cases hcall : calls[k]? with
    | none => rfl
    | some call =>
        rw [Option.map_some, Option.map_some]
        congr 1
        have hid : call.2.id.getD (syntheticId call.1) = call.2.id.getD (syntheticId k) := by
          cases hid : call.2.id with
          | none => exact hids k call hcall hid
          | some id => rfl
        show (⟨call.2.id.getD (syntheticId call.1), call.2.name, call.2.arguments⟩ :
          TranslatedCall) = _
        rw [hid]

/-- Where the two agree, the stream ends with the usage that `execute` answers with. -/
theorem Streams.executed (h : Streams c calls s) {raw : Json} (hraw : completionSchema raw = some c)
    (hexplicit : Explicit c calls) (env : AIRequest) (issue : String) (served : Served) :
    ∃ t chunks, executeOn env issue raw served = .ok t ∧ executeStream env s = (chunks, .ok ()) ∧
      chunks.filter (fun c => !c.isContent) = [.finish t.finishReason (some t.usage)] := by
  obtain ⟨chunks, hrun, -, -, hlast⟩ := h.yields env
  obtain ⟨hestimated, hsame⟩ := (usage_iff env c).2 hexplicit.usage
  have hreason := (finishReason_iff c served).2 hexplicit.reason
  unfold executeOn translateResponse
  rw [hraw]
  show ∃ t chunks, Except.ok (if (extractUsage c.usage).estimated = true then
    { c.translated served with usage := estimateUsage env (c.content.getD []) }
      else c.translated served) = .ok t ∧ _
  by_cases husage : (extractUsage c.usage).estimated = true
  · rw [if_pos husage]
    refine ⟨_, chunks, rfl, hrun, ?_⟩
    have hstreamed : streamedUsage env c = estimateUsage env (c.content.getD []) := by
      rw [husage] at hestimated
      unfold streamedUsage at hestimated ⊢
      split
      · rename_i hprompt
        rw [if_pos hprompt] at hestimated
        cases hu : c.usage with
        | none => rw [hu] at hprompt; cases hprompt
        | some u =>
            rw [hu] at hestimated hprompt
            rw [extractUsage_estimated, Bool.and_eq_true, ← Option.not_isSome] at hestimated
            rw [Option.bind_some] at hprompt
            rw [hprompt] at hestimated
            cases hestimated.1
      · rfl
    rw [hlast, hreason, hstreamed]
  · rw [if_neg husage]
    refine ⟨_, chunks, rfl, hrun, ?_⟩
    rw [hlast, hreason, hsame (Bool.eq_false_iff.2 husage)]
    rfl

end

end OpenaiCompat

open OpenaiCompat in
/-- **Exactly when a streamed completion agrees with the whole.**  However its text and its tool
calls are cut into fragments, the chunks of a completion say what `translateResponse` makes of it
exactly when it leaves nothing to defaults. -/
theorem completion_streamed_iff [Platform] (issue : String) (raw : Json) (served : Served)
    (env : AIRequest) (c : RawCompletion) (calls : List (ℚ × ProviderCall)) (s : ProviderStream)
    (hraw : completionSchema raw = some c) (h : Streams c calls s) :
    ∃ t chunks, translateResponse issue raw served = .ok t ∧
      executeStream env s = (chunks, .ok ()) ∧ (SameAnswer chunks t ↔ Explicit c calls) := by
  obtain ⟨chunks, hrun, htext, hcalls, hlast⟩ := h.yields env
  obtain ⟨-, choices, trailing, hsent, -⟩ := h
  refine ⟨c.translated served, chunks, ?_, hrun, ?_⟩
  · unfold translateResponse
    rw [hraw]
  constructor
  · intro hagrees
    have hids := hagrees.toolCalls
    obtain ⟨usage, hfinish, hestimated, hsame⟩ := hagrees.finish
    rw [hlast] at hfinish
    obtain ⟨hreason, husage⟩ := StreamChunk.finish.inj (List.singleton_inj.1 hfinish)
    cases husage
    rw [hcalls, calls_iff hsent.wholes] at hids
    exact ⟨(finishReason_iff c served).1 hreason, (usage_iff env c).1 ⟨hestimated, hsame⟩, hids⟩
  · intro hexplicit
    refine ⟨htext, ?_, streamedUsage env c, ?_, (usage_iff env c).2 hexplicit.usage⟩
    · rw [hcalls, calls_iff hsent.wholes]
      exact hexplicit.ids
    · rw [hlast, (finishReason_iff c served).2 hexplicit.reason]

/-! ### Samples -/

namespace OpenaiCompat

deriving instance DecidableEq for RawUsage, RawToolCall, RawChoice, RawChunk

end OpenaiCompat

namespace Sample

open OpenaiCompat

/-- The body of an answer with a tool call. -/
def toolAnswer (rest : List (JsString × Json)) : Json :=
  .obj [(js "choices", .arr [.obj ((js "message", .obj [(js "content", .str (js "Hi")),
    (js "tool_calls", .arr [.obj [(js "function", .obj [(js "name", .str (js "f")),
      (js "arguments", .str (js "12"))])]])]) :: rest)])]

/-- The same call in two fragments. -/
def cutCall : ProviderCall := ⟨none, js "f", some (js "1"), [some (js "2")]⟩

def toolCompletion (reason : Option JsString) : RawCompletion :=
  { content := some (js "Hi"), tool_calls := [⟨none, js "f", js "12"⟩], finish_reason := reason
    usage := none }

/-- The choices that stream it, the last of which has the finish reason. -/
def streamedChoices (reason : Option JsString) : List RawChoice :=
  [⟨some (js "H"), [], none⟩, ⟨some (js "i"), [⟨some 0, none, some (js "f"), some (js "1")⟩], none⟩,
    ⟨none, [⟨some 0, none, none, some (js "2")⟩], reason⟩]

def cutStream (ending : JsString) : ProviderStream where
  events := [js "\x7b\"choices\":[\x7b\"delta\":\x7b\"content\":\"H\"\x7d\x7d]\x7d",
    js "\x7b\"choices\":[\x7b\"delta\":\x7b\"content\":\"i\",\"tool_calls\":[\x7b\"index\":0,\"function\":\x7b\"name\":\"f\",\"arguments\":\"1\"\x7d\x7d]\x7d\x7d]\x7d",
    js "\x7b\"choices\":[\x7b\"delta\":\x7b\"tool_calls\":[\x7b\"index\":0,\"function\":\x7b\"arguments\":\"2\"\x7d\x7d]\x7d" ++
      ending ++ js "\x7d]\x7d", js "[DONE]"]
  ended := .ok ()

theorem sent_tool (reason : Option JsString) :
    SentAs (toolCompletion reason) [(0, cutCall)] (streamedChoices reason) where
  text := rfl
  wholes := rfl
  indices := by decide
  fragments := by
    apply @List.Interleaves.cons _ [] []
    apply @List.Interleaves.cons _ [] []
    apply List.Interleaves.nil
    intro l hl
    exact List.mem_singleton.1 hl
  order := rfl
  finish := by
    refine ⟨(streamedChoices reason).dropLast, _, rfl, ?_, rfl⟩
    intro choice hchoice
    rcases List.mem_cons.1 hchoice with rfl | hchoice
    · rfl
    · rw [List.mem_singleton.1 hchoice]
      rfl

def finishedStream : ProviderStream := cutStream (js ",\"finish_reason\":\"tool_calls\"")

theorem finished_streams :
    Streams (toolCompletion (some (js "tool_calls"))) [(0, cutCall)] finishedStream :=
  ⟨Or.inl rfl, streamedChoices (some (js "tool_calls")), [], sent_tool _, rfl, by decide +kernel⟩

theorem finished_agrees : letI := platform
    ∃ t chunks, translateResponse "" (toolAnswer [(js "finish_reason", .str (js "tool_calls"))])
        ⟨"", cloudProviderId, 0⟩ = .ok t ∧
      executeStream (request "hello") finishedStream = (chunks, .ok ()) ∧ SameAnswer chunks t := by
  let := platform
  obtain ⟨t, chunks, ht, hrun, hagrees⟩ := completion_streamed_iff ""
    (toolAnswer [(js "finish_reason", .str (js "tool_calls"))]) ⟨"", cloudProviderId, 0⟩
    (request "hello") _ [(0, cutCall)] finishedStream rfl finished_streams
  refine ⟨t, chunks, ht, hrun, hagrees.2 ⟨fun _ h => (by cases h), fun u hu => (by cases hu), ?_⟩⟩
  intro k call hcall _
  cases k with
  | zero =>
      rw [← Option.some.inj hcall]
      rfl
  | succ k => cases hcall

/-- **A tool call without a finish reason stops when it is streamed.** -/
theorem unfinished_disagrees : letI := platform
    ¬∀ (issue : String) (raw : Json) (served : Served) (env : AIRequest) (c : RawCompletion)
      (calls : List (ℚ × ProviderCall)) (s : ProviderStream), completionSchema raw = some c →
      Streams c calls s → ∀ t chunks, translateResponse issue raw served = .ok t →
        executeStream env s = (chunks, .ok ()) → SameAnswer chunks t := by
  let := platform
  intro hall
  have hstreams : Streams (toolCompletion none) [(0, cutCall)] (cutStream []) :=
    ⟨Or.inl rfl, streamedChoices none, [], sent_tool _, rfl, by decide +kernel⟩
  obtain ⟨chunks, hrun, -, -, hlast⟩ := hstreams.yields (request "hello")
  have hagrees := hall "" (toolAnswer []) ⟨"", cloudProviderId, 0⟩ (request "hello") _ _ _ rfl
    hstreams _ _ rfl hrun
  obtain ⟨usage, hfinish, -⟩ := hagrees.finish
  rw [hlast] at hfinish
  cases (StreamChunk.finish.inj (List.singleton_inj.1 hfinish)).1

end Sample

end VibeRouter
