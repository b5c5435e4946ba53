import VibeRouter.Adapters.Anthropic
import VibeRouter.Adapters.ToolCalls

/-! # Anthropic messages, whole and streamed

`translateAnthropicResponse` translates a message at once, `AnthropicStreamState` event by event.
For a message that is streamed block by block, whatever the fragments, the two agree exactly when
every tool use has an input and the provider does not stop for a tool without using one
(`streamed_agrees_iff`). -/

namespace VibeRouter

namespace Anthropic

open Json

/-! ### Whole messages -/

inductive ResponseBlock
  | text (text : JsString)
  | tool_use (id name : JsString) (input : Option Json)
  | thinking (thinking : JsString)
  | redacted_thinking

structure RawMessage where
  content : List ResponseBlock
  stop_reason : Option JsString
  usage : RawUsage

def responseBlockSchema : Json → Option ResponseBlock := object fun v =>
  if hasType v "text" then (member asString "text" v).map .text
  else if hasType v "tool_use" then do
    let id ← member asString "id" v
    let name ← member asString "name" v
    pure (.tool_use id name (v.field "input"))
  else if hasType v "thinking" then (member asString "thinking" v).map .thinking
  else if hasType v "redacted_thinking" then some .redacted_thinking
  else none

def responseSchema : Json → Option RawMessage := object fun v => do
  let content ← member (array responseBlockSchema) "content" v
  let reason ← nullishMember asString "stop_reason" v
  let usage ← member usageSchema "usage" v
  pure ⟨content, reason, usage⟩

/-- A tool call of a response, its identifiers in code units. -/
structure TranslatedCall where
  id : JsString
  name : JsString
  arguments : JsString
deriving DecidableEq

/-- The response to the caller; `toolCalls` and `thinking` are left out where they are empty. -/
structure TranslatedResponse where
  content : JsString
  toolCalls : List TranslatedCall
  finishReason : FinishReason
  usage : AIUsage
  served : Served
  thinking : JsString
deriving DecidableEq

/-- Is the tool the one that stands for the answer? -/
def isSchemaTool (schemaTool : Option JsString) (name : JsString) : Bool :=
  schemaTool.any fun tool => tool ≠ [] ∧ name = tool

namespace ResponseBlock

variable [Platform] (schemaTool : Option JsString)

/-- What a block adds to the content; `JSON.stringify(undefined)` joins as a word. -/
def content : ResponseBlock → JsString
  | text t => t
  | tool_use _ name input =>
      if isSchemaTool schemaTool name then
        match input with
        | some v => stringify Platform.numberText v
        | none => js "undefined"
      else []
  | _ => []

/-- What a block adds to the tool calls. -/
def toolCalls : ResponseBlock → List TranslatedCall
  | tool_use id name input =>
      if isSchemaTool schemaTool name then []
      else [⟨id, name, stringify Platform.numberText (input.getD (.obj []))⟩]
  | _ => []

omit [Platform] in
/-- What a block adds to the thinking. -/
def thinkingText : ResponseBlock → JsString
  | thinking t => t
  | _ => []

end ResponseBlock

/-- `translateAnthropicResponse` on a message its schema accepts. -/
def translateMessage [Platform] (m : RawMessage) (served : Served) (schemaTool : Option JsString) :
    TranslatedResponse :=
  let toolCalls := m.content.flatMap (ResponseBlock.toolCalls schemaTool)
  let finishReason := normalizeStopReason m.stop_reason
  { content := m.content.flatMap (ResponseBlock.content schemaTool)
    toolCalls
    finishReason :=
      if schemaTool.any (fun tool => tool ≠ []) ∧ finishReason = .tool_calls ∧ toolCalls = [] then
        .stop
      else finishReason
    usage := toUsage m.usage
    served
    thinking := m.content.flatMap ResponseBlock.thinkingText }

/-- `issue` is the message of the schema's first issue. -/
def translateAnthropicResponse [Platform] (issue : String) (raw : Json) (served : Served)
    (schemaTool : Option JsString) : Except RouterError TranslatedResponse :=
  match responseSchema raw with
  | none => .error { code := .provider_unavailable, message := "malformed provider response"
                     detail := [("reason", .str issue)] }
  | some m => .ok (translateMessage m served schemaTool)

/-! ### Streamed messages -/

namespace ResponseBlock

/-- The block in `content_block_start`. -/
def head : ResponseBlock → ContentBlock
  | text _ => .text
  | tool_use id name _ => .tool_use id name
  | thinking _ => .thinking
  | redacted_thinking => .redacted_thinking

/-- The deltas of a block: its text or the JSON of its input, cut into fragments.  The JSON of the
schema tool, which becomes content, is the text `JSON.stringify` writes. -/
def SentAs [Platform] (schemaTool : Option JsString) : ResponseBlock → List BlockDelta → Prop
  | text t, ds => ∃ ts : List JsString, ds = ts.map .text_delta ∧ ts.flatten = t
  | tool_use _ name (some v), ds => ∃ ts : List JsString, ds = ts.map .input_json_delta ∧
      parseData ts.flatten = parseData (stringify Platform.numberText v) ∧
      (isSchemaTool schemaTool name = true → ts.flatten = stringify Platform.numberText v)
  | tool_use _ _ none, ds => ds = []
  | thinking t, ds => ∃ ts : List (Option JsString),
      ds = ts.map (fun o => o.elim .signature_delta .thinking_delta) ∧ ts.reduceOption.flatten = t
  | redacted_thinking, ds => ds = []

end ResponseBlock

/-- A block with its index and its deltas. -/
structure SentBlock where
  index : ℚ
  block : ResponseBlock
  deltas : List BlockDelta

def SentBlock.events (b : SentBlock) : List AnthropicStreamEvent :=
  .content_block_start b.index b.block.head ::
    (b.deltas.map (.content_block_delta b.index) ++ [.content_block_stop b.index])

def isPing : AnthropicStreamEvent → Bool
  | .ping => true
  | _ => false

/-- The usage of a message, as `message_start` and `message_delta` have it. -/
def UsageSent (usage start : RawUsage) (output : Option ℚ) : Prop :=
  usage = { start with output_tokens := output.getD start.output_tokens }

/-- A message as a sequence of events, with pings anywhere. -/
def Streams [Platform] (schemaTool : Option JsString) (m : RawMessage)
    (events : List AnthropicStreamEvent) : Prop :=
  ∃ (blocks : List SentBlock) (start : RawUsage) (output : Option ℚ),
    m.content = blocks.map SentBlock.block ∧ (blocks.map SentBlock.index).Nodup ∧
    (∀ b ∈ blocks, b.block.SentAs schemaTool b.deltas) ∧ UsageSent m.usage start output ∧
    events.filter (fun e => !isPing e) = .message_start start ::
      (blocks.flatMap SentBlock.events ++ [.message_delta m.stop_reason output, .message_stop])

/-- Two tool calls that are equal, their arguments as JSON. -/
def SameCall (c : CollectedCall) (t : TranslatedCall) : Prop :=
  c.id = t.id ∧ c.name = t.name ∧ parseData c.arguments = parseData t.arguments

/-- The chunks say what the response says. -/
structure SameAnswer (chunks : List StreamChunk) (t : TranslatedResponse) : Prop where
  content : textOf chunks = t.content
  toolCalls : List.Forall₂ SameCall (collectCalls chunks) t.toolCalls
  finish : chunks.filter (fun c => !c.isContent) = [.finish t.finishReason (some t.usage)]

namespace AnthropicStreamState

/-- The chunks of a sequence of events, and the state after. -/
def handleAll : AnthropicStreamState → List AnthropicStreamEvent →
    Except RouterError (List StreamChunk × AnthropicStreamState)
  | st, [] => .ok ([], st)
  | st, e :: es => match st.handle e with
    | .error err => .error err
    | .ok (out, st) => match handleAll st es with
      | .error err => .error err
      | .ok (rest, st) => .ok (out ++ rest, st)

variable {st st' : AnthropicStreamState} {out out' : List StreamChunk}

theorem handleAll_cons {e : AnthropicStreamEvent} {es : List AnthropicStreamEvent}
    (h : st.handle e = .ok (out, st')) {st'' : AnthropicStreamState}
    (hrest : st'.handleAll es = .ok (out', st'')) :
    st.handleAll (e :: es) = .ok (out ++ out', st'') := by
  unfold handleAll
  rw [h]
  dsimp only
  rw [hrest]

theorem handleAll_append {es es' : List AnthropicStreamEvent}
    (h : st.handleAll es = .ok (out, st')) {st'' : AnthropicStreamState}
    (hrest : st'.handleAll es' = .ok (out', st'')) :
    st.handleAll (es ++ es') = .ok (out ++ out', st'') := by
  induction es generalizing st out with
  | nil =>
      obtain ⟨rfl, rfl⟩ := Prod.mk.inj (Except.ok.inj h)
      exact hrest
  | cons e es ih =>
      unfold handleAll at h
      cases hone : st.handle e with
      | error err => rw [hone] at h; cases h
      | ok r =>
          rw [hone] at h
          dsimp only at h
          cases hmore : r.2.handleAll es with
          | error err => rw [hmore] at h; cases h
          | ok r' =>
              rw [hmore] at h
              obtain ⟨rfl, rfl⟩ := Prod.mk.inj (Except.ok.inj h)
              rw [List.cons_append, List.append_assoc]
              exact handleAll_cons hone (ih hmore)

/-- Pings change nothing. -/
theorem handleAll_pings (st : AnthropicStreamState) (es : List AnthropicStreamEvent) :
    st.handleAll es = st.handleAll (es.filter fun e => !isPing e) := by
  induction es generalizing st with
  | nil => rfl
  | cons e es ih =>
      cases hping : isPing e with
      | false =>
          rw [List.filter_cons_of_pos (by rw [hping]; rfl)]
          unfold handleAll
          cases st.handle e with
          | error err => rfl
          | ok r =>
              dsimp only
              rw [ih]
      | true =>
          rw [List.filter_cons_of_neg (by rw [hping]; exact Bool.false_ne_true), ← ih]
          cases e with
          | ping =>
              have hskip : st.handleAll (.ping :: es) = match st.handleAll es with
                | .error err => .error err
                | .ok (rest, st) => .ok ([] ++ rest, st) := rfl
              rw [hskip]
              cases st.handleAll es <;> rfl
          | _ => cases hping

end AnthropicStreamState

/-! ### One block -/

section
variable {schemaTool : Option JsString}

/-- Is the block a tool use of the schema tool? -/
def ResponseBlock.isSchema (schemaTool : Option JsString) : ResponseBlock → Bool
  | .tool_use _ name _ => isSchemaTool schemaTool name
  | _ => false

/-- Is the block a tool use that the caller sees? -/
def ResponseBlock.isCall (schemaTool : Option JsString) : ResponseBlock → Bool
  | .tool_use _ name _ => !isSchemaTool schemaTool name
  | _ => false

/-- The text of the deltas of a block. -/
def SentBlock.sent (b : SentBlock) : JsString :=
  b.deltas.flatMap fun d => match d with
    | .text_delta text => text
    | .input_json_delta json => json
    | _ => []

theorem sent_text {ts : List JsString} {index : ℚ} {block : ResponseBlock} :
    SentBlock.sent ⟨index, block, ts.map .text_delta⟩ = ts.flatten := by
  unfold SentBlock.sent
  dsimp only
  rw [List.flatMap_map, ← List.flatMap_id]
  rfl

theorem sent_json {ts : List JsString} {index : ℚ} {block : ResponseBlock} :
    SentBlock.sent ⟨index, block, ts.map .input_json_delta⟩ = ts.flatten := by
  unfold SentBlock.sent
  dsimp only
  rw [List.flatMap_map, ← List.flatMap_id]
  rfl

/-- The content of a block as it is streamed. -/
def SentBlock.content (schemaTool : Option JsString) (b : SentBlock) : JsString :=
  match b.block with
  | .text _ => b.sent
  | .tool_use _ name _ => if isSchemaTool schemaTool name then b.sent else []
  | _ => []

/-- The tool call of a block as it is collected at an index. -/
def SentBlock.calls (schemaTool : Option JsString) (k : ℕ) (b : SentBlock) : List CollectedCall :=
  match b.block with
  | .tool_use id name _ => if isSchemaTool schemaTool name then [] else [⟨k, id, name, b.sent⟩]
  | _ => []

/-- What a block does to the state that later blocks and the finish depend on. -/
structure AnthropicStreamState.After (st : AnthropicStreamState) (b : SentBlock)
    (st' : AnthropicStreamState) : Prop where
  schemaTool : st'.schemaTool = st.schemaTool
  usage : st'.usage = st.usage
  stopReason : st'.stopReason = st.stopReason
  schemaBlockIndex : st'.schemaBlockIndex =
    if b.block.isSchema st.schemaTool then some b.index else st.schemaBlockIndex
  nextToolIndex : st'.nextToolIndex =
    if b.block.isCall st.schemaTool then st.nextToolIndex + 1 else st.nextToolIndex

variable {st : AnthropicStreamState} {b : SentBlock}

theorem handleAll_stop (st : AnthropicStreamState) (index : ℚ) :
    st.handleAll [.content_block_stop index] = .ok ([], st) := rfl

/-- Deltas that become text, whatever the state is. -/
theorem handleAll_text (st : AnthropicStreamState) (index : ℚ) (ts : List JsString)
    (make : JsString → BlockDelta)
    (hmake : ∀ t, st.handle (.content_block_delta index (make t)) = .ok ([.text_delta t], st)) :
    st.handleAll (ts.map fun t => .content_block_delta index (make t)) =
      .ok (ts.map .text_delta, st) := by
  induction ts with
  | nil => rfl
  | cons t ts ih => exact AnthropicStreamState.handleAll_cons (hmake t) ih

/-- Deltas that are not passed on. -/
theorem handleAll_silent (st : AnthropicStreamState) (index : ℚ) (ds : List BlockDelta)
    (h : ∀ d ∈ ds, st.handle (.content_block_delta index d) = .ok ([], st)) :
    st.handleAll (ds.map (.content_block_delta index)) = .ok ([], st) := by
  induction ds with
  | nil => rfl
  | cons d ds ih =>
      obtain ⟨hd, hds⟩ := List.forall_mem_cons.1 h
      exact AnthropicStreamState.handleAll_cons hd (ih hds)

/-- Deltas that become arguments of the call at an index. -/
theorem handleAll_arguments {k : ℕ} {index : ℚ} (hindex : st.toolIndexByBlock.get index = some k)
    (hschema : st.schemaBlockIndex ≠ some index) (ts : List JsString) :
    st.handleAll (ts.map fun t => .content_block_delta index (.input_json_delta t)) =
      .ok (ts.map (.tool_call_delta (k : ℚ)), st) := by
  have hone : ∀ t, st.handle (.content_block_delta index (.input_json_delta t)) =
      .ok ([.tool_call_delta (k : ℚ) t], st) := by
    intro t
    unfold AnthropicStreamState.handle
    dsimp only
    rw [if_neg hschema, hindex]
  induction ts with
  | nil => rfl
  | cons t ts ih => exact AnthropicStreamState.handleAll_cons (hone t) ih

theorem textOf_map_text (ts : List JsString) : textOf (ts.map .text_delta) = ts.flatten := by
  induction ts with
  | nil => rfl
  | cons t ts ih => rw [List.map_cons, textOf_cons, ih]; simp [textOf]

theorem textOf_map_delta (i : ℚ) (ts : List JsString) :
    textOf (ts.map (.tool_call_delta i)) = [] := by
  induction ts with
  | nil => rfl
  | cons t ts ih => rw [List.map_cons, textOf_cons, ih]; rfl

theorem collect_map_text (acc : List CollectedCall) (ts : List JsString) :
    (ts.map .text_delta).foldl CollectedCall.collect acc = acc := by
  induction ts with
  | nil => rfl
  | cons t ts ih => exact ih

theorem collect_map_delta {acc : List CollectedCall} (call : CollectedCall)
    (hne : ∀ c ∈ acc, c.index ≠ call.index) (ts : List JsString) :
    (ts.map (.tool_call_delta call.index)).foldl CollectedCall.collect (acc ++ [call]) =
      acc ++ [{ call with arguments := call.arguments ++ ts.flatten }] := by
  induction ts generalizing call with
  | nil => rw [List.flatten_nil, List.append_nil]; rfl
  | cons t ts ih =>
      rw [List.map_cons, List.foldl_cons, CollectedCall.collect_last call hne, List.flatten_cons,
        ← List.append_assoc]
      exact ih { call with arguments := call.arguments ++ t } hne

/-- What comes of the events of one block. -/
structure Handled (schemaTool : Option JsString) (st : AnthropicStreamState) (b : SentBlock)
    (out : List StreamChunk) (st' : AnthropicStreamState) : Prop where
  run : st.handleAll b.events = .ok (out, st')
  after : st.After b st'
  text : textOf out = b.content schemaTool
  content : ∀ c ∈ out, c.isContent = true
  calls : ∀ acc : List CollectedCall, (∀ c ∈ acc, c.index ≠ st.nextToolIndex) →
    out.foldl CollectedCall.collect acc = acc ++ b.calls schemaTool st.nextToolIndex

/-- The events of a block from those of its deltas. -/
theorem handleAll_events {start st' : AnthropicStreamState} {first out : List StreamChunk}
    (hstart : st.handle (.content_block_start b.index b.block.head) = .ok (first, start))
    (hdeltas : start.handleAll (b.deltas.map (.content_block_delta b.index)) = .ok (out, st')) :
    st.handleAll b.events = .ok (first ++ out, st') := by
  have hstop := AnthropicStreamState.handleAll_append hdeltas (handleAll_stop st' b.index)
  rw [List.append_nil] at hstop
  exact AnthropicStreamState.handleAll_cons hstart hstop

/-- **One block.**  A block whose index is new is translated on its own. -/
theorem handled_block [Platform] (hsent : b.block.SentAs schemaTool b.deltas)
    (htool : st.schemaTool = schemaTool) (hfresh : st.schemaBlockIndex ≠ some b.index) :
    ∃ out st', Handled schemaTool st b out st' := by
  obtain ⟨index, block, ds⟩ := b
  dsimp only at hsent hfresh
  cases block with
  | text t =>
      obtain ⟨ts, rfl, -⟩ := hsent
      have hdeltas : st.handleAll ((ts.map .text_delta).map (.content_block_delta index)) =
          .ok (ts.map .text_delta, st) := by
        rw [List.map_map]
        exact handleAll_text st index ts .text_delta fun t => rfl
      have hrun : st.handleAll (SentBlock.events ⟨index, .text t, ts.map .text_delta⟩) =
          .ok ([] ++ ts.map .text_delta, st) := handleAll_events rfl hdeltas
      refine ⟨ts.map .text_delta, st, hrun, ⟨rfl, rfl, rfl, rfl, rfl⟩, ?_, ?_, ?_⟩
      · rw [textOf_map_text]
        exact sent_text.symm
      · intro c hc
        obtain ⟨t, -, rfl⟩ := List.mem_map.1 hc
        rfl
      · intro acc _
        rw [collect_map_text]
        exact (List.append_nil acc).symm
  | thinking t =>
      obtain ⟨ts, rfl, -⟩ := hsent
      have hdeltas := handleAll_silent st index
        (ts.map fun o => o.elim .signature_delta .thinking_delta) fun d hd => by
          obtain ⟨o, -, rfl⟩ := List.mem_map.1 hd
          cases o <;> rfl
      have hrun : st.handleAll (SentBlock.events ⟨index, .thinking t, _⟩) = .ok ([] ++ [], st) :=
        handleAll_events rfl hdeltas
      exact ⟨[], st, hrun, ⟨rfl, rfl, rfl, rfl, rfl⟩, rfl, fun c hc => (by cases hc),
        fun acc _ => (List.append_nil acc).symm⟩
  | redacted_thinking =>
      have hnil : ds = [] := hsent
      rw [hnil]
      exact ⟨[], st, rfl, ⟨rfl, rfl, rfl, rfl, rfl⟩, rfl, fun c hc => (by cases hc),
        fun acc _ => (List.append_nil acc).symm⟩
  | tool_use id name input =>
      have hts : ∃ ts : List JsString, ds = ts.map .input_json_delta := by
        cases input with
        | none => exact ⟨[], hsent⟩
        | some v =>
            obtain ⟨ts, hts, -⟩ := hsent
            exact ⟨ts, hts⟩
      obtain ⟨ts, rfl⟩ := hts
      have hbsent : SentBlock.sent ⟨index, .tool_use id name input, ts.map .input_json_delta⟩ =
          ts.flatten := sent_json
      have hcall : (ResponseBlock.tool_use id name input).isCall st.schemaTool =
          !(ResponseBlock.tool_use id name input).isSchema st.schemaTool := rfl
      cases hschema : isSchemaTool schemaTool name with
      | true =>
          have hs : (ResponseBlock.tool_use id name input).isSchema st.schemaTool = true :=
            htool ▸ hschema
          have hc : (ResponseBlock.tool_use id name input).isCall st.schemaTool = false := by
            rw [hcall, hs]
            rfl
          have hstart : st.handle (.content_block_start index (.tool_use id name)) =
              .ok ([], { st with schemaBlockIndex := some index }) := by
            unfold AnthropicStreamState.handle
            dsimp only
            rw [htool]
            exact if_pos hschema
          have hdeltas : AnthropicStreamState.handleAll { st with schemaBlockIndex := some index }
              ((ts.map .input_json_delta).map (.content_block_delta index)) =
                .ok (ts.map .text_delta, { st with schemaBlockIndex := some index }) := by
            rw [List.map_map]
            refine handleAll_text _ index ts .input_json_delta fun t => ?_
            unfold AnthropicStreamState.handle
            dsimp only
            rw [if_pos rfl]
          have hrun : st.handleAll (SentBlock.events ⟨index, .tool_use id name input, _⟩) =
              .ok ([] ++ ts.map .text_delta, { st with schemaBlockIndex := some index }) :=
            handleAll_events hstart hdeltas
          refine ⟨ts.map .text_delta, { st with schemaBlockIndex := some index }, hrun,
            ⟨rfl, rfl, rfl, ?_, ?_⟩, ?_, ?_, ?_⟩
          · exact (if_pos hs).symm
          · exact (if_neg (ne_true_of_eq_false hc)).symm
          · rw [textOf_map_text]
            unfold SentBlock.content
            dsimp only
            rw [hschema, if_pos rfl, hbsent]
          · intro c hc
            obtain ⟨t, -, rfl⟩ := List.mem_map.1 hc
            rfl
          · intro acc _
            unfold SentBlock.calls
            dsimp only
            rw [collect_map_text, hschema, if_pos rfl, List.append_nil]
      | false =>
          have hs : (ResponseBlock.tool_use id name input).isSchema st.schemaTool = false :=
            htool ▸ hschema
          have hc : (ResponseBlock.tool_use id name input).isCall st.schemaTool = true := by
            rw [hcall, hs]
            rfl
          generalize hst : ({ st with
            nextToolIndex := st.nextToolIndex + 1
            toolIndexByBlock := st.toolIndexByBlock.set index st.nextToolIndex } :
              AnthropicStreamState) = st'
          have hstart : st.handle (.content_block_start index (.tool_use id name)) =
              .ok ([.tool_call_start st.nextToolIndex id name], st') := by
            unfold AnthropicStreamState.handle
            dsimp only
            rw [htool, ← hst, ← htool]
            exact if_neg (htool ▸ ne_true_of_eq_false hschema)
          have hdeltas : st'.handleAll ((ts.map .input_json_delta).map
              (.content_block_delta index)) =
                .ok (ts.map (.tool_call_delta (st.nextToolIndex : ℚ)), st') := by
            have hget : st'.toolIndexByBlock.get index = some st.nextToolIndex := by
              rw [← hst]
              exact JsMap.get_set_self _ _ _
            have hother : st'.schemaBlockIndex ≠ some index := by
              rw [← hst]
              exact hfresh
            rw [List.map_map]
            exact handleAll_arguments hget hother ts
          have hrun : st.handleAll (SentBlock.events ⟨index, .tool_use id name input, _⟩) =
              .ok ([.tool_call_start st.nextToolIndex id name] ++
                ts.map (.tool_call_delta (st.nextToolIndex : ℚ)), st') :=
            handleAll_events hstart hdeltas
          subst hst
          refine ⟨_, _, hrun, ⟨rfl, rfl, rfl, ?_, ?_⟩, ?_, ?_, ?_⟩
          · exact (if_neg (ne_true_of_eq_false hs)).symm
          · exact (if_pos hc).symm
          · rw [textOf_append, textOf_map_delta]
            unfold SentBlock.content
            dsimp only
            rw [hschema]
            rfl
          · intro c hc
            rcases List.mem_cons.1 hc with rfl | hc
            · rfl
            · obtain ⟨t, -, rfl⟩ := List.mem_map.1 hc
              rfl
          · intro acc hacc
            unfold SentBlock.calls
            dsimp only
            rw [hschema, hbsent]
            exact collect_map_delta ⟨st.nextToolIndex, id, name, []⟩ hacc ts

/-! ### All blocks -/

/-- The tool calls of blocks as they are collected, from an index on. -/
def streamedCalls (schemaTool : Option JsString) : ℕ → List SentBlock → List CollectedCall
  | _, [] => []
  | k, b :: bs => b.calls schemaTool k ++
      streamedCalls schemaTool (if b.block.isCall schemaTool then k + 1 else k) bs

theorem mem_calls {k : ℕ} {c : CollectedCall} (h : c ∈ b.calls schemaTool k) :
    c.index = k ∧ b.block.isCall schemaTool = true := by
  unfold SentBlock.calls at h
  unfold ResponseBlock.isCall
  split at h
  · rename_i id name input hblock
    split at h
    · cases h
    · rename_i hschema
      rw [List.mem_singleton.1 h, Bool.eq_false_iff.2 hschema]
      exact ⟨rfl, rfl⟩
  · cases h

/-- What comes of the events of the blocks of a message. -/
structure HandledAll (schemaTool : Option JsString) (st : AnthropicStreamState)
    (blocks : List SentBlock) (out : List StreamChunk) (st' : AnthropicStreamState) : Prop where
  run : st.handleAll (blocks.flatMap SentBlock.events) = .ok (out, st')
  usage : st'.usage = st.usage
  stopReason : st'.stopReason = st.stopReason
  schema : st'.schemaBlockIndex.isSome = true ↔
    st.schemaBlockIndex.isSome = true ∨ ∃ b ∈ blocks, b.block.isSchema schemaTool = true
  noCall : st'.nextToolIndex = 0 ↔
    st.nextToolIndex = 0 ∧ ∀ b ∈ blocks, b.block.isCall schemaTool = false
  text : textOf out = blocks.flatMap (SentBlock.content schemaTool)
  content : ∀ c ∈ out, c.isContent = true
  calls : ∀ acc : List CollectedCall, (∀ c ∈ acc, c.index < st.nextToolIndex) →
    out.foldl CollectedCall.collect acc = acc ++ streamedCalls schemaTool st.nextToolIndex blocks

/-- **Blocks with indices of their own are translated one after another.** -/
theorem handled_blocks [Platform] {blocks : List SentBlock}
    (hsent : ∀ b ∈ blocks, b.block.SentAs schemaTool b.deltas) (htool : st.schemaTool = schemaTool)
    (hnodup : (blocks.map SentBlock.index).Nodup)
    (hfresh : ∀ b ∈ blocks, st.schemaBlockIndex ≠ some b.index) :
    ∃ out st', HandledAll schemaTool st blocks out st' := by
  induction blocks generalizing st with
  | nil => exact ⟨[], st, rfl, rfl, rfl, by simp, by simp, rfl, fun c hc => (by cases hc),
      fun acc _ => (List.append_nil acc).symm⟩
  | cons b bs ih =>
      obtain ⟨hb, hbs⟩ := List.forall_mem_cons.1 hsent
      obtain ⟨hnew, hrest⟩ := List.nodup_cons.1 hnodup
      obtain ⟨hfirst, hothers⟩ := List.forall_mem_cons.1 hfresh
      obtain ⟨out, mid, hone⟩ := handled_block hb htool hfirst
      have hafter := hone.after
      have hfresh' : ∀ b' ∈ bs, mid.schemaBlockIndex ≠ some b'.index := by
        intro b' hb' heq
        rw [hafter.schemaBlockIndex] at heq
        split at heq
        · exact hnew (List.mem_map.2 ⟨b', hb', (Option.some.inj heq).symm⟩)
        · exact hothers b' hb' heq
      obtain ⟨out', st', hmore⟩ := ih hbs (hafter.schemaTool.trans htool) hrest hfresh'
      have hschema := hafter.schemaBlockIndex
      have hnext := hafter.nextToolIndex
      rw [htool] at hschema hnext
      refine ⟨out ++ out', st', AnthropicStreamState.handleAll_append hone.run hmore.run,
        hmore.usage.trans hafter.usage, hmore.stopReason.trans hafter.stopReason, ?_, ?_, ?_, ?_, ?_⟩
      · rw [hmore.schema, hschema, List.exists_mem_cons_iff]
        cases b.block.isSchema schemaTool with
        | true => simp
        | false => simp
      · rw [hmore.noCall, hnext, List.forall_mem_cons]
        cases b.block.isCall schemaTool with
        | true => simp
        | false => simp
      · rw [textOf_append, hone.text, hmore.text, List.flatMap_cons]
      · intro c hc
        rcases List.mem_append.1 hc with hc | hc
        · exact hone.content c hc
        · exact hmore.content c hc
      · intro acc hacc
        have hle : st.nextToolIndex ≤ mid.nextToolIndex := by
          rw [hnext]
          split <;> omega
        have hacc' : ∀ c ∈ acc ++ b.calls schemaTool st.nextToolIndex,
            c.index < mid.nextToolIndex := by
          intro c hc
          rcases List.mem_append.1 hc with hc | hc
          · exact lt_of_lt_of_le (hacc c hc) (by exact_mod_cast hle)
          · obtain ⟨hindex, hcall⟩ := mem_calls hc
            rw [hindex, hnext, if_pos hcall]
            exact_mod_cast Nat.lt_succ_self _
        rw [List.foldl_append, hone.calls acc fun c hc => ne_of_lt (hacc c hc),
          hmore.calls _ hacc', List.append_assoc, hnext]
        rfl

/-! ### The end of the message -/

/-- The usage and the stop reason of a message reach its finish. -/
theorem handleAll_end {m : RawMessage} {start : RawUsage} {output : Option ℚ}
    (husage : UsageSent m.usage start output) (hst : st.usage = toUsage start)
    (hstop : st.stopReason = .stop) :
    ∃ st', st.handleAll [.message_delta m.stop_reason output, .message_stop] =
      .ok ([.finish (if st.schemaBlockIndex.isSome ∧
          normalizeStopReason m.stop_reason = .tool_calls ∧ st.nextToolIndex = 0 then .stop
        else normalizeStopReason m.stop_reason) (some (toUsage m.usage))], st') := by
  obtain ⟨content, reason, usage⟩ := m
  have hdelta : st.handle (.message_delta reason output) =
      .ok ([], { st with stopReason := normalizeStopReason reason, usage := toUsage usage }) := by
    have hstate : st = { st with stopReason := .stop, usage := toUsage start } := by
      rw [← hst, ← hstop]
    have husage' : usage = { start with output_tokens := output.getD start.output_tokens } := husage
    rw [husage', hstate]
    unfold AnthropicStreamState.handle
    cases reason with
    | none => cases output <;> rfl
    | some r =>
        by_cases hr : r = []
        · rw [hr]
          cases output <;> rfl
        · have hfilter : (some r).filter (fun r => decide (r ≠ [])) = some r := by
            simp [Option.filter, hr]
          dsimp only
          rw [hfilter]
          cases output <;> rfl
  generalize hlast : ({ st with stopReason := normalizeStopReason reason, usage := toUsage usage } :
    AnthropicStreamState) = last at hdelta
  have hstopped : last.handleAll [.message_stop] =
      .ok ([.finish (if st.schemaBlockIndex.isSome ∧ normalizeStopReason reason = .tool_calls ∧
          st.nextToolIndex = 0 then .stop else normalizeStopReason reason)
        (some (toUsage usage))], last) := by
    rw [← hlast]
    rfl
  exact ⟨last, AnthropicStreamState.handleAll_cons hdelta hstopped⟩

/-! ### The two translations -/

/-- A tool use without an input. -/
def ResponseBlock.lacksInput : ResponseBlock → Bool
  | .tool_use _ _ none => true
  | _ => false

def ResponseBlock.isToolUse : ResponseBlock → Bool
  | .tool_use _ _ _ => true
  | _ => false

/-- The content of a block is the same either way, unless the schema tool has no input. -/
theorem content_eq [Platform] (hsent : b.block.SentAs schemaTool b.deltas)
    (h : b.block.isSchema schemaTool = true → b.block.lacksInput = false) :
    b.content schemaTool = b.block.content schemaTool := by
  obtain ⟨index, block, ds⟩ := b
  dsimp only at hsent h
  cases block with
  | text t =>
      obtain ⟨ts, rfl, ht⟩ := hsent
      exact sent_text.trans ht
  | thinking t => rfl
  | redacted_thinking => rfl
  | tool_use id name input =>
      unfold SentBlock.content ResponseBlock.content
      dsimp only
      cases hschema : isSchemaTool schemaTool name with
      | false => rfl
      | true =>
          cases input with
          | none => cases h hschema
          | some v =>
              obtain ⟨ts, rfl, -, ht⟩ := hsent
              exact sent_json.trans (ht hschema)

/-- The schema tool without an input adds nothing to a stream, and a word to the message. -/
theorem content_lacking [Platform] (hsent : b.block.SentAs schemaTool b.deltas)
    (hschema : b.block.isSchema schemaTool = true) (hlacks : b.block.lacksInput = true) :
    b.content schemaTool = [] ∧ b.block.content schemaTool = js "undefined" := by
  obtain ⟨index, block, ds⟩ := b
  dsimp only at hsent hschema hlacks
  cases block with
  | tool_use id name input =>
      have hname : isSchemaTool schemaTool name = true := hschema
      cases input with
      | some v => cases hlacks
      | none =>
          have hnil : ds = [] := hsent
          unfold SentBlock.content ResponseBlock.content
          dsimp only
          rw [hname, hnil]
          exact ⟨rfl, rfl⟩
  | _ => cases hschema

/-- A stream never has more content than the message, and less when the schema tool lacks its
input. -/
theorem contents_length [Platform] {blocks : List SentBlock}
    (hsent : ∀ b ∈ blocks, b.block.SentAs schemaTool b.deltas) :
    (blocks.flatMap (SentBlock.content schemaTool)).length ≤
        (blocks.flatMap fun b => b.block.content schemaTool).length ∧
      ((∃ b ∈ blocks, b.block.isSchema schemaTool = true ∧ b.block.lacksInput = true) →
        (blocks.flatMap (SentBlock.content schemaTool)).length <
          (blocks.flatMap fun b => b.block.content schemaTool).length) := by
  induction blocks with
  | nil => exact ⟨le_refl _, fun h => (by obtain ⟨b, hb, -⟩ := h; cases hb)⟩
  | cons b bs ih =>
      obtain ⟨hb, hbs⟩ := List.forall_mem_cons.1 hsent
      obtain ⟨hle, hlt⟩ := ih hbs
      rw [List.flatMap_cons, List.flatMap_cons, List.length_append, List.length_append]
      by_cases hlacks : b.block.isSchema schemaTool = true ∧ b.block.lacksInput = true
      · obtain ⟨hnil, hword⟩ := content_lacking hb hlacks.1 hlacks.2
        have hlength : (js "undefined").length = 9 := by decide
        rw [hnil, hword, hlength, List.length_nil]
        exact ⟨by omega, fun _ => by omega⟩
      · rw [content_eq hb fun hschema => Bool.eq_false_iff.2 fun h => hlacks ⟨hschema, h⟩]
        refine ⟨by omega, fun h => ?_⟩
        obtain ⟨b', hb', hmore⟩ := h
        rcases List.mem_cons.1 hb' with rfl | hb'
        · exact absurd hmore hlacks
        · have hrest := hlt ⟨b', hb', hmore⟩
          omega

/-- The contents agree exactly when the schema tool always has its input. -/
theorem contents_eq_iff [Platform] {blocks : List SentBlock}
    (hsent : ∀ b ∈ blocks, b.block.SentAs schemaTool b.deltas) :
    blocks.flatMap (SentBlock.content schemaTool) =
        blocks.flatMap (fun b => b.block.content schemaTool) ↔
      ∀ b ∈ blocks, b.block.isSchema schemaTool = true → b.block.lacksInput = false := by
  constructor
  · intro heq b hb hschema
    rw [Bool.eq_false_iff]
    intro hlacks
    have hlt := (contents_length hsent).2 ⟨b, hb, hschema, hlacks⟩
    rw [heq] at hlt
    exact lt_irrefl _ hlt
  · intro hall
    have hmap : blocks.map (SentBlock.content schemaTool) =
        blocks.map fun b => b.block.content schemaTool :=
      List.map_congr_left fun b hb => content_eq (hsent b hb) (hall b hb)
    rw [List.flatMap_def, List.flatMap_def, hmap]

/-- The call of a block is the same either way exactly when it has an input. -/
theorem sameCall_iff [Platform] {k : ℕ} {id name : JsString} {input : Option Json}
    {index : ℚ} {ds : List BlockDelta}
    (hsent : (ResponseBlock.tool_use id name input).SentAs schemaTool ds) :
    SameCall ⟨k, id, name, SentBlock.sent ⟨index, .tool_use id name input, ds⟩⟩
        ⟨id, name, stringify Platform.numberText (input.getD (.obj []))⟩ ↔
      (ResponseBlock.tool_use id name input).lacksInput = false := by
  cases input with
  | some v =>
      obtain ⟨ts, rfl, hparse, -⟩ := hsent
      rw [sent_json]
      exact ⟨fun _ => rfl, fun _ => ⟨rfl, rfl, hparse⟩⟩
  | none =>
      have hnil : ds = [] := hsent
      rw [hnil]
      constructor
      · intro h
        have hparse : (parseData (js "\x7b\x7d")).isSome = true := by decide
        have hsame : parseData [] = parseData (js "\x7b\x7d") := h.2.2
        rw [← hsame] at hparse
        cases hparse
      · intro h
        cases h

/-- The tool calls agree exactly when every call has an input. -/
theorem calls_agree_iff [Platform] {blocks : List SentBlock} (k : ℕ)
    (hsent : ∀ b ∈ blocks, b.block.SentAs schemaTool b.deltas) :
    List.Forall₂ SameCall (streamedCalls schemaTool k blocks)
        (blocks.flatMap fun b => b.block.toolCalls schemaTool) ↔
      ∀ b ∈ blocks, b.block.isCall schemaTool = true → b.block.lacksInput = false := by
  induction blocks generalizing k with
  | nil => exact ⟨fun _ b hb => (by cases hb), fun _ => List.Forall₂.nil⟩
  | cons b bs ih =>
      obtain ⟨hb, hbs⟩ := List.forall_mem_cons.1 hsent
      unfold streamedCalls
      rw [List.flatMap_cons, List.forall_mem_cons]
      cases hcall : b.block.isCall schemaTool with
      | false =>
          have hnone : b.calls schemaTool k = [] ∧ b.block.toolCalls schemaTool = [] := by
            obtain ⟨index, block, ds⟩ := b
            cases block with
            | tool_use id name input =>
                have hschema : isSchemaTool schemaTool name = true := by
                  have hnot : (!isSchemaTool schemaTool name) = false := hcall
                  simpa using hnot
                unfold SentBlock.calls ResponseBlock.toolCalls
                dsimp only
                rw [if_pos hschema, if_pos hschema]
                exact ⟨rfl, rfl⟩
            | _ => exact ⟨rfl, rfl⟩
          rw [hnone.1, hnone.2, List.nil_append, List.nil_append, ih _ hbs]
          exact ⟨fun h => ⟨fun hfalse => (by cases hfalse), h⟩, fun h => h.2⟩
      | true =>
          obtain ⟨index, block, ds⟩ := b
          cases block with
          | tool_use id name input =>
              have hschema : isSchemaTool schemaTool name ≠ true := by
                have hnot : (!isSchemaTool schemaTool name) = true := hcall
                simpa using hnot
              have hstreamed : SentBlock.calls schemaTool k ⟨index, .tool_use id name input, ds⟩ =
                  [⟨k, id, name, SentBlock.sent ⟨index, .tool_use id name input, ds⟩⟩] :=
                if_neg hschema
              have hwhole : (ResponseBlock.tool_use id name input).toolCalls schemaTool =
                  [⟨id, name, stringify Platform.numberText (input.getD (.obj []))⟩] :=
                if_neg hschema
              rw [hstreamed, hwhole, if_pos rfl, List.singleton_append,
                List.singleton_append, List.forall₂_cons, sameCall_iff hb, ih _ hbs]
              exact ⟨fun h => ⟨fun _ => h.1, h.2⟩, fun h => ⟨h.1 rfl, h.2⟩⟩
          | _ => cases hcall

/-- A block is a tool use of the schema tool or a call, or no tool use. -/
theorem isToolUse_eq (schemaTool : Option JsString) (block : ResponseBlock) :
    block.isToolUse = (block.isSchema schemaTool || block.isCall schemaTool) := by
  cases block with
  | tool_use id name input =>
      show true = (isSchemaTool schemaTool name || !isSchemaTool schemaTool name)
      rw [Bool.or_not_self]
  | _ => rfl

theorem lacksInput_toolUse {block : ResponseBlock} (h : block.lacksInput = true) :
    block.isToolUse = true := by
  cases block with
  | tool_use => rfl
  | _ => cases h

theorem schemaTool_of_isSchema {block : ResponseBlock} (h : block.isSchema schemaTool = true) :
    schemaTool.any (fun tool => tool ≠ []) = true := by
  cases block with
  | tool_use id name input =>
      have hname : isSchemaTool schemaTool name = true := h
      unfold isSchemaTool at hname
      rw [Option.any_eq_true] at hname ⊢
      obtain ⟨tool, htool, hboth⟩ := hname
      exact ⟨tool, htool, decide_eq_true (of_decide_eq_true hboth).1⟩
  | _ => cases h

theorem toolCalls_nil_iff [Platform] (content : List ResponseBlock) :
    content.flatMap (ResponseBlock.toolCalls schemaTool) = [] ↔
      ∀ block ∈ content, block.isCall schemaTool = false := by
  rw [List.flatMap_eq_nil_iff]
  apply forall₂_congr
  intro block _
  cases block with
  | tool_use id name input =>
      unfold ResponseBlock.toolCalls ResponseBlock.isCall
      cases isSchemaTool schemaTool name <;> simp
  | _ => exact ⟨fun _ => rfl, fun _ => rfl⟩

/-- The two finish reasons differ when a schema tool is asked for and nothing is used. -/
theorem finish_eq_iff {reason : FinishReason} {used asked none : Prop} [Decidable used]
    [Decidable asked] [Decidable none] (h : used → asked) :
    (if used ∧ reason = .tool_calls ∧ none then FinishReason.stop else reason) =
        (if asked ∧ reason = .tool_calls ∧ none then FinishReason.stop else reason) ↔
      ¬(asked ∧ reason = .tool_calls ∧ none ∧ ¬used) := by
  by_cases hreason : reason = .tool_calls
  · rw [hreason]
    by_cases hused : used
    · simp [hused, h hused]
    · by_cases hasked : asked
      · by_cases hnone : none
        · simp [hused, hasked, hnone]
        · simp [hnone]
      · simp [hused, hasked]
  · simp [hreason]

/-- The chunks of a streamed message, with the state of the stream before its end. -/
theorem streams_run [Platform] {m : RawMessage} {events : List AnthropicStreamEvent}
    (h : Streams schemaTool m events) :
    ∃ blocks out mid st, m.content = blocks.map SentBlock.block ∧
      (∀ b ∈ blocks, b.block.SentAs schemaTool b.deltas) ∧
      (∃ start, HandledAll schemaTool { schemaTool, usage := toUsage start } blocks out mid) ∧
      ({ schemaTool } : AnthropicStreamState).handleAll events =
        .ok (out ++ [.finish (if mid.schemaBlockIndex.isSome ∧
          normalizeStopReason m.stop_reason = .tool_calls ∧ mid.nextToolIndex = 0 then .stop
        else normalizeStopReason m.stop_reason) (some (toUsage m.usage))], st) := by
  obtain ⟨blocks, start, output, hcontent, hnodup, hsent, husage, hevents⟩ := h
  obtain ⟨out, mid, hblocks⟩ := @handled_blocks schemaTool
    { schemaTool, usage := toUsage start } _ blocks hsent rfl hnodup fun b _ heq => (by cases heq)
  obtain ⟨st, hend⟩ := handleAll_end husage hblocks.usage hblocks.stopReason
  have hrun := AnthropicStreamState.handleAll_append hblocks.run hend
  refine ⟨blocks, out, mid, st, hcontent, hsent, ⟨start, hblocks⟩, ?_⟩
  rw [AnthropicStreamState.handleAll_pings, hevents]
  exact @AnthropicStreamState.handleAll_cons { schemaTool } _ [] _ _ _ rfl _ hrun

/-- What a finished stream agrees with, block by block. -/
theorem agrees_iff {blocks : List SentBlock} {out : List StreamChunk} {start : RawUsage}
    {mid : AnthropicStreamState}
    (h : HandledAll schemaTool { schemaTool, usage := toUsage start } blocks out mid)
    (reason : FinishReason) (usage : AIUsage) (t : TranslatedResponse) :
    SameAnswer (out ++ [.finish reason (some usage)]) t ↔
      blocks.flatMap (SentBlock.content schemaTool) = t.content ∧
        List.Forall₂ SameCall (streamedCalls schemaTool 0 blocks) t.toolCalls ∧
        reason = t.finishReason ∧ usage = t.usage := by
  have htext : textOf (out ++ [.finish reason (some usage)]) =
      blocks.flatMap (SentBlock.content schemaTool) := by
    rw [textOf_append, h.text]
    exact List.append_nil _
  have hcalls : collectCalls (out ++ [.finish reason (some usage)]) =
      streamedCalls schemaTool 0 blocks := by
    unfold collectCalls
    rw [List.foldl_append, h.calls [] fun c hc => (by cases hc)]
    rfl
  have hnone : out.filter (fun c => !c.isContent) = [] := by
    rw [List.filter_eq_nil_iff]
    intro c hc
    rw [h.content c hc]
    exact Bool.false_ne_true
  have hfinish : (out ++ [StreamChunk.finish reason (some usage)]).filter
      (fun c => !c.isContent) = [.finish reason (some usage)] := by
    rw [List.filter_append, hnone]
    rfl
  constructor
  · intro hagrees
    have hlast := hagrees.finish
    rw [hfinish] at hlast
    obtain ⟨hreason, husage⟩ := StreamChunk.finish.inj (List.singleton_inj.1 hlast)
    exact ⟨htext ▸ hagrees.content, hcalls ▸ hagrees.toolCalls, hreason, Option.some.inj husage⟩
  · intro hparts
    obtain ⟨hcontent, hforall, hreason, husage⟩ := hparts
    exact ⟨htext.trans hcontent, hcalls ▸ hforall, by rw [hfinish, hreason, husage]⟩

end

end Anthropic

open Anthropic in
/-- **Exactly when a streamed message agrees with the whole.**  However its blocks are cut into
fragments, and wherever pings come, the events of a message are translated to the same content, the
same tool calls, the same finish reason and the same usage as the message itself, exactly when every
tool use has an input, and the provider does not stop for tool use without one under a schema
tool. -/
theorem streamed_agrees_iff [Platform] (issue : String) (raw : Json) (served : Served)
    (schemaTool : Option JsString) (m : RawMessage) (events : List AnthropicStreamEvent)
    (hraw : responseSchema raw = some m) (h : Streams schemaTool m events) :
    ∃ t chunks st, translateAnthropicResponse issue raw served schemaTool = .ok t ∧
      ({ schemaTool } : AnthropicStreamState).handleAll events = .ok (chunks, st) ∧
      (SameAnswer chunks t ↔ (∀ block ∈ m.content, block.lacksInput = false) ∧
        ¬(schemaTool.any (fun tool => tool ≠ []) = true ∧
          normalizeStopReason m.stop_reason = .tool_calls ∧
          ∀ block ∈ m.content, block.isToolUse = false)) := by
  obtain ⟨blocks, out, mid, st, hcontent, hsent, ⟨start, hblocks⟩, hrun⟩ := streams_run h
  refine ⟨translateMessage m served schemaTool, _, st, ?_, hrun, ?_⟩
  · unfold translateAnthropicResponse
    rw [hraw]
  rw [agrees_iff hblocks]
  have hmem : ∀ p : ResponseBlock → Prop, (∀ block ∈ m.content, p block) ↔
      ∀ b ∈ blocks, p b.block := by
    intro p
    rw [hcontent, List.forall_mem_map]
  have htext : (translateMessage m served schemaTool).content =
      blocks.flatMap fun b => b.block.content schemaTool := by
    show m.content.flatMap (ResponseBlock.content schemaTool) = _
    rw [hcontent, List.flatMap_map]
  have hcalls : (translateMessage m served schemaTool).toolCalls =
      blocks.flatMap fun b => b.block.toolCalls schemaTool := by
    show m.content.flatMap (ResponseBlock.toolCalls schemaTool) = _
    rw [hcontent, List.flatMap_map]
  have hnoCall : mid.nextToolIndex = 0 ↔
      m.content.flatMap (ResponseBlock.toolCalls schemaTool) = [] := by
    rw [hblocks.noCall, toolCalls_nil_iff, hmem]
    exact ⟨fun h => h.2, fun h => ⟨rfl, h⟩⟩
  have hschema : mid.schemaBlockIndex.isSome = true ↔
      ∃ b ∈ blocks, b.block.isSchema schemaTool = true := by
    rw [hblocks.schema]
    exact ⟨fun h => h.resolve_left Bool.false_ne_true, Or.inr⟩
  have hasked : mid.schemaBlockIndex.isSome = true →
      schemaTool.any (fun tool => tool ≠ []) = true := by
    intro hused
    obtain ⟨b, -, hb⟩ := hschema.1 hused
    exact schemaTool_of_isSchema hb
  have hfinish : ((if mid.schemaBlockIndex.isSome ∧
        normalizeStopReason m.stop_reason = .tool_calls ∧ mid.nextToolIndex = 0 then
          FinishReason.stop else normalizeStopReason m.stop_reason) =
        (translateMessage m served schemaTool).finishReason) ↔
      ¬(schemaTool.any (fun tool => tool ≠ []) = true ∧
          normalizeStopReason m.stop_reason = .tool_calls ∧
          ∀ block ∈ m.content, block.isToolUse = false) := by
    unfold translateMessage
    simp only [hnoCall]
    rw [finish_eq_iff hasked, hschema, toolCalls_nil_iff, hmem, hmem]
    simp only [isToolUse_eq schemaTool, Bool.or_eq_false_iff, not_exists, not_and,
      Bool.not_eq_true, forall_and]
    tauto
  rw [htext, hcalls, contents_eq_iff hsent, calls_agree_iff 0 hsent, hfinish,
    hmem fun block => block.lacksInput = false]
  constructor
  · intro hparts
    obtain ⟨hschemas, hcallsHave, hlast, -⟩ := hparts
    refine ⟨fun b hb => ?_, hlast⟩
    rw [Bool.eq_false_iff]
    intro hlacks
    have huse := lacksInput_toolUse hlacks
    rw [isToolUse_eq schemaTool, Bool.or_eq_true] at huse
    rcases huse with huse | huse
    · rw [hschemas b hb huse] at hlacks
      cases hlacks
    · rw [hcallsHave b hb huse] at hlacks
      cases hlacks
  · intro hcond
    exact ⟨fun b hb _ => hcond.1 b hb, fun b hb _ => hcond.1 b hb, hcond.2, rfl⟩

/-! ### Samples -/

namespace Sample

open Anthropic

/-- A message of the API with some blocks. -/
def apiMessage (blocks : List Json) (reason : String) : Json :=
  .obj [(js "content", .arr blocks), (js "stop_reason", .str (js reason)), (js "usage", .obj [])]

def noTokens : Anthropic.RawUsage := ⟨0, 0, none, none⟩

def toolInput : Json := .obj [(js "a", .num 1)]

/-- A text and a tool use. -/
def answerBlocks : List SentBlock :=
  [⟨0, .text (js "Hi"), [.text_delta (js "H"), .text_delta (js "i")]⟩,
    ⟨1, .tool_use (js "t") (js "f") (some toolInput),
      [.input_json_delta (js "\x7b\"a\""), .input_json_delta (js ":1\x7d")]⟩]

def answerEvents : List AnthropicStreamEvent :=
  .ping :: .message_start noTokens :: (answerBlocks.flatMap SentBlock.events ++
    [.ping, .message_delta (some (js "tool_use")) none, .message_stop])

theorem answer_streams : letI := platform
    Streams none ⟨answerBlocks.map SentBlock.block, some (js "tool_use"), noTokens⟩
      answerEvents := by
  let := platform
  refine ⟨answerBlocks, noTokens, none, rfl, by decide, ?_, rfl, rfl⟩
  intro b hb
  rcases List.mem_cons.1 hb with rfl | hb
  · exact ⟨[js "H", js "i"], rfl, rfl⟩
  · rw [List.mem_singleton.1 hb]
    refine ⟨[js "\x7b\"a\"", js ":1\x7d"], rfl, ?_, fun h => (by cases h)⟩
    have hspelled : [js "\x7b\"a\"", js ":1\x7d"].flatten =
        Json.stringify Platform.numberText toolInput := by
      decide
    rw [hspelled]

def answerMessage : Json :=
  apiMessage [.obj [(js "type", .str (js "text")), (js "text", .str (js "Hi"))],
    .obj [(js "type", .str (js "tool_use")), (js "id", .str (js "t")), (js "name", .str (js "f")),
      (js "input", toolInput)]] "tool_use"

theorem answer_agrees : letI := platform
    ∃ t chunks st,
      translateAnthropicResponse "" answerMessage ⟨"", cloudProviderId, 0⟩ none = .ok t ∧
      ({} : AnthropicStreamState).handleAll answerEvents = .ok (chunks, st) ∧ SameAnswer chunks t := by
  let := platform
  obtain ⟨t, chunks, st, ht, hrun, hagrees⟩ := streamed_agrees_iff "" answerMessage
    ⟨"", cloudProviderId, 0⟩ none _ answerEvents rfl answer_streams
  refine ⟨t, chunks, st, ht, hrun, hagrees.2 ⟨?_, fun h => (by cases h.1)⟩⟩
  intro block hblock
  rcases List.mem_cons.1 hblock with rfl | hblock
  · rfl
  · rw [List.mem_singleton.1 hblock]
    rfl

/-- A tool use without an input. -/
def bareUse : List SentBlock := [⟨0, .tool_use (js "t") (js "f") none, []⟩]

def bareMessage : Json :=
  apiMessage [.obj [(js "type", .str (js "tool_use")), (js "id", .str (js "t")),
    (js "name", .str (js "f"))]] "tool_use"

/-- **A tool use without an input has no arguments when it is streamed.** -/
theorem bareUse_disagrees : letI := platform
    ¬∀ (issue : String) (raw : Json) (served : Served) (schemaTool : Option JsString)
      (m : RawMessage) (events : List AnthropicStreamEvent), responseSchema raw = some m →
      Streams schemaTool m events → ∀ t chunks st,
        translateAnthropicResponse issue raw served schemaTool = .ok t →
        ({ schemaTool } : AnthropicStreamState).handleAll events = .ok (chunks, st) →
          SameAnswer chunks t := by
  let := platform
  intro hall
  have hstreams : Streams none ⟨bareUse.map SentBlock.block, some (js "tool_use"), noTokens⟩
      (.message_start noTokens :: (bareUse.flatMap SentBlock.events ++
        [.message_delta (some (js "tool_use")) none, .message_stop])) :=
    ⟨bareUse, noTokens, none, rfl, by decide, fun b hb => by rw [List.mem_singleton.1 hb]; rfl,
      rfl, rfl⟩
  have hagrees := hall "" bareMessage ⟨"", cloudProviderId, 0⟩ none _ _ rfl hstreams _ _ _ rfl rfl
  have hsame : SameCall ⟨0, js "t", js "f", []⟩ ⟨js "t", js "f", js "\x7b\x7d"⟩ :=
    (List.forall₂_cons.1 hagrees.toolCalls).1
  have hparse : (parseData (js "\x7b\x7d")).isSome = true := by decide
  rw [← hsame.2.2] at hparse
  cases hparse

end Sample

end VibeRouter
