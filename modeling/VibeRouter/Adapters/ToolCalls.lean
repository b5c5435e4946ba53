import VibeRouter.Adapters.OpenaiCompat
import VibeRouter.Db.Tables
import VibeRouter.Lib.Interleave

/-! # Tool calls in an OpenAI-compatible stream

What a client collects from the chunks of a stream, and what `OpenAiStreamState` makes of the
fragments a provider sends: tool calls with an index of their own come back whole however their
fragments are interleaved, and so do calls without indices, one after another. -/

namespace VibeRouter

/-! ### Collecting -/

/-- A tool call as a client collects it. -/
structure CollectedCall where
  index : ℚ
  id : JsString
  name : JsString
  arguments : JsString
deriving DecidableEq

namespace StreamChunk

/-- The index a chunk starts. -/
def starts : StreamChunk → Option ℚ
  | tool_call_start index _ _ => some index
  | _ => none

/-- The index of a chunk of a tool call. -/
def callIndex : StreamChunk → Option ℚ
  | tool_call_start index _ _ => some index
  | tool_call_delta index _ => some index
  | _ => none

end StreamChunk

namespace CollectedCall

/-- More arguments for the call at an index. -/
def append (index : ℚ) (delta : JsString) (c : CollectedCall) : CollectedCall :=
  if c.index = index then { c with arguments := c.arguments ++ delta } else c

/-- A start opens a call; a delta goes to the call at its index. -/
def collect (calls : List CollectedCall) : StreamChunk → List CollectedCall
  | .tool_call_start index id name => calls ++ [⟨index, id, name, []⟩]
  | .tool_call_delta index delta => calls.map (append index delta)
  | _ => calls

theorem append_index (index : ℚ) (delta : JsString) (c : CollectedCall) :
    (append index delta c).index = c.index := by
  unfold append
  split <;> rfl

theorem append_of_ne {index : ℚ} {delta : JsString} {c : CollectedCall} (h : c.index ≠ index) :
    append index delta c = c := by
  unfold append
  rw [if_neg h]

theorem map_append_of_ne {index : ℚ} {delta : JsString} {calls : List CollectedCall}
    (h : ∀ c ∈ calls, c.index ≠ index) : calls.map (append index delta) = calls := by
  have hsame : calls.map (append index delta) = calls.map fun c => c :=
    List.map_congr_left fun c hc => append_of_ne (h c hc)
  rw [hsame, List.map_id']

/-- A delta for the call collected last. -/
theorem collect_last {calls : List CollectedCall} (call : CollectedCall)
    (hne : ∀ c ∈ calls, c.index ≠ call.index) (delta : JsString) :
    collect (calls ++ [call]) (.tool_call_delta call.index delta) =
      calls ++ [{ call with arguments := call.arguments ++ delta }] := by
  show (calls ++ [call]).map (append call.index delta) = _
  rw [List.map_append, map_append_of_ne hne]
  unfold append
  simp

/-- A start opens a call; a delta opens none. -/
theorem collect_index (calls : List CollectedCall) (c : StreamChunk) :
    (collect calls c).map index = calls.map index ++ c.starts.toList := by
  cases c with
  | tool_call_start index id name => simp [collect, StreamChunk.starts]
  | tool_call_delta i delta =>
      have hsame : (calls.map (append i delta)).map index = calls.map index := by
        rw [List.map_map]
        exact List.map_congr_left fun c _ => append_index i delta c
      show (calls.map (append i delta)).map index = _
      rw [hsame]
      exact (List.append_nil _).symm
  | text_delta delta => exact (List.append_nil _).symm
  | finish reason usage => exact (List.append_nil _).symm

/-- What is collected at one index does not depend on chunks at another. -/
theorem collect_filter (calls : List CollectedCall) (c : StreamChunk) (i : ℚ) :
    (collect calls c).filter (fun c => c.index = i) =
      if c.callIndex = some i then collect (calls.filter fun c => c.index = i) c
      else calls.filter fun c => c.index = i := by
  cases c with
  | tool_call_start index id name =>
      by_cases hi : index = i
      · simp [collect, StreamChunk.callIndex, List.filter_append, hi]
      · simp [collect, StreamChunk.callIndex, List.filter_append, hi]
  | tool_call_delta index delta =>
      have hsame : (fun c : CollectedCall => decide (c.index = i)) ∘ append index delta =
          fun c => decide (c.index = i) := by
        funext c
        rw [Function.comp_apply, append_index]
      show (calls.map (append index delta)).filter _ = _
      rw [List.filter_map, hsame]
      by_cases hi : index = i
      · rw [if_pos (by rw [hi]; rfl)]
        rfl
      · rw [if_neg (by simp [StreamChunk.callIndex, hi]), map_append_of_ne]
        intro c hc heq
        have hindex := (List.mem_filter.1 hc).2
        exact hi (heq.symm.trans (of_decide_eq_true hindex))
  | text_delta delta => rw [if_neg (by simp [StreamChunk.callIndex])]; rfl
  | finish reason usage => rw [if_neg (by simp [StreamChunk.callIndex])]; rfl

end CollectedCall

/-- The text in the chunks of a stream. -/
def textOf (chunks : List StreamChunk) : JsString :=
  chunks.flatMap fun c => match c with
    | .text_delta delta => delta
    | _ => []

theorem textOf_append (cs ds : List StreamChunk) : textOf (cs ++ ds) = textOf cs ++ textOf ds :=
  List.flatMap_append

theorem textOf_cons (c : StreamChunk) (cs : List StreamChunk) :
    textOf (c :: cs) = textOf [c] ++ textOf cs :=
  textOf_append [c] cs

/-- The tool calls in the chunks of a stream. -/
def collectCalls (chunks : List StreamChunk) : List CollectedCall :=
  chunks.foldl CollectedCall.collect []

/-- One call is collected for each start. -/
theorem foldl_collect_index (calls : List CollectedCall) (chunks : List StreamChunk) :
    (chunks.foldl CollectedCall.collect calls).map CollectedCall.index =
      calls.map CollectedCall.index ++ chunks.filterMap StreamChunk.starts := by
  induction chunks generalizing calls with
  | nil => simp
  | cons c chunks ih =>
      rw [List.foldl_cons, ih, CollectedCall.collect_index, List.filterMap_cons, List.append_assoc]
      cases c.starts <;> rfl

/-- Only the chunks of tool calls are collected. -/
theorem collectCalls_filter (chunks : List StreamChunk) :
    collectCalls (chunks.filter fun c => c.callIndex.isSome) = collectCalls chunks := by
  unfold collectCalls
  rw [List.foldl_filter]
  congr 1
  funext calls c
  cases c <;> rfl

theorem collectCalls_index (chunks : List StreamChunk) :
    (collectCalls chunks).map CollectedCall.index = chunks.filterMap StreamChunk.starts :=
  foldl_collect_index [] chunks

/-- What is collected at one index comes from the chunks at this index. -/
theorem foldl_collect_filter (calls : List CollectedCall) (chunks : List StreamChunk) (i : ℚ) :
    (chunks.foldl CollectedCall.collect calls).filter (fun c => c.index = i) =
      (chunks.filter fun c => c.callIndex = some i).foldl CollectedCall.collect
        (calls.filter fun c => c.index = i) := by
  induction chunks generalizing calls with
  | nil => rfl
  | cons c chunks ih =>
      rw [List.foldl_cons, ih, CollectedCall.collect_filter]
      by_cases hi : c.callIndex = some i
      · rw [if_pos hi, List.filter_cons_of_pos (by simpa using hi), List.foldl_cons]
      · rw [if_neg hi, List.filter_cons_of_neg (by simpa using hi)]

/-! ### The stream state -/

namespace OpenaiCompat

/-- The tool calls of a frame. -/
def frameCalls (raw : Json) : List RawToolCall :=
  (((chunkSchema raw).bind RawChunk.choice).map RawChoice.tool_calls).getD []

/-- The fragments of tool calls in the frames of a stream. -/
def fragments (frames : List Json) : List RawToolCall := frames.flatMap frameCalls

/-- The arguments a fragment brings. -/
def RawToolCall.delta (tc : RawToolCall) : JsString := tc.arguments.getD []

namespace OpenAiStreamState

/-- An explicit index is never mapped to another. -/
def Steady (st : OpenAiStreamState) : Prop := ∀ i j, st.indexMap.get i = some j → j = i

theorem steady_empty : Steady {} := by
  intro i j h
  rw [show ({} : OpenAiStreamState).indexMap = JsMap.empty from rfl, JsMap.get_empty] at h
  cases h

/-- Has a call been started at the index? -/
def isStarted (st : OpenAiStreamState) (i : ℚ) : Bool := (st.started.get i).getD false

/-- The index a fragment goes to. -/
def slot (st : OpenAiStreamState) (tc : RawToolCall) : ℚ :=
  match tc.index with
  | some i => i
  | none => if tc.name.isSome then st.started.size else st.nextImplicitIndex

/-- Does the fragment open a call? -/
def opens (st : OpenAiStreamState) (tc : RawToolCall) : Bool :=
  tc.name.isSome && !st.isStarted (st.slot tc)

variable [Platform] {st : OpenAiStreamState} {tc : RawToolCall}

omit [Platform] in
theorem resolveIndex_spec (hst : st.Steady) (tc : RawToolCall) :
    (st.resolveIndex tc.index tc.name.isSome).1 = st.slot tc ∧
      (st.resolveIndex tc.index tc.name.isSome).2.Steady ∧
      (st.resolveIndex tc.index tc.name.isSome).2.started = st.started ∧
      (st.resolveIndex tc.index tc.name.isSome).2.nextImplicitIndex =
        if tc.index.isSome then st.nextImplicitIndex else st.slot tc := by
  unfold resolveIndex slot
  cases tc.index with
  | none => exact ⟨rfl, hst, rfl, rfl⟩
  | some raw =>
      dsimp only
      cases hget : st.indexMap.get raw with
      | some index => exact ⟨hst raw index hget, hst, rfl, rfl⟩
      | none =>
          refine ⟨rfl, ?_, rfl, rfl⟩
          intro i j h
          rw [JsMap.get_set] at h
          split at h
          · rename_i hi
            rw [← Option.some.inj h, hi]
          · exact hst i j h

/-- The chunk that starts the call of a fragment. -/
def startOf (st : OpenAiStreamState) (tc : RawToolCall) : List StreamChunk :=
  if st.opens tc then
    [.tool_call_start (st.slot tc) (tc.id.getD (syntheticId (st.slot tc))) (tc.name.getD [])]
  else []

/-- The chunk with the arguments of a fragment. -/
def deltaOf (st : OpenAiStreamState) (tc : RawToolCall) : List StreamChunk :=
  if tc.delta = [] then [] else [.tool_call_delta (st.slot tc) tc.delta]

omit [Platform] in
theorem nonEmpty_getD (s : Option JsString) :
    nonEmpty s = if s.getD [] = [] then none else some (s.getD []) := by
  unfold nonEmpty
  cases s with
  | none => rfl
  | some s => by_cases hs : s = [] <;> simp [hs, Option.filter]

/-- **What the state machine does with one fragment.** -/
theorem toolCall_spec (hst : st.Steady) (tc : RawToolCall) :
    (st.toolCall tc).1 = st.startOf tc ++ st.deltaOf tc ∧
      (st.toolCall tc).2.Steady ∧
      (st.toolCall tc).2.started =
        (if st.opens tc then st.started.set (st.slot tc) true else st.started) ∧
      (st.toolCall tc).2.nextImplicitIndex =
        (if tc.index.isSome then st.nextImplicitIndex else st.slot tc) := by
  obtain ⟨hslot, hsteady, hstarted, hnext⟩ := resolveIndex_spec hst tc
  unfold toolCall startOf deltaOf opens isStarted RawToolCall.delta
  rw [nonEmpty_getD]
  cases hname : tc.name with
  | none =>
      rw [hname] at hslot hsteady hstarted hnext
      dsimp only
      rw [hslot]
      refine ⟨?_, hsteady, hstarted, hnext⟩
      by_cases hdelta : tc.arguments.getD [] = []
      · rw [if_pos hdelta, if_pos hdelta]
        rfl
      · rw [if_neg hdelta, if_neg hdelta]
        rfl
  | some name =>
      rw [hname] at hslot hsteady hstarted hnext
      dsimp only
      rw [hslot, hstarted]
      cases hopen : (st.started.get (st.slot tc)).getD false with
      | true =>
          refine ⟨?_, hsteady, hstarted, hnext⟩
          by_cases hdelta : tc.arguments.getD [] = []
          · rw [if_pos hdelta, if_pos hdelta]
            rfl
          · rw [if_neg hdelta, if_neg hdelta]
            rfl
      | false =>
          refine ⟨?_, hsteady, ?_, hnext⟩
          · by_cases hdelta : tc.arguments.getD [] = []
            · rw [if_pos hdelta, if_pos hdelta]
              rfl
            · rw [if_neg hdelta, if_neg hdelta]
              rfl
          · rfl

theorem toolCall_callIndex (hst : st.Steady) {c : StreamChunk} (hc : c ∈ (st.toolCall tc).1) :
    c.callIndex = some (st.slot tc) := by
  rw [(toolCall_spec hst tc).1, List.mem_append] at hc
  unfold startOf deltaOf at hc
  rcases hc with hc | hc
  · split at hc
    · rw [List.mem_singleton.1 hc]
      rfl
    · cases hc
  · split at hc
    · cases hc
    · rw [List.mem_singleton.1 hc]
      rfl

theorem toolCalls_cons (tc : RawToolCall) (tcs : List RawToolCall) :
    st.toolCalls (tc :: tcs) =
      ((st.toolCall tc).1 ++ ((st.toolCall tc).2.toolCalls tcs).1,
        ((st.toolCall tc).2.toolCalls tcs).2) := rfl

theorem toolCalls_append (st : OpenAiStreamState) (tcs tcs' : List RawToolCall) :
    st.toolCalls (tcs ++ tcs') =
      ((st.toolCalls tcs).1 ++ ((st.toolCalls tcs).2.toolCalls tcs').1,
        ((st.toolCalls tcs).2.toolCalls tcs').2) := by
  induction tcs generalizing st with
  | nil => rfl
  | cons tc tcs ih =>
      rw [List.cons_append, toolCalls_cons, toolCalls_cons, ih, List.append_assoc]

theorem toolCalls_steady (hst : st.Steady) (tcs : List RawToolCall) :
    (st.toolCalls tcs).2.Steady := by
  induction tcs generalizing st with
  | nil => exact hst
  | cons tc tcs ih =>
      rw [toolCalls_cons]
      exact ih (toolCall_spec hst tc).2.1

theorem toolCalls_callIndex (hst : st.Steady) {tcs : List RawToolCall} {c : StreamChunk}
    (hc : c ∈ (st.toolCalls tcs).1) : c.callIndex.isSome = true := by
  induction tcs generalizing st with
  | nil => cases hc
  | cons tc tcs ih =>
      rw [toolCalls_cons, List.mem_append] at hc
      rcases hc with hc | hc
      · rw [toolCall_callIndex hst hc]
        rfl
      · exact ih (toolCall_spec hst tc).2.1 hc

/-! ### Frames -/

/-- The chunks of a sequence of frames, and the state after. -/
def handleAll : OpenAiStreamState → List Json → List StreamChunk × OpenAiStreamState
  | st, [] => ([], st)
  | st, raw :: raws =>
      let (out, st) := st.handle raw
      let (rest, st) := handleAll st raws
      (out ++ rest, st)

omit [Platform] in
theorem finishOf_callIndex {chunk : RawChunk} {c : StreamChunk} (hc : c ∈ finishOf chunk) :
    c.callIndex = none := by
  unfold finishOf at hc
  dsimp only at hc
  split at hc
  · rw [List.mem_singleton.1 hc]
    rfl
  · split at hc
    · cases hc
    · rw [List.mem_singleton.1 hc]
      rfl
  · cases hc

/-- The chunks of tool calls in a frame are those of its tool calls. -/
theorem handle_calls (hst : st.Steady) (raw : Json) :
    ((st.handle raw).1.filter fun c => c.callIndex.isSome) = (st.toolCalls (frameCalls raw)).1 ∧
      (st.handle raw).2 = (st.toolCalls (frameCalls raw)).2 := by
  unfold handle frameCalls
  cases chunkSchema raw with
  | none => exact ⟨rfl, rfl⟩
  | some chunk =>
      rw [Option.bind_some]
      refine ⟨?_, rfl⟩
      dsimp only
      have hcalls : ((st.toolCalls ((chunk.choice.map RawChoice.tool_calls).getD [])).1.filter
          fun c => c.callIndex.isSome) =
          (st.toolCalls ((chunk.choice.map RawChoice.tool_calls).getD [])).1 :=
        List.filter_eq_self.2 fun c hc => toolCalls_callIndex hst hc
      have hfinish : (finishOf chunk).filter (fun c => c.callIndex.isSome) = [] := by
        rw [List.filter_eq_nil_iff]
        intro c hc
        rw [finishOf_callIndex hc]
        exact Bool.false_ne_true
      rw [List.filter_append, List.filter_append, hcalls, hfinish, List.append_nil]
      cases chunk.choice.bind fun c => nonEmpty c.content with
      | none => rfl
      | some content => rfl

theorem handleAll_calls (hst : st.Steady) (raws : List Json) :
    ((st.handleAll raws).1.filter fun c => c.callIndex.isSome) =
        (st.toolCalls (fragments raws)).1 ∧
      (st.handleAll raws).2 = (st.toolCalls (fragments raws)).2 := by
  induction raws generalizing st with
  | nil => exact ⟨rfl, rfl⟩
  | cons raw raws ih =>
      obtain ⟨hout, hstate⟩ := handle_calls hst raw
      have hsteady : (st.handle raw).2.Steady := hstate ▸ toolCalls_steady hst _
      obtain ⟨hrest, hlast⟩ := ih hsteady
      have hframe : (st.handleAll (raw :: raws)) = ((st.handle raw).1 ++
          ((st.handle raw).2.handleAll raws).1, ((st.handle raw).2.handleAll raws).2) := rfl
      have hfragments : fragments (raw :: raws) = frameCalls raw ++ fragments raws := rfl
      rw [hframe, hfragments, toolCalls_append, List.filter_append, hout, hrest, hlast, hstate]
      exact ⟨rfl, rfl⟩

theorem collectCalls_handleAll (raws : List Json) :
    collectCalls (({} : OpenAiStreamState).handleAll raws).1 =
      collectCalls (({} : OpenAiStreamState).toolCalls (fragments raws)).1 := by
  rw [← (handleAll_calls steady_empty raws).1, collectCalls_filter]

/-! ### One call -/

/-- A fragment of a call that has been started, with arguments alone. -/
def more (index : Option ℚ) (arguments : Option JsString) : RawToolCall :=
  ⟨index, none, none, arguments⟩

omit [Platform] in
theorem slot_more (st : OpenAiStreamState) (index : Option ℚ) (arguments : Option JsString) :
    st.slot (more index arguments) = index.getD st.nextImplicitIndex := by
  unfold slot more
  cases index <;> rfl

theorem toolCall_more (hst : st.Steady) (index : Option ℚ) (arguments : Option JsString) :
    (st.toolCall (more index arguments)).1 = st.deltaOf (more index arguments) ∧
      (st.toolCall (more index arguments)).2.Steady ∧
      (st.toolCall (more index arguments)).2.started = st.started ∧
      (st.toolCall (more index arguments)).2.nextImplicitIndex = st.nextImplicitIndex := by
  obtain ⟨hout, hsteady, hstarted, hnext⟩ := toolCall_spec hst (more index arguments)
  have hopens : st.opens (more index arguments) = false := rfl
  unfold startOf at hout
  rw [hopens, if_neg Bool.false_ne_true] at hout hstarted
  refine ⟨hout, hsteady, hstarted, ?_⟩
  rw [hnext, slot_more]
  cases index <;> rfl

omit [Platform] in
theorem collect_deltaOf {calls : List CollectedCall} (call : CollectedCall)
    (hslot : st.slot tc = call.index) (hne : ∀ c ∈ calls, c.index ≠ call.index) :
    (st.deltaOf tc).foldl CollectedCall.collect (calls ++ [call]) =
      calls ++ [{ call with arguments := call.arguments ++ tc.delta }] := by
  unfold deltaOf
  by_cases hdelta : tc.delta = []
  · rw [if_pos hdelta, hdelta, List.append_nil]
    rfl
  · rw [if_neg hdelta, hslot]
    exact CollectedCall.collect_last call hne tc.delta

/-- Arguments that follow a start are joined to it. -/
theorem collect_more {calls : List CollectedCall} (call : CollectedCall) (hst : st.Steady)
    {index : Option ℚ} (hslot : index.getD st.nextImplicitIndex = call.index)
    (hne : ∀ c ∈ calls, c.index ≠ call.index) (rest : List (Option JsString)) :
    (st.toolCalls (rest.map (more index))).1.foldl CollectedCall.collect (calls ++ [call]) =
        calls ++ [{ call with arguments := call.arguments ++ rest.flatMap fun a => a.getD [] }] ∧
      (st.toolCalls (rest.map (more index))).2.Steady ∧
      (st.toolCalls (rest.map (more index))).2.started = st.started ∧
      (st.toolCalls (rest.map (more index))).2.nextImplicitIndex = st.nextImplicitIndex := by
  induction rest generalizing st call with
  | nil =>
      rw [List.flatMap_nil, List.append_nil]
      exact ⟨rfl, hst, rfl, rfl⟩
  | cons a rest ih =>
      obtain ⟨hout, hsteady, hstarted, hnext⟩ := toolCall_more hst index a
      have hslot' := slot_more st index a
      rw [hslot] at hslot'
      obtain ⟨hrest, hlast⟩ := ih { call with arguments := call.arguments ++ a.getD [] } hsteady
        (by rw [hnext]; exact hslot) hne
      rw [List.map_cons, toolCalls_cons, List.foldl_append, hout, collect_deltaOf call hslot' hne]
      rw [hstarted, hnext] at hlast
      refine ⟨?_, hlast⟩
      rw [List.flatMap_cons, ← List.append_assoc]
      exact hrest

end OpenAiStreamState

/-- A tool call of a provider: the first fragment has the name, the others have arguments alone. -/
structure ProviderCall where
  id : Option JsString
  name : JsString
  first : Option JsString
  rest : List (Option JsString)

namespace ProviderCall

/-- The fragments of a call, all with its index or all without. -/
def fragments (index : Option ℚ) (call : ProviderCall) : List RawToolCall :=
  ⟨index, call.id, some call.name, call.first⟩ :: call.rest.map (OpenAiStreamState.more index)

def arguments (call : ProviderCall) : JsString :=
  (call.first :: call.rest).flatMap fun a => a.getD []

/-- The call as a client should see it. -/
def whole [Platform] (index : ℚ) (call : ProviderCall) : CollectedCall where
  index := index
  id := call.id.getD (OpenAiStreamState.syntheticId index)
  name := call.name
  arguments := call.arguments

theorem mem_fragments {index : Option ℚ} {call : ProviderCall} {tc : RawToolCall}
    (h : tc ∈ call.fragments index) : tc.index = index := by
  unfold fragments at h
  rcases List.mem_cons.1 h with rfl | h
  · rfl
  · obtain ⟨a, -, rfl⟩ := List.mem_map.1 h
    rfl

end ProviderCall

namespace OpenAiStreamState

variable [Platform] {st : OpenAiStreamState} {tc : RawToolCall}

/-- **A call that goes to a free index is collected whole.** -/
theorem collect_fragments {calls : List CollectedCall} (hst : st.Steady) (call : ProviderCall)
    {index : Option ℚ} {i : ℚ} (hslot : index.getD st.started.size = i)
    (hfree : st.isStarted i = false) (hne : ∀ c ∈ calls, c.index ≠ i) :
    (st.toolCalls (call.fragments index)).1.foldl CollectedCall.collect calls =
        calls ++ [call.whole i] ∧
      (st.toolCalls (call.fragments index)).2.Steady ∧
      (st.toolCalls (call.fragments index)).2.started = st.started.set i true := by
  have hfirst : st.slot ⟨index, call.id, some call.name, call.first⟩ = i := by
    rw [← hslot]
    unfold slot
    cases index <;> rfl
  have hopens : st.opens ⟨index, call.id, some call.name, call.first⟩ = true := by
    unfold opens
    rw [hfirst, hfree]
    rfl
  obtain ⟨hout, hsteady, hstarted, hnext⟩ :=
    toolCall_spec hst ⟨index, call.id, some call.name, call.first⟩
  rw [hopens, if_pos rfl, hfirst] at hstarted
  unfold startOf at hout
  rw [hopens, if_pos rfl, hfirst] at hout
  have hstart : ((st.toolCall ⟨index, call.id, some call.name, call.first⟩).1).foldl
      CollectedCall.collect calls =
        calls ++ [⟨i, call.id.getD (syntheticId i), call.name, call.first.getD []⟩] := by
    rw [hout, List.foldl_append]
    exact collect_deltaOf ⟨i, call.id.getD (syntheticId i), call.name, []⟩ hfirst hne
  have hslot' : index.getD
      (st.toolCall ⟨index, call.id, some call.name, call.first⟩).2.nextImplicitIndex = i := by
    rw [hnext]
    cases index with
    | none => exact hfirst
    | some j => exact hslot
  obtain ⟨hrest, hlast, hstarted', -⟩ := collect_more
    ⟨i, call.id.getD (syntheticId i), call.name, call.first.getD []⟩ hsteady hslot' hne call.rest
  unfold ProviderCall.fragments
  rw [toolCalls_cons, List.foldl_append, hstart, hrest]
  exact ⟨rfl, hlast, hstarted'.trans hstarted⟩

/-! ### Calls with indices -/

omit [Platform] in
theorem slot_of_index {i : ℚ} (h : tc.index = some i) : st.slot tc = i := by
  unfold slot
  rw [h]

/-- What becomes of a fragment with an index depends on the calls started there alone. -/
theorem toolCall_agree {st' : OpenAiStreamState} {i : ℚ} (hst : st.Steady) (hst' : st'.Steady)
    (h : tc.index = some i) (hagree : st.isStarted i = st'.isStarted i) :
    (st.toolCall tc).1 = (st'.toolCall tc).1 := by
  rw [(toolCall_spec hst tc).1, (toolCall_spec hst' tc).1]
  unfold startOf deltaOf opens
  rw [slot_of_index h, slot_of_index h, hagree]

theorem isStarted_toolCall (hst : st.Steady) (tc : RawToolCall) (i : ℚ) :
    (st.toolCall tc).2.isStarted i =
      if i = st.slot tc then st.isStarted i || tc.name.isSome else st.isStarted i := by
  have hstarted := (toolCall_spec hst tc).2.2.1
  unfold isStarted
  rw [hstarted]
  by_cases hopens : st.opens tc = true
  · rw [if_pos hopens, JsMap.get_set]
    have hname : tc.name.isSome = true := by
      unfold opens at hopens
      exact (Bool.and_eq_true_iff.1 hopens).1
    by_cases hi : i = st.slot tc
    · rw [if_pos hi, if_pos hi, hname, Bool.or_true]
      rfl
    · rw [if_neg hi, if_neg hi]
  · rw [if_neg hopens]
    by_cases hi : i = st.slot tc
    · rw [if_pos hi, hi]
      unfold opens isStarted at hopens
      cases hname : tc.name.isSome with
      | false => rw [Bool.or_false]
      | true =>
          rw [hname] at hopens
          cases hget : (st.started.get (st.slot tc)).getD false with
          | true => rfl
          | false => rw [hget] at hopens; exact absurd rfl hopens
    · rw [if_neg hi]

/-- The chunks at one index come from the fragments with this index. -/
theorem toolCalls_filter {st' : OpenAiStreamState} {i : ℚ} (hst : st.Steady) (hst' : st'.Steady)
    (hagree : st.isStarted i = st'.isStarted i) {tcs : List RawToolCall}
    (hindex : ∀ tc ∈ tcs, tc.index.isSome = true) :
    ((st.toolCalls tcs).1.filter fun c => c.callIndex = some i) =
      (st'.toolCalls (tcs.filter fun tc => tc.index = some i)).1 := by
  induction tcs generalizing st st' with
  | nil => rfl
  | cons tc tcs ih =>
      have hrest := fun tc' h => hindex tc' (List.mem_cons_of_mem tc h)
      obtain ⟨j, hj⟩ := Option.isSome_iff_exists.1 (hindex tc (List.mem_cons_self ..))
      have hout : ∀ c ∈ (st.toolCall tc).1, c.callIndex = some j := fun c hc => by
        rw [toolCall_callIndex hst hc, slot_of_index hj]
      rw [toolCalls_cons, List.filter_append]
      by_cases hi : j = i
      · have hfirst := toolCall_agree hst hst' (hj.trans (congrArg some hi)) hagree
        have hagree' : (st.toolCall tc).2.isStarted i = (st'.toolCall tc).2.isStarted i := by
          rw [isStarted_toolCall hst, isStarted_toolCall hst', slot_of_index hj, slot_of_index hj,
            hagree]
        rw [List.filter_cons_of_pos (by simpa [hi] using hj), toolCalls_cons, ← hfirst,
          ih (toolCall_spec hst tc).2.1 (toolCall_spec hst' tc).2.1 hagree' hrest,
          List.filter_eq_self.2 fun c hc => by simpa [hi] using hout c hc]
      · have hagree' : (st.toolCall tc).2.isStarted i = st'.isStarted i := by
          rw [isStarted_toolCall hst, slot_of_index hj, if_neg (Ne.symm hi), hagree]
        rw [List.filter_cons_of_neg (by simp [hj, hi]),
          ih (toolCall_spec hst tc).2.1 hst' hagree' hrest,
          List.filter_eq_nil_iff.2 fun c hc => by simp [hout c hc, hi]]
        rfl

omit [Platform] in
/-- Among distinct keys, at most one is the one looked for. -/
theorem filter_key {calls : List (ℚ × ProviderCall)} (hnodup : (calls.map Prod.fst).Nodup) (i : ℚ) :
    (calls.filter fun c => c.1 = i) = [] ∨ ∃ call, (calls.filter fun c => c.1 = i) = [(i, call)] := by
  have hlength : (calls.filter fun c => c.1 = i).length ≤ 1 := by
    have hcount := List.nodup_iff_count_le_one.1 hnodup i
    rw [List.count, List.countP_map, List.countP_eq_length_filter] at hcount
    exact hcount
  cases hfilter : calls.filter fun c => c.1 = i with
  | nil => exact Or.inl rfl
  | cons c rest =>
      rw [hfilter, List.length_cons] at hlength
      have hmem : c ∈ calls.filter fun c => c.1 = i := by
        rw [hfilter]
        exact List.mem_cons_self ..
      have hkey : c.1 = i := of_decide_eq_true (List.mem_filter.1 hmem).2
      have hrest : rest = [] := List.length_eq_zero_iff.1 (by omega)
      refine Or.inr ⟨c.2, ?_⟩
      rw [hrest, ← hkey]

omit [Platform] in
/-- The fragments with one index are those of the calls with this index. -/
theorem filter_interleaved {calls : List (ℚ × ProviderCall)} (hnodup : (calls.map Prod.fst).Nodup)
    {tcs : List RawToolCall}
    (h : List.Interleaves (calls.map fun c => c.2.fragments (some c.1)) tcs) (i : ℚ) :
    (tcs.filter fun tc => tc.index = some i) =
      (calls.filter fun c => c.1 = i).flatMap fun c => c.2.fragments (some c.1) := by
  have hone : ∀ c : ℚ × ProviderCall, (c.2.fragments (some c.1)).filter
      (fun tc => tc.index = some i) = if c.1 = i then c.2.fragments (some c.1) else [] := by
    intro c
    by_cases hi : c.1 = i
    · rw [if_pos hi, List.filter_eq_self]
      intro tc htc
      rw [ProviderCall.mem_fragments htc, hi]
      exact decide_eq_true rfl
    · rw [if_neg hi, List.filter_eq_nil_iff]
      intro tc htc
      rw [ProviderCall.mem_fragments htc]
      simpa using hi
  have hlists : (calls.map fun c => c.2.fragments (some c.1)).map
      (List.filter fun tc => tc.index = some i) =
        calls.map fun c => if c.1 = i then c.2.fragments (some c.1) else [] := by
    rw [List.map_map]
    exact List.map_congr_left fun c _ => hone c
  have hfilter := h.filter fun tc => tc.index = some i
  rw [hlists] at hfilter
  have hpairs : (calls.map fun c => if c.1 = i then c.2.fragments (some c.1) else []).Pairwise
      fun a b => a = [] ∨ b = [] := by
    rw [List.pairwise_map]
    apply (List.pairwise_map.1 hnodup).imp
    intro c c' hne
    by_cases hi : c.1 = i
    · exact Or.inr (if_neg fun hi' => hne (hi.trans hi'.symm))
    · exact Or.inl (if_neg hi)
  rw [hfilter.eq_flatten hpairs]
  clear hfilter hpairs hlists h hnodup
  induction calls with
  | nil => rfl
  | cons c calls ih =>
      rw [List.map_cons, List.flatten_cons, ih]
      by_cases hi : c.1 = i
      · rw [if_pos hi, List.filter_cons_of_pos (by simpa using hi), List.flatMap_cons]
      · rw [if_neg hi, List.filter_cons_of_neg (by simpa using hi)]
        rfl

/-- Calls with indices of their own are collected whole, in some order. -/
theorem collect_interleaved {calls : List (ℚ × ProviderCall)} (hnodup : (calls.map Prod.fst).Nodup)
    {tcs : List RawToolCall}
    (h : List.Interleaves (calls.map fun c => c.2.fragments (some c.1)) tcs) :
    (collectCalls (({} : OpenAiStreamState).toolCalls tcs).1).Perm
      (calls.map fun c => c.2.whole c.1) := by
  have hindex : ∀ tc ∈ tcs, tc.index.isSome = true := by
    intro tc htc
    obtain ⟨l, hl, hmem⟩ := h.mem htc
    obtain ⟨c, -, rfl⟩ := List.mem_map.1 hl
    rw [ProviderCall.mem_fragments hmem]
    rfl
  have hat : ∀ i, (collectCalls (({} : OpenAiStreamState).toolCalls tcs).1).filter
      (fun c => c.index = i) = (calls.map fun c => c.2.whole c.1).filter fun c => c.index = i := by
    intro i
    have hwhole : ((calls.map fun c => c.2.whole c.1).filter fun c => c.index = i) =
        (calls.filter fun c => c.1 = i).map fun c => c.2.whole c.1 := by
      rw [List.filter_map]
      rfl
    unfold collectCalls
    rw [foldl_collect_filter, toolCalls_filter steady_empty steady_empty rfl hindex,
      filter_interleaved hnodup h, hwhole]
    rcases filter_key hnodup i with hnone | ⟨call, hcall⟩
    · rw [hnone]
      rfl
    · rw [hcall, List.flatMap_cons, List.flatMap_nil, List.append_nil]
      exact (collect_fragments steady_empty call rfl rfl fun c hc => by cases hc).1
  rw [List.perm_iff_count]
  intro c
  have hcount : ∀ l : List CollectedCall,
      (l.filter fun c' => c'.index = c.index).count c = l.count c :=
    fun l => List.count_filter (decide_eq_true rfl)
  rw [← hcount, hat, hcount]

/-! ### Calls without indices -/

/-- Calls that come one after another take the next numbers. -/
theorem collect_sequence {done : List CollectedCall} (hst : st.Steady)
    (hsize : st.started.size = done.length)
    (hstarted : ∀ i, (st.started.get i).isSome = true → i < done.length)
    (hdone : ∀ c ∈ done, c.index < done.length) (calls : List ProviderCall) :
    (st.toolCalls (calls.flatMap (ProviderCall.fragments none))).1.foldl CollectedCall.collect
        done =
      done ++ calls.mapIdx fun k call => call.whole ((done.length + k : ℕ) : ℚ) := by
  induction calls generalizing st done with
  | nil => exact (List.append_nil done).symm
  | cons call calls ih =>
      have hnone : st.started.get done.length = none := by
        cases h : st.started.get done.length with
        | none => rfl
        | some b => exact absurd (hstarted _ (by rw [h]; rfl)) (lt_irrefl _)
      have hfree : st.isStarted done.length = false := by
        unfold isStarted
        rw [hnone]
        rfl
      have hslot : (none : Option ℚ).getD st.started.size = done.length := by
        rw [Option.getD_none, hsize]
      obtain ⟨hout, hsteady, hset⟩ :=
        collect_fragments hst call hslot hfree fun c hc => ne_of_lt (hdone c hc)
      have hlength : (done ++ [call.whole (done.length : ℚ)]).length = done.length + 1 :=
        List.length_append
      have hnext := @ih _ (done ++ [call.whole (done.length : ℚ)]) hsteady
        (by rw [hset, JsMap.size_set hnone, hsize, hlength])
        (by
          intro i hi
          rw [hset, JsMap.get_set] at hi
          rw [hlength]
          push_cast
          split at hi
          · rename_i heq
            rw [heq]
            exact lt_add_one _
          · exact lt_trans (hstarted i hi) (lt_add_one _))
        (by
          intro c hc
          rw [hlength]
          push_cast
          rcases List.mem_append.1 hc with hc | hc
          · exact lt_trans (hdone c hc) (lt_add_one _)
          · rw [List.mem_singleton.1 hc]
            exact lt_add_one _)
      have hshift : (fun k (c : ProviderCall) => c.whole ((done.length + 1 + k : ℕ) : ℚ)) =
          fun k (c : ProviderCall) => c.whole ((done.length + (k + 1) : ℕ) : ℚ) := by
        funext k c
        rw [Nat.add_right_comm, Nat.add_assoc]
      rw [List.flatMap_cons, toolCalls_append, List.foldl_append, hout, hnext, List.mapIdx_cons,
        List.append_assoc, hlength, hshift]
      rfl

end OpenAiStreamState

/-! ### Main result -/

/-- The chunks of the frames of a stream. -/
def chunksOf [Platform] (frames : List Json) : List StreamChunk :=
  (({} : OpenAiStreamState).handleAll frames).1

end OpenaiCompat

open OpenaiCompat in
/-- **Tool calls come back whole.**  When the calls of a provider have indices of their own, the
frames may interleave their fragments in any way; when no fragment has an index, the calls follow
each other.  Either way each call is started once, and collected with its id, or the one made from
its index, its name and all of its arguments. -/
theorem tool_calls_reassembled [Platform] :
    (∀ (calls : List (ℚ × ProviderCall)) (frames : List Json), (calls.map Prod.fst).Nodup →
      List.Interleaves (calls.map fun c => c.2.fragments (some c.1)) (fragments frames) →
        ((chunksOf frames).filterMap StreamChunk.starts).Perm (calls.map Prod.fst) ∧
          (collectCalls (chunksOf frames)).Perm (calls.map fun c => c.2.whole c.1)) ∧
    ∀ (calls : List ProviderCall) (frames : List Json),
      fragments frames = calls.flatMap (ProviderCall.fragments none) →
        (chunksOf frames).filterMap StreamChunk.starts =
            (List.range calls.length).map (fun k : ℕ => (k : ℚ)) ∧
          collectCalls (chunksOf frames) = calls.mapIdx fun k call => call.whole k := by
  constructor
  · intro calls frames hnodup h
    have hcollected : (collectCalls (chunksOf frames)).Perm (calls.map fun c => c.2.whole c.1) := by
      unfold chunksOf
      rw [OpenAiStreamState.collectCalls_handleAll]
      exact OpenAiStreamState.collect_interleaved hnodup h
    refine ⟨?_, hcollected⟩
    have hstarts := hcollected.map CollectedCall.index
    rw [collectCalls_index, List.map_map] at hstarts
    exact hstarts
  · intro calls frames h
    have hcollected : collectCalls (chunksOf frames) = calls.mapIdx fun k call => call.whole k := by
      unfold chunksOf
      rw [OpenAiStreamState.collectCalls_handleAll, h]
      have hrun := @OpenAiStreamState.collect_sequence _ {} [] OpenAiStreamState.steady_empty rfl
        (fun i hi => by cases hi) (fun c hc => by cases hc) calls
      rw [List.nil_append] at hrun
      unfold collectCalls
      simpa using hrun
    refine ⟨?_, hcollected⟩
    rw [← collectCalls_index, hcollected]
    apply List.ext_getElem
    · simp
    · intro k h₁ h₂
      simp [ProviderCall.whole]

/-! ### Samples -/

namespace Sample

open OpenaiCompat

/-- A frame with tool calls. -/
def callFrame (calls : List Json) : Json :=
  .obj [(js "choices", .arr [.obj [(js "delta", .obj [(js "tool_calls", .arr calls)])]])]

def startFragment (index : ℚ) (name : String) : Json :=
  .obj [(js "index", .num index), (js "function", .obj [(js "name", .str (js name))])]

def moreFragment (index : ℚ) (arguments : String) : Json :=
  .obj [(js "index", .num index), (js "function", .obj [(js "arguments", .str (js arguments))])]

/-- Two calls that are open at the same time. -/
def parallelCalls : List Json :=
  [callFrame [startFragment 0 "f", startFragment 1 "g"],
    callFrame [moreFragment 1 "2", moreFragment 0 "1"]]

def callF : ProviderCall := ⟨none, js "f", none, [some (js "1")]⟩

def callG : ProviderCall := ⟨none, js "g", none, [some (js "2")]⟩

theorem parallel_fragments :
    List.Interleaves ([((0 : ℚ), callF), (1, callG)].map fun c => c.2.fragments (some c.1))
      (fragments parallelCalls) := by
  have hfragments : fragments parallelCalls =
      [⟨some 0, none, some (js "f"), none⟩, ⟨some 1, none, some (js "g"), none⟩,
        OpenAiStreamState.more (some 1) (some (js "2")),
        OpenAiStreamState.more (some 0) (some (js "1"))] := rfl
  rw [hfragments]
  apply @List.Interleaves.cons _ [] [_]
  apply @List.Interleaves.cons _ [_] []
  apply @List.Interleaves.cons _ [_] []
  apply @List.Interleaves.cons _ [] [_]
  apply List.Interleaves.nil
  intro l hl
  rcases List.mem_cons.1 hl with rfl | hl
  · rfl
  · exact List.mem_singleton.1 hl

theorem parallel_calls_reassembled : letI := platform
    ((chunksOf parallelCalls).filterMap StreamChunk.starts).Perm [0, 1] ∧
      (collectCalls (chunksOf parallelCalls)).Perm [callF.whole 0, callG.whole 1] := by
  let := platform
  exact tool_calls_reassembled.1 [(0, callF), (1, callG)] parallelCalls (by decide)
    parallel_fragments

end Sample

end VibeRouter
