import VibeRouter.Gateway.Relay
import VibeRouter.Lib.JsonLines

/-! # What the router sends can be read

Everything that the router sends to an app is an object whose members have distinct names, whose numbers
are read back and whose strings are strings of code units (`Sendable`). -/

namespace VibeRouter.Sdk

open Json

variable [Platform]

/-! ### Values -/

/-- Numbers are read back from what `String` writes for them. -/
def NumbersReadBack : Prop := ∀ n : ℤ, ReadsBack Platform.numberText n

/-- The numbers that are written for a usage are read back. -/
def Countable (u : AIUsage) : Prop :=
  ReadsBack Platform.numberText (u.promptTokens + u.cachedReadTokens + u.cacheWriteTokens) ∧
    ReadsBack Platform.numberText u.completionTokens ∧
    ReadsBack Platform.numberText
      (u.promptTokens + u.cachedReadTokens + u.cacheWriteTokens + u.completionTokens) ∧
    ReadsBack Platform.numberText u.cachedReadTokens

/-- The strings of a chunk are strings of code units, and its numbers are read back. -/
def Relayable : StreamChunk → Prop
  | .text_delta delta => delta.Units
  | .tool_call_start index id name =>
      ReadsBack Platform.numberText index ∧ id.Units ∧ name.Units
  | .tool_call_delta index argumentsDelta =>
      ReadsBack Platform.numberText index ∧ argumentsDelta.Units
  | .finish _ usage => ∀ u, usage = some u → Countable u

/-- The names in a record are distinct. -/
def Distinct : DetailValue → Prop
  | .counts cs => (cs.map fun c => js c.1).Nodup
  | _ => True

/-- The detail of an error is a record, and so are the values in it. -/
def Recorded (d : Detail) : Prop := (d.map fun x => js x.1).Nodup ∧ ∀ x ∈ d, Distinct x.2

/-- A value that can be written on one line and read back. -/
def Sendable (v : Json) : Prop := Writable Platform.numberText v ∧ v.Units

theorem sendable_str {s : JsString} (h : s.Units) : Sendable (.str s) := ⟨trivial, h⟩

theorem sendable_js (s : String) : Sendable (.str (js s)) := sendable_str (js_units s)

theorem sendable_null : Sendable .null := ⟨trivial, trivial⟩

theorem sendable_num {n : ℚ} (h : ReadsBack Platform.numberText n) : Sendable (.num n) := ⟨h, trivial⟩

theorem sendable_arr {xs : List Json} (h : ∀ x ∈ xs, Sendable x) : Sendable (.arr xs) := by
  induction xs with
  | nil => exact ⟨trivial, trivial⟩
  | cons x xs ih =>
      obtain ⟨hx, hxs⟩ := List.forall_mem_cons.1 h
      obtain ⟨hwritable, hunits⟩ := ih hxs
      exact ⟨⟨hx.1, hwritable⟩, hx.2, hunits⟩

theorem sendable_obj {es : List (JsString × Json)} (names : List String)
    (hnames : es.map Prod.fst = names.map js) (hnodup : (names.map js).Nodup)
    (h : ∀ e ∈ es, e.1.Units ∧ Sendable e.2) : Sendable (.obj es) := by
  have hentries : WritableEntries Platform.numberText es ∧ UnitsEntries es := by
    clear hnames hnodup
    induction es with
    | nil => exact ⟨trivial, trivial⟩
    | cons e es ih =>
        obtain ⟨⟨hkey, hwritable, hunits⟩, hes⟩ := List.forall_mem_cons.1 h
        obtain ⟨hw, hu⟩ := ih hes
        exact ⟨⟨hwritable, hw⟩, hkey, hunits, hu⟩
  exact ⟨⟨hnames ▸ hnodup, hentries.1⟩, hentries.2⟩

/-- The entries of an object one by one. -/
theorem entry_sendable {name : String} {v : Json} {es : List (JsString × Json)} (hv : Sendable v)
    (h : ∀ e ∈ es, e.1.Units ∧ Sendable e.2) :
    ∀ e ∈ (js name, v) :: es, e.1.Units ∧ Sendable e.2 :=
  List.forall_mem_cons.2 ⟨⟨js_units name, hv⟩, h⟩

theorem no_entries : ∀ e ∈ ([] : List (JsString × Json)), e.1.Units ∧ Sendable e.2 :=
  fun e he => by cases he

theorem sendable_singleton {v : Json} (h : Sendable v) : Sendable (.arr [v]) :=
  sendable_arr (List.forall_mem_singleton.2 h)

theorem sendable_nat (hnumbers : NumbersReadBack) (n : ℕ) : Sendable (.num (n : ℚ)) :=
  sendable_num (by exact_mod_cast hnumbers n)

theorem base_sendable (hnumbers : NumbersReadBack) (requestId model : String) (now : ℕ)
    {es : List (JsString × Json)} (h : ∀ e ∈ es, e.1.Units ∧ Sendable e.2) :
    ∀ e ∈ chunkBase requestId model now ++ es, e.1.Units ∧ Sendable e.2 :=
  entry_sendable (sendable_js _) (entry_sendable (sendable_js _)
    (entry_sendable (sendable_nat hnumbers _) (entry_sendable (sendable_js _) h)))

theorem sendable_choice (hnumbers : NumbersReadBack) (requestId model : String) (now : ℕ)
    {delta : List (JsString × Json)} {finishReason : Json} (hdelta : Sendable (.obj delta))
    (hreason : Sendable finishReason) :
    Sendable (choiceObject (chunkBase requestId model now) delta finishReason) := by
  have hchoice : Sendable (.obj [(js "index", .num 0), (js "delta", .obj delta),
      (js "finish_reason", finishReason)]) := by
    refine sendable_obj ["index", "delta", "finish_reason"] rfl (by decide) (entry_sendable ?_
      (entry_sendable hdelta (entry_sendable hreason no_entries)))
    exact sendable_num (by exact_mod_cast hnumbers 0)
  exact sendable_obj ["id", "object", "created", "model", "choices"] rfl (by decide)
    (base_sendable hnumbers _ _ _ (entry_sendable (sendable_singleton hchoice) no_entries))

/-- Whole counts are read back. -/
theorem countable_of_whole (hnumbers : NumbersReadBack) (prompt completion cachedRead cacheWrite : ℤ)
    (estimated : Bool) : Countable ⟨prompt, completion, cachedRead, cacheWrite, estimated⟩ := by
  refine ⟨?_, hnumbers completion, ?_, hnumbers cachedRead⟩
  · have h := hnumbers (prompt + cachedRead + cacheWrite)
    push_cast at h
    exact h
  · have h := hnumbers (prompt + cachedRead + cacheWrite + completion)
    push_cast at h
    exact h

theorem sendable_usage {u : AIUsage} (h : Countable u) : Sendable (toOpenAiUsage u) := by
  obtain ⟨hprompt, hcompletion, htotal, hcached⟩ := h
  have hcached : Sendable (.obj [(js "cached_tokens", .num u.cachedReadTokens)]) :=
    sendable_obj ["cached_tokens"] rfl (by decide) (entry_sendable (sendable_num hcached) no_entries)
  unfold toOpenAiUsage
  dsimp only
  split
  · exact sendable_obj ["prompt_tokens", "completion_tokens", "total_tokens", "prompt_tokens_details"] rfl
      (by decide) (entry_sendable (sendable_num hprompt) (entry_sendable (sendable_num hcompletion)
        (entry_sendable (sendable_num htotal) (entry_sendable hcached no_entries))))
  · exact sendable_obj ["prompt_tokens", "completion_tokens", "total_tokens"] rfl (by decide)
      (entry_sendable (sendable_num hprompt) (entry_sendable (sendable_num hcompletion)
        (entry_sendable (sendable_num htotal) no_entries)))

theorem toChunkObjects_sendable (hnumbers : NumbersReadBack) {chunk : StreamChunk}
    (h : Relayable chunk) (requestId model : String) (now : ℕ) (first : Bool) :
    ∀ v ∈ toChunkObjects requestId model now chunk first, Sendable v := by
  have hrole : ∀ {es : List (JsString × Json)}, (∀ e ∈ es, e.1.Units ∧ Sendable e.2) →
      ∀ e ∈ (js "role", Json.str (js "assistant")) :: es, e.1.Units ∧ Sendable e.2 :=
    entry_sendable (sendable_js "assistant")
  cases chunk with
  | text_delta delta =>
      have hcontent : ∀ e ∈ [(js "content", Json.str delta)], e.1.Units ∧ Sendable e.2 :=
        entry_sendable (sendable_str h) no_entries
      refine List.forall_mem_singleton.2 (sendable_choice hnumbers _ _ _ ?_ sendable_null)
      cases first with
      | false => exact sendable_obj ["content"] rfl (by decide) hcontent
      | true => exact sendable_obj ["role", "content"] rfl (by decide) (hrole hcontent)
  | tool_call_start index id name =>
      obtain ⟨hindex, hid, hname⟩ := h
      have hfunction : Sendable (.obj [(js "name", .str name), (js "arguments", .str [])]) :=
        sendable_obj ["name", "arguments"] rfl (by decide) (entry_sendable (sendable_str hname)
          (entry_sendable (sendable_js "") no_entries))
      have hcall : Sendable (.obj [(js "index", .num index), (js "id", .str id),
          (js "type", .str (js "function")),
          (js "function", .obj [(js "name", .str name), (js "arguments", .str [])])]) :=
        sendable_obj ["index", "id", "type", "function"] rfl (by decide)
          (entry_sendable (sendable_num hindex) (entry_sendable (sendable_str hid)
            (entry_sendable (sendable_js _) (entry_sendable hfunction no_entries))))
      have hcalls : ∀ e ∈ [(js "tool_calls", Json.arr [.obj [(js "index", .num index),
          (js "id", .str id), (js "type", .str (js "function")),
          (js "function", .obj [(js "name", .str name), (js "arguments", .str [])])]])],
          e.1.Units ∧ Sendable e.2 := entry_sendable (sendable_singleton hcall) no_entries
      refine List.forall_mem_singleton.2 (sendable_choice hnumbers _ _ _ ?_ sendable_null)
      cases first with
      | false => exact sendable_obj ["tool_calls"] rfl (by decide) hcalls
      | true => exact sendable_obj ["role", "tool_calls"] rfl (by decide) (hrole hcalls)
  | tool_call_delta index argumentsDelta =>
      obtain ⟨hindex, harguments⟩ := h
      have hfunction : Sendable (.obj [(js "arguments", .str argumentsDelta)]) :=
        sendable_obj ["arguments"] rfl (by decide) (entry_sendable (sendable_str harguments) no_entries)
      have hcall : Sendable (.obj [(js "index", .num index),
          (js "function", .obj [(js "arguments", .str argumentsDelta)])]) :=
        sendable_obj ["index", "function"] rfl (by decide)
          (entry_sendable (sendable_num hindex) (entry_sendable hfunction no_entries))
      refine List.forall_mem_singleton.2 (sendable_choice hnumbers _ _ _ ?_ sendable_null)
      exact sendable_obj ["tool_calls"] rfl (by decide)
        (entry_sendable (sendable_singleton hcall) no_entries)
  | finish reason usage =>
      refine List.forall_mem_cons.2 ⟨sendable_choice hnumbers _ _ _ ?_ (sendable_js _), ?_⟩
      · exact sendable_obj [] rfl (by decide) no_entries
      · cases usage with
        | none => exact fun v hv => by cases hv
        | some u =>
            refine List.forall_mem_singleton.2 ?_
            exact sendable_obj ["id", "object", "created", "model", "choices", "usage"] rfl (by decide)
              (base_sendable hnumbers _ _ _ (entry_sendable (sendable_arr fun x hx => by cases hx)
                (entry_sendable (sendable_usage (h u rfl)) no_entries)))

theorem sendable_detail (hnumbers : NumbersReadBack) {d : DetailValue} (h : Distinct d) :
    Sendable d.toJson := by
  cases d with
  | str s => exact sendable_js s
  | num n => exact sendable_num (hnumbers n)
  | counts cs =>
      refine sendable_obj (cs.map Prod.fst) ?_ ?_ fun e he => ?_
      · rw [List.map_map, List.map_map]
        rfl
      · rw [List.map_map]
        exact h
      · obtain ⟨c, -, rfl⟩ := List.mem_map.1 he
        exact ⟨js_units c.1, sendable_num (hnumbers c.2)⟩
  | texts ss =>
      refine sendable_arr fun x hx => ?_
      obtain ⟨s, -, rfl⟩ := List.mem_map.1 hx
      exact sendable_js s

theorem errorBody_sendable (hnumbers : NumbersReadBack) {err : RouterError} (h : Recorded err.detail) :
    Sendable (errorBody err) := by
  have hdetail : Sendable (.obj (err.detail.map fun d => (js d.1, d.2.toJson))) := by
    refine sendable_obj (err.detail.map Prod.fst) ?_ ?_ fun e he => ?_
    · rw [List.map_map, List.map_map]
      rfl
    · rw [List.map_map]
      exact h.1
    · obtain ⟨d, hd, rfl⟩ := List.mem_map.1 he
      exact ⟨js_units d.1, sendable_detail hnumbers (h.2 d hd)⟩
  refine sendable_obj ["error"] rfl (by decide) (entry_sendable ?_ no_entries)
  generalize (if err.code = .invalid_request then "invalid_request_error" else "router_error") = kind
  split
  · exact sendable_obj ["message", "type", "code", "detail"] rfl (by decide)
      (entry_sendable (sendable_js _) (entry_sendable (sendable_js _) (entry_sendable (sendable_js _)
        (entry_sendable hdetail no_entries))))
  · exact sendable_obj ["message", "type", "code"] rfl (by decide)
      (entry_sendable (sendable_js _) (entry_sendable (sendable_js _) (entry_sendable (sendable_js _)
        no_entries)))

/-! ### Answers without a stream -/

/-- The strings of a response are strings of code units. -/
def Answerable (m : ResponseMessage) : Prop :=
  m.content.Units ∧ ∀ tc ∈ m.toolCalls.getD [], tc.arguments.Units

theorem sendable_toolCall {tc : ToolCall} (h : tc.arguments.Units) : Sendable tc.toWire := by
  have hfunction : Sendable (.obj [(js "name", .str (js tc.name)), (js "arguments", .str tc.arguments)]) :=
    sendable_obj ["name", "arguments"] rfl (by decide)
      (entry_sendable (sendable_js _) (entry_sendable (sendable_str h) no_entries))
  exact sendable_obj ["id", "type", "function"] rfl (by decide) (entry_sendable (sendable_js _)
    (entry_sendable (sendable_js _) (entry_sendable hfunction no_entries)))

theorem sendable_message {m : ResponseMessage} (h : Answerable m) : Sendable m.toWire := by
  obtain ⟨hcontent, hcalls⟩ := h
  have hwire : Sendable (if m.content ≠ [] then .str m.content
      else if m.toolCalls.getD [] ≠ [] then .null else .str []) := by
    split
    · exact sendable_str hcontent
    · split
      · exact sendable_null
      · exact sendable_js ""
  have hlist : Sendable (.arr ((m.toolCalls.getD []).map ToolCall.toWire)) := by
    refine sendable_arr fun x hx => ?_
    obtain ⟨tc, htc, rfl⟩ := List.mem_map.1 hx
    exact sendable_toolCall (hcalls tc htc)
  unfold ResponseMessage.toWire
  dsimp only
  generalize (if m.content ≠ [] then Json.str m.content
      else if m.toolCalls.getD [] ≠ [] then .null else .str []) = content at hwire
  split
  · exact sendable_obj ["role", "content", "tool_calls"] rfl (by decide) (entry_sendable (sendable_js _)
      (entry_sendable hwire (entry_sendable hlist no_entries)))
  · exact sendable_obj ["role", "content"] rfl (by decide) (entry_sendable (sendable_js _)
      (entry_sendable hwire no_entries))

theorem sendable_completion (hnumbers : NumbersReadBack) (requestId : String) (now : ℕ) {res : AIResponse}
    (h : Answerable res.message) (hcounts : Countable res.usage) : Sendable (toChatCompletion requestId now res) := by
  have hzero : Sendable (.num 0) := by exact_mod_cast sendable_nat hnumbers 0
  have hchoice : Sendable (.obj [(js "index", .num 0), (js "message", res.message.toWire),
      (js "finish_reason", .str (js (FINISH_MAP res.finishReason))), (js "logprobs", .null)]) :=
    sendable_obj ["index", "message", "finish_reason", "logprobs"] rfl (by decide)
      (entry_sendable hzero (entry_sendable (sendable_message h) (entry_sendable (sendable_js _)
        (entry_sendable sendable_null no_entries))))
  have hvibe : Sendable (.obj [(js "provider_id", .str (js res.served.providerId.text)),
      (js "latency_ms", .num (res.served.latencyMs : ℚ))]) :=
    sendable_obj ["provider_id", "latency_ms"] rfl (by decide) (entry_sendable (sendable_js _)
      (entry_sendable (sendable_num (hnumbers _)) no_entries))
  exact sendable_obj ["id", "object", "created", "model", "choices", "usage", "vibe"] rfl (by decide)
    (entry_sendable (sendable_js _) (entry_sendable (sendable_js _)
      (entry_sendable (sendable_nat hnumbers _) (entry_sendable (sendable_js _)
        (entry_sendable (sendable_singleton hchoice) (entry_sendable (sendable_usage hcounts)
          (entry_sendable hvibe no_entries)))))))

end VibeRouter.Sdk
