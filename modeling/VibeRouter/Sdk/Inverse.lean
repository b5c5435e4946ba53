import VibeRouter.Db.Tables
import VibeRouter.Lib.Decimal
import VibeRouter.Lib.Utf8Stream
import VibeRouter.Sdk.Sendable
import VibeRouter.Sdk.Stream

/-! # The client inverts the router

What the relay writes for a stream, with heartbeats anywhere in between, the client reads as the chunks
of that stream (`stream_relayed`); and it reads back the answer to a request without a stream
(`complete_sent`). -/

namespace VibeRouter.Sdk

open Json Regex

/-! ### What the app is told -/

/-- The counts of the wire format; cached tokens are written if there are any. -/
def wireUsage (u : AIUsage) : Usage :=
  ⟨u.promptTokens + u.cachedReadTokens + u.cacheWriteTokens, u.completionTokens, max u.cachedReadTokens 0⟩

/-- The events that a chunk leads to; an empty text leads to none. -/
def told : StreamChunk → List StreamEvent
  | .text_delta delta => if delta = [] then [] else [.delta (.str delta)]
  | .tool_call_start index id name =>
      [.toolCallDelta (some (.num index)) (some (.str id)) (some (.str name)) (some (.str []))]
  | .tool_call_delta index argumentsDelta =>
      [.toolCallDelta (some (.num index)) none none (some (.str argumentsDelta))]
  | .finish finishReason usage =>
      .finishReason (.str (js (FINISH_MAP finishReason))) :: (usage.map fun u =>
        .usage (.num (wireUsage u).promptTokens) (.num (wireUsage u).completionTokens)
          (.num (wireUsage u).cachedTokens)).toList

/-- The error that the app gets for one of the router. -/
def relayedError (err : RouterError) : VibeAiError :=
  { code := .str (js err.code.text), status := 502, message := .str (js err.message) }

/-- Where the events stop. -/
def toldEnd : RelayEnd → Option Stop
  | .ended => some .done
  | .aborted => none
  | .threw err => some (.thrown (.vibe (relayedError (toRouterError err))))

/-! ### Events -/

theorem andThen_empty (p : Parsed) : p.andThen {} = p := by
  obtain ⟨events, stop⟩ := p
  cases stop with
  | none => exact congrArg (Parsed.mk · none) (List.append_nil events)
  | some stop => rfl

theorem empty_andThen (p : Parsed) : Parsed.andThen {} p = p := by
  obtain ⟨events, stop⟩ := p
  rfl

section
variable [Platform]

/-- An object is the payload of its event. -/
theorem parseSseBlock_event {es : List (JsString × Json)} (h : Sendable (.obj es)) :
    parseSseBlock (js "data: " ++ stringify Platform.numberText (.obj es)) = parseChunk (.obj es) := by
  obtain ⟨inner, htext⟩ : ∃ inner, stringify Platform.numberText (.obj es) = 123 :: (inner ++ [125]) :=
    ⟨_, rfl⟩
  have hline : Unbroken (js "data: " ++ stringify Platform.numberText (.obj es)) :=
    Unbroken.append (by unfold Unbroken; decide) (tidy_stringify h.1 h.2).unbroken
  have hlines : dataLines (js "data: " ++ stringify Platform.numberText (.obj es)) =
      [32 :: stringify Platform.numberText (.obj es)] := by
    unfold dataLines
    rw [split_unbroken hline]
    rfl
  have htrimmed : (stringify Platform.numberText (.obj es)).Trimmed := by
    rw [htext]
    refine ⟨fun c hc => ?_, fun c hc => ?_⟩
    · cases hc
      decide
    · rw [← List.cons_append, List.getLast?_concat] at hc
      cases hc
      decide
  have htrim : JsString.trim (32 :: stringify Platform.numberText (.obj es)) =
      stringify Platform.numberText (.obj es) := by
    have hblank : JsString.isSpace 32 = true := by decide
    refine Eq.trans ?_ (JsString.trim_of_trimmed htrimmed)
    unfold JsString.trim
    rw [List.dropWhile_cons_of_pos hblank]
  have hdone : stringify Platform.numberText (.obj es) ≠ js "[DONE]" := by
    rw [htext]
    intro h
    cases h
  unfold parseSseBlock
  rw [hlines, List.foldr_cons, List.foldr_nil]
  unfold parseLine
  dsimp only
  rw [htrim, if_neg hdone, parse_stringify h.1]
  exact andThen_empty _

omit [Platform] in
/-- Cached tokens that are not written are read as none. -/
theorem usageEvent_wire (u : AIUsage) : usageEvent (toOpenAiUsage u) =
    .usage (.num (wireUsage u).promptTokens) (.num (wireUsage u).completionTokens)
      (.num (wireUsage u).cachedTokens) := by
  unfold toOpenAiUsage
  dsimp only
  unfold wireUsage
  by_cases hcached : 0 < u.cachedReadTokens
  · rw [if_pos hcached, max_eq_left hcached.le]
    rfl
  · rw [if_neg hcached, max_eq_right (not_lt.1 hcached)]
    rfl

omit [Platform] in
theorem parseChunk_usage (requestId model : String) (now : ℕ) (u : AIUsage) :
    parseChunk (.obj (chunkBase requestId model now ++
        [(js "choices", .arr []), (js "usage", toOpenAiUsage u)])) =
      { events := [.usage (.num (wireUsage u).promptTokens) (.num (wireUsage u).completionTokens)
          (.num (wireUsage u).cachedTokens)] } := by
  rw [← usageEvent_wire]
  rfl

omit [Platform] in
/-- The objects of a chunk are read as what the app is told of it. -/
theorem parseChunk_objects (requestId model : String) (now : ℕ) (chunk : StreamChunk) (first : Bool)
    (rest : Parsed) :
    ((toChunkObjects requestId model now chunk first).map parseChunk).foldr Parsed.andThen rest =
      Parsed.andThen { events := told chunk } rest := by
  cases chunk with
  | text_delta delta =>
      by_cases hdelta : delta = []
      · subst hdelta
        cases first <;> rfl
      · have htruthy : truthy (.str delta) = true := decide_eq_true hdelta
        have hyield : yieldIf .delta (some (.str delta)) = { events := [.delta (.str delta)] } := by
          unfold yieldIf
          rw [Option.filter_some, if_pos htruthy]
          rfl
        have htold : told (.text_delta delta) = [.delta (.str delta)] := if_neg hdelta
        have hbare : parseChunk (choiceObject (chunkBase requestId model now)
            [(js "content", .str delta)] .null) = (yieldIf .delta (some (.str delta))).andThen {} := rfl
        have hrole : parseChunk (choiceObject (chunkBase requestId model now)
            [(js "role", .str (js "assistant")), (js "content", .str delta)] .null) =
              (yieldIf .delta (some (.str delta))).andThen {} := rfl
        rw [htold]
        rw [hyield, andThen_empty] at hbare hrole
        cases first with
        | false => exact congrArg (Parsed.andThen · rest) hbare
        | true => exact congrArg (Parsed.andThen · rest) hrole
  | tool_call_start index id name => cases first <;> rfl
  | tool_call_delta index argumentsDelta => rfl
  | finish reason usage =>
      cases usage with
      | none => cases reason <;> rfl
      | some u =>
          have hfinish : parseChunk (choiceObject (chunkBase requestId model now) []
              (.str (js (FINISH_MAP reason)))) =
                { events := [.finishReason (.str (js (FINISH_MAP reason)))] } := by
            cases reason <;> rfl
          show (parseChunk _).andThen ((parseChunk _).andThen rest) = _
          rw [hfinish, parseChunk_usage]
          rfl

omit [Platform] in
theorem parseChunk_errorBody (err : RouterError) :
    parseChunk (errorBody err) = { stop := some (.thrown (.vibe (relayedError err))) } := rfl

/-! ### The stream -/

/-- A record that the relay writes, before the blank line. -/
structure Record (r : JsString) : Prop where
  tidy : Tidy r
  ascii : ∃ c t, r = c :: t ∧ c < 128

/-- What records are read as. -/
def readRecords (rs : List JsString) (rest : Parsed) : Parsed :=
  rs.foldr (fun r rest => (parseSseBlock r).andThen rest) rest

omit [Platform] in
theorem readRecords_cons (r : JsString) (rs : List JsString) (rest : Parsed) :
    readRecords (r :: rs) rest = (parseSseBlock r).andThen (readRecords rs rest) := rfl

omit [Platform] in
theorem record_heartbeat : Record (js ": heartbeat") ∧ parseSseBlock (js ": heartbeat") = {} := by
  have htidy : Tidy (js ": heartbeat") := tidy_of_ascii (by decide)
  refine ⟨⟨htidy, _, _, rfl, by decide⟩, ?_⟩
  unfold parseSseBlock dataLines
  rw [split_unbroken htidy.unbroken]
  rfl

omit [Platform] in
theorem record_done : Record (js "data: [DONE]") ∧
    parseSseBlock (js "data: [DONE]") = { stop := some .done } := by
  have htidy : Tidy (js "data: [DONE]") := tidy_of_ascii (by decide)
  refine ⟨⟨htidy, _, _, rfl, by decide⟩, ?_⟩
  unfold parseSseBlock dataLines
  rw [split_unbroken htidy.unbroken]
  rfl

theorem record_event {v : Json} (h : Sendable v) :
    Record (js "data: " ++ stringify Platform.numberText v) :=
  ⟨Tidy.append (tidy_of_ascii (by decide)) (tidy_stringify h.1 h.2), _, _, rfl, by decide⟩

omit [Platform] in
theorem toChunkObjects_obj {requestId model : String} {now : ℕ} {chunk : StreamChunk} {first : Bool} :
    ∀ v ∈ toChunkObjects requestId model now chunk first, ∃ es, v = .obj es := by
  cases chunk with
  | text_delta delta => exact List.forall_mem_singleton.2 ⟨_, rfl⟩
  | tool_call_start index id name => exact List.forall_mem_singleton.2 ⟨_, rfl⟩
  | tool_call_delta index argumentsDelta => exact List.forall_mem_singleton.2 ⟨_, rfl⟩
  | finish reason usage =>
      refine List.forall_mem_cons.2 ⟨⟨_, rfl⟩, fun v hv => ?_⟩
      cases usage with
      | none => cases hv
      | some u => exact ⟨_, List.mem_singleton.1 hv⟩

theorem event_eq (v : Json) :
    event v = (js "data: " ++ stringify Platform.numberText v) ++ [10, 10] := rfl

/-- The writes of the relay are records, and are read as what the app is told. -/
theorem relayed_records (hnumbers : NumbersReadBack) (requestId model : String) (first : Bool)
    {chunks : List (ℕ × StreamChunk)} (hchunks : ∀ c ∈ chunks, Relayable c.2) {outcome : RelayEnd}
    (houtcome : ∀ err, outcome = .threw err → Recorded (toRouterError err).detail) :
    ∃ rs, relayed requestId model first chunks outcome = rs.map (· ++ [10, 10]) ∧
      (∀ r ∈ rs, Record r) ∧
      readRecords rs {} = { events := chunks.flatMap fun c => told c.2, stop := toldEnd outcome } := by
  induction chunks generalizing first with
  | nil =>
      cases outcome with
      | ended =>
          refine ⟨[js "data: [DONE]"], rfl, List.forall_mem_singleton.2 record_done.1, ?_⟩
          rw [readRecords_cons, record_done.2]
          rfl
      | aborted => exact ⟨[], rfl, fun r hr => (by cases hr), rfl⟩
      | threw err =>
          have hbody := errorBody_sendable hnumbers (houtcome err rfl)
          refine ⟨[js "data: " ++ stringify Platform.numberText (errorBody (toRouterError err)),
            js "data: [DONE]"], ?_, List.forall_mem_cons.2 ⟨record_event hbody,
              List.forall_mem_singleton.2 record_done.1⟩, ?_⟩
          · show [event (errorBody (toRouterError err)), DONE] = _
            rw [event_eq]
            rfl
          · rw [readRecords_cons, errorBody, parseSseBlock_event hbody, ← errorBody, parseChunk_errorBody]
            rfl
  | cons c chunks ih =>
      obtain ⟨now, chunk⟩ := c
      obtain ⟨hchunk, hrest⟩ := List.forall_mem_cons.1 hchunks
      obtain ⟨rs, hwrites, hrecords, hread⟩ := ih false hrest
      have hobjects := toChunkObjects_sendable hnumbers hchunk requestId model now first
      refine ⟨(toChunkObjects requestId model now chunk first).map
        (fun v => js "data: " ++ stringify Platform.numberText v) ++ rs, ?_, ?_, ?_⟩
      · unfold relayed
        rw [hwrites, List.map_append, List.map_map]
        rfl
      · intro r hr
        rcases List.mem_append.1 hr with hr | hr
        · obtain ⟨v, hv, rfl⟩ := List.mem_map.1 hr
          exact record_event (hobjects v hv)
        · exact hrecords r hr
      · have hblocks : ∀ vs : List Json, (∀ v ∈ vs, Sendable v ∧ ∃ es, v = .obj es) → ∀ rest,
            readRecords (vs.map fun v => js "data: " ++ stringify Platform.numberText v) rest =
              (vs.map parseChunk).foldr Parsed.andThen rest := by
          intro vs hvs rest
          induction vs with
          | nil => rfl
          | cons v vs ih =>
              obtain ⟨⟨hv, es, rfl⟩, htail⟩ := List.forall_mem_cons.1 hvs
              rw [List.map_cons, readRecords_cons, parseSseBlock_event hv, ih htail]
              rfl
        have happend : ∀ rs₁ rs₂ rest, readRecords (rs₁ ++ rs₂) rest =
            readRecords rs₁ (readRecords rs₂ rest) := fun rs₁ rs₂ rest => List.foldr_append
        rw [happend, hread, hblocks _ (fun v hv => ⟨hobjects v hv, toChunkObjects_obj v hv⟩),
          parseChunk_objects, List.flatMap_cons]
        rfl

omit [Platform] in
/-- Heartbeats are records that tell nothing. -/
theorem heartbeats_records {ws vs : List JsString} (h : WithHeartbeats ws vs) {rs : List JsString}
    (hws : ws = rs.map (· ++ [10, 10])) (hrs : ∀ r ∈ rs, Record r) :
    ∃ rs', vs = rs'.map (· ++ [10, 10]) ∧ (∀ r ∈ rs', Record r) ∧
      readRecords rs' {} = readRecords rs {} := by
  induction h generalizing rs with
  | nil => exact ⟨rs, hws, hrs, rfl⟩
  | write h ih =>
      cases rs with
      | nil => cases hws
      | cons r rs =>
          obtain ⟨hr, hrest⟩ := List.forall_mem_cons.1 hrs
          obtain ⟨rfl, rfl⟩ := List.cons_eq_cons.1 hws
          obtain ⟨rs', rfl, hrs', hread⟩ := ih rfl hrest
          refine ⟨r :: rs', rfl, List.forall_mem_cons.2 ⟨hr, hrs'⟩, ?_⟩
          exact congrArg (Parsed.andThen (parseSseBlock r)) hread
  | heartbeat h ih =>
      obtain ⟨rs', rfl, hrs', hread⟩ := ih hws hrs
      refine ⟨js ": heartbeat" :: rs', rfl, List.forall_mem_cons.2 ⟨record_heartbeat.1, hrs'⟩, ?_⟩
      rw [readRecords_cons, record_heartbeat.2, empty_andThen]
      exact hread

/-- The response head of a stream. -/
def relayReply (requestId : String) (budgetWarnings : List String) : Reply :=
  { status := 200
    contentType := some (js "text/event-stream; charset=utf-8")
    requestId := some (js requestId)
    budgetWarning := if budgetWarnings = [] then none else some (js (",".intercalate budgetWarnings))
    json := none }

theorem stream_relayed (hnumbers : NumbersReadBack) {requestId model : String}
    {chunks : List (ℕ × StreamChunk)} (hchunks : ∀ c ∈ chunks, Relayable c.2) {outcome : RelayEnd}
    (houtcome : ∀ err, outcome = .threw err → Recorded (toRouterError err).detail)
    {written : List JsString} (hwritten : WithHeartbeats (relayed requestId model true chunks outcome) written)
    {reads : List Bytes} (hreads : reads.flatten = Utf8.encode written.flatten)
    (budgetWarnings : List String) :
    stream Utf8.textDecoder (relayReply requestId budgetWarnings) (some (reads, .ok ())) =
      { events := chunks.flatMap fun c => told c.2, stop := toldEnd outcome } := by
  obtain ⟨rs, hws, hrs, hread⟩ := relayed_records hnumbers requestId model true hchunks houtcome
  obtain ⟨rs', rfl, hrs', hread'⟩ := heartbeats_records hwritten hws hrs
  have hflat : (rs'.map (· ++ [10, 10])).flatten = rs'.flatMap fun r => r ++ [10, 10] :=
    List.flatMap_def.symm
  have hwell : Utf8.WellFormed (rs'.map (· ++ [10, 10])).flatten := by
    clear hread' hwritten hreads hflat
    induction rs' with
    | nil => rfl
    | cons r rs' ih =>
        obtain ⟨hr, hrest⟩ := List.forall_mem_cons.1 hrs'
        rw [List.map_cons, List.flatten_cons]
        exact Utf8.wellFormed_append (Utf8.wellFormed_append hr.tidy.wellFormed rfl) (ih hrest)
  have hmark : (rs'.map (· ++ [10, 10])).flatten.head? ≠ some 0xFEFF := by
    cases rs' with
    | nil => exact fun h => by cases h
    | cons r rs' =>
        obtain ⟨c, t, rfl, hc⟩ := (hrs' r List.mem_cons_self).ascii
        intro h
        cases h
        exact absurd hc (by decide)
  obtain ⟨hdecode, hflush⟩ := Utf8.textDecoder_encode hwell hmark
  have hdrain := drain_unbroken fun r hr => (hrs' r hr).tidy.unbroken
  have hnext : records.next [] = none := nextRecord_eq []
  have hok : (relayReply requestId budgetWarnings).ok = true := rfl
  have hsse : includes ((relayReply requestId budgetWarnings).contentType.getD [])
      (js "text/event-stream") = true := by
    show includes (js "text/event-stream; charset=utf-8") (js "text/event-stream") = true
    decide
  have hlast : ∀ s, Utf8.textDecoder.flush s = [] → flushBlock Utf8.textDecoder (.ok ()) s [] = {} := by
    intro s hs
    unfold flushBlock
    dsimp only
    rw [hs]
    rfl
  unfold stream
  rw [hok, Bool.not_true, if_neg Bool.false_ne_true]
  dsimp only
  rw [hsse, Bool.not_true, if_neg Bool.false_ne_true, Utf8.textDecoder.consume_eq _ _ _ hnext, hreads,
    List.nil_append, hdecode, hflat, hdrain, hlast _ (hflat ▸ hflush)]
  exact hread'.trans hread

/-! ### Answers without a stream -/

/-- The response to a request without a stream; its body is sent as UTF-8. -/
def completionReply (requestId : String) (budgetWarnings : List String) (now : ℕ) (res : AIResponse) :
    Reply :=
  { status := 200
    contentType := some (js "application/json; charset=utf-8")
    requestId := some (js requestId)
    budgetWarning := if budgetWarnings = [] then none else some (js (",".intercalate budgetWarnings))
    json := Json.parse (Utf8.decode (Utf8.encode
      (stringify Platform.numberText (toChatCompletion requestId now res)))) }

omit [Platform] in
theorem readToolCalls (calls : List ToolCall) :
    (calls.map ToolCall.toWire).mapM readToolCall =
      some (calls.map fun tc => ⟨js tc.id, js tc.name, tc.arguments⟩) := by
  induction calls with
  | nil => rfl
  | cons tc calls ih =>
      have hcall : readToolCall tc.toWire = some ⟨js tc.id, js tc.name, tc.arguments⟩ := rfl
      rw [List.map_cons, List.mapM_cons, hcall, ih]
      rfl

omit [Platform] in
theorem toUsage_wire (u : AIUsage) : toUsage (some (toOpenAiUsage u)) = some (wireUsage u) := by
  unfold toOpenAiUsage
  dsimp only
  unfold wireUsage
  by_cases hcached : 0 < u.cachedReadTokens
  · rw [if_pos hcached, max_eq_left hcached.le]
    rfl
  · rw [if_neg hcached, max_eq_right (not_lt.1 hcached)]
    rfl

omit [Platform] in
/-- The message of a choice is read back; content that is left out is empty. -/
theorem readChoice_wire (m : ResponseMessage) (reason : FinishReason) :
    readChoice (.obj [(js "index", .num 0), (js "message", m.toWire),
      (js "finish_reason", .str (js (FINISH_MAP reason))), (js "logprobs", .null)]) =
      some { content := m.content
             toolCalls := (m.toolCalls.getD []).map fun tc => ⟨js tc.id, js tc.name, tc.arguments⟩
             finishReason := js (FINISH_MAP reason) } := by
  have hcontent : (nullishMember asString "content" m.toWire).map (fun content => content.getD []) =
      some m.content := by
    unfold ResponseMessage.toWire
    dsimp only
    by_cases hempty : m.content = []
    · by_cases hcalls : m.toolCalls.getD [] = []
      · simp only [hempty, hcalls, ne_eq, not_true, if_false]
        rfl
      · simp only [hempty, hcalls, ne_eq, not_true, not_false_iff, if_false, if_true]
        rfl
    · simp only [hempty, ne_eq, not_false_iff, if_true]
      rfl
  have hcalls : (nullishMember (array readToolCall) "tool_calls" m.toWire).map (fun calls => calls.getD []) =
      some ((m.toolCalls.getD []).map fun tc => ⟨js tc.id, js tc.name, tc.arguments⟩) := by
    unfold ResponseMessage.toWire
    dsimp only
    by_cases hnone : m.toolCalls.getD [] = []
    · simp only [hnone, ne_eq, not_true, if_false]
      rfl
    · simp only [hnone, ne_eq, not_false_iff, if_true]
      show ((((m.toolCalls.getD []).map ToolCall.toWire).mapM readToolCall).map some).map _ = _
      rw [readToolCalls]
      rfl
  obtain ⟨content, hreadContent, hcontent⟩ := Option.map_eq_some_iff.1 hcontent
  obtain ⟨calls, hreadCalls, hcalls⟩ := Option.map_eq_some_iff.1 hcalls
  show (nullishMember asString "content" m.toWire).bind _ = _
  rw [hreadContent, Option.bind_some]
  show (nullishMember (array readToolCall) "tool_calls" m.toWire).bind _ = _
  rw [hreadCalls, Option.bind_some]
  show some (WireChoice.mk (content.getD []) (calls.getD []) _) = _
  rw [hcontent, hcalls]
  rfl

/-- The answer to a request is read back. -/
theorem complete_sent (hnumbers : NumbersReadBack) (requestId : String) (budgetWarnings : List String)
    (now : ℕ) {res : AIResponse} (h : Answerable res.message) (hcounts : Countable res.usage) :
    complete (completionReply requestId budgetWarnings now res) = .ok
      { content := res.message.content
        toolCalls := (res.message.toolCalls.getD []).map fun tc => ⟨js tc.id, js tc.name, tc.arguments⟩
        finishReason := js (FINISH_MAP res.finishReason)
        model := js res.served.model
        usage := wireUsage res.usage
        requestId := js requestId
        budgetWarnings := splitWarnings (((if budgetWarnings = [] then none
          else some (js (",".intercalate budgetWarnings))) : Option JsString).getD []) } := by
  have hsend := sendable_completion hnumbers requestId now h hcounts
  have hjson : (completionReply requestId budgetWarnings now res).json =
      some (toChatCompletion requestId now res) := by
    unfold completionReply
    dsimp only
    rw [Utf8.decode_encode (tidy_stringify hsend.1 hsend.2).wellFormed, parse_stringify hsend.1]
  have hok : (completionReply requestId budgetWarnings now res).ok = true := rfl
  have htype : includes ((completionReply requestId budgetWarnings now res).contentType.getD [])
      (js "application/json") = true := by
    show includes (js "application/json; charset=utf-8") (js "application/json") = true
    decide
  have hread : readCompletion (completionReply requestId budgetWarnings now res)
      (toChatCompletion requestId now res) = some
      { content := res.message.content
        toolCalls := (res.message.toolCalls.getD []).map fun tc => ⟨js tc.id, js tc.name, tc.arguments⟩
        finishReason := js (FINISH_MAP res.finishReason)
        model := js res.served.model
        usage := wireUsage res.usage
        requestId := js requestId
        budgetWarnings := splitWarnings (((if budgetWarnings = [] then none
          else some (js (",".intercalate budgetWarnings))) : Option JsString).getD []) } := by
    show (readChoice _).bind _ = _
    rw [readChoice_wire, Option.bind_some]
    show (toUsage (some (toOpenAiUsage res.usage))).bind _ = _
    rw [toUsage_wire]
    rfl
  unfold complete
  rw [hok, Bool.not_true, if_neg Bool.false_ne_true, htype, Bool.not_true, if_neg Bool.false_ne_true,
    hjson]
  dsimp only
  rw [hread]

/-! ### What is sent and what is received -/

/-- The text of a stream. -/
def sentText : List StreamChunk → JsString
  | [] => []
  | .text_delta delta :: chunks => delta ++ sentText chunks
  | _ :: chunks => sentText chunks

def receivedText : List StreamEvent → JsString
  | [] => []
  | .delta (.str s) :: events => s ++ receivedText events
  | _ :: events => receivedText events

/-- A piece of a tool call: the id and the name when it starts, and a fragment of the arguments. -/
structure CallPiece where
  id : Option JsString
  name : Option JsString
  arguments : JsString

/-- The pieces of the tool call with an index. -/
def sentPieces (index : ℚ) : List StreamChunk → List CallPiece
  | [] => []
  | .tool_call_start i id name :: chunks =>
      if i = index then ⟨some id, some name, []⟩ :: sentPieces index chunks else sentPieces index chunks
  | .tool_call_delta i argumentsDelta :: chunks =>
      if i = index then ⟨none, none, argumentsDelta⟩ :: sentPieces index chunks
      else sentPieces index chunks
  | _ :: chunks => sentPieces index chunks

def receivedPieces (index : ℚ) : List StreamEvent → List CallPiece
  | [] => []
  | .toolCallDelta (some (.num i)) id name (some (.str arguments)) :: events =>
      if i = index then
        ⟨id.bind asString, name.bind asString, arguments⟩ :: receivedPieces index events
      else receivedPieces index events
  | _ :: events => receivedPieces index events

def sentReasons : List StreamChunk → List JsString
  | [] => []
  | .finish reason _ :: chunks => js (FINISH_MAP reason) :: sentReasons chunks
  | _ :: chunks => sentReasons chunks

def receivedReasons : List StreamEvent → List JsString
  | [] => []
  | .finishReason (.str reason) :: events => reason :: receivedReasons events
  | _ :: events => receivedReasons events

def sentUsages : List StreamChunk → List Usage
  | [] => []
  | .finish _ (some u) :: chunks => wireUsage u :: sentUsages chunks
  | _ :: chunks => sentUsages chunks

def receivedUsages : List StreamEvent → List Usage
  | [] => []
  | .usage (.num prompt) (.num completion) (.num cached) :: events =>
      ⟨prompt, completion, cached⟩ :: receivedUsages events
  | _ :: events => receivedUsages events

omit [Platform] in
theorem received_told (chunks : List StreamChunk) :
    receivedText (chunks.flatMap told) = sentText chunks ∧
    (∀ index, receivedPieces index (chunks.flatMap told) = sentPieces index chunks) ∧
    receivedReasons (chunks.flatMap told) = sentReasons chunks ∧
    receivedUsages (chunks.flatMap told) = sentUsages chunks := by
  induction chunks with
  | nil => exact ⟨rfl, fun index => rfl, rfl, rfl⟩
  | cons chunk chunks ih =>
      obtain ⟨htext, hpieces, hreasons, husages⟩ := ih
      rw [List.flatMap_cons]
      cases chunk with
      | text_delta delta =>
          by_cases hempty : delta = []
          · subst hempty
            exact ⟨htext, hpieces, hreasons, husages⟩
          · have htold : told (.text_delta delta) = [.delta (.str delta)] := if_neg hempty
            rw [htold]
            exact ⟨congrArg (delta ++ ·) htext, hpieces, hreasons, husages⟩
      | tool_call_start i id name =>
          refine ⟨htext, fun index => ?_, hreasons, husages⟩
          exact congrArg (fun rest => if i = index then ⟨some id, some name, []⟩ :: rest else rest)
            (hpieces index)
      | tool_call_delta i argumentsDelta =>
          refine ⟨htext, fun index => ?_, hreasons, husages⟩
          exact congrArg (fun rest => if i = index then ⟨none, none, argumentsDelta⟩ :: rest else rest)
            (hpieces index)
      | finish reason usage =>
          cases usage with
          | none => exact ⟨htext, hpieces, congrArg (_ :: ·) hreasons, husages⟩
          | some u => exact ⟨htext, hpieces, congrArg (_ :: ·) hreasons, congrArg (_ :: ·) husages⟩

/-- **The client inverts the router.** -/
theorem client_inverts_router (hnumbers : NumbersReadBack) (requestId : String)
    (budgetWarnings : List String) :
    (∀ (model : String) (chunks : List (ℕ × StreamChunk)) (outcome : RelayEnd) (written : List JsString)
        (reads : List Bytes),
      (∀ c ∈ chunks, Relayable c.2) →
      (∀ err, outcome = .threw err → Recorded (toRouterError err).detail) →
      WithHeartbeats (relayed requestId model true chunks outcome) written →
      reads.flatten = Utf8.encode written.flatten →
      ∃ events, stream Utf8.textDecoder (relayReply requestId budgetWarnings) (some (reads, .ok ())) =
          { events, stop := toldEnd outcome } ∧
        receivedText events = sentText (chunks.map Prod.snd) ∧
        (∀ index, receivedPieces index events = sentPieces index (chunks.map Prod.snd)) ∧
        receivedReasons events = sentReasons (chunks.map Prod.snd) ∧
        receivedUsages events = sentUsages (chunks.map Prod.snd)) ∧
    ∀ (now : ℕ) (res : AIResponse), Answerable res.message → Countable res.usage →
      ∃ result, complete (completionReply requestId budgetWarnings now res) = .ok result ∧
        result.content = res.message.content ∧
        result.toolCalls =
          (res.message.toolCalls.getD []).map (fun tc => ⟨js tc.id, js tc.name, tc.arguments⟩) ∧
        result.finishReason = js (FINISH_MAP res.finishReason) ∧ result.usage = wireUsage res.usage := by
  constructor
  · intro model chunks outcome written reads hchunks houtcome hwritten hreads
    have hstream := stream_relayed hnumbers hchunks houtcome hwritten hreads budgetWarnings
    have hevents : (chunks.flatMap fun c => told c.2) = (chunks.map Prod.snd).flatMap told := by
      rw [List.flatMap_map]
    rw [hevents] at hstream
    exact ⟨_, hstream, received_told _⟩
  · intro now res h hcounts
    exact ⟨_, complete_sent hnumbers requestId budgetWarnings now h hcounts, rfl, rfl, rfl, rfl⟩

end

end VibeRouter.Sdk

namespace VibeRouter.Sample

open Json Sdk

/-! ### A stream that is relayed and read -/

/-- A platform that writes whole numbers in decimal. -/
@[reducible] def decimalPlatform : Platform := { platform with numberText := decimal }

def toolStream : List (ℕ × StreamChunk) :=
  [(0, .tool_call_start 0 (js "t1") (js "lookup")), (7, .tool_call_delta 0 (js "\x7b\x7d")),
    (9, .text_delta (js "a\n\nb")), (9, .finish .error (some ⟨3, 2, 1, 4, false⟩))]

/-- A stream whose text has a blank line is read back, behind a heartbeat. -/
theorem toolStream_inverted : letI := decimalPlatform
    ∃ events, stream Utf8.textDecoder (relayReply "r1" []) (some ([Utf8.encode
        (HEARTBEAT :: relayed "r1" "m" true toolStream .ended).flatten], .ok ())) =
          { events, stop := some .done } ∧
        receivedText events = js "a\n\nb" ∧
        receivedReasons events = [js "stop"] ∧ receivedUsages events = [⟨8, 2, 1⟩] := by
  let := decimalPlatform
  have hindex : ReadsBack decimal 0 := by exact_mod_cast decimal_readsBack 0
  have hcounts : Relayable (.finish .error (some ⟨3, 2, 1, 4, false⟩)) := by
    rintro u ⟨⟩
    exact countable_of_whole decimal_readsBack 3 2 1 4 false
  have hrelayable : ∀ c ∈ toolStream, Relayable c.2 := by
    refine List.forall_mem_cons.2 ⟨⟨hindex, js_units _, js_units _⟩, List.forall_mem_cons.2
      ⟨⟨hindex, js_units _⟩, List.forall_mem_cons.2 ⟨js_units _, List.forall_mem_singleton.2 hcounts⟩⟩⟩
  have hbeats : ∀ ws, WithHeartbeats ws ws := by
    intro ws
    induction ws with
    | nil => exact .nil
    | cons w ws ih => exact .write ih
  obtain ⟨events, hstream, htext, -, hreasons, husages⟩ :=
    (client_inverts_router decimal_readsBack "r1" []).1 "m" toolStream .ended _ [_] hrelayable
      (fun err h => by cases h) (.heartbeat (hbeats _)) (List.append_nil _)
  refine ⟨events, hstream, htext, hreasons, husages.trans ?_⟩
  decide +kernel

end VibeRouter.Sample
