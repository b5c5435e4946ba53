import VibeRouter.Db.Tables
import VibeRouter.Sdk.Client

/-! # Forced JSON on both sides

The router parses and validates the JSON value of a forced-JSON request before it answers; the
client parses the answer again.  Both take the same text between the same fences. -/

namespace VibeRouter.Sdk

open Json

/-- The router's answer to a request without a stream. -/
def sendResponse (requestId : String) (warnings : List String) (now : ℕ) (res : AIResponse) : Reply :=
  { status := 200
    contentType := some (js "application/json; charset=utf-8")
    requestId := some (js requestId)
    budgetWarning := if warnings = [] then none else some (js (",".intercalate warnings))
    json := some (toChatCompletion requestId now res) }

def ofToolCall (tc : ToolCall) : WireToolCall := ⟨js tc.id, js tc.name, tc.arguments⟩

theorem readToolCall_toWire (tc : ToolCall) : readToolCall tc.toWire = some (ofToolCall tc) := rfl

theorem array_readToolCall (tcs : List ToolCall) :
    array readToolCall (.arr (tcs.map ToolCall.toWire)) = some (tcs.map ofToolCall) := by
  show (tcs.map ToolCall.toWire).mapM readToolCall = _
  induction tcs with
  | nil => rfl
  | cons tc tcs ih =>
      rw [List.map_cons, List.mapM_cons, readToolCall_toWire, ih]
      rfl

/-- The first choice of an answer. -/
def wireChoice (res : AIResponse) : Json :=
  .obj [(js "index", .num 0), (js "message", res.message.toWire),
    (js "finish_reason", .str (js (FINISH_MAP res.finishReason))), (js "logprobs", .null)]

/-- The client reads back the message, with `''` for the content that was left out. -/
theorem readChoice_wireChoice (res : AIResponse) :
    readChoice (wireChoice res) = some
      { content := res.message.content
        toolCalls := (res.message.toolCalls.getD []).map ofToolCall
        finishReason := js (FINISH_MAP res.finishReason) } := by
  have hcontent : nullishMember asString "content" res.message.toWire =
      some (if res.message.content ≠ [] then some res.message.content
        else if res.message.toolCalls.getD [] ≠ [] then none else some []) := by
    unfold ResponseMessage.toWire
    dsimp only
    by_cases htext : res.message.content = []
    · by_cases hnone : res.message.toolCalls.getD [] = []
      · simp only [htext, hnone, ne_eq, not_true_eq_false, if_false]
        rfl
      · simp only [htext, hnone, ne_eq, not_true_eq_false, not_false_eq_true, if_false, if_true]
        rfl
    · simp only [htext, ne_eq, not_false_eq_true, if_true]
      rfl
  have hcalls : nullishMember (array readToolCall) "tool_calls" res.message.toWire =
      some (if res.message.toolCalls.getD [] ≠ [] then
        some ((res.message.toolCalls.getD []).map ofToolCall) else none) := by
    have harray := array_readToolCall (res.message.toolCalls.getD [])
    unfold ResponseMessage.toWire
    dsimp only
    by_cases hnone : res.message.toolCalls.getD [] = []
    · simp only [hnone, ne_eq, not_true_eq_false, if_false]
      rfl
    · simp only [hnone, ne_eq, not_false_eq_true, if_true]
      show (array readToolCall _).map some = _
      rw [harray]
      rfl
  unfold readChoice
  have hmessage : (wireChoice res).field "message" = some res.message.toWire := rfl
  have hreason : nullishMember asString "finish_reason" (wireChoice res) =
      some (some (js (FINISH_MAP res.finishReason))) := rfl
  rw [hmessage, Option.bind_eq_bind, Option.bind_some, hcontent, hcalls, hreason]
  by_cases htext : res.message.content = []
  · by_cases hnone : res.message.toolCalls.getD [] = []
    · simp [htext, hnone]
    · simp [htext, hnone]
  · by_cases hnone : res.message.toolCalls.getD [] = []
    · simp [htext, hnone]
    · simp [htext, hnone]

theorem toUsage_toOpenAiUsage (u : AIUsage) :
    ∃ usage, toUsage (some (toOpenAiUsage u)) = some usage := by
  unfold toOpenAiUsage
  by_cases hcached : 0 < u.cachedReadTokens
  · simp only [if_pos hcached]
    exact ⟨_, rfl⟩
  · simp only [if_neg hcached]
    exact ⟨_, rfl⟩

/-- What the client makes of an answer. -/
theorem complete_sendResponse (requestId : String) (warnings : List String) (now : ℕ)
    (res : AIResponse) :
    ∃ result, complete (sendResponse requestId warnings now res) = .ok result ∧
      result.content = res.message.content ∧
      result.toolCalls = (res.message.toolCalls.getD []).map ofToolCall ∧
      result.finishReason = js (FINISH_MAP res.finishReason) := by
  obtain ⟨usage, husage⟩ := toUsage_toOpenAiUsage res.usage
  have hread : ∀ r : Reply, ∃ result,
      readCompletion r (toChatCompletion requestId now res) = some result ∧
      result.content = res.message.content ∧
      result.toolCalls = (res.message.toolCalls.getD []).map ofToolCall ∧
      result.finishReason = js (FINISH_MAP res.finishReason) := by
    intro r
    unfold readCompletion
    have hchoices : member asArray "choices" (toChatCompletion requestId now res) =
        some [wireChoice res] := rfl
    have hmodel : member asString "model" (toChatCompletion requestId now res) =
        some (js res.served.model) := rfl
    have hfield : (toChatCompletion requestId now res).field "usage" =
        some (toOpenAiUsage res.usage) := rfl
    rw [hchoices, hmodel, hfield, husage, Option.bind_eq_bind, Option.bind_some, List.head?_cons]
    dsimp only
    rw [readChoice_wireChoice]
    exact ⟨_, rfl, rfl, rfl, rfl⟩
  obtain ⟨result, hresult, hfields⟩ := hread (sendResponse requestId warnings now res)
  refine ⟨result, ?_, hfields⟩
  have hok : (sendResponse requestId warnings now res).ok = true := rfl
  have htype : includes ((sendResponse requestId warnings now res).contentType.getD [])
      (js "application/json") = true := by
    show includes (js "application/json; charset=utf-8") (js "application/json") = true
    decide +kernel
  have hjson : (sendResponse requestId warnings now res).json =
      some (toChatCompletion requestId now res) := rfl
  unfold complete
  rw [hok, htype, hjson]
  dsimp only
  rw [hresult]
  rfl

theorem finish_length_iff {reason : FinishReason} :
    js (FINISH_MAP reason) = js "length" ↔ reason = .length := by
  cases reason <;> decide +kernel

/-- The text a forced-JSON answer is taken from. -/
def jsonSource (res : AIResponse) : JsString :=
  if res.message.content.trim ≠ [] then res.message.content
  else ((res.message.toolCalls.getD []).head?.map ToolCall.arguments).getD []

variable [Platform]

/-- A forced-JSON response without a finding was parsed and validated. -/
theorem verifyResponse_ok {res : AIResponse} {env : AIRequest} {mode : SchemaValidationMode}
    {soft : List SoftFinding} (hjson : wantsJson env = true)
    (h : verifyResponse res env mode = .ok (none, soft)) :
    res.finishReason ≠ .length ∧ ∃ data, Json.parse (stripFence (jsonSource res)) = some data ∧
      verifySchema data env mode = .ok (none, soft) := by
  unfold verifyResponse at h
  dsimp only at h
  split at h
  · cases h
  split at h
  · cases h
  split at h
  · cases h
  rw [hjson] at h
  split at h
  · next hfalse => cases hfalse
  split at h
  · cases h
  next hlength =>
    refine ⟨hlength, ?_⟩
    split at h
    · cases h
    next data hparse => exact ⟨data, hparse, h⟩

/-- **What the router accepts as forced JSON, the client parses to the same value.** -/
theorem completeJson_sendResponse (requestId : String) (warnings : List String) (now : ℕ)
    (res : AIResponse) (env : AIRequest) (mode : SchemaValidationMode) (soft : List SoftFinding)
    (name : String) (schema : Option Json) (strict : Option Bool)
    (validation : Option SchemaValidationMode)
    (hformat : env.responseFormat = some (.json_schema name schema strict validation))
    (hverified : verifyResponse res env mode = .ok (none, soft)) :
    ∃ data result, Json.parse (stripFence (jsonSource res)) = some data ∧
      verifySchema data env mode = .ok (none, soft) ∧
      completeJson name (sendResponse requestId warnings now res) = .ok (result, data) := by
  have hjson : wantsJson env = true := by
    unfold wantsJson
    rw [hformat]
  obtain ⟨hlength, data, hparse, hschema⟩ := verifyResponse_ok hjson hverified
  obtain ⟨result, hcomplete, hcontent, hcalls, hreason⟩ :=
    complete_sendResponse requestId warnings now res
  refine ⟨data, result, hparse, hschema, ?_⟩
  have hnot : result.finishReason ≠ js "length" := by
    rw [hreason]
    exact fun h => hlength (finish_length_iff.1 h)
  have hsource : (if result.content.trim ≠ [] then result.content
      else (result.toolCalls.head?.map WireToolCall.arguments).getD []) = jsonSource res := by
    have hhead : ∀ tcs : List ToolCall, ((tcs.map ofToolCall).head?.map WireToolCall.arguments) =
        tcs.head?.map ToolCall.arguments := by
      intro tcs
      cases tcs <;> rfl
    unfold jsonSource
    rw [hcontent, hcalls, hhead]
  unfold completeJson
  simp only [hcomplete, bind, Except.bind, if_neg hnot, hsource, ← stripFence_eq_unfence, hparse]
  rfl

end VibeRouter.Sdk

namespace VibeRouter.Sample

open Sdk

/-- A request for a JSON value. -/
def jsonRequest : AIRequest :=
  { request "hello" with responseFormat := some (.json_schema "memo" none none none) }

/-- An answer in a code fence, with white space around it. -/
def fenced : AIResponse :=
  { message := { content := js " ```json\n[1, true]\n``` " }
    finishReason := .stop
    usage := ⟨3, 5, 0, 0, false⟩
    served := ⟨"llama", localProviderId, 12⟩ }

def accepted (r : Except Thrown (Option VerifyFinding × List SoftFinding)) : Bool :=
  match r with
  | .ok (none, []) => true
  | _ => false

theorem ok_of_accepted {r : Except Thrown (Option VerifyFinding × List SoftFinding)}
    (h : accepted r = true) : r = .ok (none, []) := by
  unfold accepted at h
  split at h
  · rfl
  · cases h

theorem fenced_accepted : letI := platform
    accepted (verifyResponse fenced jsonRequest .structural) = true := by
  decide +kernel

theorem completeJson_fenced : letI := platform
    ∃ data result, Json.parse (stripFence (jsonSource fenced)) = some data ∧
      verifySchema data jsonRequest .structural = .ok (none, []) ∧
      completeJson "memo" (sendResponse "r1" [] 1700000000000 fenced) = .ok (result, data) := by
  let := platform
  exact completeJson_sendResponse "r1" [] 1700000000000 fenced jsonRequest .structural [] "memo" none
    none none rfl (ok_of_accepted fenced_accepted)

end VibeRouter.Sample
