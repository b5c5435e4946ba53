import VibeRouter.Gateway.Fences
import VibeRouter.Gateway.OpenaiShape
import VibeRouter.Lib.JsonRead

/-! # The client of the apps

`complete` reads the router's answer to a request without a stream; `completeJson` takes the JSON
value of a forced-JSON request from it.  A body outside the wire type `WireCompletion` leads to a
`TypeError`. -/

namespace VibeRouter.Sdk

/-- The response of `fetch`: its headers as far as they are read, and what `res.json()` gives;
`none` is the `SyntaxError`. -/
structure Reply where
  status : ℕ
  contentType : Option JsString := none
  requestId : Option JsString := none
  budgetWarning : Option JsString := none
  retryAfter : Option JsString := none
  json : Option Json

/-- `res.ok`. -/
def Reply.ok (r : Reply) : Bool := 200 ≤ r.status && r.status ≤ 299

/-- `retryAfter` is the text that `retryAfterSeconds` is read from. -/
structure VibeAiError where
  code : Json
  status : ℕ
  message : Json
  retryAfter : Option JsString := none
  detail : Option Json := none

inductive Failure
  | vibe (e : VibeAiError)
  | typeError
  | syntaxError

structure Usage where
  promptTokens : ℚ
  completionTokens : ℚ
  cachedTokens : ℚ
deriving DecidableEq

structure WireToolCall where
  id : JsString
  name : JsString
  arguments : JsString
deriving DecidableEq

structure CompletionResult where
  content : JsString
  toolCalls : List WireToolCall
  finishReason : JsString
  model : JsString
  usage : Usage
  requestId : JsString
  budgetWarnings : List JsString
deriving DecidableEq

/-! ### The wire -/

open Json

/-- The first choice, with the defaults of the fields that may be absent. -/
structure WireChoice where
  content : JsString := []
  toolCalls : List WireToolCall := []
  finishReason : JsString := js "stop"

def readToolCall (v : Json) : Option WireToolCall := do
  let id ← member asString "id" v
  let f ← v.field "function"
  let name ← member asString "name" f
  let arguments ← member asString "arguments" f
  pure { id, name, arguments }

def readChoice (choice : Json) : Option WireChoice := do
  let message ← choice.field "message"
  let content ← nullishMember asString "content" message
  let calls ← nullishMember (array readToolCall) "tool_calls" message
  let reason ← nullishMember asString "finish_reason" choice
  pure { content := content.getD [], toolCalls := calls.getD [],
         finishReason := reason.getD (js "stop") }

/-- `toUsage`. -/
def toUsage (usage : Option Json) : Option Usage := do
  let u := usage.getD (.obj [])
  let prompt ← nullishMember asNumber "prompt_tokens" u
  let completion ← nullishMember asNumber "completion_tokens" u
  let cached ← nullishMember (nullishMember asNumber "cached_tokens") "prompt_tokens_details" u
  pure ⟨prompt.getD 0, completion.getD 0, (cached.join).getD 0⟩

/-- `.split(',').filter(Boolean)`. -/
def splitWarnings (header : JsString) : List JsString :=
  (header.splitOn 44).filter fun w => w ≠ []

/-- The result a body stands for. -/
def readCompletion (r : Reply) (wire : Json) : Option CompletionResult := do
  let choices ← member asArray "choices" wire
  let choice ← match choices.head? with
    | some choice => readChoice choice
    | none => some {}
  let model ← member asString "model" wire
  let usage ← toUsage (wire.field "usage")
  pure { content := choice.content, toolCalls := choice.toolCalls,
         finishReason := choice.finishReason, model, usage,
         requestId := r.requestId.getD []
         budgetWarnings := splitWarnings (r.budgetWarning.getD []) }

/-! ### Requests -/

/-- The value itself, unless it is `null`. -/
def present : Json → Option Json
  | .null => none
  | v => some v

/-- The error for an answer that is not ok: the body's own, as far as it has one. -/
def throwFor (r : Reply) : VibeAiError :=
  let error := r.json.bind fun body => body.field "error"
  { code := ((error.bind fun e => e.field "code").bind present).getD (.str (js "unknown"))
    status := r.status
    message := ((error.bind fun e => e.field "message").bind present).getD
      (.str (js ("HTTP " ++ toString r.status)))
    retryAfter := r.retryAfter
    detail := error.bind fun e => e.field "detail" }

def nonJson (status : ℕ) : VibeAiError :=
  { code := .str (js "unknown"), status
    message := .str (js "router returned a non-JSON response (proxy/login page?)") }

/-- Does the text occur in the other? -/
def includes (text part : JsString) : Bool := text.tails.any fun t => part.isPrefixOf t

/-- The completion of one request, from the router's answer on. -/
def complete (r : Reply) : Except Failure CompletionResult :=
  if !r.ok then .error (.vibe (throwFor r))
  else if !includes (r.contentType.getD []) (js "application/json") then
    .error (.vibe (nonJson r.status))
  else match r.json with
  | none => .error .syntaxError
  | some wire => match readCompletion r wire with
    | none => .error .typeError
    | some result => .ok result

def outputTruncated (schemaName : String) (result : CompletionResult)
    (numberText : ℚ → JsString) : VibeAiError :=
  { code := .str (js "output_truncated"), status := 502
    message := .str (js ("response for " ++ schemaName ++ " truncated at max_tokens (served ") ++
      numberText result.usage.completionTokens ++ js " completion tokens)")
    detail := some (.obj [(js "requestId", .str result.requestId),
      (js "completionTokens", .num result.usage.completionTokens)]) }

def notValidJson (schemaName : String) (result : CompletionResult) : VibeAiError :=
  { code := .str (js "unknown"), status := 502
    message := .str (js ("response for " ++ schemaName ++ " was not valid JSON"))
    detail := some (.obj [(js "requestId", .str result.requestId)]) }

variable [Platform]

/-- A forced-JSON completion: the result, and its JSON value. -/
def completeJson (schemaName : String) (r : Reply) : Except Failure (CompletionResult × Json) := do
  let result ← complete r
  if result.finishReason = js "length" then
    throw (.vibe (outputTruncated schemaName result Platform.numberText))
  -- some providers answer a forced-JSON request with a tool call instead of content
  let raw := if result.content.trim ≠ [] then result.content
    else (result.toolCalls.head?.map WireToolCall.arguments).getD []
  match Json.parse (unfence raw) with
  | some data => pure (result, data)
  | none => throw (.vibe (notValidJson schemaName result))

end VibeRouter.Sdk
