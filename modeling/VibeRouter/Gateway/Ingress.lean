import VibeRouter.Gateway.Envelope
import VibeRouter.Gateway.Errors
import VibeRouter.Lib.Zod

/-! # From a request body to the envelope

`openAiChatBodySchema` reads a body of the OpenAI wire format, `toEnvelope` makes an envelope of
it, after the caps on its depth and its messages. -/

namespace VibeRouter

open Zod

/-! ### The body -/

inductive ChatRole
  | system | user | assistant | tool | developer
deriving DecidableEq

inductive ChatPart
  | text (text : JsString)
  | image_url (url : JsString)

inductive ChatContent
  | text (s : JsString)
  | parts (ps : List ChatPart)
  | null

structure ChatMessage where
  role : ChatRole
  content : Option ChatContent
  tool_calls : Option (List ToolCall)
  tool_call_id : Option String

inductive ChatStop
  | one (s : JsString)
  | many (ss : List JsString)

/-- What is read of a body. -/
structure OpenAiChatBody where
  model : Option String
  messages : List ChatMessage
  tools : Option (List ToolDef)
  tool_choice : Option ToolChoice
  response_format : Option ResponseFormat
  max_tokens : Option ℤ
  max_completion_tokens : Option ℤ
  n : Option ℤ
  temperature : Option ℚ
  top_p : Option ℚ
  stop : Option ChatStop
  stream : Option Bool

/-! ### Its schema -/

def contentPartSchema : Schema ChatPart :=
  union
    (object fun part => do
      member (literal "text") "type" part
      let text ← member string "text" part
      pure (.text text))
    (object fun part => do
      member (literal "image_url") "type" part
      let url ← member (object (member string "url")) "image_url" part
      pure (.image_url url))

def chatRoles : List (String × ChatRole) :=
  [("system", .system), ("user", .user), ("assistant", .assistant), ("tool", .tool),
    ("developer", .developer)]

def chatContentSchema : Schema ChatContent :=
  union (mapped .text string)
    (union (mapped .parts (array contentPartSchema)) (mapped (fun _ => .null) null))

def chatToolCallSchema : Schema ToolCall :=
  object fun call => do
    let id ← member text "id" call
    member (literal "function") "type" call
    let (name, arguments) ← member (object fun function => do
      let name ← member text "name" function
      let arguments ← member string "arguments" function
      pure (name, arguments)) "function" call
    pure { id, name, arguments }

/-- `name` is checked and not read. -/
def messageSchema : Schema ChatMessage :=
  object fun message => do
    let role ← member (enumeration chatRoles) "role" message
    let content ← member (optional chatContentSchema) "content" message
    let tool_calls ← member (optional (array chatToolCallSchema)) "tool_calls" message
    let tool_call_id ← member (optional text) "tool_call_id" message
    let _ ← member (optional string) "name" message
    pure { role, content, tool_calls, tool_call_id }

/-- `strict` is checked and not read. -/
def toolSchema : Schema ToolDef :=
  object fun tool => do
    member (literal "function") "type" tool
    member (object fun function => do
      let name ← member text "name" function
      let description ← member (optional string) "description" function
      let parameters ← member unknown "parameters" function
      let _ ← member (nullish boolean) "strict" function
      pure { name, description, parameters }) "function" tool

def toolChoices : List (String × ToolChoice) :=
  [("auto", .auto), ("none", .none), ("required", .required)]

def toolChoiceSchema : Schema ToolChoice :=
  union (enumeration toolChoices)
    (object fun choice => do
      member (literal "function") "type" choice
      let name ← member (object (member text "name")) "function" choice
      pure (.named name))

def plainFormats : List (String × ResponseFormat) :=
  [("text", .text), ("json_object", .json_object)]

def validationModes : List (String × SchemaValidationMode) :=
  [("structural", .structural), ("strict", .strict)]

def responseFormatSchema : Schema ResponseFormat :=
  union (object (member (enumeration plainFormats) "type"))
    (object fun format => do
      member (literal "json_schema") "type" format
      member (object fun spec => do
        let name ← member text "name" spec
        let schema ← member unknown "schema" spec
        let strict ← member (nullish boolean) "strict" spec
        let validation ← member (optional (enumeration validationModes)) "validation" spec
        pure (.json_schema name schema strict validation)) "json_schema" format)

def stopSchema : Schema ChatStop := union (mapped .one string) (mapped .many (array string))

/-- `stream_options` and `user` are checked and not read. -/
def openAiChatBodySchema : Schema OpenAiChatBody :=
  object fun body => do
    let model ← member (optional text) "model" body
    let messages ← member (someOf messageSchema) "messages" body
    let tools ← member (optional (array toolSchema)) "tools" body
    let tool_choice ← member (optional toolChoiceSchema) "tool_choice" body
    let response_format ← member (optional responseFormatSchema) "response_format" body
    let max_tokens ← member (optional positiveInt) "max_tokens" body
    let max_completion_tokens ← member (optional positiveInt) "max_completion_tokens" body
    let n ← member (optional positiveInt) "n" body
    let temperature ← member (optional (checked number (between 0 2))) "temperature" body
    let top_p ← member (optional (checked number (between 0 1))) "top_p" body
    let stop ← member (optional stopSchema) "stop" body
    let stream ← member (optional boolean) "stream" body
    let _ ← member (optional (object (member (optional boolean) "include_usage")))
      "stream_options" body
    let _ ← member (optional string) "user" body
    pure { model, messages, tools, tool_choice, response_format, max_tokens,
           max_completion_tokens, n, temperature, top_p, stop, stream }

/-! ### The depth -/

structure EnvelopeLimits where
  maxMessages : ℕ
  maxJsonDepth : ℕ

mutual

/-- The depth of a value at `depth`, as far as the ceiling. -/
def jsonDepth (ceiling depth : ℕ) : Json → ℕ
  | .arr vs => if ceiling < depth then depth else jsonDepthList ceiling (depth + 1) (depth + 1) vs
  | .obj members =>
      if ceiling < depth then depth else jsonDepthValues ceiling (depth + 1) (depth + 1) members
  | _ => depth

/-- The loop over the elements; `max` is the depth so far. -/
def jsonDepthList (ceiling depth max : ℕ) : List Json → ℕ
  | [] => max
  | v :: vs => jsonDepthList ceiling depth (Nat.max max (jsonDepth ceiling depth v)) vs

def jsonDepthValues (ceiling depth max : ℕ) : List (JsString × Json) → ℕ
  | [] => max
  | m :: ms => jsonDepthValues ceiling depth (Nat.max max (jsonDepth ceiling depth m.2)) ms

end

/-! ### The envelope -/

def ChatRole.toRole : ChatRole → Role
  | .system => .system
  | .user => .user
  | .assistant => .assistant
  | .tool => .tool
  | .developer => .system

def ChatPart.toPart : ChatPart → ContentPart
  | .text t => .text t
  | .image_url url => .image url

/-- A content that is absent or `null` is the empty text. -/
def ChatContent.toContent : Option ChatContent → Content
  | some (.text s) => .text s
  | some (.parts ps) => .parts (ps.map ChatPart.toPart)
  | some .null => .text []
  | none => .text []

/-- An id that is empty is left out. -/
def ChatMessage.toMessage (m : ChatMessage) : AIMessage where
  role := m.role.toRole
  content := ChatContent.toContent m.content
  toolCalls := m.tool_calls
  toolCallId := m.tool_call_id.filter fun id => id ≠ ""

def ChatStop.toList : ChatStop → List JsString
  | .one s => [s]
  | .many ss => ss

def OpenAiChatBody.toRequest (body : OpenAiChatBody) (taskClass : String)
    (metadata : AIRequestMetadata) : AIRequest where
  taskClass
  messages := body.messages.map ChatMessage.toMessage
  tools := body.tools
  toolChoice := body.tool_choice
  responseFormat := body.response_format
  maxTokens := body.max_completion_tokens <|> body.max_tokens
  temperature := body.temperature
  topP := body.top_p
  stop := body.stop.map ChatStop.toList
  stream := body.stream.getD false
  modelRequested := body.model
  metadata

/-- `raw` is absent where a request has no body. -/
def toEnvelope (raw : Option Json) (taskClass : String) (metadata : AIRequestMetadata)
    (limits : EnvelopeLimits) : Except RouterError AIRequest :=
  if limits.maxJsonDepth < (raw.map (jsonDepth limits.maxJsonDepth 0)).getD 0 then
    .error { code := .invalid_request,
             message := "request JSON exceeds max depth " ++ toString limits.maxJsonDepth }
  else match openAiChatBodySchema raw with
    | .error issue => .error { code := .invalid_request,
                               message := "invalid request body: " ++ ".".intercalate issue.path ++
                                 ": " ++ issue.message }
    | .ok body =>
        if limits.maxMessages < body.messages.length then
          .error { code := .invalid_request,
                   message := "too many messages (max " ++ toString limits.maxMessages ++ ")" }
        else if 1 < body.n.getD 1 then
          .error { code := .invalid_request,
                   message := "n>1 is not supported — the router returns a single choice" }
        else .ok (body.toRequest taskClass metadata)

end VibeRouter
