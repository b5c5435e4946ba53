import VibeRouter.Db.Schema
import VibeRouter.Lib.Json

/-! # The envelope

The one message format of the gateway.  Texts that are scanned, measured or parsed are code
units (`JsString`); identifiers and names are plain texts. -/

namespace VibeRouter

inductive Role
  | system | user | assistant | tool
deriving DecidableEq, Repr

inductive ContentPart
  | text (text : JsString)
  | image (url : JsString)
deriving DecidableEq

/-- `string | ContentPart[]`. -/
inductive Content
  | text (s : JsString)
  | parts (ps : List ContentPart)
deriving DecidableEq

/-- `arguments` is the raw JSON text. -/
structure ToolCall where
  id : String
  name : String
  arguments : JsString
deriving DecidableEq

structure AIMessage where
  role : Role
  content : Content
  toolCalls : Option (List ToolCall) := none
  toolCallId : Option String := none
deriving DecidableEq

structure ToolDef where
  name : String
  description : Option JsString := none
  parameters : Option Json := none

inductive ToolChoice
  | auto | none | required
  | named (name : String)
deriving DecidableEq

inductive SchemaValidationMode
  | structural | strict
deriving DecidableEq, Repr

inductive ResponseFormat
  | text
  | json_object
  | json_schema (name : String) (schema : Option Json) (strict : Option Bool)
      (validation : Option SchemaValidationMode)

structure AIRequestMetadata where
  app : String
  userId : Option String := none
  userRole : Option UserRole := none
  engagementRef : Option String := none
  clientRef : Option String := none
deriving DecidableEq

structure AIRequest where
  taskClass : String
  messages : List AIMessage
  tools : Option (List ToolDef) := none
  toolChoice : Option ToolChoice := none
  responseFormat : Option ResponseFormat := none
  maxTokens : Option ℤ := none
  temperature : Option ℚ := none
  topP : Option ℚ := none
  stop : Option (List JsString) := none
  stream : Bool := false
  modelRequested : Option String := none
  metadata : AIRequestMetadata

inductive FinishReason
  | stop | length | tool_calls | content_filter | error
deriving DecidableEq, Repr

/-- `promptTokens` does not count cached tokens.  The counts are numbers as a provider reports them: no
check says that they are natural. -/
structure AIUsage where
  promptTokens : ℚ
  completionTokens : ℚ
  cachedReadTokens : ℚ
  cacheWriteTokens : ℚ
  estimated : Bool
deriving DecidableEq, Repr

def EMPTY_USAGE : AIUsage := ⟨0, 0, 0, 0, false⟩

/-- `AIResponse.message`; the role is always `assistant`. -/
structure ResponseMessage where
  content : JsString
  toolCalls : Option (List ToolCall) := none
deriving DecidableEq

structure Served where
  model : String
  providerId : Uuid
  latencyMs : ℤ
deriving DecidableEq

structure AIResponse where
  message : ResponseMessage
  finishReason : FinishReason
  usage : AIUsage
  served : Served
  thinking : Option JsString := none
deriving DecidableEq

inductive StreamChunk
  | text_delta (delta : JsString)
  | tool_call_start (index : ℚ) (id name : JsString)
  | tool_call_delta (index : ℚ) (argumentsDelta : JsString)
  | finish (finishReason : FinishReason) (usage : Option AIUsage)
deriving DecidableEq

namespace StreamChunk

/-- Does the chunk carry output (text or a tool call)? -/
def isContent : StreamChunk → Bool
  | finish _ _ => false
  | _ => true

end StreamChunk

/-! ### Messages as JSON -/

def Role.text : Role → String
  | .system => "system"
  | .user => "user"
  | .assistant => "assistant"
  | .tool => "tool"

def ContentPart.toJson : ContentPart → Json
  | .text t => .obj [(js "type", .str (js "text")), (js "text", .str t)]
  | .image url => .obj [(js "type", .str (js "image")), (js "url", .str url)]

def Content.toJson : Content → Json
  | .text s => .str s
  | .parts ps => .arr (ps.map ContentPart.toJson)

def ToolCall.toJson (tc : ToolCall) : Json :=
  .obj [(js "id", .str (js tc.id)), (js "name", .str (js tc.name)),
    (js "arguments", .str tc.arguments)]

/-- A message as `JSON.stringify` sees it: absent fields are left out. -/
def AIMessage.toJson (m : AIMessage) : Json :=
  .obj ([(js "role", .str (js m.role.text)), (js "content", m.content.toJson)] ++
    (m.toolCalls.map fun tcs => (js "toolCalls", Json.arr (tcs.map ToolCall.toJson))).toList ++
    (m.toolCallId.map fun i => (js "toolCallId", Json.str (js i))).toList)

end VibeRouter
