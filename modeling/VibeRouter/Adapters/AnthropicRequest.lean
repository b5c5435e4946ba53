import VibeRouter.Adapters.Anthropic
import VibeRouter.Adapters.RequestBody
import VibeRouter.Gateway.Context

/-! # From the envelope to an Anthropic request

`buildAnthropicRequest` writes an envelope in the wire format of the Messages API: system messages
become blocks of their own, with their parts joined, the arguments of tool calls are parsed, and an
output schema becomes a forced tool. -/

namespace VibeRouter

/-- `prefix/model` without the prefix, if the mapping has no other name for it. -/
def providerModelName (canonicalId : String) (mapping : List (String × String)) : String :=
  match (mapping.lookup canonicalId).filter (· ≠ "") with
  | some name => name
  | none => match canonicalId.toList.dropWhile (· ≠ '/') with
    | [] => canonicalId
    | _ :: name => String.ofList name

namespace Anthropic

open OpenaiCompat Regex

/-- `/claude-(opus-4-[7-9]|opus-5|sonnet-5|fable-5|mythos)/i`. -/
def ADAPTIVE_ONLY_MODEL : Regex :=
  cat [word "claude-", group 1 (any [cat [word "opus-4-", char fun c => 55 ≤ c && c ≤ 57],
    word "opus-5", word "sonnet-5", word "fable-5", word "mythos"])]

/-- `/^data:([^;]+);base64,(.*)$/s`. -/
def DATA_URL : Regex :=
  cat [bol, literal (js "data:"), group 1 (rep (char fun c => c != 59) 1 none true),
    literal (js ";base64,"), group 2 (star (char fun _ => true)), eol]

/-! ### Messages -/

def textBlock (text : JsString) : Json :=
  .obj [(js "type", .str (js "text")), (js "text", .str text)]

def parseImageUrl (url : JsString) : Json :=
  .obj [(js "type", .str (js "image")), (js "source", match DATA_URL.exec [] url with
    | some c => .obj [(js "type", .str (js "base64")),
        (js "media_type", .str ((c.groups 1).getD [])), (js "data", .str ((c.groups 2).getD []))]
    | none => .obj [(js "type", .str (js "url")), (js "url", .str url)])]

/-- Arguments that are no JSON are passed on as they are. -/
def parseArguments (args : JsString) : Json :=
  (Json.parse args).getD (.obj [(js "__raw", .str args)])

def partBlock : ContentPart → Json
  | .text text => textBlock text
  | .image url => parseImageUrl url

/-- The text of a part of a system message. -/
def partText : ContentPart → JsString
  | .text text => text
  | .image _ => []

/-- The text of a system block. -/
def systemText : Content → JsString
  | .text s => s
  | .parts ps => (ps.map partText).flatten

/-- The blocks of a content; an empty text has none. -/
def contentBlocks : Content → List Json
  | .text s => if s = [] then [] else [textBlock s]
  | .parts ps => ps.map partBlock

def toolUseBlock (tc : ToolCall) : Json :=
  .obj [(js "type", .str (js "tool_use")), (js "id", .str (js tc.id)),
    (js "name", .str (js tc.name)), (js "input", parseArguments tc.arguments)]

def toolContent : Content → Json
  | .text s => .str s
  | .parts ps => .arr (ps.map partBlock)

def toolResultBlock (m : AIMessage) : Json :=
  .obj [(js "type", .str (js "tool_result")), (js "tool_use_id", .str (js (m.toolCallId.getD ""))),
    (js "content", toolContent m.content)]

/-- A message of the request. -/
structure OutMessage where
  role : String
  content : List Json

/-- The message that is written for a message; the system messages are not among them. -/
def outMessage (m : AIMessage) : Option OutMessage :=
  match m.role with
  | .system => none
  | .tool => some ⟨"user", [toolResultBlock m]⟩
  | .user | .assistant =>
      let blocks := contentBlocks m.content ++ (m.toolCalls.getD []).map toolUseBlock
      some ⟨m.role.text, if blocks = [] then [textBlock []] else blocks⟩

def systemBlock (m : AIMessage) : Option Json :=
  match m.role with
  | .system => some (textBlock (systemText m.content))
  | _ => none

/-! ### Tools -/

/-- `value ?? { type: 'object' }`. -/
def schemaOrObject : Option Json → Json
  | none | some .null => .obj [(js "type", .str (js "object"))]
  | some schema => schema

def toolDefinition (t : ToolDef) : Json :=
  .obj ([(js "name", .str (js t.name))] ++
    optionalEntry "description" (t.description.map fun d => .str d) ++
    [(js "input_schema", schemaOrObject t.parameters)])

def outToolChoice : ToolChoice → Json
  | .auto => .obj [(js "type", .str (js "auto"))]
  | .required => .obj [(js "type", .str (js "any"))]
  | .none => .obj [(js "type", .str (js "none"))]
  | .named name => .obj [(js "type", .str (js "tool")), (js "name", .str (js name))]

/-- The tool that stands for an output schema. -/
def schemaToolDefinition (name : String) (schema : Option Json) : Json :=
  .obj [(js "name", .str (schemaToolName name)),
    (js "description",
      .str (js "Emit the final answer as structured output matching the schema exactly.")),
    (js "input_schema", schemaOrObject schema)]

def jsonInstruction : JsString := js "Respond with valid JSON only — no prose, no code fences."

/-! ### Prompt caching -/

/-- Mark a block as a breakpoint of the prompt cache. -/
def cached : Json → Json
  | .obj es => .obj (es ++ [(js "cache_control", .obj [(js "type", .str (js "ephemeral"))])])
  | v => v

def cacheLast (blocks : List Json) : List Json := blocks.modify (blocks.length - 1) cached

/-- The end of the leading context is the last block of the last message but one. -/
def cacheLeading (messages : List OutMessage) : List OutMessage :=
  if 2 ≤ messages.length then
    messages.modify (messages.length - 2) fun m => { m with content := cacheLast m.content }
  else messages

/-! ### The request -/

structure AnthropicRequestResult where
  body : Json
  schemaTool : Option JsString

/-- The tools, and the choice among them, with the output schema as a forced tool. -/
def toolsAndChoice (env : AIRequest) : Option (List Json) × Option Json :=
  let tools := env.tools.map (List.map toolDefinition)
  match env.responseFormat with
  | some (.json_schema name schema _ _) =>
      (some (tools.getD [] ++ [schemaToolDefinition name schema]),
        some (.obj [(js "type", .str (js "tool")), (js "name", .str (schemaToolName name))]))
  | _ => (tools, env.toolChoice.map outToolChoice)

def systemBlocks (env : AIRequest) : List Json :=
  env.messages.filterMap systemBlock ++
    match env.responseFormat with
    | some .json_object => [textBlock jsonInstruction]
    | _ => []

/-- The members of the body behind the system blocks. -/
def requestOptions (env : AIRequest) (ctx : ExecuteContext) (model : String)
    (tools : Option (List Json)) (toolChoice : Option Json) : List (JsString × Json) :=
  let adaptiveOnly := ADAPTIVE_ONLY_MODEL.test (js model)
  optionalEntry "tools" ((someItems tools).map fun ts => .arr ts) ++
  optionalEntry "tool_choice" toolChoice ++
  -- the older models take one of the two, and a temperature of 1 at most
  (if adaptiveOnly then [] else match env.temperature with
    | some t => [(js "temperature", .num (min t 1))]
    | none => optionalEntry "top_p" (env.topP.map fun p => .num p)) ++
  optionalEntry "stop_sequences" ((someItems env.stop).map fun ss => .arr (ss.map fun s => .str s)) ++
  (if env.stream then [(js "stream", .bool true)] else []) ++
  optionalEntry "thinking" ((ctx.thinkingBudget.filter fun budget => 0 < budget).map fun budget =>
    if adaptiveOnly then .obj [(js "type", .str (js "adaptive"))]
    else .obj [(js "type", .str (js "enabled")), (js "budget_tokens", .num (budget : ℚ))])

def OutMessage.toJson (m : OutMessage) : Json :=
  .obj [(js "role", .str (js m.role)), (js "content", .arr m.content)]

def buildAnthropicRequest (env : AIRequest) (ctx : ExecuteContext) : AnthropicRequestResult :=
  let model := providerModelName ctx.model ctx.modelMapping
  let (tools, toolChoice) := toolsAndChoice env
  let messages := env.messages.filterMap outMessage
  let (system, tools, messages) :=
    if ctx.promptCaching then
      (cacheLast (systemBlocks env), tools.map cacheLast, cacheLeading messages)
    else (systemBlocks env, tools, messages)
  { body := .obj ([(js "model", .str (js model)),
        (js "max_tokens", .num (env.maxTokens.getD 4096 : ℤ)),
        (js "messages", .arr (messages.map OutMessage.toJson))] ++
      (optionalEntry "system" ((someItems (some system)).map fun bs => .arr bs) ++
        requestOptions env ctx model tools toolChoice))
    schemaTool := schemaToolOf env }

end Anthropic

end VibeRouter
