import VibeRouter.Gateway.Envelope
import VibeRouter.Lib.JsonRead

/-! # From the envelope to a request body

`buildRequestBody` writes an envelope in the wire format of the OpenAI-compatible providers. -/

namespace VibeRouter

namespace OpenaiCompat

inductive Flavor
  | openai | azure | ollama | groq | deepseek | generic
deriving DecidableEq, Repr

def partBody : ContentPart → Json
  | .text text => .obj [(js "type", .str (js "text")), (js "text", .str text)]
  | .image url =>
      .obj [(js "type", .str (js "image_url")), (js "image_url", .obj [(js "url", .str url)])]

def callBody (tc : ToolCall) : Json :=
  .obj [(js "id", .str (js tc.id)), (js "type", .str (js "function")),
    (js "function", .obj [(js "name", .str (js tc.name)), (js "arguments", .str tc.arguments)])]

/-- A member that is left out when it has no value. -/
def optionalEntry (name : String) (value : Option Json) : List (JsString × Json) :=
  (value.map fun v => (js name, v)).toList

/-- `x?.length ? x : undefined`. -/
def someItems {α : Type} (items : Option (List α)) : Option (List α) :=
  items.filter fun xs => !xs.isEmpty

/-- Beside tool calls an empty text is `null`. -/
def contentBody (m : AIMessage) : Json :=
  match m.content with
  | .text s => if s = [] ∧ (someItems m.toolCalls).isSome then .null else .str s
  | .parts ps => .arr (ps.map partBody)

def messageBody (m : AIMessage) : Json :=
  .obj ([(js "role", .str (js m.role.text)), (js "content", contentBody m)] ++
    optionalEntry "tool_calls" ((someItems m.toolCalls).map fun tcs => .arr (tcs.map callBody)) ++
    optionalEntry "tool_call_id"
      ((m.toolCallId.filter fun id => id ≠ "").map fun id => .str (js id)))

def toolBody (t : ToolDef) : Json :=
  .obj [(js "type", .str (js "function")), (js "function", .obj
    ([(js "name", .str (js t.name))] ++
      optionalEntry "description" (t.description.map fun d => .str d) ++
      optionalEntry "parameters" t.parameters))]

def toolChoiceBody : ToolChoice → Json
  | .auto => .str (js "auto")
  | .none => .str (js "none")
  | .required => .str (js "required")
  | .named name =>
      .obj [(js "type", .str (js "function")), (js "function", .obj [(js "name", .str (js name))])]

/-- The validation hint is the router's own and is not written. -/
def responseFormatBody : ResponseFormat → Json
  | .text => .obj [(js "type", .str (js "text"))]
  | .json_object => .obj [(js "type", .str (js "json_object"))]
  | .json_schema name schema strict _ =>
      .obj [(js "type", .str (js "json_schema")), (js "json_schema", .obj
        ([(js "name", .str (js name))] ++ optionalEntry "schema" schema ++
          optionalEntry "strict" (strict.map fun b => .bool b)))]

def buildRequestBody (env : AIRequest) (model : String) (flavor : Flavor) : Json :=
  .obj ([(js "model", .str (js model)), (js "messages", .arr (env.messages.map messageBody)),
      (js "stream", .bool env.stream)] ++
    optionalEntry "stream_options" (if env.stream ∧ flavor ≠ .ollama then
      some (.obj [(js "include_usage", .bool true)]) else none) ++
    optionalEntry "max_tokens" (env.maxTokens.map fun n : ℤ => .num (n : ℚ)) ++
    optionalEntry "temperature" (env.temperature.map fun t => .num t) ++
    optionalEntry "top_p" (env.topP.map fun p => .num p) ++
    optionalEntry "stop" ((someItems env.stop).map fun ss => .arr (ss.map fun s => .str s)) ++
    optionalEntry "tools" ((someItems env.tools).map fun ts => .arr (ts.map toolBody)) ++
    optionalEntry "tool_choice" (env.toolChoice.map toolChoiceBody) ++
    optionalEntry "response_format" (env.responseFormat.map responseFormatBody))

end OpenaiCompat

end VibeRouter
