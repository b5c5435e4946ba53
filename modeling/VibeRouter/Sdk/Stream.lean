import VibeRouter.Adapters.Sse
import VibeRouter.Lib.Utf8
import VibeRouter.Sdk.Client

/-! # The stream of the client

`stream` reads the router's answer to a stream request as the router reads its providers, and parses
each event into the chunks that the app gets (`parseSseBlock`).  The values in a chunk are those of
the event, whatever their type.  What the app gets does not depend on how the bytes are cut into
chunks (`cuts_do_not_matter`). -/

namespace VibeRouter.Sdk

open Json

/-- A field that is absent is `undefined`. -/
inductive StreamEvent
  | delta (content : Json)
  | toolCallDelta (index id name argumentsDelta : Option Json)
  | finishReason (reason : Json)
  | usage (promptTokens completionTokens cachedTokens : Json)

/-- Why parsing goes no further: the sentinel `DONE`, or what is thrown. -/
inductive Stop
  | done
  | thrown (e : Failure)

/-- What is yielded, and whether parsing stops there. -/
structure Parsed where
  events : List StreamEvent := []
  stop : Option Stop := none

/-- One part after the other, unless the first one stops. -/
def Parsed.andThen (first rest : Parsed) : Parsed :=
  match first.stop with
  | some _ => first
  | none => { rest with events := first.events ++ rest.events }

/-- Yield a value if it is there and truthy. -/
def yieldIf (event : Json → StreamEvent) (v : Option Json) : Parsed :=
  { events := (v.filter truthy).toList.map event }

/-- `v?.[0]`. -/
def item0 : Json → Option Json
  | .arr xs => xs.head?
  | .str s => s.head?.map fun c => .str [c]
  | .obj es => es.lookup (js "0")
  | _ => none

/-- The values of `for (const x of v)`; `none` is the `TypeError`. -/
def iterate : Json → Option (List Json)
  | .arr xs => some xs
  | .str s => some ((Utf8.points s).map fun n => .str (Utf8.units n))
  | _ => none

/-- A count of tokens, 0 when it is absent. -/
def orZero (v : Option Json) : Json := (v.bind present).getD (.num 0)

def usageEvent (usage : Json) : StreamEvent :=
  .usage (orZero (usage.field "prompt_tokens")) (orZero (usage.field "completion_tokens"))
    (orZero ((usage.field "prompt_tokens_details").bind (field "cached_tokens")))

def toolCallEvent (tc : Json) : Parsed :=
  match tc with
  | .null => { stop := some (.thrown .typeError) }
  | tc =>
      let function := tc.field "function"
      { events := [.toolCallDelta (tc.field "index") ((tc.field "id").bind present)
          ((function.bind (field "name")).bind present)
          ((function.bind (field "arguments")).bind present)] }

/-- The tool calls of a delta. -/
def toolCallEvents (calls : Option Json) : Parsed :=
  match calls.bind present with
  | none => {}
  | some calls => match iterate calls with
    | none => { stop := some (.thrown .typeError) }
    | some calls => calls.foldr (fun tc rest => (toolCallEvent tc).andThen rest) {}

/-- The error an event carries. -/
def streamError (error : Json) : VibeAiError :=
  { code := ((error.field "code").bind present).getD (.str (js "unknown")), status := 502
    message := ((error.field "message").bind present).getD (.str (js "stream error")) }

/-- The chunk that a `data:` line carries. -/
def parseChunk (parsed : Json) : Parsed :=
  match parsed with
  | .null => { stop := some (.thrown .typeError) }
  | parsed => match (parsed.field "error").filter truthy with
    | some error => { stop := some (.thrown (.vibe (streamError error))) }
    | none =>
        let choice := (parsed.field "choices").bind item0
        let delta := choice.bind (field "delta")
        (yieldIf .delta (delta.bind (field "content"))).andThen
          ((toolCallEvents (delta.bind (field "tool_calls"))).andThen
            ((yieldIf .finishReason (choice.bind (field "finish_reason"))).andThen
              (yieldIf usageEvent (parsed.field "usage"))))

/-- One `data:` line; one that is not JSON is skipped. -/
def parseLine (line : JsString) : Parsed :=
  let data := line.trim
  if data = js "[DONE]" then { stop := some .done }
  else match Json.parse data with
  | none => {}
  | some parsed => parseChunk parsed

def parseSseBlock (rawEvent : JsString) : Parsed :=
  (dataLines rawEvent).foldr (fun line rest => (parseLine line).andThen rest) {}

/-- The end of the body. -/
def flushBlock (d : TextDecoder) (ended : Except Failure Unit) (s : d.State) (buffer : JsString) :
    Parsed :=
  match ended with
  | .error e => { stop := some (.thrown e) }
  | .ok () =>
      let buffer := buffer ++ d.flush s
      if buffer.trim.length > 0 then parseSseBlock buffer else {}

def noBody : VibeAiError :=
  { code := .str (js "unknown"), status := 502, message := .str (js "no response body") }

def nonSse (status : ℕ) : VibeAiError :=
  { code := .str (js "unknown"), status
    message := .str (js "router returned a non-SSE response to a stream request") }

/-- A streaming completion, from the router's answer on: the events, and where they stop.  `reads`
are the chunks that the reader of the body gives, and `ended` is how it ends. -/
def stream (d : TextDecoder) (r : Reply) (body : Option (List Bytes × Except Failure Unit)) :
    Parsed :=
  if !r.ok then { stop := some (.thrown (.vibe (throwFor r))) }
  else match body with
  | none => { stop := some (.thrown (.vibe noBody)) }
  | some (reads, ended) =>
      if !includes (r.contentType.getD []) (js "text/event-stream") then
        { stop := some (.thrown (.vibe (nonSse r.status))) }
      else
        d.consume Regex.records (fun rawEvent rest => (parseSseBlock rawEvent).andThen rest)
          (flushBlock d ended) d.start [] reads

/-- The app gets the same, however the bytes are cut. -/
theorem stream_eq (d : TextDecoder) (r : Reply) {reads reads' : List Bytes}
    (h : reads.flatten = reads'.flatten) (ended : Except Failure Unit) :
    stream d r (some (reads, ended)) = stream d r (some (reads', ended)) := by
  have hnext : Regex.records.next [] = none := Regex.nextRecord_eq []
  unfold stream
  split
  · rfl
  · dsimp only
    rw [d.consume_eq _ _ _ hnext, d.consume_eq _ _ _ hnext, h]

/-- **Event streams do not depend on how their bytes are cut into chunks**, neither what the router
reads from a provider nor what the client reads from the router. -/
theorem cuts_do_not_matter (d : TextDecoder) {reads reads' : List Bytes}
    (h : reads.flatten = reads'.flatten) :
    (∀ (res : FetchedStream) (ended : Except ProviderFailure Unit),
      postSse d { res with body := some (reads, ended) } =
        postSse d { res with body := some (reads', ended) }) ∧
    ∀ (r : Reply) (ended : Except Failure Unit),
      stream d r (some (reads, ended)) = stream d r (some (reads', ended)) :=
  ⟨fun res ended => postSse_eq d res h ended, fun r ended => stream_eq d r h ended⟩

end VibeRouter.Sdk

namespace VibeRouter.Sample

/-- A decoder for streams of ASCII characters. -/
def ascii : TextDecoder where
  State := Unit
  start := ()
  decode _ bytes := (bytes.map Fin.val, ())
  flush _ := []
  decode_nil := fun _ => rfl
  decode_append := by
    intro s xs ys
    rw [List.map_append]

def bytesOf (text : String) : Bytes := (js text).map Base64.byte

def streamed (reads : List Bytes) : FetchedStream := ⟨200, [], none, some (reads, .ok ())⟩

/-- A blank line is cut between its characters, in two ways. -/
theorem blank_line_cut :
    (postSse ascii (streamed [bytesOf "data: 1\r\n\r", bytesOf "\ndata: 2"])).events =
        [js "1", js "2"] ∧
      postSse ascii (streamed [bytesOf "data: 1\r\n\r", bytesOf "\ndata: 2"]) =
        postSse ascii (streamed [bytesOf "data: 1\r", bytesOf "\n\r\ndata: 2"]) := by
  refine ⟨by decide, ?_⟩
  exact (Sdk.cuts_do_not_matter ascii (by decide)).1 (streamed []) (.ok ())

end VibeRouter.Sample
