import VibeRouter.Adapters.Http
import VibeRouter.Lib.Base64
import VibeRouter.Lib.LineEnds

/-! # Reading a provider's event stream

`postSse` reads the body of the answer in chunks, and yields the `data:` payload of each event.  The
payloads do not depend on how the bytes are cut into chunks (`postSse_eq`). -/

namespace VibeRouter

/-- `new TextDecoder()` with `stream: true`: bytes to code units. -/
abbrev TextDecoder : Type 1 := StreamDecoder (Fin 256) ℕ

/-- `text.trimStart()`. -/
def trimStart (text : JsString) : JsString := text.dropWhile JsString.isSpace

/-- The lines of `text.split(/\r?\n/)` that start with `data:`, without it. -/
def dataLines (rawEvent : JsString) : List JsString :=
  ((Regex.split Regex.lineEnd rawEvent).filter fun l => (js "data:").isPrefixOf l).map fun l =>
    l.drop 5

/-- `emit`: the payload of an event, if it has one. -/
def emit (rawEvent : JsString) : List JsString :=
  let lines := (dataLines rawEvent).map trimStart
  if lines.length > 0 then [List.intercalate (js "\n") lines] else []

/-- What `fetch` gives; `reads` are the chunks that the reader of the body gives, and `ended` is how
it ends. -/
structure FetchedStream where
  status : ℤ
  bodyText : JsString
  retryAfterSeconds : Option ℚ
  body : Option (List Bytes × Except ProviderFailure Unit)

/-- One event is yielded before the rest of the stream. -/
def yieldEvent (rawEvent : JsString) (rest : ProviderStream) : ProviderStream :=
  { rest with events := emit rawEvent ++ rest.events }

/-- The end of the body.  An event that arrives without a blank line is still one. -/
def flushEvents (d : TextDecoder) (ended : Except ProviderFailure Unit) (s : d.State)
    (buffer : JsString) : ProviderStream :=
  match ended with
  | .error e => ⟨[], .error e⟩
  | .ok () =>
      let buffer := buffer ++ d.flush s
      ⟨if buffer.trim.length > 0 then emit buffer else [], .ok ()⟩

def postSse (d : TextDecoder) (res : FetchedStream) : ProviderStream :=
  if ¬(200 ≤ res.status ∧ res.status ≤ 299) then
    ⟨[], .error (.http res.status (res.bodyText.take 2000) res.retryAfterSeconds)⟩
  else match res.body with
  | none => ⟨[], .error (.http 502 (js "no response body") none)⟩
  | some (reads, ended) =>
      d.consume Regex.records yieldEvent (flushEvents d ended) d.start [] reads

/-- **Payloads do not depend on how the bytes are cut.** -/
theorem postSse_eq (d : TextDecoder) (res : FetchedStream) {reads reads' : List Bytes}
    (h : reads.flatten = reads'.flatten) (ended : Except ProviderFailure Unit) :
    postSse d { res with body := some (reads, ended) } =
      postSse d { res with body := some (reads', ended) } := by
  unfold postSse
  have hnext : Regex.records.next [] = none := Regex.nextRecord_eq []
  split
  · rfl
  · dsimp only
    rw [d.consume_eq _ _ _ hnext, d.consume_eq _ _ _ hnext, h]

end VibeRouter
