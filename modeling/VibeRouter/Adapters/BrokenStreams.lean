import VibeRouter.Adapters.Anthropic
import VibeRouter.Adapters.OpenaiCompat
import VibeRouter.Db.Tables

/-! # Broken streams

A stream is broken when the provider reports an error in it, or when it ends before the terminal
signal of its protocol.  The adapters throw where the connection fails; the Anthropic adapter also
throws on an error event its schema accepts.  No other broken stream is noticed. -/

namespace VibeRouter

/-- An error event, or a frame that carries an error object. -/
def ReportsError (raw : Json) : Prop :=
  raw.member Json.asString "type" = some (js "error") ∨ ∃ es, raw.field "error" = some (.obj es)

/-- One of the payloads is a frame of the kind `kind`. -/
def HasFrame (kind : Json → Prop) (events : List JsString) : Prop :=
  ∃ data ∈ events, ∃ raw, parseData data = some raw ∧ kind raw

theorem hasFrame_cons {kind : Json → Prop} {data : JsString} {events : List JsString} :
    HasFrame kind (data :: events) ↔
      (∃ raw, parseData data = some raw ∧ kind raw) ∨ HasFrame kind events := by
  unfold HasFrame
  simp only [List.mem_cons, exists_eq_or_imp]

/-! ### The OpenAI-compatible adapter -/

namespace OpenaiCompat

/-- A choice with a finish reason. -/
def Finishes (raw : Json) : Prop :=
  ∃ choices, raw.field "choices" = some (.arr choices) ∧ ∃ choice ∈ choices,
    ∃ reason, choice.field "finish_reason" = some (.str reason) ∧ reason ≠ []

/-- The payloads up to `[DONE]`. -/
def upToDone (events : List JsString) : List JsString := events.takeWhile fun d => d ≠ js "[DONE]"

/-- A finish reason, or `[DONE]`. -/
def Terminated (events : List JsString) : Prop :=
  js "[DONE]" ∈ events ∨ HasFrame Finishes events

def Broken (s : ProviderStream) : Prop :=
  HasFrame ReportsError (upToDone s.events) ∨ ¬Terminated s.events

variable [Platform] {env : AIRequest}

/-- The loop throws exactly where the connection fails before `[DONE]`. -/
theorem relayFrames_throws_iff {ended : Except ProviderFailure Unit} (q : StreamLoop)
    (events : List JsString) :
    (∃ e, (relayFrames env ended q events).2 = .error e) ↔
      (∃ f, ended = .error f) ∧ js "[DONE]" ∉ events := by
  induction events generalizing q with
  | nil =>
      unfold relayFrames
      cases ended with
      | ok _ => simp
      | error f => simp
  | cons data events ih =>
      unfold relayFrames
      by_cases hdone : data = js "[DONE]"
      · rw [if_pos hdone]
        constructor
        · intro h
          obtain ⟨e, he⟩ := h
          cases he
        · intro h
          exact absurd (hdone ▸ List.mem_cons_self ..) h.2
      · rw [if_neg hdone]
        have hmem : js "[DONE]" ∉ data :: events ↔ js "[DONE]" ∉ events := by
          rw [List.mem_cons, not_or]
          exact ⟨fun h => h.2, fun h => ⟨fun heq => hdone heq.symm, h⟩⟩
        rw [hmem]
        cases parseData data with
        | none => exact ih q
        | some raw => exact ih (q.frame raw).2

theorem executeStream_throws_iff (s : ProviderStream) :
    (∃ e, (executeStream env s).2 = .error e) ↔
      (∃ f, s.ended = .error f) ∧ js "[DONE]" ∉ s.events :=
  relayFrames_throws_iff {} s.events

end OpenaiCompat

/-! ### The Anthropic adapter -/

namespace Anthropic

def Stops (raw : Json) : Prop := raw.member Json.asString "type" = some (js "message_stop")

/-- An error event that the schema accepts. -/
def ErrorEvent (raw : Json) : Prop := ∃ type message, parseStreamEvent raw = some (.error type message)

def Broken (s : ProviderStream) : Prop :=
  HasFrame ReportsError s.events ∨ ¬HasFrame Stops s.events

variable {env : AIRequest} {st : AnthropicStreamState}

/-- Only error events end the translation. -/
theorem handle_error_iff {event : AnthropicStreamEvent} :
    (∃ e, st.handle event = .error e) ↔ ∃ type message, event = .error type message := by
  cases event with
  | error type message => exact ⟨fun _ => ⟨type, message, rfl⟩, fun _ => ⟨_, rfl⟩⟩
  | content_block_start index block =>
      cases block with
      | tool_use id name =>
          unfold AnthropicStreamState.handle
          dsimp only
          split <;> simp
      | _ => simp [AnthropicStreamState.handle]
  | content_block_delta index delta =>
      cases delta with
      | input_json_delta json =>
          unfold AnthropicStreamState.handle
          dsimp only
          split
          · simp
          · split <;> simp
      | _ => simp [AnthropicStreamState.handle]
  | _ => simp [AnthropicStreamState.handle]

theorem relayEvents_throws_iff {ended : Except ProviderFailure Unit} (st : AnthropicStreamState)
    (events : List JsString) :
    (∃ e, (relayEvents ended st events).2 = .error e) ↔
      (∃ f, ended = .error f) ∨ HasFrame ErrorEvent events := by
  induction events generalizing st with
  | nil =>
      unfold relayEvents HasFrame
      cases ended with
      | ok _ => simp [Except.mapError]
      | error f => simp [Except.mapError]
  | cons data events ih =>
      rw [hasFrame_cons]
      unfold relayEvents
      cases hparse : parseData data with
      | none => simpa using ih st
      | some raw =>
          rw [Option.bind_some]
          cases hevent : parseStreamEvent raw with
          | none =>
              have hno : ¬ErrorEvent raw := by
                intro h
                obtain ⟨type, message, h⟩ := h
                rw [hevent] at h
                cases h
              simpa [hno] using ih st
          | some event =>
              dsimp only
              cases hhandle : st.handle event with
              | error e =>
                  obtain ⟨type, message, rfl⟩ := handle_error_iff.1 ⟨e, hhandle⟩
                  exact ⟨fun _ => Or.inr (Or.inl ⟨raw, rfl, type, message, hevent⟩), fun _ => ⟨_, rfl⟩⟩
              | ok out =>
                  have hno : ¬ErrorEvent raw := by
                    intro h
                    obtain ⟨type, message, h⟩ := h
                    rw [hevent, Option.some.injEq] at h
                    have hthrows : ∃ e, st.handle event = .error e :=
                      handle_error_iff.2 ⟨type, message, h⟩
                    obtain ⟨e, he⟩ := hthrows
                    rw [hhandle] at he
                    cases he
                  have hrest := ih out.2
                  simpa [hno] using hrest

theorem executeStream_throws_iff (s : ProviderStream) :
    (∃ e, (executeStream env s).2 = .error e) ↔
      (∃ f, s.ended = .error f) ∨ HasFrame ErrorEvent s.events :=
  relayEvents_throws_iff _ s.events

end Anthropic

/-! ### Main result -/

/-- A stream that reports an error, or lacks its end, is noticed. -/
theorem noticed_iff {reports ends throws : Prop} :
    (reports ∨ ¬ends → throws) ↔ throws ∨ ¬reports ∧ ends := by
  constructor
  · intro h
    by_cases hsound : ¬reports ∧ ends
    · exact Or.inr hsound
    · by_cases hreports : reports
      · exact Or.inl (h (Or.inl hreports))
      · exact Or.inl (h (Or.inr fun hends => hsound ⟨hreports, hends⟩))
  · intro h hbroken
    rcases h with hthrows | ⟨hreports, hends⟩
    · exact hthrows
    · rcases hbroken with hbroken | hbroken
      · exact absurd hbroken hreports
      · exact absurd hends hbroken

/-- **Exactly when a broken stream is not presented as complete.**  The OpenAI-compatible adapter
throws on a broken stream exactly when the connection fails before `[DONE]`; the Anthropic adapter
also when one of the payloads is an error event that its schema accepts. -/
theorem broken_stream_throws_iff [Platform] (env : AIRequest) (s : ProviderStream) :
    ((OpenaiCompat.Broken s → ∃ e, (OpenaiCompat.executeStream env s).2 = .error e) ↔
      ((∃ f, s.ended = .error f) ∧ js "[DONE]" ∉ s.events) ∨
        ¬HasFrame ReportsError (OpenaiCompat.upToDone s.events) ∧
          OpenaiCompat.Terminated s.events) ∧
    ((Anthropic.Broken s → ∃ e, (Anthropic.executeStream env s).2 = .error e) ↔
      (∃ f, s.ended = .error f) ∨ HasFrame Anthropic.ErrorEvent s.events ∨
        ¬HasFrame ReportsError s.events ∧ HasFrame Anthropic.Stops s.events) := by
  rw [OpenaiCompat.executeStream_throws_iff, Anthropic.executeStream_throws_iff]
  refine ⟨noticed_iff, ?_⟩
  rw [← or_assoc]
  exact noticed_iff

/-! ### Samples -/

namespace Sample

/-- A stream with an error frame after some text, and a clean end. -/
def overloaded : ProviderStream where
  events := [js "\x7b\"choices\":[\x7b\"delta\":\x7b\"content\":\"Hel\"\x7d\x7d]\x7d",
    js "\x7b\"error\":\x7b\"message\":\"overloaded\"\x7d\x7d"]
  ended := .ok ()

/-- A message that is cut off after some text. -/
def cutOff : ProviderStream where
  events := [js "\x7b\"type\":\"content_block_delta\",\"index\":0,\"delta\":\x7b\"type\":\"text_delta\",\"text\":\"Hel\"\x7d\x7d"]
  ended := .ok ()

theorem overloaded_error :
    ((parseData (js "\x7b\"error\":\x7b\"message\":\"overloaded\"\x7d\x7d")).bind
      fun raw => raw.field "error").any Json.isObject = true := by
  decide +kernel

theorem reports_overloaded :
    HasFrame ReportsError (OpenaiCompat.upToDone overloaded.events) := by
  have herror := overloaded_error
  rw [Option.any_eq_true] at herror
  obtain ⟨error, hfield, hobject⟩ := herror
  obtain ⟨raw, hparse, hfield⟩ := Option.bind_eq_some_iff.1 hfield
  refine ⟨_, by decide +kernel, raw, hparse, Or.inr ?_⟩
  rw [hfield]
  cases error with
  | obj es => exact ⟨es, rfl⟩
  | _ => cases hobject

theorem cutOff_type :
    (parseData (js "\x7b\"type\":\"content_block_delta\",\"index\":0,\"delta\":\x7b\"type\":\"text_delta\",\"text\":\"Hel\"\x7d\x7d")).all
      (fun raw => raw.member Json.asString "type" = some (js "content_block_delta") ∧
        (Anthropic.parseStreamEvent raw).all fun event => event matches .content_block_delta ..) =
      true := by
  decide +kernel

theorem cutOff_never_stops : ¬HasFrame Anthropic.Stops cutOff.events := by
  intro h
  obtain ⟨data, hdata, raw, hparse, hstops⟩ := h
  rw [List.mem_singleton.1 hdata] at hparse
  have htype := cutOff_type
  rw [hparse, Option.all_some] at htype
  have hmember := (of_decide_eq_true htype).1
  unfold Anthropic.Stops at hstops
  rw [hstops] at hmember
  exact absurd hmember (by decide +kernel)

theorem cutOff_reports_nothing : ¬HasFrame Anthropic.ErrorEvent cutOff.events := by
  intro h
  obtain ⟨data, hdata, raw, hparse, type, message, hevent⟩ := h
  rw [List.mem_singleton.1 hdata] at hparse
  have htype := cutOff_type
  rw [hparse, Option.all_some] at htype
  have hkind := (of_decide_eq_true htype).2
  rw [hevent] at hkind
  cases hkind

/-- **An error in a stream and an early end go unnoticed.** -/
theorem broken_streams_pass : letI := platform
    ¬(∀ env s, OpenaiCompat.Broken s → ∃ e, (OpenaiCompat.executeStream env s).2 = .error e) ∧
    ¬∀ env s, Anthropic.Broken s → ∃ e, (Anthropic.executeStream env s).2 = .error e := by
  let := platform
  constructor
  · intro hall
    have hthrows := hall (request "hello") overloaded (Or.inl reports_overloaded)
    obtain ⟨⟨f, hf⟩, -⟩ := (OpenaiCompat.executeStream_throws_iff overloaded).1 hthrows
    cases hf
  · intro hall
    have hthrows := hall (request "hello") cutOff (Or.inr cutOff_never_stops)
    rcases (Anthropic.executeStream_throws_iff cutOff).1 hthrows with ⟨f, hf⟩ | herror
    · cases hf
    · exact cutOff_reports_nothing herror

end Sample

end VibeRouter
