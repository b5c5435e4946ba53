import VibeRouter.Adapters.BrokenStreams
import VibeRouter.Adapters.ToolChunks

/-! # The finish of an OpenAI-compatible stream

A stream that completes should end with one finish, which carries the usage and the finish reason.
It does so exactly when no frame reports usage, or when one frame alone brings a finish with usage
and nothing comes after it (`one_finish_iff`). -/

namespace VibeRouter

namespace OpenaiCompat

/-! ### Frames -/

namespace RawChunk

/-- The tool calls of a frame. -/
def calls (f : RawChunk) : List RawToolCall := (f.choice.map RawChoice.tool_calls).getD []

/-- The text of a frame. -/
def text (f : RawChunk) : List StreamChunk :=
  match f.choice.bind fun c => nonEmpty c.content with
  | some content => [.text_delta content]
  | none => []

/-- The finish reason of a frame. -/
def reason (f : RawChunk) : Option JsString := f.choice.bind fun c => nonEmpty c.finish_reason

/-- The usage that a frame reports. -/
def reported (f : RawChunk) : Option RawUsage := f.usage.filter fun u => u.prompt_tokens.isSome

/-- Neither text nor tool calls: a frame with a role or reasoning alone is bare as well. -/
def bare (f : RawChunk) : Bool :=
  (f.choice.bind fun c => nonEmpty c.content).isNone && f.calls.isEmpty

/-- A frame that brings a finish with usage: usage comes with a finish reason or on a bare frame. -/
def brings (f : RawChunk) : Bool := f.reported.isSome && (f.reason.isSome || f.bare)

end RawChunk

/-- The frames of a stream: the payloads before `[DONE]` that its schema accepts. -/
def acceptedFrames (s : ProviderStream) : List RawChunk :=
  (upToDone s.events).filterMap fun data => (parseData data).bind chunkSchema

def reportedUsages (frames : List RawChunk) : List RawUsage := frames.filterMap RawChunk.reported

def finishReasons (frames : List RawChunk) : List JsString := frames.filterMap RawChunk.reason

namespace Openings

/-- Tool calls that bring neither a start nor arguments. -/
def Quiet : Openings → List RawToolCall → Prop
  | _, [] => True
  | h, tc :: tcs => h.opens tc = false ∧ tc.delta = [] ∧ Quiet (h.next tc) tcs

/-- The openings after some tool calls. -/
def after (h : Openings) (tcs : List RawToolCall) : Openings := tcs.foldl next h

end Openings

/-! ### The law and its condition -/

/-- One finish, at the end, with the usage reported last or else an estimate, and with a finish
reason of the frames or else `stop`. -/
def OneFinish [Platform] (env : AIRequest) (frames : List RawChunk) (out : List StreamChunk) : Prop :=
  ∃ body reason usage, out = body ++ [.finish reason (some usage)] ∧
    (∀ c ∈ body, c.isContent = true) ∧
    usage = ((reportedUsages frames).getLast?.map fun u => extractUsage (some u)).getD
      (estimateUsage env (textOf body)) ∧
    (finishReasons frames = [] ∧ reason = .stop ∨
      ∃ r ∈ finishReasons frames, reason = normalizeFinishReason (some r))

/-- No usage at all; or one frame that brings a finish with usage, and after it nothing but frames
that bring no finish, no text and no tool call, do not report other usage, and do not have the only
finish reason, unless it means `stop`. -/
def FinishesOnce (frames : List RawChunk) : Prop :=
  reportedUsages frames = [] ∨ ∃ before f after, frames = before ++ f :: after ∧
    f.brings = true ∧ (∀ g ∈ before, g.brings = false) ∧ (∀ g ∈ after, g.brings = false) ∧
    (∀ g ∈ after, g.text = []) ∧
    (Openings.after {} ((before ++ [f]).flatMap RawChunk.calls)).Quiet
      (after.flatMap RawChunk.calls) ∧
    ((reportedUsages frames).getLast?.map fun u => extractUsage (some u)) =
      f.reported.map (fun u => extractUsage (some u)) ∧
    (finishReasons (before ++ [f]) ≠ [] ∨ finishReasons after = [] ∨
      ∃ r ∈ finishReasons after, normalizeFinishReason (some r) = .stop)

/-! ### The loop of `executeStream` -/

namespace StreamLoop

theorem chunks_append (q : StreamLoop) (cs ds : List StreamChunk) :
    q.chunks (cs ++ ds) =
      ((q.chunks cs).1 ++ ((q.chunks cs).2.chunks ds).1, ((q.chunks cs).2.chunks ds).2) := by
  induction cs generalizing q with
  | nil => rfl
  | cons c cs ih =>
      have hcons : ∀ es, q.chunks (c :: es) =
          ((q.chunk c).1 ++ ((q.chunk c).2.chunks es).1, ((q.chunk c).2.chunks es).2) :=
        fun _ => rfl
      rw [List.cons_append, hcons, hcons, ih, List.append_assoc]

/-- What is yielded does not depend on the translation of later frames. -/
theorem chunks_state (q : StreamLoop) (st : OpenAiStreamState) (cs : List StreamChunk) :
    { q with state := st }.chunks cs =
      ((q.chunks cs).1, { (q.chunks cs).2 with state := st }) := by
  induction cs generalizing q with
  | nil => rfl
  | cons c cs ih =>
      have hchunk : { q with state := st }.chunk c =
          ((q.chunk c).1, { (q.chunk c).2 with state := st }) := by
        cases c with
        | finish reason usage => cases usage <;> rfl
        | _ => rfl
      unfold chunks
      rw [hchunk]
      dsimp only
      rw [ih]

/-- A finish that is held until the end. -/
def held : StreamChunk → Option FinishReason
  | .finish reason none => some reason
  | _ => none

/-- No finish with usage is among the chunks. -/
def Plain (cs : List StreamChunk) : Prop := ∀ reason usage, .finish reason (some usage) ∉ cs

/-- Without usage the content is passed on, and a finish is held. -/
theorem chunks_plain {q : StreamLoop} {cs : List StreamChunk} (h : Plain cs) :
    (q.chunks cs).1 = cs.filter StreamChunk.isContent ∧
      (q.chunks cs).2.sawUsage = q.sawUsage ∧
      (q.chunks cs).2.collected = q.collected ++ textOf cs ∧
      (q.chunks cs).2.finishSeen = (cs.filterMap held).getLast?.or q.finishSeen := by
  induction cs generalizing q with
  | nil => exact ⟨rfl, rfl, (List.append_nil _).symm, rfl⟩
  | cons c cs ih =>
      have hplain : Plain cs := fun reason usage hmem => h reason usage (List.mem_cons_of_mem _ hmem)
      obtain ⟨hout, hsaw, hcollected, hseen⟩ := ih (q := (q.chunk c).2) hplain
      have hcons : q.chunks (c :: cs) =
          ((q.chunk c).1 ++ ((q.chunk c).2.chunks cs).1, ((q.chunk c).2.chunks cs).2) := rfl
      rw [hcons]
      dsimp only
      rw [hout, hsaw, hcollected, hseen, textOf_cons]
      cases c with
      | finish reason usage =>
          cases usage with
          | some usage => exact absurd (List.mem_cons_self ..) (h reason usage)
          | none =>
              refine ⟨rfl, rfl, rfl, ?_⟩
              have hheld : (StreamChunk.finish reason none :: cs).filterMap held =
                  reason :: cs.filterMap held := rfl
              rw [hheld, List.getLast?_cons]
              cases (cs.filterMap held).getLast? <;> rfl
      | text_delta delta =>
          refine ⟨rfl, rfl, ?_, rfl⟩
          show (q.collected ++ delta) ++ textOf cs = _
          rw [List.append_assoc]
          unfold textOf
          simp
      | tool_call_start index id name => exact ⟨rfl, rfl, rfl, rfl⟩
      | tool_call_delta index delta => exact ⟨rfl, rfl, rfl, rfl⟩

/-- Nothing is yielded for a finish without usage, and only for that. -/
theorem chunks_nil_iff {q : StreamLoop} {cs : List StreamChunk} :
    (q.chunks cs).1 = [] ↔ Plain cs ∧ cs.filter StreamChunk.isContent = [] := by
  induction cs generalizing q with
  | nil => exact ⟨fun _ => ⟨fun _ _ hmem => (by cases hmem), rfl⟩, fun _ => rfl⟩
  | cons c cs ih =>
      have hcons : (q.chunks (c :: cs)).1 = (q.chunk c).1 ++ ((q.chunk c).2.chunks cs).1 := rfl
      rw [hcons, List.append_eq_nil_iff, ih]
      have hplain : Plain (c :: cs) ↔ (∀ reason usage, c ≠ .finish reason (some usage)) ∧
          Plain cs := by
        unfold Plain
        constructor
        · intro h
          refine ⟨fun reason usage heq => h reason usage ?_, fun reason usage hmem =>
            h reason usage (List.mem_cons_of_mem _ hmem)⟩
          rw [heq]
          exact List.mem_cons_self ..
        · intro h reason usage hmem
          rcases List.mem_cons.1 hmem with heq | hmem
          · exact h.1 reason usage heq.symm
          · exact h.2 reason usage hmem
      rw [hplain]
      cases c with
      | finish reason usage =>
          cases usage with
          | none =>
              refine ⟨fun h => ⟨⟨fun _ _ heq => (by cases heq), h.2.1⟩, h.2.2⟩, fun h =>
                ⟨rfl, h.1.2, h.2⟩⟩
          | some usage =>
              refine ⟨fun h => (by cases h.1), fun h => absurd rfl (h.1.1 reason usage)⟩
      | text_delta delta => exact ⟨fun h => (by cases h.1), fun h => (by cases h.2)⟩
      | tool_call_start index id name =>
          exact ⟨fun h => (by cases h.1), fun h => (by cases h.2)⟩
      | tool_call_delta index delta =>
          exact ⟨fun h => (by cases h.1), fun h => (by cases h.2)⟩

end StreamLoop

/-! ### The chunks of frames -/

/-- The finish of a frame carries its usage when the frame brings one. -/
theorem finishOf_eq (f : RawChunk) : OpenAiStreamState.finishOf f =
    if f.brings then [.finish (normalizeFinishReason f.reason)
      (f.reported.map fun u => extractUsage (some u))]
    else f.reason.toList.map fun r => .finish (normalizeFinishReason (some r)) none := by
  have hbare : f.bare = !((f.choice.bind fun c => nonEmpty c.content).isSome ||
      (f.choice.map fun c => !c.tool_calls.isEmpty).getD false) := by
    unfold RawChunk.bare RawChunk.calls
    rw [Bool.not_or, Option.not_isSome]
    cases f.choice with
    | none => rfl
    | some c => simp
  unfold OpenAiStreamState.finishOf RawChunk.brings RawChunk.reason RawChunk.reported
  rw [hbare]
  dsimp only
  cases f.choice.bind fun c => nonEmpty c.finish_reason with
  | some reason =>
      cases f.usage.filter fun u => u.prompt_tokens.isSome with
      | some u => rfl
      | none => rfl
  | none =>
      cases f.usage.filter fun u => u.prompt_tokens.isSome with
      | none => rfl
      | some u =>
          cases (f.choice.bind fun c => nonEmpty c.content).isSome ||
            (f.choice.map fun c => !c.tool_calls.isEmpty).getD false with
          | true => rfl
          | false => rfl

/-- The chunks of a sequence of frames, from a state on, and the state after. -/
def emitted [Platform] : OpenAiStreamState → List RawChunk → List StreamChunk × OpenAiStreamState
  | st, [] => ([], st)
  | st, f :: fs =>
      (f.text ++ (st.toolCalls f.calls).1 ++ OpenAiStreamState.finishOf f ++
        (emitted (st.toolCalls f.calls).2 fs).1, (emitted (st.toolCalls f.calls).2 fs).2)

variable [Platform] {env : AIRequest} {st : OpenAiStreamState}

theorem emitted_cons (st : OpenAiStreamState) (f : RawChunk) (fs : List RawChunk) :
    emitted st (f :: fs) =
      (f.text ++ (st.toolCalls f.calls).1 ++ OpenAiStreamState.finishOf f ++
        (emitted (st.toolCalls f.calls).2 fs).1, (emitted (st.toolCalls f.calls).2 fs).2) := rfl

theorem emitted_append (st : OpenAiStreamState) (fs gs : List RawChunk) :
    emitted st (fs ++ gs) =
      ((emitted st fs).1 ++ (emitted (emitted st fs).2 gs).1, (emitted (emitted st fs).2 gs).2) := by
  induction fs generalizing st with
  | nil => rfl
  | cons f fs ih =>
      rw [List.cons_append, emitted_cons, emitted_cons, ih, ← List.append_assoc]

theorem frame_of_none (q : StreamLoop) {raw : Json} (h : chunkSchema raw = none) :
    q.frame raw = ([], q) := by
  unfold StreamLoop.frame OpenAiStreamState.handle
  rw [h]
  rfl

theorem frame_of_some (q : StreamLoop) {raw : Json} {f : RawChunk} (h : chunkSchema raw = some f) :
    q.frame raw =
      ((q.chunks (f.text ++ (q.state.toolCalls f.calls).1 ++ OpenAiStreamState.finishOf f)).1,
        { (q.chunks (f.text ++ (q.state.toolCalls f.calls).1 ++
          OpenAiStreamState.finishOf f)).2 with state := (q.state.toolCalls f.calls).2 }) := by
  rw [← StreamLoop.chunks_state]
  unfold StreamLoop.frame OpenAiStreamState.handle
  rw [h]
  rfl

/-- The translation of the accepted frames is the translation of the stream. -/
theorem relayFrames_eq {ended : Except ProviderFailure Unit} (q : StreamLoop)
    (events : List JsString) (h : (relayFrames env ended q events).2 = .ok ()) :
    (relayFrames env ended q events).1 =
      (q.chunks (emitted q.state (acceptedFrames ⟨events, ended⟩)).1).1 ++
        (q.chunks (emitted q.state (acceptedFrames ⟨events, ended⟩)).1).2.close env := by
  induction events generalizing q with
  | nil =>
      unfold relayFrames at h ⊢
      cases ended with
      | ok _ => rfl
      | error f => cases h
  | cons data events ih =>
      unfold relayFrames at h ⊢
      by_cases hdone : data = js "[DONE]"
      · rw [if_pos hdone]
        have hframes : acceptedFrames ⟨data :: events, ended⟩ = [] := by
          unfold acceptedFrames upToDone
          dsimp only
          rw [List.takeWhile_cons_of_neg (by simpa using hdone)]
          rfl
        rw [hframes]
        rfl
      · rw [if_neg hdone] at h ⊢
        have hframes : acceptedFrames ⟨data :: events, ended⟩ =
            ((parseData data).bind chunkSchema).toList ++ acceptedFrames ⟨events, ended⟩ := by
          unfold acceptedFrames upToDone
          dsimp only
          rw [List.takeWhile_cons_of_pos (by simpa using hdone), List.filterMap_cons]
          cases (parseData data).bind chunkSchema <;> rfl
        rw [hframes]
        cases hparse : parseData data with
        | none =>
            rw [hparse] at h
            exact ih q h
        | some raw =>
            rw [hparse] at h
            dsimp only at h ⊢
            rw [ih (q.frame raw).2 h, Option.bind_some]
            cases hframe : chunkSchema raw with
            | none => rw [frame_of_none q hframe]; rfl
            | some f =>
                rw [frame_of_some q hframe, Option.toList_some, List.singleton_append, emitted_cons]
                generalize f.text ++ (q.state.toolCalls f.calls).1 ++
                  OpenAiStreamState.finishOf f = out
                generalize acceptedFrames ⟨events, ended⟩ = frames
                dsimp only
                rw [StreamLoop.chunks_append, List.append_assoc]
                have hrest := StreamLoop.chunks_state (q.chunks out).2 (q.state.toolCalls f.calls).2
                  (emitted (q.state.toolCalls f.calls).2 frames).1
                rw [hrest]
                rfl

/-! ### What frames add -/

omit [Platform] in
theorem isContent_of_callIndex {c : StreamChunk} (h : c.callIndex.isSome = true) :
    c.isContent = true := by
  cases c with
  | finish => cases h
  | _ => rfl

omit [Platform] in
theorem text_isContent {f : RawChunk} {c : StreamChunk} (h : c ∈ f.text) : c.isContent = true := by
  unfold RawChunk.text at h
  split at h
  · rw [List.mem_singleton.1 h]
    rfl
  · cases h

omit [Platform] in
theorem finishOf_not_content {f : RawChunk} {c : StreamChunk}
    (h : c ∈ OpenAiStreamState.finishOf f) : c.isContent = false := by
  rw [finishOf_eq] at h
  split at h
  · rw [List.mem_singleton.1 h]
    rfl
  · obtain ⟨r, -, rfl⟩ := List.mem_map.1 h
    rfl

/-- The content of a frame comes first, its finish last. -/
theorem content_isContent (hst : st.Steady) {f : RawChunk} {c : StreamChunk}
    (h : c ∈ f.text ++ (st.toolCalls f.calls).1) : c.isContent = true := by
  rcases List.mem_append.1 h with h | h
  · exact text_isContent h
  · exact isContent_of_callIndex (OpenAiStreamState.toolCalls_callIndex hst h)

omit [Platform] in
theorem plain_content {cs : List StreamChunk} (h : ∀ c ∈ cs, c.isContent = true) :
    StreamLoop.Plain cs ∧ cs.filterMap StreamLoop.held = [] := by
  constructor
  · intro reason usage hmem
    cases h _ hmem
  · rw [List.filterMap_eq_nil_iff]
    intro c hc
    cases c with
    | finish => cases h _ hc
    | _ => rfl

omit [Platform] in
theorem plain_append {cs ds : List StreamChunk} :
    StreamLoop.Plain (cs ++ ds) ↔ StreamLoop.Plain cs ∧ StreamLoop.Plain ds := by
  unfold StreamLoop.Plain
  simp only [List.mem_append, not_or]
  exact ⟨fun h => ⟨fun r u => (h r u).1, fun r u => (h r u).2⟩, fun h r u => ⟨h.1 r u, h.2 r u⟩⟩

omit [Platform] in
theorem reported_of_brings {f : RawChunk} (h : f.brings = true) : ∃ u, f.reported = some u := by
  unfold RawChunk.brings at h
  exact Option.isSome_iff_exists.1 (Bool.and_eq_true_iff.1 h).1

omit [Platform] in
theorem plain_finishOf (f : RawChunk) :
    StreamLoop.Plain (OpenAiStreamState.finishOf f) ↔ f.brings = false := by
  rw [finishOf_eq]
  cases hbrings : f.brings with
  | false =>
      refine ⟨fun _ => rfl, fun _ reason usage hmem => ?_⟩
      obtain ⟨r, -, heq⟩ := List.mem_map.1 hmem
      cases heq
  | true =>
      obtain ⟨u, hu⟩ := reported_of_brings hbrings
      refine ⟨fun h => ?_, fun h => (by cases h)⟩
      exact absurd (List.mem_singleton.2 (by rw [hu]; rfl)) (h (normalizeFinishReason f.reason)
        (extractUsage (some u)))

/-- No finish with usage comes from frames that bring none. -/
theorem plain_emitted (hst : st.Steady) (fs : List RawChunk) :
    StreamLoop.Plain (emitted st fs).1 ↔ ∀ f ∈ fs, f.brings = false := by
  induction fs generalizing st with
  | nil => exact ⟨fun _ _ h => (by cases h), fun _ _ _ h => (by cases h)⟩
  | cons f fs ih =>
      have hcontent := (plain_content fun c hc => content_isContent (f := f) hst (c := c) hc).1
      rw [emitted_cons, plain_append, plain_append, plain_finishOf,
        ih (OpenAiStreamState.toolCalls_steady hst _), List.forall_mem_cons]
      exact ⟨fun h => ⟨h.1.2, h.2⟩, fun h => ⟨⟨hcontent, h.1⟩, h.2⟩⟩

/-- The finish reasons of frames that bring no usage are held. -/
theorem held_emitted (hst : st.Steady) {fs : List RawChunk} (h : ∀ f ∈ fs, f.brings = false) :
    (emitted st fs).1.filterMap StreamLoop.held =
      (finishReasons fs).map fun r => normalizeFinishReason (some r) := by
  induction fs generalizing st with
  | nil => rfl
  | cons f fs ih =>
      obtain ⟨hf, hfs⟩ := List.forall_mem_cons.1 h
      have hcontent := (plain_content fun c hc => content_isContent (f := f) hst (c := c) hc).2
      have hreason : finishReasons (f :: fs) = f.reason.toList ++ finishReasons fs := by
        unfold finishReasons
        rw [List.filterMap_cons]
        cases f.reason <;> rfl
      rw [emitted_cons, List.filterMap_append, List.filterMap_append, hcontent, List.nil_append,
        ih (OpenAiStreamState.toolCalls_steady hst _) hfs, hreason, List.map_append, finishOf_eq, hf]
      cases f.reason <;> rfl

/-- Tool calls yield nothing exactly when they are quiet. -/
theorem toolCalls_nil_iff {h : Openings} (hc : Couples h st) (tcs : List RawToolCall) :
    ((st.toolCalls tcs).1 = [] ↔ h.Quiet tcs) ∧ Couples (h.after tcs) (st.toolCalls tcs).2 := by
  induction tcs generalizing h st with
  | nil => exact ⟨⟨fun _ => trivial, fun _ => rfl⟩, hc⟩
  | cons tc tcs ih =>
      obtain ⟨hrest, hafter⟩ := ih (hc.next tc)
      refine ⟨?_, hafter⟩
      have hout : (st.toolCall tc).1 = [] ↔ h.opens tc = false ∧ tc.delta = [] := by
        obtain ⟨id, name, heq⟩ := hc.out tc
        rw [← List.map_eq_nil_iff (f := fun c => (h.origin tc, c)), heq, List.append_eq_nil_iff]
        apply and_congr
        · cases h.opens tc <;> simp
        · by_cases hdelta : tc.delta = []
          · simp [hdelta]
          · simp [hdelta]
      rw [OpenAiStreamState.toolCalls_cons, List.append_eq_nil_iff, hout, hrest, and_assoc]
      rfl

omit [Platform] in
theorem Openings.quiet_cons {h : Openings} {tc : RawToolCall} {tcs : List RawToolCall} :
    h.Quiet (tc :: tcs) ↔ h.opens tc = false ∧ tc.delta = [] ∧ (h.next tc).Quiet tcs := Iff.rfl

omit [Platform] in
theorem Openings.quiet_append {h : Openings} {tcs tcs' : List RawToolCall} :
    h.Quiet (tcs ++ tcs') ↔ h.Quiet tcs ∧ (h.after tcs).Quiet tcs' := by
  induction tcs generalizing h with
  | nil => exact ⟨fun hq => ⟨trivial, hq⟩, fun hq => hq.2⟩
  | cons tc tcs ih =>
      rw [List.cons_append, quiet_cons, quiet_cons, ih, and_assoc, and_assoc]
      rfl

/-- Frames yield no content exactly when they have no text and their tool calls are quiet. -/
theorem quiet_emitted {h : Openings} (hc : Couples h st) (fs : List RawChunk) :
    ((emitted st fs).1.filter StreamChunk.isContent = [] ↔
        (∀ f ∈ fs, f.text = []) ∧ h.Quiet (fs.flatMap RawChunk.calls)) ∧
      Couples (h.after (fs.flatMap RawChunk.calls)) (emitted st fs).2 := by
  induction fs generalizing h st with
  | nil => exact ⟨⟨fun _ => ⟨fun _ h => (by cases h), trivial⟩, fun _ => rfl⟩, hc⟩
  | cons f fs ih =>
      obtain ⟨hcalls, hnext⟩ := toolCalls_nil_iff hc f.calls
      obtain ⟨hrest, hafter⟩ := ih hnext
      have hall : (f.text ++ (st.toolCalls f.calls).1).filter StreamChunk.isContent =
          f.text ++ (st.toolCalls f.calls).1 :=
        List.filter_eq_self.2 fun c h => content_isContent hc.steady h
      have hfinish : (OpenAiStreamState.finishOf f).filter StreamChunk.isContent = [] := by
        rw [List.filter_eq_nil_iff]
        intro c h
        rw [finishOf_not_content h]
        exact Bool.false_ne_true
      have happend : h.after ((f :: fs).flatMap RawChunk.calls) =
          (h.after f.calls).after (fs.flatMap RawChunk.calls) := List.foldl_append
      rw [emitted_cons, happend]
      refine ⟨?_, hafter⟩
      rw [List.filter_append, List.filter_append, hall, hfinish, List.append_nil,
        List.append_eq_nil_iff, List.append_eq_nil_iff, hcalls, hrest, List.forall_mem_cons,
        List.flatMap_cons, Openings.quiet_append]
      constructor
      · intro h
        exact ⟨⟨h.1.1, h.2.1⟩, h.1.2, h.2.2⟩
      · intro h
        exact ⟨⟨h.1.1, h.2.1⟩, h.1.2, h.2.2⟩

/-! ### The chunks yielded -/

omit [Platform] in
theorem close_of_sawUsage {q : StreamLoop} [Platform] (h : q.sawUsage = true) :
    q.close env = [] := by
  unfold StreamLoop.close
  rw [h]
  rfl

omit [Platform] in
/-- Usage that has been seen stays seen. -/
theorem chunks_saw {q : StreamLoop} (h : q.sawUsage = true) (cs : List StreamChunk) :
    (q.chunks cs).2.sawUsage = true := by
  induction cs generalizing q with
  | nil => exact h
  | cons c cs ih =>
      have hchunk : (q.chunk c).2.sawUsage = true := by
        cases c with
        | finish reason usage => cases usage with
          | none => exact h
          | some usage => rfl
        | _ => exact h
      exact ih hchunk

omit [Platform] in
/-- Usage reported on no frame is brought by none. -/
theorem brings_of_unreported {frames : List RawChunk} (h : reportedUsages frames = [])
    (f : RawChunk) (hf : f ∈ frames) : f.brings = false := by
  unfold RawChunk.brings
  rw [List.filterMap_eq_nil_iff.1 h f hf]
  rfl

omit [Platform] in
/-- A finish has no text. -/
theorem textOf_content (cs : List StreamChunk) :
    textOf (cs.filter StreamChunk.isContent) = textOf cs := by
  induction cs with
  | nil => rfl
  | cons c cs ih =>
      rw [textOf_cons, ← ih]
      cases c with
      | finish reason usage => rfl
      | _ => rw [List.filter_cons_of_pos rfl, textOf_cons]

/-- Without a finish with usage the stream ends with an estimate. -/
theorem yielded_estimate {frames : List RawChunk} (h : ∀ f ∈ frames, f.brings = false) :
    (({} : StreamLoop).chunks (emitted {} frames).1).1 ++
        (({} : StreamLoop).chunks (emitted {} frames).1).2.close env =
      (emitted {} frames).1.filter StreamChunk.isContent ++
        [.finish (((finishReasons frames).map fun r => normalizeFinishReason (some r)).getLast?.getD
          .stop) (some (estimateUsage env
            (textOf ((emitted {} frames).1.filter StreamChunk.isContent))))] := by
  have hplain := (plain_emitted OpenAiStreamState.steady_empty frames).2 h
  obtain ⟨hout, hsaw, hcollected, hseen⟩ := StreamLoop.chunks_plain (q := {}) hplain
  rw [held_emitted OpenAiStreamState.steady_empty h] at hseen
  rw [hout, textOf_content]
  unfold StreamLoop.close
  rw [hsaw, hseen, hcollected, if_neg Bool.false_ne_true, Option.or_none, List.nil_append]

/-- The first finish with usage: what comes before it, and what may come after it. -/
theorem yielded_usage {before after : List RawChunk} {f : RawChunk}
    (h : ∀ g ∈ before, g.brings = false) (hf : f.brings = true) :
    ∃ body q, body = ((emitted {} before).1 ++
          (f.text ++ ((emitted {} before).2.toolCalls f.calls).1)).filter StreamChunk.isContent ∧
      (({} : StreamLoop).chunks (emitted {} (before ++ f :: after)).1).1 ++
          (({} : StreamLoop).chunks (emitted {} (before ++ f :: after)).1).2.close env =
        body ++ .finish (((finishReasons before).map fun r =>
            normalizeFinishReason (some r)).getLast?.getD (normalizeFinishReason f.reason))
          (f.reported.map fun u => extractUsage (some u)) ::
          (StreamLoop.chunks q (emitted (emitted {} (before ++ [f])).2 after).1).1 := by
  have hsteady : (emitted {} before).2.Steady := (quiet_emitted couples_empty before).2.steady
  have hcontent := fun c => content_isContent (c := c) (f := f) hsteady
  obtain ⟨hcplain, hcheld⟩ := plain_content hcontent
  have hplain : StreamLoop.Plain ((emitted {} before).1 ++
      (f.text ++ ((emitted {} before).2.toolCalls f.calls).1)) :=
    plain_append.2 ⟨(plain_emitted OpenAiStreamState.steady_empty before).2 h, hcplain⟩
  obtain ⟨hout, -, -, hseen⟩ := StreamLoop.chunks_plain (q := {}) hplain
  rw [List.filterMap_append, hcheld, List.append_nil,
    held_emitted OpenAiStreamState.steady_empty h, Option.or_none] at hseen
  have hframes : (emitted {} (before ++ f :: after)).1 =
      ((emitted {} before).1 ++ (f.text ++ ((emitted {} before).2.toolCalls f.calls).1)) ++
        (OpenAiStreamState.finishOf f ++ (emitted (emitted {} (before ++ [f])).2 after).1) := by
    rw [emitted_append, emitted_append, emitted_cons, emitted_cons]
    simp only [List.append_assoc, emitted]
  obtain ⟨u, hu⟩ := reported_of_brings hf
  have hfinish : OpenAiStreamState.finishOf f =
      [.finish (normalizeFinishReason f.reason) (some (extractUsage (some u)))] := by
    rw [finishOf_eq, if_pos hf, hu]
    rfl
  rw [hframes, hfinish, hu]
  generalize (emitted {} before).1 ++ (f.text ++ ((emitted {} before).2.toolCalls f.calls).1) =
    front at hout hseen ⊢
  generalize (emitted (emitted {} (before ++ [f])).2 after).1 = rest
  refine ⟨front.filter StreamChunk.isContent,
    { (StreamLoop.chunks {} front).2 with sawUsage := true }, rfl, ?_⟩
  rw [StreamLoop.chunks_append, hout]
  show (front.filter StreamChunk.isContent ++ (StreamChunk.finish
    ((StreamLoop.chunks {} front).2.finishSeen.getD _) _ ::
      (StreamLoop.chunks { (StreamLoop.chunks {} front).2 with sawUsage := true } rest).1)) ++
    (StreamLoop.chunks { (StreamLoop.chunks {} front).2 with sawUsage := true } rest).2.close env = _
  rw [close_of_sawUsage (chunks_saw rfl rest), List.append_nil, hseen]
  rfl

omit [Platform] in
/-- The reason that comes with the usage is a reason of the frames, or `stop` where they have
none, unless the only reasons come later. -/
theorem usage_reason_iff (before after : List RawChunk) (f : RawChunk) :
    (finishReasons (before ++ f :: after) = [] ∧
        ((finishReasons before).map fun r => normalizeFinishReason (some r)).getLast?.getD
          (normalizeFinishReason f.reason) = .stop ∨
      ∃ r ∈ finishReasons (before ++ f :: after),
        ((finishReasons before).map fun r => normalizeFinishReason (some r)).getLast?.getD
          (normalizeFinishReason f.reason) = normalizeFinishReason (some r)) ↔
    (finishReasons (before ++ [f]) ≠ [] ∨ finishReasons after = [] ∨
      ∃ r ∈ finishReasons after, normalizeFinishReason (some r) = .stop) := by
  have hsingle : finishReasons [f] = f.reason.toList := by
    unfold finishReasons
    rw [List.filterMap_cons]
    cases f.reason <;> rfl
  have hfront : finishReasons (before ++ [f]) = finishReasons before ++ f.reason.toList := by
    rw [← hsingle]
    exact List.filterMap_append
  have hall : finishReasons (before ++ f :: after) =
      finishReasons before ++ (f.reason.toList ++ finishReasons after) := by
    rw [← hsingle]
    unfold finishReasons
    rw [← List.filterMap_append, ← List.filterMap_append, List.singleton_append]
  rw [hfront, hall]
  rcases List.eq_nil_or_concat (finishReasons before) with hnil | ⟨rs, r, hlast⟩
  · rw [hnil]
    cases f.reason with
    | some r => simp
    | none =>
        have hstop : normalizeFinishReason none = .stop := rfl
        simp only [Option.toList_none, List.nil_append, List.map_nil, List.getLast?_nil,
          Option.getD_none, ne_eq, not_true, false_or, hstop, and_true]
        constructor
        · intro h
          rcases h with h | ⟨r, hr, heq⟩
          · exact Or.inl h
          · exact Or.inr ⟨r, hr, heq.symm⟩
        · intro h
          rcases h with h | ⟨r, hr, heq⟩
          · exact Or.inl h
          · exact Or.inr ⟨r, hr, heq.symm⟩
  · rw [hlast, List.concat_eq_append]
    refine ⟨fun _ => Or.inl (by simp), fun _ => Or.inr ⟨r, by simp, ?_⟩⟩
    rw [List.map_append, List.map_singleton, List.getLast?_concat, Option.getD_some]

omit [Platform] in
/-- A stream that ends with its only finish ends with its first. -/
theorem ends_with_first {body body' rest : List StreamChunk} {x y : StreamChunk}
    (h : body ++ x :: rest = body' ++ [y]) (hx : x.isContent = false)
    (hbody : ∀ c ∈ body', c.isContent = true) : rest = [] ∧ body = body' ∧ x = y := by
  rcases List.eq_nil_or_concat rest with rfl | ⟨rest', z, rfl⟩
  · obtain ⟨hfront, hlast⟩ := List.append_inj' h rfl
    exact ⟨rfl, hfront, List.singleton_inj.1 hlast⟩
  · rw [List.concat_eq_append, ← List.cons_append, ← List.append_assoc] at h
    obtain ⟨hfront, -⟩ := List.append_inj' h rfl
    have hmem := hbody x (hfront ▸ List.mem_append_right _ (List.mem_cons_self ..))
    rw [hx] at hmem
    cases hmem

omit [Platform] in
theorem extractUsage_reported {f : RawChunk} {u : RawUsage} (h : f.reported = some u) :
    (extractUsage (some u)).estimated = false := by
  have hprompt : u.prompt_tokens.isSome = true := (Option.filter_eq_some_iff.1 h).2
  have hnone : u.prompt_tokens.isNone = false := by
    rw [← Option.not_isSome, hprompt]
    rfl
  unfold extractUsage
  dsimp only
  rw [hnone, Bool.false_and, if_neg Bool.false_ne_true]

end OpenaiCompat

open OpenaiCompat in
/-- **Exactly when a stream ends with one finish.**  A stream that completes yields one finish, as
its last chunk, with the usage reported last or an estimate and with a finish reason of the frames
or `stop`, exactly when no frame reports usage, or one frame alone brings a finish with usage and
nothing that counts comes after it. -/
theorem one_finish_iff [Platform] (env : AIRequest) (s : ProviderStream)
    (h : (executeStream env s).2 = .ok ()) :
    OneFinish env (acceptedFrames s) (executeStream env s).1 ↔ FinishesOnce (acceptedFrames s) := by
  have hout : (executeStream env s).1 = _ := relayFrames_eq {} s.events h
  rw [hout]
  show OneFinish env (acceptedFrames s)
    ((({} : StreamLoop).chunks (emitted {} (acceptedFrames s)).1).1 ++
      (({} : StreamLoop).chunks (emitted {} (acceptedFrames s)).1).2.close env) ↔ _
  generalize acceptedFrames s = frames
  constructor
  · intro hone
    obtain ⟨body, reason, usage, heq, hbody, husage, hreason⟩ := hone
    cases hfind : frames.find? RawChunk.brings with
    | none =>
        have hnone : ∀ f ∈ frames, f.brings = false := by
          intro f hf
          exact Bool.eq_false_iff.2 (List.find?_eq_none.1 hfind f hf)
        left
        rw [yielded_estimate hnone] at heq
        obtain ⟨hfront, hlast⟩ := List.append_inj' heq rfl
        obtain ⟨-, hestimate⟩ := StreamChunk.finish.inj (List.singleton_inj.1 hlast)
        rcases List.eq_nil_or_concat (reportedUsages frames) with hnil | ⟨us, u, hreported⟩
        · exact hnil
        · rw [hreported, List.concat_eq_append, List.getLast?_concat] at husage
          have hmem : u ∈ reportedUsages frames := by
            rw [hreported, List.concat_eq_append]
            exact List.mem_append_right _ (List.mem_singleton_self u)
          obtain ⟨f, -, hf⟩ := List.mem_filterMap.1 hmem
          have htrue : usage.estimated = true := by
            rw [← Option.some.inj hestimate]
            rfl
          have hfalse : usage.estimated = false := by
            rw [husage]
            exact extractUsage_reported hf
          rw [htrue] at hfalse
          cases hfalse
    | some f =>
        obtain ⟨hf, before, after, rfl, hbefore⟩ := List.find?_eq_some_iff_append.1 hfind
        have hnone : ∀ g ∈ before, g.brings = false := by
          intro g hg
          have hnot := hbefore g hg
          rwa [Bool.not_eq_true'] at hnot
        obtain ⟨u, hu⟩ := reported_of_brings hf
        obtain ⟨body', q, -, hyielded⟩ := @yielded_usage _ env before after f hnone hf
        rw [hyielded] at heq
        obtain ⟨hrest, hsame, hlast⟩ := ends_with_first heq rfl hbody
        obtain ⟨hreasons, husages⟩ := StreamChunk.finish.inj hlast
        obtain ⟨hplain, hquiet⟩ := StreamLoop.chunks_nil_iff.1 hrest
        have hcouples := (quiet_emitted couples_empty (before ++ [f])).2
        obtain ⟨htext, hcalls⟩ := (quiet_emitted hcouples after).1.1 hquiet
        refine Or.inr ⟨before, f, after, rfl, hf, hnone,
          (plain_emitted hcouples.steady after).1 hplain, htext, hcalls, ?_, ?_⟩
        · rw [husages]
          have hmem : u ∈ reportedUsages (before ++ f :: after) :=
            List.mem_filterMap.2 ⟨f, List.mem_append_right _ (List.mem_cons_self ..), hu⟩
          cases hlast' : (reportedUsages (before ++ f :: after)).getLast? with
          | none =>
              rw [List.getLast?_eq_none_iff.1 hlast'] at hmem
              cases hmem
          | some v =>
              rw [hlast'] at husage
              rw [husage]
              rfl
        · rw [← usage_reason_iff, hreasons]
          exact hreason
  · intro hcond
    rcases hcond with hnil | ⟨before, f, after, rfl, hf, hbefore, hafter, htext, hcalls, husage, hreason⟩
    · refine ⟨_, _, _, yielded_estimate (brings_of_unreported hnil),
        fun c hc => (List.mem_filter.1 hc).2, ?_, ?_⟩
      · rw [hnil]
        rfl
      · rcases List.eq_nil_or_concat (finishReasons frames) with hnil | ⟨rs, r, hlast⟩
        · rw [hnil]
          exact Or.inl ⟨rfl, rfl⟩
        · rw [hlast, List.concat_eq_append]
          refine Or.inr ⟨r, by simp, ?_⟩
          rw [List.map_append, List.map_singleton, List.getLast?_concat, Option.getD_some]
    · obtain ⟨u, hu⟩ := reported_of_brings hf
      obtain ⟨body, q, hbody, hyielded⟩ := @yielded_usage _ env before after f hbefore hf
      have hcouples := (quiet_emitted couples_empty (before ++ [f])).2
      have hrest : (StreamLoop.chunks q (emitted (emitted {} (before ++ [f])).2 after).1).1 = [] :=
        StreamLoop.chunks_nil_iff.2 ⟨(plain_emitted hcouples.steady after).2 hafter,
          (quiet_emitted hcouples after).1.2 ⟨htext, hcalls⟩⟩
      rw [hyielded, hrest, hu]
      refine ⟨body, _, _, rfl, fun c hc => (List.mem_filter.1 (hbody ▸ hc)).2, ?_,
        (usage_reason_iff before after f).2 hreason⟩
      rw [husage, hu]
      rfl

/-! ### Samples -/

namespace Sample

open OpenaiCompat

/-- Usage on every frame, the first of which has a role alone. -/
def cumulativeUsage : ProviderStream where
  events := [js "\x7b\"choices\":[\x7b\"delta\":\x7b\"role\":\"assistant\"\x7d\x7d],\"usage\":\x7b\"prompt_tokens\":5\x7d\x7d",
    js "\x7b\"choices\":[\x7b\"delta\":\x7b\"content\":\"Hi\"\x7d\x7d],\"usage\":\x7b\"prompt_tokens\":5\x7d\x7d",
    js "\x7b\"choices\":[\x7b\"finish_reason\":\"length\"\x7d],\"usage\":\x7b\"prompt_tokens\":5\x7d\x7d"]
  ended := .ok ()

/-- A text and a finish reason, without usage. -/
def withoutUsage : ProviderStream where
  events := [js "\x7b\"choices\":[\x7b\"delta\":\x7b\"content\":\"Hi\"\x7d\x7d]\x7d",
    js "\x7b\"choices\":[\x7b\"finish_reason\":\"length\"\x7d]\x7d", js "[DONE]"]
  ended := .ok ()

theorem withoutUsage_finishes : letI := platform
    OneFinish (request "hello") (acceptedFrames withoutUsage)
      (executeStream (request "hello") withoutUsage).1 := by
  let := platform
  refine (one_finish_iff (request "hello") withoutUsage (by decide +kernel)).2 (Or.inl ?_)
  exact List.isEmpty_iff.1 (by decide +kernel)

/-- **A stream with usage on every frame starts with a finish.** -/
theorem cumulativeUsage_finishes_twice : letI := platform
    ¬∀ env s, (executeStream env s).2 = .ok () →
      OneFinish env (acceptedFrames s) (executeStream env s).1 := by
  let := platform
  intro hall
  obtain ⟨body, reason, usage, heq, hbody, -⟩ :=
    hall (request "hello") cumulativeUsage (by decide +kernel)
  have hout : (executeStream (request "hello") cumulativeUsage).1 =
      [.finish .stop (some ⟨5, 0, 0, 0, false⟩), .text_delta (js "Hi"),
        .finish .length (some ⟨5, 0, 0, 0, false⟩)] := by
    decide +kernel
  rw [hout] at heq
  obtain ⟨hrest, -⟩ := @ends_with_first [] _ _ _ _ heq rfl hbody
  cases hrest

end Sample

end VibeRouter
