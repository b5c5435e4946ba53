import VibeRouter.Adapters.AnthropicRequest
import VibeRouter.Adapters.Reread
import VibeRouter.Db.Tables
import VibeRouter.Lib.JsonLiterals
import VibeRouter.Protect.Seams

/-! # Clean in, clean out

The texts of a request body that come from the messages of an envelope.  The OpenAI-compatible body has
the texts that were scanned.  The Anthropic body has texts that were put together since: the parts of a
system message are joined, and the escapes in the arguments of a tool call are decoded.  For an envelope
without matches the texts of both bodies have no matches exactly when nothing is reassembled by that
(`clean_out_iff`). -/

namespace VibeRouter

open OpenaiCompat Regex

/-! ### Reading a body -/

/-- The elements of a member. -/
def itemsAt (name : String) (v : Json) : List Json := ((v.field name).bind Json.asArray).getD []

/-- The member, if it is a string. -/
def textAt (name : String) (v : Json) : List JsString :=
  ((v.field name).bind Json.asString).toList

/-- The text of a text part. -/
def partTexts (part : Json) : List JsString :=
  if Anthropic.hasType part "text" then textAt "text" part else []

namespace OpenaiCompat

/-- The texts of a message: its content and the arguments of its calls. -/
def messageTexts (m : Json) : List JsString :=
  textAt "content" m ++ (itemsAt "content" m).flatMap partTexts ++
    (itemsAt "tool_calls" m).flatMap fun call =>
      ((call.field "function").map (textAt "arguments")).getD []

def bodyTexts (body : Json) : List JsString := (itemsAt "messages" body).flatMap messageTexts

end OpenaiCompat

namespace Anthropic

/-- The texts of a block: its text, the content of a tool result, or the strings of an input. -/
def blockTexts (b : Json) : List JsString :=
  partTexts b ++
    (if hasType b "tool_result" then
      textAt "content" b ++ (itemsAt "content" b).flatMap partTexts else []) ++
    if hasType b "tool_use" then ((b.field "input").map Json.strings).getD [] else []

def bodyTexts (body : Json) : List JsString :=
  (itemsAt "system" body).flatMap blockTexts ++
    (itemsAt "messages" body).flatMap fun m => (itemsAt "content" m).flatMap blockTexts

end Anthropic

/-! ### The texts of the OpenAI-compatible body -/

theorem mem_contentTexts {t : JsString} {ps : List ContentPart} :
    t ∈ (Content.parts ps).texts ↔ ContentPart.text t ∈ ps := by
  unfold Content.texts
  rw [List.mem_filterMap]
  constructor
  · rintro ⟨p, hp, ht⟩
    cases p with
    | text u =>
        cases ht
        exact hp
    | image url => cases ht
  · exact fun h => ⟨.text t, h, rfl⟩

/-- The texts of parts, however they are written. -/
theorem mem_partsTexts {t : JsString} {f : ContentPart → Json} {g : Json → List JsString}
    (hf : ∀ p, g (f p) = match p with
      | .text t => [t]
      | .image _ => []) {ps : List ContentPart} (h : t ∈ (ps.map f).flatMap g) :
    t ∈ (Content.parts ps).texts := by
  rw [List.flatMap_map] at h
  obtain ⟨p, hp, ht⟩ := List.mem_flatMap.1 h
  rw [hf] at ht
  cases p with
  | text u => exact mem_contentTexts.2 (List.mem_singleton.1 ht ▸ hp)
  | image url => cases ht

namespace OpenaiCompat

theorem partTexts_partBody (p : ContentPart) : partTexts (partBody p) =
    match p with
    | .text t => [t]
    | .image _ => [] := by
  cases p with
  | text t => rfl
  | image url => rfl

theorem mem_messageTexts {m : AIMessage} {t : JsString} (h : t ∈ messageTexts (messageBody m)) :
    t ∈ m.textFields := by
  obtain ⟨-, hcontent, hcalls, -, -⟩ := messageEntries_lookup m
  have hcontent' : (messageBody m).field "content" = some (contentBody m) := hcontent
  have hcalls' : (messageBody m).field "tool_calls" =
      (someItems m.toolCalls).map fun tcs => .arr (tcs.map callBody) := hcalls
  unfold messageTexts textAt itemsAt at h
  rw [hcontent', hcalls'] at h
  rcases List.mem_append.1 h with h | h
  · refine List.mem_append_left _ ?_
    unfold contentBody at h
    cases hm : m.content with
    | text s =>
        rw [hm] at h
        dsimp only at h
        split at h
        · cases h
        · exact h
    | parts ps =>
        rw [hm] at h
        exact mem_partsTexts partTexts_partBody h
  · refine List.mem_append_right _ ?_
    cases htcs : m.toolCalls with
    | none =>
        rw [htcs] at h
        cases h
    | some tcs =>
        cases tcs with
        | nil =>
            rw [htcs] at h
            cases h
        | cons tc tcs =>
            rw [htcs] at h
            change t ∈ ((tc :: tcs).map callBody).flatMap _ at h
            rw [List.flatMap_map] at h
            obtain ⟨tc', htc, ht⟩ := List.mem_flatMap.1 h
            exact List.mem_map.2 ⟨tc', htc, (List.mem_singleton.1 ht).symm⟩

/-- Every text of the body was scanned. -/
theorem mem_bodyTexts {env : AIRequest} {model : String} {flavor : Flavor} {t : JsString}
    (h : t ∈ bodyTexts (buildRequestBody env model flavor)) : t ∈ textFields env := by
  have hitems : itemsAt "messages" (buildRequestBody env model flavor) =
      env.messages.map messageBody := rfl
  unfold bodyTexts at h
  rw [hitems, List.flatMap_map] at h
  obtain ⟨m, hm, ht⟩ := List.mem_flatMap.1 h
  exact List.mem_flatMap.2 ⟨m, hm, mem_messageTexts ht⟩

end OpenaiCompat

/-! ### The texts of the Anthropic body -/

namespace Anthropic


theorem partTexts_partBlock (p : ContentPart) : partTexts (partBlock p) =
    match p with
    | .text t => [t]
    | .image _ => [] := by
  cases p with
  | text t => rfl
  | image url => rfl

theorem blockTexts_textBlock (t : JsString) : blockTexts (textBlock t) = [t] := rfl

theorem blockTexts_partBlock (p : ContentPart) : blockTexts (partBlock p) =
    match p with
    | .text t => [t]
    | .image _ => [] := by
  cases p with
  | text t => rfl
  | image url => rfl

theorem blockTexts_toolUseBlock (tc : ToolCall) :
    blockTexts (toolUseBlock tc) = (parseArguments tc.arguments).strings := rfl

theorem field_cached {name : String} (hname : name ≠ "cache_control") (b : Json) :
    (cached b).field name = b.field name := by
  cases b with
  | obj es =>
      show (es ++ [_]).lookup (js name) = es.lookup (js name)
      rw [List.lookup_append, List.lookup_cons, js_beq, decide_eq_false hname]
      simp
  | _ => rfl

theorem blockTexts_cached (b : Json) : blockTexts (cached b) = blockTexts b := by
  have hfield : ∀ {name}, name ≠ "cache_control" → (cached b).field name = b.field name :=
    fun hname => field_cached hname b
  have htype : ∀ name, hasType (cached b) name = hasType b name := by
    intro name
    unfold hasType Json.member
    rw [hfield (by decide)]
  have htext : ∀ {name}, name ≠ "cache_control" → textAt name (cached b) = textAt name b := by
    intro name hname
    unfold textAt
    rw [hfield hname]
  unfold blockTexts partTexts itemsAt
  rw [htype, htype, htype, htext (by decide), htext (by decide), hfield (by decide),
    hfield (by decide)]

theorem flatMap_modify {α β : Type} {f : α → α} {g : α → List β} (h : ∀ x, g (f x) = g x) (xs : List α)
    (n : ℕ) : (xs.modify n f).flatMap g = xs.flatMap g := by
  induction xs generalizing n with
  | nil => cases n <;> rfl
  | cons x xs ih =>
      cases n with
      | zero => rw [List.modify_zero_cons, List.flatMap_cons, List.flatMap_cons, h]
      | succ n => rw [List.modify_succ_cons, List.flatMap_cons, List.flatMap_cons, ih]

theorem cacheLast_texts (bs : List Json) :
    (cacheLast bs).flatMap blockTexts = bs.flatMap blockTexts :=
  flatMap_modify blockTexts_cached bs _

theorem cacheLeading_texts (ms : List OutMessage) :
    ((cacheLeading ms).flatMap fun m => m.content.flatMap blockTexts) =
      ms.flatMap fun m => m.content.flatMap blockTexts := by
  unfold cacheLeading
  split
  · exact flatMap_modify (fun m => cacheLast_texts m.content) ms _
  · rfl

theorem mem_optionalEntry {name : String} {value : Option Json} {e : JsString × Json}
    (h : e ∈ optionalEntry name value) : e.1 = js name := by
  cases value with
  | none => cases h
  | some v => rw [List.mem_singleton.1 h]

theorem requestOptions_ne_system {env : AIRequest} {ctx : ExecuteContext} {model : String}
    {tools : Option (List Json)} {toolChoice : Option Json} :
    ∀ e ∈ requestOptions env ctx model tools toolChoice, js "system" ≠ e.1 := by
  intro e he
  have hname : e.1 ∈ ["tools", "tool_choice", "temperature", "top_p", "stop_sequences", "stream",
      "thinking"].map js := by
    unfold requestOptions at he
    dsimp only at he
    simp only [List.mem_append] at he
    rcases he with ((((he | he) | he) | he) | he) | he
    · simp [mem_optionalEntry he]
    · simp [mem_optionalEntry he]
    · split at he
      · cases he
      · split at he
        · simp [List.mem_singleton.1 he]
        · simp [mem_optionalEntry he]
    · simp [mem_optionalEntry he]
    · split at he
      · simp [List.mem_singleton.1 he]
      · cases he
    · simp [mem_optionalEntry he]
  intro hsystem
  rw [← hsystem] at hname
  revert hname
  decide

theorem itemsAt_system {model maxTokens messages : Json} {system : List Json}
    {rest : List (JsString × Json)} (hrest : ∀ e ∈ rest, js "system" ≠ e.1) :
    itemsAt "system" (.obj ([(js "model", model), (js "max_tokens", maxTokens),
      (js "messages", messages)] ++
        (optionalEntry "system" ((someItems (some system)).map fun bs => .arr bs) ++ rest))) =
      system := by
  have hnone : rest.lookup (js "system") = none :=
    List.lookup_eq_none_iff.2 fun e he => bne_iff_ne.2 (hrest e he)
  unfold itemsAt Json.field
  simp only [List.cons_append, List.nil_append, List.lookup_cons, js_beq, lookup_optionalEntry, hnone]
  cases system <;> rfl

/-- The blocks of the request, whatever the prompt cache is told. -/
theorem bodyTexts_build (env : AIRequest) (ctx : ExecuteContext) :
    bodyTexts (buildAnthropicRequest env ctx).body =
      (systemBlocks env).flatMap blockTexts ++
        (env.messages.filterMap outMessage).flatMap fun m => m.content.flatMap blockTexts := by
  have hbody : ∀ (system : List Json) (tools : Option (List Json)) (messages : List OutMessage),
      bodyTexts (.obj ([(js "model", .str (js (providerModelName ctx.model ctx.modelMapping))),
        (js "max_tokens", .num (env.maxTokens.getD 4096 : ℤ)),
        (js "messages", .arr (messages.map OutMessage.toJson))] ++
          (optionalEntry "system" ((someItems (some system)).map fun bs => .arr bs) ++
            requestOptions env ctx (providerModelName ctx.model ctx.modelMapping) tools
              (toolsAndChoice env).2))) =
        system.flatMap blockTexts ++ messages.flatMap fun m => m.content.flatMap blockTexts := by
    intro system tools messages
    unfold bodyTexts
    rw [itemsAt_system requestOptions_ne_system]
    show _ ++ (messages.map OutMessage.toJson).flatMap _ = _
    rw [List.flatMap_map]
    rfl
  unfold buildAnthropicRequest
  cases ctx.promptCaching with
  | false => exact hbody _ _ _
  | true =>
      exact (hbody _ _ _).trans
        (congrArg₂ (· ++ ·) (cacheLast_texts _) (cacheLeading_texts _))

theorem mem_contentBlocks {t : JsString} {c : Content} (h : t ∈ (contentBlocks c).flatMap blockTexts) :
    t ∈ c.texts := by
  cases c with
  | text s =>
      change t ∈ (if s = [] then [] else [textBlock s]).flatMap blockTexts at h
      split at h
      · cases h
      · exact h
  | parts ps => exact mem_partsTexts blockTexts_partBlock h

theorem mem_toolResult {t : JsString} {m : AIMessage} (h : t ∈ blockTexts (toolResultBlock m)) :
    t ∈ m.content.texts := by
  obtain ⟨role, c, calls, callId⟩ := m
  cases c with
  | text s => exact h
  | parts ps =>
      change t ∈ ([] ++ ([] ++ (ps.map partBlock).flatMap partTexts)) ++ [] at h
      rw [List.append_nil, List.nil_append, List.nil_append] at h
      exact mem_partsTexts partTexts_partBlock h

/-- Where a text of a message comes from. -/
theorem mem_outMessage {m : AIMessage} {o : OutMessage} {t : JsString} (h : outMessage m = some o)
    (ht : t ∈ o.content.flatMap blockTexts) :
    t = [] ∨ t ∈ m.content.texts ∨ ((m.role = .user ∨ m.role = .assistant) ∧
      ∃ tc ∈ m.toolCalls.getD [], t ∈ (parseArguments tc.arguments).strings) := by
  have hspoken : ∀ (blocks : List Json) (role : String),
      blocks = contentBlocks m.content ++ (m.toolCalls.getD []).map toolUseBlock →
      some (OutMessage.mk role (if blocks = [] then [textBlock []] else blocks)) = some o →
      (m.role = .user ∨ m.role = .assistant) → t = [] ∨ t ∈ m.content.texts ∨
        ((m.role = .user ∨ m.role = .assistant) ∧
          ∃ tc ∈ m.toolCalls.getD [], t ∈ (parseArguments tc.arguments).strings) := by
    rintro blocks role hblocks ⟨⟩ hrole
    dsimp only at ht
    split at ht
    · exact Or.inl (List.mem_singleton.1 ht)
    rw [hblocks, List.flatMap_append] at ht
    rcases List.mem_append.1 ht with ht | ht
    · exact Or.inr (Or.inl (mem_contentBlocks ht))
    · rw [List.flatMap_map] at ht
      obtain ⟨tc, htc, ht⟩ := List.mem_flatMap.1 ht
      exact Or.inr (Or.inr ⟨hrole, tc, htc, ht⟩)
  unfold outMessage at h
  cases hrole : m.role with
  | system =>
      rw [hrole] at h
      cases h
  | user =>
      rw [hrole] at h hspoken
      exact hspoken _ _ rfl h (Or.inl rfl)
  | assistant =>
      rw [hrole] at h hspoken
      exact hspoken _ _ rfl h (Or.inr rfl)
  | tool =>
      rw [hrole] at h
      cases h
      exact Or.inr (Or.inl (mem_toolResult (by simpa using ht)))

/-- A text that was put together since the scan, or one that the router adds. -/
theorem mem_bodyTexts {env : AIRequest} {ctx : ExecuteContext} {t : JsString}
    (h : t ∈ bodyTexts (buildAnthropicRequest env ctx).body) :
    t = [] ∨ t = jsonInstruction ∨ t ∈ textFields env ∨
      (∃ m ∈ env.messages, ∃ ps, m.role = .system ∧ m.content = .parts ps ∧
        t = (ps.map partText).flatten) ∨
      ∃ m ∈ env.messages, (m.role = .user ∨ m.role = .assistant) ∧
        ∃ tc ∈ m.toolCalls.getD [], t ∈ (parseArguments tc.arguments).strings := by
  have hfield : ∀ m ∈ env.messages, t ∈ m.content.texts → t ∈ textFields env := fun m hm ht =>
    List.mem_flatMap.2 ⟨m, hm, List.mem_append_left _ ht⟩
  rw [bodyTexts_build] at h
  rcases List.mem_append.1 h with h | h
  · unfold systemBlocks at h
    rw [List.flatMap_append] at h
    rcases List.mem_append.1 h with h | h
    · obtain ⟨b, hb, ht⟩ := List.mem_flatMap.1 h
      obtain ⟨m, hm, hblock⟩ := List.mem_filterMap.1 hb
      unfold systemBlock at hblock
      split at hblock
      case h_2 => cases hblock
      rename_i hrole
      cases hblock
      rw [blockTexts_textBlock, List.mem_singleton] at ht
      cases hcontent : m.content with
      | text s =>
          rw [hcontent] at ht
          refine Or.inr (Or.inr (Or.inl (hfield m hm ?_)))
          rw [hcontent, ht]
          exact List.mem_singleton_self s
      | parts ps =>
          rw [hcontent] at ht
          exact Or.inr (Or.inr (Or.inr (Or.inl ⟨m, hm, ps, hrole, hcontent, ht⟩)))
    · refine Or.inr (Or.inl ?_)
      split at h
      · exact List.mem_singleton.1 h
      · cases h
  · obtain ⟨o, ho, ht⟩ := List.mem_flatMap.1 h
    obtain ⟨m, hm, hmessage⟩ := List.mem_filterMap.1 ho
    rcases mem_outMessage hmessage ht with ht | ht | ⟨hrole, htc⟩
    · exact Or.inl ht
    · exact Or.inr (Or.inr (Or.inl (hfield m hm ht)))
    · exact Or.inr (Or.inr (Or.inr (Or.inr ⟨m, hm, hrole, htc⟩)))

/-- The joined parts of a system message are sent. -/
theorem system_sent {env : AIRequest} (ctx : ExecuteContext) {m : AIMessage} (hm : m ∈ env.messages)
    (hrole : m.role = .system) :
    systemText m.content ∈ bodyTexts (buildAnthropicRequest env ctx).body := by
  rw [bodyTexts_build]
  refine List.mem_append_left _ (List.mem_flatMap.2 ⟨textBlock (systemText m.content), ?_, ?_⟩)
  · refine List.mem_append_left _ (List.mem_filterMap.2 ⟨m, hm, ?_⟩)
    unfold systemBlock
    rw [hrole]
  · exact List.mem_singleton_self _

/-- The strings of the parsed arguments are sent. -/
theorem input_sent {env : AIRequest} (ctx : ExecuteContext) {m : AIMessage} (hm : m ∈ env.messages)
    (hrole : m.role = .user ∨ m.role = .assistant) {tc : ToolCall} (htc : tc ∈ m.toolCalls.getD [])
    {s : JsString} (hs : s ∈ (parseArguments tc.arguments).strings) :
    s ∈ bodyTexts (buildAnthropicRequest env ctx).body := by
  have hblocks : contentBlocks m.content ++ (m.toolCalls.getD []).map toolUseBlock ≠ [] := by
    intro hnil
    have hcalls := List.map_eq_nil_iff.1 (List.append_eq_nil_iff.1 hnil).2
    rw [hcalls] at htc
    cases htc
  have hout : outMessage m = some ⟨m.role.text,
      contentBlocks m.content ++ (m.toolCalls.getD []).map toolUseBlock⟩ := by
    unfold outMessage
    rcases hrole with hrole | hrole
    · rw [hrole]
      simp only [if_neg hblocks]
    · rw [hrole]
      simp only [if_neg hblocks]
  rw [bodyTexts_build]
  refine List.mem_append_right _ (List.mem_flatMap.2 ⟨_, List.mem_filterMap.2 ⟨m, hm, hout⟩, ?_⟩)
  refine List.mem_flatMap.2 ⟨toolUseBlock tc, List.mem_append_right _ (List.mem_map_of_mem htc), ?_⟩
  rwa [blockTexts_toolUseBlock]

end Anthropic

/-! ### What is reassembled -/

/-- What is reassembled on the way to the Messages API: from the parts of a system message, or from the
escapes of a string in the arguments of a tool call. -/
inductive Reassembled (env : AIRequest) : Prop
  | system {m : AIMessage} {ps : List ContentPart} (mem : m ∈ env.messages) (role : m.role = .system)
      (content : m.content = .parts ps) (h : Reassembles (ps.map Anthropic.partText))
  | input {m : AIMessage} {tc : ToolCall} {v : Json} {s w : JsString} (mem : m ∈ env.messages)
      (role : m.role = .user ∨ m.role = .assistant) (call : tc ∈ m.toolCalls.getD [])
      (parsed : Json.parse tc.arguments = some v) (string : s ∈ v.strings)
      (literal : Json.Literal tc.arguments s w) (h : Reassembles (Json.pieces w))

theorem scanText_eq_nil_iff {text : JsString} : scanText text = [] ↔ ¬Seen text := by
  rw [← scanText_ne_nil_iff, not_not]

theorem parts_quote : Parts 34 := ⟨rfl, rfl⟩

theorem parts_backslash : Parts 92 := ⟨rfl, rfl⟩

theorem not_seen_nil : ¬Seen [] := scanText_eq_nil_iff.1 (by decide)

/-- Texts that were scanned one by one. -/
theorem Scanned.of_each {pieces : List JsString} (h : ∀ p ∈ pieces, ¬Seen p) : Scanned pieces := by
  have hself : ∀ p ∈ pieces, ¬Seen ([] ++ (p ++ [])) := by
    intro p hp
    rw [List.append_nil]
    exact h p hp
  exact ⟨fun p hp => ⟨[], [], hself p (List.mem_of_mem_head? hp), by simp, by simp⟩,
    fun p hp => Or.inr ⟨[], [], hself p hp, by simp⟩⟩

/-- The pieces of a literal in a text that was scanned. -/
theorem Scanned.of_literal {text s w : JsString} (hclean : ¬Seen text) (h : Json.Literal text s w) :
    Scanned (Json.pieces w) := by
  obtain ⟨a, b, rfl, -⟩ := h
  have hafter : ∀ {b' : JsString}, (∀ x ∈ b'.head?, x = 92) → ∀ x ∈ (b' ++ 34 :: b).head?, Parts x := by
    intro b' hb' x hx
    cases b' with
    | nil =>
        cases hx
        exact parts_quote
    | cons y b' =>
        cases hx
        rw [hb' _ rfl]
        exact parts_backslash
  constructor
  · intro p hp
    obtain ⟨b', rfl, hb'⟩ := Json.pieces_first w p hp
    refine ⟨a ++ [34], b' ++ 34 :: b, ?_, ?_, hafter hb'⟩
    · simpa using hclean
    · intro x hx
      rw [List.getLast?_append_of_ne_nil _ (List.cons_ne_nil 34 [])] at hx
      cases hx
      exact parts_quote
  · intro p hp
    refine (Json.pieces_stand w p hp).imp_right ?_
    rintro ⟨a', b', rfl, hb'⟩
    exact ⟨a ++ 34 :: a', b' ++ 34 :: b, by simpa using hclean, hafter hb'⟩

theorem Scanned.of_parts {env : AIRequest} (hclean : ∀ text ∈ textFields env, ¬Seen text)
    {m : AIMessage} (hm : m ∈ env.messages) {ps : List ContentPart} (hcontent : m.content = .parts ps) :
    Scanned (ps.map Anthropic.partText) := by
  refine .of_each fun p hp => ?_
  obtain ⟨part, hpart, rfl⟩ := List.mem_map.1 hp
  cases part with
  | text t =>
      refine hclean t (List.mem_flatMap.2 ⟨m, hm, List.mem_append_left _ ?_⟩)
      rw [hcontent]
      exact mem_contentTexts.2 hpart
  | image url => exact not_seen_nil

/-- **Clean in, clean out.**  For an envelope without matches every text of the OpenAI-compatible body
has none, and every text of the Anthropic body has none exactly when nothing is reassembled. -/
theorem clean_out_iff {env : AIRequest} (hclean : (scanEnvelope env).total = 0) (ctx : ExecuteContext)
    (model : String) (flavor : Flavor) :
    (∀ t ∈ OpenaiCompat.bodyTexts (buildRequestBody env model flavor), scanText t = []) ∧
    ((∀ t ∈ Anthropic.bodyTexts (Anthropic.buildAnthropicRequest env ctx).body, scanText t = []) ↔
      ¬Reassembled env) := by
  have hscanned := (scanEnvelope_total_eq_zero env).1 hclean
  have hunseen : ∀ text ∈ textFields env, ¬Seen text := fun text htext =>
    scanText_eq_nil_iff.1 (hscanned text htext)
  have harguments : ∀ m ∈ env.messages, ∀ tc ∈ m.toolCalls.getD [], ¬Seen tc.arguments :=
    fun m hm tc htc => hunseen _ (List.mem_flatMap.2
      ⟨m, hm, List.mem_append_right _ (List.mem_map_of_mem htc)⟩)
  refine ⟨fun t ht => hscanned t (OpenaiCompat.mem_bodyTexts ht), ?_, ?_⟩
  · intro hsent hreassembled
    cases hreassembled with
    | @system m ps mem role content h =>
        have ht := hsent _ (Anthropic.system_sent ctx mem role)
        rw [content] at ht
        exact scanText_eq_nil_iff.1 ht ((seen_flatten_iff (.of_parts hunseen mem content)).2 h)
    | @input m tc v s w mem role call parsed string literal h =>
        have hstring : s ∈ (Anthropic.parseArguments tc.arguments).strings := by
          unfold Anthropic.parseArguments
          rwa [parsed]
        have ht := hsent _ (Anthropic.input_sent ctx mem role call hstring)
        rw [← literal.flatten] at ht
        exact scanText_eq_nil_iff.1 ht
          ((seen_flatten_iff (.of_literal (harguments m mem tc call) literal)).2 h)
  · intro hnone t ht
    rcases Anthropic.mem_bodyTexts ht with rfl | rfl | ht | ⟨m, hm, ps, hrole, hcontent, rfl⟩ |
      ⟨m, hm, hrole, tc, htc, hstring⟩
    · decide
    · decide
    · exact hscanned t ht
    · refine scanText_eq_nil_iff.2 fun hseen => hnone ?_
      exact .system hm hrole hcontent ((seen_flatten_iff (.of_parts hunseen hm hcontent)).1 hseen)
    · have hargs := harguments m hm tc htc
      unfold Anthropic.parseArguments at hstring
      cases hparse : Json.parse tc.arguments with
      | none =>
          rw [hparse] at hstring
          obtain rfl := List.mem_singleton.1 hstring
          exact scanText_eq_nil_iff.2 hargs
      | some v =>
          rw [hparse] at hstring
          refine scanText_eq_nil_iff.2 fun hseen => hnone ?_
          obtain ⟨w, hliteral⟩ := Json.parse_strings hparse t hstring
          rw [← hliteral.flatten] at hseen
          exact .input hm hrole htc hparse hstring hliteral
            ((seen_flatten_iff (.of_literal hargs hliteral)).1 hseen)

namespace Sample

def claude : ExecuteContext :=
  { providerId := cloudProviderId, model := "anthropic/claude", baseUrl := "" }

def envelopeOf (messages : List AIMessage) : AIRequest :=
  { taskClass := "chat", messages, metadata := { app := "app" } }

def noteOf (arguments : JsString) : AIMessage :=
  { role := .assistant, content := .text [],
    toolCalls := some [{ id := "1", name := "note", arguments }] }

/-- A writer of plain ASCII has escaped the sign before the number. -/
def escapedNote : JsString := js "\x7b\"text\":\"\\u2116123-45-6789\"\x7d"

theorem escapedNote_parsed :
    Json.parse escapedNote = some (.obj [(js "text", .str (js "№123-45-6789"))]) := by
  have hvalue : Json.chars (92 :: 117 :: 50 :: 49 :: 49 :: 54 :: (js "123-45-6789" ++ [34, 125])) =
      some (js "№123-45-6789", [125]) := by
    rw [Json.chars_hex (u := 8470) (by decide), Json.chars_stretch (by decide), Json.chars_end]
    decide
  have hname : ∀ rest, Json.chars (js "text" ++ 34 :: 58 :: 34 :: rest) =
      some (js "text", 58 :: 34 :: rest) := by
    intro rest
    rw [Json.chars_stretch (by decide), Json.chars_end]
    rfl
  exact Json.parse_member (hname _) hvalue

def plainNote : JsString := js "\x7b\"text\":\"\\u2116 123\\n45\"\x7d"

theorem plainNote_parsed :
    Json.parse plainNote = some (.obj [(js "text", .str (js "№ 123\n45"))]) := by
  have hvalue : Json.chars (92 :: 117 :: 50 :: 49 :: 49 :: 54 ::
      (js " 123" ++ 92 :: 110 :: (js "45" ++ [34, 125]))) = some (js "№ 123\n45", [125]) := by
    rw [Json.chars_hex (u := 8470) (by decide), Json.chars_stretch (by decide),
      Json.chars_escape (u := 10) _ (by decide) (by decide), Json.chars_stretch (by decide),
      Json.chars_end]
    decide
  have hname : ∀ rest, Json.chars (js "text" ++ 34 :: 58 :: 34 :: rest) =
      some (js "text", 58 :: 34 :: rest) := by
    intro rest
    rw [Json.chars_stretch (by decide), Json.chars_end]
    rfl
  exact Json.parse_member (hname _) hvalue

/-- A number in two parts of a system message, and one behind an escape. -/
def splitNumbers : AIRequest := envelopeOf
  [{ role := .system, content := .parts [.text (js "of 123-"), .text (js "45-6789")] },
    noteOf escapedNote]

def plainNumbers : AIRequest := envelopeOf
  [{ role := .system, content := .parts [.text (js "of 123-"), .text (js "45")] },
    noteOf plainNote]

theorem splitNumbers_clean : (scanEnvelope splitNumbers).total = 0 := by decide

theorem plainNumbers_clean : (scanEnvelope plainNumbers).total = 0 := by decide

theorem splitNumbers_sent : js "№123-45-6789" ∈
    Anthropic.bodyTexts (Anthropic.buildAnthropicRequest splitNumbers claude).body := by
  refine Anthropic.input_sent claude (m := noteOf escapedNote) ?_ (Or.inr rfl)
    (List.mem_singleton_self _) ?_
  · exact List.mem_cons_of_mem _ (List.mem_singleton_self _)
  · unfold Anthropic.parseArguments
    rw [escapedNote_parsed]
    exact List.mem_singleton_self _

theorem plainNumbers_sent : ∀ t ∈
    Anthropic.bodyTexts (Anthropic.buildAnthropicRequest plainNumbers claude).body,
    scanText t = [] := by
  have hscanned := (scanEnvelope_total_eq_zero plainNumbers).1 plainNumbers_clean
  intro t ht
  rcases Anthropic.mem_bodyTexts ht with rfl | rfl | ht | ⟨m, hm, ps, hrole, hcontent, rfl⟩ |
    ⟨m, hm, hrole, tc, htc, hstring⟩
  · decide
  · decide
  · exact hscanned t ht
  · rcases List.mem_cons.1 hm with rfl | hm
    · cases hcontent
      decide
    · obtain rfl := List.mem_singleton.1 hm
      cases hrole
  · rcases List.mem_cons.1 hm with rfl | hm
    · cases htc
    · obtain rfl := List.mem_singleton.1 hm
      obtain rfl := List.mem_singleton.1 htc
      unfold Anthropic.parseArguments at hstring
      rw [plainNote_parsed] at hstring
      obtain rfl := List.mem_singleton.1 hstring
      decide

/-- With something to reassemble, and with nothing. -/
theorem sample_clean_out : Reassembled splitNumbers ∧ ¬Reassembled plainNumbers := by
  have hsplit := clean_out_iff splitNumbers_clean claude "gpt" .openai
  have hplain := clean_out_iff plainNumbers_clean claude "gpt" .openai
  refine ⟨by_contra fun hnone => ?_, hplain.2.1 plainNumbers_sent⟩
  have hsent := hsplit.2.2 hnone _ splitNumbers_sent
  revert hsent
  decide

end Sample

/-- **An identifier comes out where none went in.** -/
theorem clean_in_identifier_out : ¬∀ (env : AIRequest) (ctx : ExecuteContext) (model : String)
    (flavor : Flavor), (scanEnvelope env).total = 0 →
    (∀ t ∈ OpenaiCompat.bodyTexts (buildRequestBody env model flavor), scanText t = []) ∧
    ∀ t ∈ Anthropic.bodyTexts (Anthropic.buildAnthropicRequest env ctx).body, scanText t = [] := by
  intro h
  have hsent := (h _ Sample.claude "gpt" .openai Sample.splitNumbers_clean).2 _ Sample.splitNumbers_sent
  revert hsent
  decide

end VibeRouter
