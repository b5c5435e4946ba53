import VibeRouter.Lib.JsonOrder
import VibeRouter.Lib.Utf8
import VibeRouter.Ops.Served

/-! # The identity of a request

A list of messages is known by its canonical text, from which the request hash is computed, and the
key of the response cache names the firm, the model, this hash and a digest of the other parameters.
None of these is confused with that of another request (`request_identity`). -/

namespace VibeRouter

open Json

/-! ### Messages are determined by their values -/

theorem part_of_same {p p' : ContentPart} (h : SameUpToOrder p.toJson p'.toJson) : p = p' := by
  cases p with
  | text t =>
      cases p' with
      | text t' => rw [h.lookup_str (k := js "text") rfl rfl]
      | image url' => cases h.lookup_str (k := js "type") rfl rfl
  | image url =>
      cases p' with
      | text t' => cases h.lookup_str (k := js "type") rfl rfl
      | image url' => rw [h.lookup_str (k := js "url") rfl rfl]

theorem content_of_same {c c' : Content} (h : SameUpToOrder c.toJson c'.toJson) : c = c' := by
  cases c with
  | text s =>
      cases c' with
      | text s' => rw [Json.str.inj h]
      | parts ps' => cases h
  | parts ps =>
      obtain ⟨ys, heq, hsame⟩ := h
      cases c' with
      | text s' => cases heq
      | parts ps' =>
          cases heq
          rw [SameListUpToOrder.eq_of_map (fun _ _ => part_of_same) hsame]

theorem toolCall_of_same {tc tc' : ToolCall} (h : SameUpToOrder tc.toJson tc'.toJson) :
    tc = tc' := by
  obtain ⟨id, name, arguments⟩ := tc
  obtain ⟨id', name', arguments'⟩ := tc'
  have hid : js id = js id' := h.lookup_str (k := js "id") rfl rfl
  have hname : js name = js name' := h.lookup_str (k := js "name") rfl rfl
  have harguments : arguments = arguments' := h.lookup_str (k := js "arguments") rfl rfl
  rw [Utf8.js_injective hid, Utf8.js_injective hname, harguments]

/-- The members of a message. -/
def AIMessage.members (m : AIMessage) : List (JsString × Json) :=
  [(js "role", .str (js m.role.text)), (js "content", m.content.toJson)] ++
    (m.toolCalls.map fun tcs => (js "toolCalls", Json.arr (tcs.map ToolCall.toJson))).toList ++
    (m.toolCallId.map fun i => (js "toolCallId", Json.str (js i))).toList

theorem members_lookup_toolCalls (m : AIMessage) : m.members.lookup (js "toolCalls") =
    m.toolCalls.map fun tcs => .arr (tcs.map ToolCall.toJson) := by
  obtain ⟨role, content, toolCalls, toolCallId⟩ := m
  cases toolCalls <;> cases toolCallId <;> rfl

theorem members_lookup_toolCallId (m : AIMessage) : m.members.lookup (js "toolCallId") =
    m.toolCallId.map fun i => .str (js i) := by
  obtain ⟨role, content, toolCalls, toolCallId⟩ := m
  cases toolCalls <;> cases toolCallId <;> rfl

theorem message_of_same {m m' : AIMessage} (h : SameUpToOrder m.toJson m'.toJson) : m = m' := by
  replace h : SameUpToOrder (.obj m.members) (.obj m'.members) := h
  have hrole : m.role = m'.role := by
    have htext : js m.role.text = js m'.role.text := h.lookup_str (k := js "role") rfl rfl
    have htext := Utf8.js_injective htext
    revert htext
    cases m.role <;> cases m'.role <;> decide
  have hcontent : m.content = m'.content := by
    obtain ⟨w, hw, hsame⟩ := h.entry (k := js "content") (v := m.content.toJson)
      (List.mem_cons_of_mem _ (List.mem_cons_self ..))
    have hw' : w = m'.content.toJson := (Option.some.inj hw).symm
    rw [hw'] at hsame
    exact content_of_same hsame
  have htoolCalls : m.toolCalls = m'.toolCalls := by
    have hlookup := h.lookup (js "toolCalls")
    rw [members_lookup_toolCalls, members_lookup_toolCalls, Option.map_eq_none_iff,
      Option.map_eq_none_iff] at hlookup
    rcases hlookup with ⟨hnone, hnone'⟩ | ⟨v, w, hv, hw, hsame⟩
    · rw [hnone, hnone']
    · obtain ⟨tcs, htcs, rfl⟩ := Option.map_eq_some_iff.1 hv
      obtain ⟨tcs', htcs', rfl⟩ := Option.map_eq_some_iff.1 hw
      obtain ⟨ys, heq, hsame⟩ := hsame
      cases heq
      rw [htcs, htcs', SameListUpToOrder.eq_of_map (fun _ _ => toolCall_of_same) hsame]
  have htoolCallId : m.toolCallId = m'.toolCallId := by
    have hlookup := h.lookup (js "toolCallId")
    rw [members_lookup_toolCallId, members_lookup_toolCallId, Option.map_eq_none_iff,
      Option.map_eq_none_iff] at hlookup
    rcases hlookup with ⟨hnone, hnone'⟩ | ⟨v, w, hv, hw, hsame⟩
    · rw [hnone, hnone']
    · obtain ⟨i, hi, rfl⟩ := Option.map_eq_some_iff.1 hv
      obtain ⟨i', hi', rfl⟩ := Option.map_eq_some_iff.1 hw
      rw [hi, hi', Utf8.js_injective (Json.str.inj hsame)]
  obtain ⟨role, content, toolCalls, toolCallId⟩ := m
  obtain ⟨role', content', toolCalls', toolCallId'⟩ := m'
  cases hrole
  cases hcontent
  cases htoolCalls
  cases htoolCallId
  rfl

/-! ### The texts of messages -/

section
variable {number : ℚ → JsString}

theorem writableList_map {α : Type} {f : α → Json} (hf : ∀ a, Writable number (f a)) (as : List α) :
    WritableList number (as.map f) := by
  induction as with
  | nil => trivial
  | cons a as ih => exact ⟨hf a, ih⟩

theorem writable_part (p : ContentPart) : Writable number p.toJson := by
  cases p with
  | text t =>
      have hnames : [js "type", js "text"].Nodup := by decide
      exact ⟨hnames, trivial, trivial, trivial⟩
  | image url =>
      have hnames : [js "type", js "url"].Nodup := by decide
      exact ⟨hnames, trivial, trivial, trivial⟩

theorem writable_content (c : Content) : Writable number c.toJson := by
  cases c with
  | text s => trivial
  | parts ps => exact writableList_map writable_part ps

theorem writable_toolCall (tc : ToolCall) : Writable number tc.toJson := by
  have hnames : [js "id", js "name", js "arguments"].Nodup := by decide
  exact ⟨hnames, trivial, trivial, trivial, trivial⟩

/-- A message has no numbers, and names each member once. -/
theorem writable_message (m : AIMessage) : Writable number m.toJson := by
  obtain ⟨role, content, toolCalls, toolCallId⟩ := m
  have hcontent : Writable number content.toJson := writable_content content
  cases toolCalls with
  | none =>
      cases toolCallId with
      | none =>
          have hnames : [js "role", js "content"].Nodup := by decide
          exact ⟨hnames, trivial, hcontent, trivial⟩
      | some i =>
          have hnames : [js "role", js "content", js "toolCallId"].Nodup := by decide
          exact ⟨hnames, trivial, hcontent, trivial, trivial⟩
  | some tcs =>
      have htcs : WritableList number (tcs.map ToolCall.toJson) :=
        writableList_map writable_toolCall tcs
      cases toolCallId with
      | none =>
          have hnames : [js "role", js "content", js "toolCalls"].Nodup := by decide
          exact ⟨hnames, trivial, hcontent, htcs, trivial⟩
      | some i =>
          have hnames : [js "role", js "content", js "toolCalls", js "toolCallId"].Nodup := by decide
          exact ⟨hnames, trivial, hcontent, htcs, trivial, trivial⟩

end

/-- The value of a list of messages, its objects written in the order of `AIMessage.toJson`. -/
def messagesJson (ms : List AIMessage) : Json := .arr (ms.map AIMessage.toJson)

theorem messages_of_same {ms ms' : List AIMessage}
    (h : SameUpToOrder (messagesJson ms) (messagesJson ms')) : ms = ms' := by
  obtain ⟨ys, heq, hsame⟩ := h
  cases heq
  exact SameListUpToOrder.eq_of_map (fun _ _ => message_of_same) hsame

/-- A value with the members of a list of messages, in any order. -/
def IsMessageList (v : Json) : Prop := Distinct v ∧ ∃ ms, SameUpToOrder (messagesJson ms) v

theorem IsMessageList.writable {number : ℚ → JsString} {v : Json} (h : IsMessageList v) :
    Writable number v := by
  obtain ⟨hdistinct, ms, hsame⟩ := h
  have hms : Writable number (messagesJson ms) := writableList_map writable_message ms
  exact SameUpToOrder.writable hsame hms hdistinct

theorem isMessageList_messagesJson (ms : List AIMessage) : IsMessageList (messagesJson ms) := by
  have hms : Writable (fun _ => []) (messagesJson ms) := writableList_map writable_message ms
  refine ⟨hms.distinct, ms, ?_⟩
  exact (sortKeys_eq_iff hms.distinct hms.distinct).1 rfl

section
variable [Platform]

/-- The text that is hashed for a list of messages. -/
def canonicalText (v : Json) : JsString := Json.canonicalize Platform.numberText v

/-- SHA-256 tells two texts apart. -/
def NoCollision (a b : JsString) : Prop := Platform.sha256 a = Platform.sha256 b → a = b

theorem canonicalText_eq_iff {v w : Json} (hv : IsMessageList v) (hw : IsMessageList w) :
    canonicalText v = canonicalText w ↔ SameUpToOrder v w :=
  canonicalize_eq_iff hv.writable hw.writable

theorem canonicalText_inj {ms ms' : List AIMessage}
    (h : canonicalText (messagesJson ms) = canonicalText (messagesJson ms')) : ms = ms' := by
  have hms := isMessageList_messagesJson ms
  have hms' := isMessageList_messagesJson ms'
  exact messages_of_same ((canonicalText_eq_iff hms hms').1 h)

theorem requestHash_inj {ms ms' : List AIMessage}
    (hsha : NoCollision (canonicalText (messagesJson ms)) (canonicalText (messagesJson ms')))
    (h : requestHash ms = requestHash ms') : ms = ms' :=
  canonicalText_inj (hsha h)

/-- A key of the response cache is made of the firm, the model, the hash and the digest. -/
theorem keyFor_eq {deps : PipelineDeps} {auth : AuthContext} {c : PipelineCtx} {r : RouteDecision}
    {key : String} (h : keyFor deps auth c r = some key) : key =
      ResponseCache.key auth.firmId r.model.canonicalId c.requestHash (paramsDigest c.envelope) := by
  unfold keyFor at h
  split at h
  · cases h
  · split at h
    · cases h
    · exact (Option.some.inj h).symm

/-- **Requests keep their identity.**  Two lists of messages have the same canonical text exactly
when they are the same up to the order of their objects' members; the same hash is the hash of the
same messages where SHA-256 tells their texts apart; and the same key in the response cache is that
of the same firm, the same model, the same messages and the same digest of the parameters. -/
theorem request_identity :
    (∀ v w, IsMessageList v → IsMessageList w →
      (canonicalText v = canonicalText w ↔ SameUpToOrder v w)) ∧
    (∀ ms ms' : List AIMessage,
      NoCollision (canonicalText (messagesJson ms)) (canonicalText (messagesJson ms')) →
      (requestHash ms = requestHash ms' ↔ ms = ms')) ∧
    ∀ deps deps' auth auth' c c' r r' key, keyFor deps auth c r = some key →
      keyFor deps' auth' c' r' = some key →
      auth.firmId = auth'.firmId ∧ r.model.canonicalId = r'.model.canonicalId ∧
      paramsDigest c.envelope = paramsDigest c'.envelope ∧ c.requestHash = c'.requestHash ∧
      ∀ ms ms', c.requestHash = requestHash ms → c'.requestHash = requestHash ms' →
        NoCollision (canonicalText (messagesJson ms)) (canonicalText (messagesJson ms')) →
        ms = ms' := by
  refine ⟨fun v w hv hw => canonicalText_eq_iff hv hw, ?_, ?_⟩
  · intro ms ms' hsha
    exact ⟨requestHash_inj hsha, congrArg requestHash⟩
  · intro deps deps' auth auth' c c' r r' key hkey hkey'
    have heq := (keyFor_eq hkey).symm.trans (keyFor_eq hkey')
    obtain ⟨hfirm, hmodel, hhash, hdigest⟩ := ResponseCache.key_injective heq
    refine ⟨hfirm, hmodel, hdigest, hhash, ?_⟩
    intro ms ms' hms hms' hsha
    apply requestHash_inj hsha
    rw [← hms, ← hms', hhash]

end

namespace Sample

/-- The digests of two messages and, for any other text, that of parameters that are all absent. -/
@[reducible] def digesting : Platform :=
  .ofDigests
    [(js "[\x7b\"content\":\"hello\",\"role\":\"user\"\x7d]",
      ⟨"d98167dd28f22e330824942ba4d4ce217c2411a0d1141d60b40fe4cb8dc0d232", by decide⟩),
     (js "[\x7b\"content\":\"bye\",\"role\":\"user\"\x7d]",
      ⟨"848cc82dc7a34f288df6bbefb5d0125fb7317f2f05100bc9245061b24e2bfcc6", by decide⟩)]
    ⟨"37a06e5154de9ef5fdb08ede626ffb29630db236bda6cc9bd2f7868b61a9c25b", by decide⟩

def asking (requestId : String) : PipelineCtx :=
  { @admitted digesting requestId [] with effective := cachingCtx.effective }

def helloMessages : List AIMessage := (request "hello").messages

/-- The same message, its content written first. -/
def helloReordered : Json :=
  .arr [.obj [(js "content", .str (js "hello")), (js "role", .str (js "user"))]]

theorem isMessageList_helloReordered : IsMessageList helloReordered := by
  have hnames : [js "content", js "role"].Nodup := by decide
  have hswap : [js "role", js "content"].Perm [js "content", js "role"] := List.Perm.swap ..
  refine ⟨⟨⟨hnames, trivial, trivial, trivial⟩, trivial⟩, helloMessages, _, rfl, _, _, rfl, ?_, rfl⟩
  exact ⟨_, rfl, hswap, ⟨_, rfl, rfl⟩, ⟨_, rfl, rfl⟩, trivial⟩

theorem keyFor_asking (requestId : String) :
    @keyFor digesting cacheDeps auth (asking requestId) cloudRoute =
      some (ResponseCache.key firmId "claude-sonnet" (@requestHash digesting helloMessages)
        (@paramsDigest digesting (request "hello"))) := by
  have helig : cacheEligible cacheDeps (asking requestId) = true := rfl
  have hcloud : (requiresOf (asking requestId)).cache_cloud = true := rfl
  unfold keyFor
  rw [helig, hcloud, if_neg (by decide), Bool.not_true, Bool.and_false, if_neg (by decide)]
  rfl

end Sample

theorem request_identity_hello :
    @canonicalText Sample.digesting (messagesJson Sample.helloMessages) =
      @canonicalText Sample.digesting Sample.helloReordered ∧
    @requestHash Sample.digesting Sample.helloMessages ≠
      @requestHash Sample.digesting (Sample.request "bye").messages ∧
    (Sample.asking "r").requestHash = (Sample.asking "s").requestHash := by
  obtain ⟨hcanonical, hhash, hkey⟩ := @request_identity Sample.digesting
  refine ⟨?_, ?_, ?_⟩
  · obtain ⟨hdistinct, ms, hsame⟩ := Sample.isMessageList_helloReordered
    refine (hcanonical _ _ (isMessageList_messagesJson _) ⟨hdistinct, ms, hsame⟩).2 ?_
    exact ⟨_, rfl, _, _, rfl, ⟨_, rfl, List.Perm.swap .., ⟨_, rfl, rfl⟩, ⟨_, rfl, rfl⟩, trivial⟩, rfl⟩
  · have hsha : @NoCollision Sample.digesting
        (@canonicalText Sample.digesting (messagesJson Sample.helloMessages))
        (@canonicalText Sample.digesting (messagesJson (Sample.request "bye").messages)) :=
      fun heq => absurd heq (by decide +kernel)
    exact fun heq => absurd ((hhash _ _ hsha).1 heq) (by decide)
  · exact (hkey Sample.cacheDeps Sample.cacheDeps Sample.auth Sample.auth (Sample.asking "r")
      (Sample.asking "s") Sample.cloudRoute Sample.cloudRoute _ (Sample.keyFor_asking "r")
      (Sample.keyFor_asking "s")).2.2.2.1

end VibeRouter
