import VibeRouter.Adapters.RequestBody
import VibeRouter.Gateway.DepthGuard

/-! # Ingress and egress are inverse

The body that `buildRequestBody` writes for an accepted request is read by `toEnvelope` as the
same envelope, but for the validation hint, the requested model and empty arrays
(`egress_reread`).  The schemas return what they read (`Returns`), from the parts of a message up
to the body; the depth of the body does not grow. -/

namespace VibeRouter

open Zod OpenaiCompat

/-! ### Parts, calls and tools -/

/-- An object in an object. -/
theorem nested_deep {α : Type} {f : Members → Except Issue α} {name : String} {ms : Members} {a : α}
    (h : member (object f) name ms = .ok a) : 2 ≤ depth (.obj ms) := by
  obtain ⟨inner, hinner, hobject⟩ := member_there h object_none
  obtain ⟨ms', rfl, -⟩ := object_ok.1 hobject
  have hdeep : 1 ≤ depth (.obj ms') := Nat.succ_le_succ (Nat.zero_le _)
  exact Nat.le_trans (Nat.succ_le_succ hdeep) (depth_lookup hinner)

theorem part_returns : Returns contentPartSchema ChatPart.toPart partBody id where
  again := by
    intro v part _
    cases part with
    | text t => exact ⟨.text t, rfl, rfl⟩
    | image_url url => exact ⟨.image_url url, rfl, rfl⟩
  depth := by
    intro v part h
    rcases union_ok h with h | h
    · obtain ⟨ms, rfl, hread⟩ := object_ok.1 h
      obtain ⟨_, -, hread⟩ := bind_ok.1 hread
      obtain ⟨t, -, ht⟩ := bind_ok.1 hread
      cases ht
      exact Nat.succ_le_succ (Nat.zero_le _)
    · obtain ⟨ms, rfl, hread⟩ := object_ok.1 h
      obtain ⟨_, -, hread⟩ := bind_ok.1 hread
      obtain ⟨url, hurl, ht⟩ := bind_ok.1 hread
      cases ht
      exact nested_deep hurl

theorem call_returns : Returns chatToolCallSchema id callBody id where
  again := by
    intro v call _
    obtain ⟨callId, name, arguments⟩ := call
    have hid : text (some (.str (js callId))) = .ok callId := text_written _
    have hname : text (some (.str (js name))) = .ok name := text_written _
    refine ⟨_, ?_, rfl⟩
    exact bind_ok.2 ⟨callId, member_ok.2 hid, bind_ok.2 ⟨(), rfl, bind_ok.2 ⟨(name, arguments),
      member_ok.2 (bind_ok.2 ⟨name, member_ok.2 hname, rfl⟩), rfl⟩⟩⟩
  depth := by
    intro v call h
    obtain ⟨ms, rfl, hread⟩ := object_ok.1 h
    obtain ⟨_, -, hread⟩ := bind_ok.1 hread
    obtain ⟨_, -, hread⟩ := bind_ok.1 hread
    obtain ⟨_, hfunction, -⟩ := bind_ok.1 hread
    exact nested_deep hfunction

/-! ### Members that may be left out -/

theorem js_beq (a b : String) : (js a == js b) = decide (a = b) := by
  rw [Bool.eq_iff_iff, beq_iff_eq, decide_eq_true_eq]
  exact Utf8.js_injective.eq_iff

theorem lookup_optionalEntry (name : String) (value : Option Json) (ms : Members) (key : String) :
    (optionalEntry name value ++ ms).lookup (js key) =
      if key = name then value.or (ms.lookup (js key)) else ms.lookup (js key) := by
  cases value with
  | none =>
      rw [Option.none_or, ite_self]
      rfl
  | some v =>
      show ((js name, v) :: ms).lookup (js key) = _
      rw [List.lookup_cons, Option.some_or, js_beq]
      by_cases hk : key = name
      · rw [if_pos hk, decide_eq_true hk]
      · rw [if_neg hk, decide_eq_false hk]

theorem lookup_optionalEntry_last (name : String) (value : Option Json) (key : String) :
    (optionalEntry name value).lookup (js key) = if key = name then value else none := by
  rw [← List.append_nil (optionalEntry name value), lookup_optionalEntry, List.lookup_nil,
    Option.or_none]

theorem depth_optionalEntry {name : String} {value : Option Json} {n : ℕ} :
    depthMembers (optionalEntry name value) ≤ n ↔ ∀ v, value = some v → depth v ≤ n := by
  cases value with
  | none => exact iff_of_true (Nat.zero_le n) fun v hv => (by cases hv)
  | some v =>
      rw [depthMembers_le]
      constructor
      · rintro h v' ⟨⟩
        exact h _ (List.mem_singleton_self _)
      · intro h m hm
        rw [List.mem_singleton.1 hm]
        exact h v rfl

/-! ### Tools, choices and formats -/

theorem tool_returns : Returns toolSchema id toolBody id where
  again := by
    intro v tool _
    obtain ⟨name, description, parameters⟩ := tool
    have hname : text (some (.str (js name))) = .ok name := text_written _
    refine ⟨_, bind_ok.2 ⟨(), rfl, member_ok.2 (bind_ok.2 ⟨name, member_ok.2 hname, ?_⟩)⟩, rfl⟩
    cases description <;> cases parameters <;> rfl
  depth := by
    intro v tool h
    obtain ⟨ms, rfl, hread⟩ := object_ok.1 h
    obtain ⟨_, -, hread⟩ := bind_ok.1 hread
    obtain ⟨inner, hinner, hobject⟩ := member_there hread object_none
    obtain ⟨ms', rfl, hread⟩ := object_ok.1 hobject
    obtain ⟨name, -, hread⟩ := bind_ok.1 hread
    obtain ⟨description, -, hread⟩ := bind_ok.1 hread
    obtain ⟨parameters, hparameters, hread⟩ := bind_ok.1 hread
    obtain ⟨_, -, hread⟩ := bind_ok.1 hread
    cases hread
    have hlookup : ms'.lookup (js "parameters") = parameters :=
      Except.ok.inj (member_ok.1 hparameters)
    refine Nat.le_trans ?_ (depth_lookup hinner)
    have hfunction : depthMembers ([(js "name", .str (js name))] ++
        optionalEntry "description" (description.map fun d => .str d) ++
        optionalEntry "parameters" parameters) + 1 ≤ depth (.obj ms') := by
      rw [depth]
      refine Nat.succ_le_succ ?_
      rw [depthMembers_append, depthMembers_append, max_le_iff, max_le_iff, depth_optionalEntry,
        depth_optionalEntry]
      refine ⟨⟨Nat.zero_le _, fun d hd => ?_⟩, fun p hp => ?_⟩
      · obtain ⟨x, -, rfl⟩ := Option.map_eq_some_iff.1 hd
        exact Nat.zero_le _
      · exact Nat.le_of_succ_le_succ (depth_lookup (hlookup.trans hp))
    have hbody : depth (toolBody { name, description, parameters }) =
        depthMembers ([(js "name", .str (js name))] ++
          optionalEntry "description" (description.map fun d => .str d) ++
          optionalEntry "parameters" parameters) + 1 + 1 := by
      simp [toolBody, depth, depthMembers]
    rw [id, hbody]
    exact Nat.succ_le_succ hfunction

theorem toolChoice_returns : Returns toolChoiceSchema id toolChoiceBody id where
  again := by
    intro v choice _
    cases choice with
    | auto => exact ⟨_, rfl, rfl⟩
    | none => exact ⟨_, rfl, rfl⟩
    | required => exact ⟨_, rfl, rfl⟩
    | named name =>
        have hname : text (some (.str (js name))) = .ok name := text_written _
        exact ⟨_, union_right rfl (bind_ok.2 ⟨(), rfl, bind_ok.2 ⟨name, member_ok.2
          (member_ok.2 hname), rfl⟩⟩), rfl⟩
  depth := by
    intro v choice h
    rcases union_ok h with h | h
    · obtain ⟨name, hmem, -⟩ := enumeration_mem h
      simp only [toolChoices, List.mem_cons, Prod.mk.injEq, List.not_mem_nil, or_false] at hmem
      rcases hmem with ⟨-, rfl⟩ | ⟨-, rfl⟩ | ⟨-, rfl⟩
      · exact Nat.zero_le _
      · exact Nat.zero_le _
      · exact Nat.zero_le _
    · obtain ⟨ms, rfl, hread⟩ := object_ok.1 h
      obtain ⟨_, -, hread⟩ := bind_ok.1 hread
      obtain ⟨name, hname, hread⟩ := bind_ok.1 hread
      cases hread
      exact nested_deep hname

/-- A format without the router's hint. -/
def withoutHint : ResponseFormat → ResponseFormat
  | .json_schema name schema strict _ => .json_schema name schema strict none
  | format => format

theorem responseFormat_returns :
    Returns responseFormatSchema id responseFormatBody withoutHint where
  again := by
    intro v format _
    cases format with
    | text => exact ⟨_, rfl, rfl⟩
    | json_object => exact ⟨_, rfl, rfl⟩
    | json_schema name schema strict validation =>
        have hname : text (some (.str (js name))) = .ok name := text_written _
        refine ⟨.json_schema name schema strict none, union_right rfl
          (bind_ok.2 ⟨(), rfl, member_ok.2 (bind_ok.2 ⟨name, member_ok.2 hname, ?_⟩)⟩), rfl⟩
        cases schema <;> cases strict <;> rfl
  depth := by
    intro v format h
    rcases union_ok h with h | h
    · obtain ⟨ms, rfl, hread⟩ := object_ok.1 h
      obtain ⟨name, hmem, -⟩ := enumeration_mem (member_ok.1 hread)
      simp only [plainFormats, List.mem_cons, Prod.mk.injEq, List.not_mem_nil, or_false] at hmem
      rcases hmem with ⟨-, rfl⟩ | ⟨-, rfl⟩
      · exact Nat.succ_le_succ (Nat.zero_le _)
      · exact Nat.succ_le_succ (Nat.zero_le _)
    · obtain ⟨ms, rfl, hread⟩ := object_ok.1 h
      obtain ⟨_, -, hread⟩ := bind_ok.1 hread
      obtain ⟨inner, hinner, hobject⟩ := member_there hread object_none
      obtain ⟨ms', rfl, hread⟩ := object_ok.1 hobject
      obtain ⟨name, -, hread⟩ := bind_ok.1 hread
      obtain ⟨schema, hschema, hread⟩ := bind_ok.1 hread
      obtain ⟨strict, -, hread⟩ := bind_ok.1 hread
      obtain ⟨validation, -, hread⟩ := bind_ok.1 hread
      cases hread
      have hlookup : ms'.lookup (js "schema") = schema := Except.ok.inj (member_ok.1 hschema)
      refine Nat.le_trans ?_ (depth_lookup hinner)
      have hspec : depthMembers ([(js "name", .str (js name))] ++ optionalEntry "schema" schema ++
          optionalEntry "strict" (strict.map fun b => .bool b)) + 1 ≤ depth (.obj ms') := by
        rw [depth]
        refine Nat.succ_le_succ ?_
        rw [depthMembers_append, depthMembers_append, max_le_iff, max_le_iff, depth_optionalEntry,
          depth_optionalEntry]
        refine ⟨⟨Nat.zero_le _, fun x hx => ?_⟩, fun b hb => ?_⟩
        · exact Nat.le_of_succ_le_succ (depth_lookup (hlookup.trans hx))
        · obtain ⟨x, -, rfl⟩ := Option.map_eq_some_iff.1 hb
          exact Nat.zero_le _
      have hbody : depth (responseFormatBody (.json_schema name schema strict validation)) =
          depthMembers ([(js "name", .str (js name))] ++ optionalEntry "schema" schema ++
            optionalEntry "strict" (strict.map fun b => .bool b)) + 1 + 1 := by
        simp [responseFormatBody, depth, depthMembers]
      rw [id, hbody]
      exact Nat.succ_le_succ hspec

/-! ### Messages -/

/-- A message whose empty list of tool calls is left out. -/
def withoutNoCalls (m : AIMessage) : AIMessage := { m with toolCalls := someItems m.toolCalls }

/-- A list of items that is written only if it has any. -/
theorem someItems_reread {α γ : Type} {s : Schema α} {f : α → γ} {emit : γ → Json} {norm : γ → γ}
    (h : Returns s f emit norm) {name : String} {ms ms' : Members} {o : Option (List α)}
    (hread : member (optional (array s)) name ms = .ok o)
    (hwritten : ms'.lookup (js name) =
      (someItems (o.map (List.map f))).map fun bs => .arr (bs.map emit)) :
    ∃ o', member (optional (array s)) name ms' = .ok o' ∧
      o'.map (List.map f) = (someItems (o.map (List.map f))).map (List.map norm) := by
  cases o with
  | none => exact ⟨none, member_ok.2 (by rw [hwritten]; rfl), rfl⟩
  | some as =>
      cases as with
      | nil => exact ⟨none, member_ok.2 (by rw [hwritten]; rfl), rfl⟩
      | cons a as => exact h.array.optional hread hwritten

theorem someItems_depth {α γ : Type} {s : Schema α} {f : α → γ} {emit : γ → Json} {norm : γ → γ}
    (h : Returns s f emit norm) {name : String} {ms : Members} {o : Option (List α)}
    (hread : member (optional (array s)) name ms = .ok o) {v : Json}
    (hv : ((someItems (o.map (List.map f))).map fun bs => .arr (bs.map emit)) = some v) :
    depth v + 1 ≤ depth (.obj ms) := by
  obtain ⟨bs, hbs, rfl⟩ := Option.map_eq_some_iff.1 hv
  exact h.array.optional_depth hread (Option.filter_eq_some_iff.1 hbs).1

theorem role_reread (role : ChatRole) : ∃ role',
    enumeration chatRoles (some (.str (js role.toRole.text))) = .ok role' ∧
      role'.toRole = role.toRole := by
  cases role with
  | system => exact ⟨.system, rfl, rfl⟩
  | user => exact ⟨.user, rfl, rfl⟩
  | assistant => exact ⟨.assistant, rfl, rfl⟩
  | tool => exact ⟨.tool, rfl, rfl⟩
  | developer => exact ⟨.system, rfl, rfl⟩

section
variable {ms : Members} {content : Option ChatContent}

theorem parts_read {v : Json} {ps : List ChatPart}
    (h : chatContentSchema (some v) = .ok (.parts ps)) :
    array contentPartSchema (some v) = .ok ps := by
  rcases union_ok h with h | h
  · obtain ⟨x, -, hx⟩ := map_ok.1 h
    cases hx
  · rcases union_ok h with h | h
    · obtain ⟨ps', hps, hx⟩ := map_ok.1 h
      cases hx
      exact hps
    · obtain ⟨x, -, hx⟩ := map_ok.1 h
      cases hx

theorem content_reread (hread : member (optional chatContentSchema) "content" ms = .ok content)
    (m : AIMessage) (hm : m.content = ChatContent.toContent content) :
    ∃ c, chatContentSchema (some (contentBody m)) = .ok c ∧
      ChatContent.toContent (some c) = m.content := by
  have htext : ∀ t, m.content = .text t → ∃ c,
      chatContentSchema (some (contentBody m)) = .ok c ∧
        ChatContent.toContent (some c) = m.content := by
    intro t ht
    unfold contentBody
    rw [ht]
    dsimp only
    split
    · next hempty => exact ⟨.null, rfl, by rw [hempty.1]; rfl⟩
    · exact ⟨.text t, rfl, rfl⟩
  cases content with
  | none => exact htext [] hm
  | some c =>
      cases c with
      | text t => exact htext t hm
      | null => exact htext [] hm
      | parts ps =>
          obtain ⟨v, -, hv⟩ : ∃ v, ms.lookup (js "content") = some v ∧
              chatContentSchema (some v) = .ok (.parts ps) := by
            rw [member_ok] at hread
            cases hlookup : ms.lookup (js "content") with
            | none =>
                rw [hlookup] at hread
                cases hread
            | some v =>
                rw [hlookup, optional_some] at hread
                obtain ⟨c, hc, hsame⟩ := hread
                cases hsame
                exact ⟨v, rfl, hc⟩
          obtain ⟨ps', hps', hsame⟩ := part_returns.array.again v ps (parts_read hv)
          refine ⟨.parts ps', ?_, ?_⟩
          · unfold contentBody
            rw [hm]
            refine union_right rfl ?_
            unfold union mapped
            have hwritten : array contentPartSchema (some (.arr ((ps.map ChatPart.toPart).map
                partBody))) = .ok ps' := hps'
            dsimp only [ChatContent.toContent]
            rw [hwritten]
            rfl
          · rw [hm]
            exact congrArg Content.parts (hsame.trans (List.map_id _))

theorem content_depth (hread : member (optional chatContentSchema) "content" ms = .ok content)
    (m : AIMessage) (hm : m.content = ChatContent.toContent content) :
    depth (contentBody m) + 1 ≤ depth (.obj ms) := by
  have htext : ∀ t, m.content = .text t → depth (contentBody m) = 0 := by
    intro t ht
    unfold contentBody
    rw [ht]
    dsimp only
    split
    · rfl
    · rfl
  have hleaf : ∀ t, m.content = .text t → depth (contentBody m) + 1 ≤ depth (.obj ms) := by
    intro t ht
    rw [htext t ht]
    exact Nat.succ_le_succ (Nat.zero_le _)
  cases content with
  | none => exact hleaf [] hm
  | some c =>
      cases c with
      | text t => exact hleaf t hm
      | null => exact hleaf [] hm
      | parts ps =>
          rw [member_ok] at hread
          cases hlookup : ms.lookup (js "content") with
          | none =>
              rw [hlookup] at hread
              cases hread
          | some v =>
              rw [hlookup, optional_some] at hread
              obtain ⟨c, hc, hsame⟩ := hread
              cases hsame
              have hle := part_returns.array.depth v ps (parts_read hc)
              have hbody : contentBody m = .arr ((ps.map ChatPart.toPart).map partBody) := by
                unfold contentBody
                rw [hm]
                rfl
              rw [hbody]
              exact Nat.le_trans (Nat.succ_le_succ hle) (depth_lookup hlookup)

end

/-- The members of the body of a message. -/
def messageEntries (m : AIMessage) : Members :=
  [(js "role", .str (js m.role.text)), (js "content", contentBody m)] ++
    optionalEntry "tool_calls" ((someItems m.toolCalls).map fun tcs => .arr (tcs.map callBody)) ++
    optionalEntry "tool_call_id"
      ((m.toolCallId.filter fun id => id ≠ "").map fun id => .str (js id))

theorem messageEntries_lookup (m : AIMessage) :
    (messageEntries m).lookup (js "role") = some (.str (js m.role.text)) ∧
    (messageEntries m).lookup (js "content") = some (contentBody m) ∧
    (messageEntries m).lookup (js "tool_calls") =
      ((someItems m.toolCalls).map fun tcs => .arr (tcs.map callBody)) ∧
    (messageEntries m).lookup (js "tool_call_id") =
      ((m.toolCallId.filter fun id => id ≠ "").map fun id => .str (js id)) ∧
    (messageEntries m).lookup (js "name") = none := by
  unfold messageEntries
  simp only [List.cons_append, List.nil_append, List.lookup_cons, js_beq, lookup_optionalEntry,
    lookup_optionalEntry_last]
  simp

theorem message_returns :
    Returns messageSchema ChatMessage.toMessage messageBody withoutNoCalls where
  again := by
    intro v message h
    obtain ⟨ms, rfl, hread⟩ := object_ok.1 h
    obtain ⟨role, -, hread⟩ := bind_ok.1 hread
    obtain ⟨content, hcontent, hread⟩ := bind_ok.1 hread
    obtain ⟨calls, hcalls, hread⟩ := bind_ok.1 hread
    obtain ⟨callId, -, hread⟩ := bind_ok.1 hread
    obtain ⟨_, -, hread⟩ := bind_ok.1 hread
    cases hread
    generalize hm : ChatMessage.toMessage ⟨role, content, calls, callId⟩ = m
    have hmRole : m.role = role.toRole := by rw [← hm]; rfl
    have hmContent : m.content = ChatContent.toContent content := by rw [← hm]; rfl
    have hmCalls : m.toolCalls = calls := by rw [← hm]; rfl
    have hmId : m.toolCallId = callId.filter fun id => id ≠ "" := by rw [← hm]; rfl
    obtain ⟨hRole, hContent, hCalls, hId, hName⟩ := messageEntries_lookup m
    obtain ⟨role', hrole', hrole⟩ := role_reread role
    obtain ⟨content', hcontent', hsame⟩ := content_reread hcontent m hmContent
    obtain ⟨calls', hcalls', hnorm⟩ : ∃ calls', member (optional (array chatToolCallSchema))
        "tool_calls" (messageEntries m) = .ok calls' ∧ calls' = someItems calls := by
      have hwritten : (messageEntries m).lookup (js "tool_calls") =
          (someItems (calls.map (List.map id))).map fun bs => .arr (bs.map callBody) := by
        rw [hCalls, hmCalls, List.map_id_fun, Option.map_id_fun, id]
      obtain ⟨calls', hcalls', hnorm⟩ := someItems_reread call_returns hcalls hwritten
      rw [List.map_id_fun, Option.map_id_fun, id, id, id] at hnorm
      exact ⟨calls', hcalls', hnorm⟩
    have hid : member (optional text) "tool_call_id" (messageEntries m) = .ok m.toolCallId := by
      have hkept : (m.toolCallId.filter fun id => id ≠ "") = m.toolCallId := by
        rw [hmId]
        simp [Option.filter_filter]
      rw [member_ok, hId, hkept]
      cases m.toolCallId with
      | none => rfl
      | some callId => exact optional_some.2 ⟨callId, text_written callId, rfl⟩
    have hroleRead : member (enumeration chatRoles) "role" (messageEntries m) = .ok role' := by
      rw [member_ok, hRole, hmRole]
      exact hrole'
    have hcontentRead : member (optional chatContentSchema) "content" (messageEntries m) =
        .ok (some content') := by
      rw [member_ok, hContent]
      exact optional_some.2 ⟨content', hcontent', rfl⟩
    have hnameRead : member (optional string) "name" (messageEntries m) = .ok none := by
      rw [member_ok, hName]
      rfl
    refine ⟨⟨role', some content', calls', m.toolCallId⟩, ?_, ?_⟩
    · exact bind_ok.2 ⟨role', hroleRead, bind_ok.2 ⟨some content', hcontentRead,
        bind_ok.2 ⟨calls', hcalls', bind_ok.2 ⟨m.toolCallId, hid, bind_ok.2 ⟨none, hnameRead,
          rfl⟩⟩⟩⟩⟩
    · have hfilter : (m.toolCallId.filter fun id => id ≠ "") = m.toolCallId := by
        rw [hmId]
        simp [Option.filter_filter]
      unfold ChatMessage.toMessage withoutNoCalls
      dsimp only
      rw [hrole, hsame, hnorm, hfilter, hmCalls, ← hmRole]
  depth := by
    intro v message h
    obtain ⟨ms, rfl, hread⟩ := object_ok.1 h
    obtain ⟨role, -, hread⟩ := bind_ok.1 hread
    obtain ⟨content, hcontent, hread⟩ := bind_ok.1 hread
    obtain ⟨calls, hcalls, hread⟩ := bind_ok.1 hread
    obtain ⟨callId, -, hread⟩ := bind_ok.1 hread
    obtain ⟨_, -, hread⟩ := bind_ok.1 hread
    cases hread
    generalize hm : ChatMessage.toMessage ⟨role, content, calls, callId⟩ = m
    have hmContent : m.content = ChatContent.toContent content := by rw [← hm]; rfl
    have hmCalls : m.toolCalls = calls := by rw [← hm]; rfl
    have hcontentDepth := content_depth hcontent m hmContent
    show depthMembers (messageEntries m) + 1 ≤ depthMembers ms + 1
    refine Nat.succ_le_succ ?_
    unfold messageEntries
    rw [depthMembers_append, depthMembers_append, max_le_iff, max_le_iff, depth_optionalEntry,
      depth_optionalEntry]
    refine ⟨⟨?_, fun v hv => ?_⟩, fun v hv => ?_⟩
    · exact max_le (Nat.zero_le _) (max_le (Nat.le_of_succ_le_succ hcontentDepth) (Nat.zero_le _))
    · have hwritten : ((someItems (calls.map (List.map id))).map fun bs =>
          Json.arr (bs.map callBody)) = some v := by
        rw [List.map_id_fun, Option.map_id_fun, id, ← hmCalls]
        exact hv
      exact Nat.le_of_succ_le_succ (someItems_depth call_returns hcalls hwritten)
    · obtain ⟨callId', -, rfl⟩ := Option.map_eq_some_iff.1 hv
      exact Nat.zero_le _

/-! ### The envelope that is accepted -/

/-- What `toEnvelope` accepts, and what it makes of it. -/
theorem toEnvelope_ok {raw : Option Json} {taskClass : String} {metadata : AIRequestMetadata}
    {limits : EnvelopeLimits} {env : AIRequest} :
    toEnvelope raw taskClass metadata limits = .ok env ↔ ∃ v body, raw = some v ∧
      depth v ≤ limits.maxJsonDepth ∧ openAiChatBodySchema (some v) = .ok body ∧
      body.messages.length ≤ limits.maxMessages ∧ body.n.getD 1 ≤ 1 ∧
      env = body.toRequest taskClass metadata := by
  constructor
  · intro h
    cases raw with
    | none =>
        unfold toEnvelope at h
        split at h
        · cases h
        · cases h
    | some v =>
        unfold toEnvelope at h
        split at h
        · cases h
        · next hdepth =>
            split at h
            · cases h
            · next body hbody =>
                split at h
                · cases h
                · next hcount =>
                    split at h
                    · cases h
                    · next hn =>
                        cases h
                        have hle := (jsonDepth_le _ _ _).1 (not_lt.1 hdepth)
                        rw [Nat.zero_add] at hle
                        exact ⟨v, body, rfl, hle, hbody, not_lt.1 hcount, not_lt.1 hn, rfl⟩
  · rintro ⟨v, body, rfl, hdepth, hbody, hcount, hn, rfl⟩
    have hle : jsonDepth limits.maxJsonDepth 0 v ≤ limits.maxJsonDepth :=
      (jsonDepth_le _ _ _).2 (by rwa [Nat.zero_add])
    unfold toEnvelope
    rw [Option.map_some, Option.getD_some, if_neg (not_lt.2 hle), hbody]
    dsimp only
    rw [if_neg (not_lt.2 hcount), if_neg (not_lt.2 hn)]

/-! ### The body -/

/-- The members of the body for an envelope. -/
def bodyEntries (env : AIRequest) (model : String) (flavor : Flavor) : Members :=
  [(js "model", .str (js model)), (js "messages", .arr (env.messages.map messageBody)),
      (js "stream", .bool env.stream)] ++
    optionalEntry "stream_options" (if env.stream ∧ flavor ≠ .ollama then
      some (.obj [(js "include_usage", .bool true)]) else none) ++
    optionalEntry "max_tokens" (env.maxTokens.map fun n : ℤ => .num (n : ℚ)) ++
    optionalEntry "temperature" (env.temperature.map fun t => .num t) ++
    optionalEntry "top_p" (env.topP.map fun p => .num p) ++
    optionalEntry "stop" ((someItems env.stop).map fun ss => .arr (ss.map fun s => .str s)) ++
    optionalEntry "tools" ((someItems env.tools).map fun ts => .arr (ts.map toolBody)) ++
    optionalEntry "tool_choice" (env.toolChoice.map toolChoiceBody) ++
    optionalEntry "response_format" (env.responseFormat.map responseFormatBody)

/-- What is found under each name the schema reads. -/
structure BodyLookups (env : AIRequest) (model : String) (flavor : Flavor) (ms : Members) : Prop where
  model : ms.lookup (js "model") = some (.str (js model))
  messages : ms.lookup (js "messages") = some (.arr (env.messages.map messageBody))
  tools : ms.lookup (js "tools") = (someItems env.tools).map fun ts => .arr (ts.map toolBody)
  tool_choice : ms.lookup (js "tool_choice") = env.toolChoice.map toolChoiceBody
  response_format : ms.lookup (js "response_format") = env.responseFormat.map responseFormatBody
  max_tokens : ms.lookup (js "max_tokens") = env.maxTokens.map fun n : ℤ => .num (n : ℚ)
  max_completion_tokens : ms.lookup (js "max_completion_tokens") = none
  n : ms.lookup (js "n") = none
  temperature : ms.lookup (js "temperature") = env.temperature.map fun t => .num t
  top_p : ms.lookup (js "top_p") = env.topP.map fun p => .num p
  stop : ms.lookup (js "stop") =
    (someItems env.stop).map fun ss => .arr (ss.map fun s => .str s)
  stream : ms.lookup (js "stream") = some (.bool env.stream)
  stream_options : ms.lookup (js "stream_options") = if env.stream ∧ flavor ≠ .ollama then
    some (.obj [(js "include_usage", .bool true)]) else none
  user : ms.lookup (js "user") = none

theorem bodyEntries_lookups (env : AIRequest) (model : String) (flavor : Flavor) :
    BodyLookups env model flavor (bodyEntries env model flavor) := by
  constructor
  all_goals
    unfold bodyEntries
    simp only [List.append_assoc, List.cons_append, List.nil_append, List.lookup_cons, js_beq,
      lookup_optionalEntry, lookup_optionalEntry_last, decide_true, decide_false,
      String.reduceEq, if_true, if_false, Option.or_none]

/-- The envelope that is left of one that was sent on: without the router's own hint and without
empty arrays, and with the model that is asked for. -/
def AIRequest.forwarded (env : AIRequest) (model : String) : AIRequest :=
  { env with
    messages := env.messages.map withoutNoCalls
    tools := someItems env.tools
    responseFormat := env.responseFormat.map withoutHint
    stop := someItems env.stop
    modelRequested := some model }

/-- The reads of `openAiChatBodySchema`, one for each member. -/
structure BodyReads (ms : Members) (body : OpenAiChatBody) : Prop where
  model : member (optional text) "model" ms = .ok body.model
  messages : member (someOf messageSchema) "messages" ms = .ok body.messages
  tools : member (optional (array toolSchema)) "tools" ms = .ok body.tools
  tool_choice : member (optional toolChoiceSchema) "tool_choice" ms = .ok body.tool_choice
  response_format :
    member (optional responseFormatSchema) "response_format" ms = .ok body.response_format
  max_tokens : member (optional positiveInt) "max_tokens" ms = .ok body.max_tokens
  max_completion_tokens :
    member (optional positiveInt) "max_completion_tokens" ms = .ok body.max_completion_tokens
  n : member (optional positiveInt) "n" ms = .ok body.n
  temperature :
    member (optional (checked number (between 0 2))) "temperature" ms = .ok body.temperature
  top_p : member (optional (checked number (between 0 1))) "top_p" ms = .ok body.top_p
  stop : member (optional stopSchema) "stop" ms = .ok body.stop
  stream : member (optional boolean) "stream" ms = .ok body.stream
  stream_options : ∃ o, member (optional (object (member (optional boolean) "include_usage")))
    "stream_options" ms = .ok o
  user : ∃ o, member (optional string) "user" ms = .ok o

theorem body_reads {ms : Members} {body : OpenAiChatBody} :
    openAiChatBodySchema (some (.obj ms)) = .ok body ↔ BodyReads ms body := by
  constructor
  · intro h
    obtain ⟨ms', hms, hread⟩ := object_ok.1 h
    cases hms
    obtain ⟨model, hmodel, hread⟩ := bind_ok.1 hread
    obtain ⟨messages, hmessages, hread⟩ := bind_ok.1 hread
    obtain ⟨tools, htools, hread⟩ := bind_ok.1 hread
    obtain ⟨choice, hchoice, hread⟩ := bind_ok.1 hread
    obtain ⟨format, hformat, hread⟩ := bind_ok.1 hread
    obtain ⟨tokens, htokens, hread⟩ := bind_ok.1 hread
    obtain ⟨completion, hcompletion, hread⟩ := bind_ok.1 hread
    obtain ⟨n, hn, hread⟩ := bind_ok.1 hread
    obtain ⟨temperature, htemperature, hread⟩ := bind_ok.1 hread
    obtain ⟨top, htop, hread⟩ := bind_ok.1 hread
    obtain ⟨stop, hstop, hread⟩ := bind_ok.1 hread
    obtain ⟨stream, hstream, hread⟩ := bind_ok.1 hread
    obtain ⟨options, hoptions, hread⟩ := bind_ok.1 hread
    obtain ⟨user, huser, hread⟩ := bind_ok.1 hread
    cases hread
    exact ⟨hmodel, hmessages, htools, hchoice, hformat, htokens, hcompletion, hn, htemperature, htop,
      hstop, hstream, ⟨options, hoptions⟩, ⟨user, huser⟩⟩
  · intro h
    obtain ⟨options, hoptions⟩ := h.stream_options
    obtain ⟨user, huser⟩ := h.user
    exact bind_ok.2 ⟨_, h.model, bind_ok.2 ⟨_, h.messages, bind_ok.2 ⟨_, h.tools,
      bind_ok.2 ⟨_, h.tool_choice, bind_ok.2 ⟨_, h.response_format, bind_ok.2 ⟨_, h.max_tokens,
        bind_ok.2 ⟨_, h.max_completion_tokens, bind_ok.2 ⟨_, h.n, bind_ok.2 ⟨_, h.temperature,
          bind_ok.2 ⟨_, h.top_p, bind_ok.2 ⟨_, h.stop, bind_ok.2 ⟨_, h.stream,
            bind_ok.2 ⟨_, hoptions, bind_ok.2 ⟨_, huser, rfl⟩⟩⟩⟩⟩⟩⟩⟩⟩⟩⟩⟩⟩⟩

/-! ### Numbers and stop sequences -/

theorem checked_returns (checks : List (ℚ → Option String)) :
    Returns (checked number checks) id (fun n => .num n) id where
  again := by
    intro v n h
    obtain ⟨hn, -⟩ := checked_ok.1 h
    have hv := Option.some.inj (number_ok.1 hn)
    subst hv
    exact ⟨n, h, rfl⟩
  depth := fun _ _ _ => Nat.zero_le _

theorem optional_positive {name : String} {ms : Members} {o : Option ℤ} {n : ℤ}
    (h : member (optional positiveInt) name ms = .ok o) (hn : o = some n) : 0 < n := by
  subst hn
  rw [member_ok] at h
  cases hv : ms.lookup (js name) with
  | none =>
      rw [hv] at h
      cases h
  | some v =>
      rw [hv, optional_some] at h
      obtain ⟨m, hm, hsame⟩ := h
      obtain rfl := Option.some.inj hsame
      exact positiveInt_pos hm

theorem strings_written (ss : List JsString) :
    array string (some (.arr (ss.map fun s => .str s))) = .ok ss := by
  refine elements_ok.2 ?_
  induction ss with
  | nil => exact .nil
  | cons s ss ih => exact .cons rfl ih

theorem stop_written (stop : Option (List JsString)) : ∃ stop' : Option ChatStop,
    optional stopSchema ((someItems stop).map fun ss => .arr (ss.map fun s => .str s)) = .ok stop' ∧
      stop'.map ChatStop.toList = someItems stop := by
  cases someItems stop with
  | none => exact ⟨none, rfl, rfl⟩
  | some ss =>
      refine ⟨some (.many ss), optional_some.2 ⟨.many ss, union_right rfl ?_, rfl⟩, rfl⟩
      exact map_ok.2 ⟨ss, strings_written ss, rfl⟩

/-! ### The body again -/

section
variable {ms : Members} {body : OpenAiChatBody} {env : AIRequest}

/-- What is read of the body for an envelope that was made of `body`. -/
theorem BodyReads.again (h : BodyReads ms body) (taskClass : String) (metadata : AIRequestMetadata)
    (model : String) (flavor : Flavor) : ∃ body',
      BodyReads (bodyEntries (body.toRequest taskClass metadata) model flavor) body' ∧
      body'.toRequest taskClass metadata = (body.toRequest taskClass metadata).forwarded model ∧
      body'.messages.length = body.messages.length ∧ body'.n = none := by
  generalize henv : body.toRequest taskClass metadata = env
  have hl := bodyEntries_lookups env model flavor
  obtain ⟨v, -, hv⟩ := member_there h.messages fun a ha => (by cases ha)
  obtain ⟨messages, hmessages, hsame⟩ := message_returns.someOf.again v _ hv
  have htools : (bodyEntries env model flavor).lookup (js "tools") =
      (someItems (body.tools.map (List.map id))).map fun bs => .arr (bs.map toolBody) := by
    rw [hl.tools, ← henv, List.map_id_fun, Option.map_id_fun, id]
    rfl
  obtain ⟨tools, htoolsRead, htoolsSame⟩ := someItems_reread tool_returns h.tools htools
  have hchoice : (bodyEntries env model flavor).lookup (js "tool_choice") =
      (body.tool_choice.map id).map toolChoiceBody := by
    rw [hl.tool_choice, ← henv, Option.map_id_fun, id]
    rfl
  obtain ⟨choice, hchoiceRead, hchoiceSame⟩ := toolChoice_returns.optional h.tool_choice hchoice
  have hformat : (bodyEntries env model flavor).lookup (js "response_format") =
      (body.response_format.map id).map responseFormatBody := by
    rw [hl.response_format, ← henv, Option.map_id_fun, id]
    rfl
  obtain ⟨format, hformatRead, hformatSame⟩ :=
    responseFormat_returns.optional h.response_format hformat
  have htemperature : (bodyEntries env model flavor).lookup (js "temperature") =
      (body.temperature.map id).map fun t => .num t := by
    rw [hl.temperature, ← henv, Option.map_id_fun, id]
    rfl
  obtain ⟨temperature, htemperatureRead, htemperatureSame⟩ :=
    (checked_returns (between 0 2)).optional h.temperature htemperature
  have htop : (bodyEntries env model flavor).lookup (js "top_p") =
      (body.top_p.map id).map fun p => .num p := by
    rw [hl.top_p, ← henv, Option.map_id_fun, id]
    rfl
  obtain ⟨top, htopRead, htopSame⟩ := (checked_returns (between 0 1)).optional h.top_p htop
  obtain ⟨stop, hstopRead, hstopSame⟩ := stop_written env.stop
  have htokens : member (optional positiveInt) "max_tokens" (bodyEntries env model flavor) =
      .ok env.maxTokens := by
    rw [member_ok, hl.max_tokens]
    cases hmax : env.maxTokens with
    | none => rfl
    | some n =>
        have hpos : 0 < n := by
          have hboth : (body.max_completion_tokens <|> body.max_tokens) = some n := by
            rw [← hmax, ← henv]
            rfl
          cases hcompletion : body.max_completion_tokens with
          | some m =>
              rw [hcompletion] at hboth
              exact optional_positive h.max_completion_tokens (hcompletion.trans hboth)
          | none =>
              rw [hcompletion] at hboth
              exact optional_positive h.max_tokens hboth
        exact optional_some.2 ⟨n, positiveInt_written hpos, rfl⟩
  refine ⟨{ model := some model, messages, tools, tool_choice := choice, response_format := format,
            max_tokens := env.maxTokens, max_completion_tokens := none, n := none, temperature,
            top_p := top, stop, stream := some env.stream }, ?_, ?_, ?_, rfl⟩
  · refine ⟨?_, ?_, htoolsRead, hchoiceRead, hformatRead, htokens, ?_, ?_, htemperatureRead,
      htopRead, ?_, ?_, ?_, ?_⟩
    · rw [member_ok, hl.model]
      exact optional_some.2 ⟨model, text_written model, rfl⟩
    · rw [member_ok, hl.messages, ← henv]
      exact hmessages
    · rw [member_ok, hl.max_completion_tokens]
      rfl
    · rw [member_ok, hl.n]
      rfl
    · rw [member_ok, hl.stop]
      exact hstopRead
    · rw [member_ok, hl.stream]
      rfl
    · simp only [member_ok, hl.stream_options]
      split
      · exact ⟨some (some true), rfl⟩
      · exact ⟨none, rfl⟩
    · simp only [member_ok, hl.user]
      exact ⟨none, rfl⟩
  · replace htoolsSame : tools = someItems body.tools := by simpa using htoolsSame
    replace hchoiceSame : choice = body.tool_choice := by simpa using hchoiceSame
    replace hformatSame : format = body.response_format.map withoutHint := by
      simpa using hformatSame
    replace htemperatureSame : temperature = body.temperature := by simpa using htemperatureSame
    replace htopSame : top = body.top_p := by simpa using htopSame
    rw [htoolsSame, hchoiceSame, hformatSame, htemperatureSame, htopSame]
    unfold AIRequest.forwarded OpenAiChatBody.toRequest
    dsimp only
    rw [hsame, hstopSame, ← henv]
    rfl
  · have hlength := congrArg List.length hsame
    simpa using hlength

/-- A body that is read has a message, so it is three deep. -/
theorem BodyReads.deep (h : BodyReads ms body) : 2 ≤ depthMembers ms := by
  obtain ⟨v, hlookup, hv⟩ := member_there h.messages fun a ha => (by cases ha)
  have hdepth := depth_lookup hlookup
  cases v with
  | arr vs =>
      cases vs with
      | nil => cases hv
      | cons w ws =>
          have hread := elements_ok.1 (show elements messageSchema 0 (w :: ws) = .ok body.messages
            from hv)
          generalize body.messages = messages at hread
          cases hread with
          | cons hfirst _ =>
              obtain ⟨ms', rfl, -⟩ := object_ok.1 hfirst
              have hle : depth (.arr (.obj ms' :: ws)) ≤ depthMembers ms :=
                Nat.le_of_succ_le_succ hdepth
              rw [depth, depthList, depth] at hle
              omega
  | _ => cases hv

theorem BodyReads.shallow (h : BodyReads ms body) (taskClass : String) (metadata : AIRequestMetadata)
    (model : String) (flavor : Flavor) :
    depthMembers (bodyEntries (body.toRequest taskClass metadata) model flavor) ≤
      depthMembers ms := by
  have hdeep := h.deep
  have hmessages : depth (.arr ((body.messages.map ChatMessage.toMessage).map messageBody)) ≤
      depthMembers ms := by
    obtain ⟨v, hlookup, hv⟩ := member_there h.messages fun a ha => (by cases ha)
    exact (message_returns.someOf.depth v _ hv).trans (Nat.le_of_succ_le_succ (depth_lookup hlookup))
  have hfixed : depthMembers [(js "model", Json.str (js model)),
      (js "messages", .arr ((body.messages.map ChatMessage.toMessage).map messageBody)),
      (js "stream", .bool (body.stream.getD false))] ≤ depthMembers ms :=
    max_le (Nat.zero_le _) (max_le hmessages (max_le (Nat.zero_le _) (Nat.zero_le _)))
  unfold bodyEntries
  simp only [depthMembers_append, max_le_iff, depth_optionalEntry]
  refine ⟨⟨⟨⟨⟨⟨⟨⟨hfixed, fun v hv => ?_⟩, fun v hv => ?_⟩, fun v hv => ?_⟩, fun v hv => ?_⟩,
    fun v hv => ?_⟩, fun v hv => ?_⟩, fun v hv => ?_⟩, fun v hv => ?_⟩
  · split at hv
    · cases hv
      exact (Nat.succ_le_succ (Nat.zero_le 1)).trans hdeep
    · cases hv
  · obtain ⟨n, -, rfl⟩ := Option.map_eq_some_iff.1 hv
    exact Nat.zero_le _
  · obtain ⟨t, -, rfl⟩ := Option.map_eq_some_iff.1 hv
    exact Nat.zero_le _
  · obtain ⟨t, -, rfl⟩ := Option.map_eq_some_iff.1 hv
    exact Nat.zero_le _
  · obtain ⟨ss, -, rfl⟩ := Option.map_eq_some_iff.1 hv
    have hflat : depthList (ss.map fun s => Json.str s) ≤ 0 := by
      rw [depthList_le]
      intro v hv
      obtain ⟨s, -, rfl⟩ := List.mem_map.1 hv
      exact le_refl _
    exact (Nat.succ_le_succ hflat).trans (by omega)
  · have hwritten : ((someItems (body.tools.map (List.map id))).map fun bs =>
        Json.arr (bs.map toolBody)) = some v := by
      rw [List.map_id_fun, Option.map_id_fun, id]
      exact hv
    exact Nat.le_of_succ_le_succ (someItems_depth tool_returns h.tools hwritten)
  · obtain ⟨choice, hchoice, rfl⟩ := Option.map_eq_some_iff.1 hv
    exact Nat.le_of_succ_le_succ (toolChoice_returns.optional_depth h.tool_choice
      (b := choice) (by rw [Option.map_id_fun]; exact hchoice))
  · obtain ⟨format, hformat, rfl⟩ := Option.map_eq_some_iff.1 hv
    exact Nat.le_of_succ_le_succ (responseFormat_returns.optional_depth h.response_format
      (b := format) (by rw [Option.map_id_fun]; exact hformat))

end

/-- **Ingress and egress are inverse.**  For every accepted body, the body written for its envelope
is accepted, and gives the same envelope back but for the router's hint, the requested model and
empty arrays. -/
theorem egress_reread {raw : Option Json} {taskClass : String} {metadata : AIRequestMetadata}
    {limits : EnvelopeLimits} {env : AIRequest}
    (h : toEnvelope raw taskClass metadata limits = .ok env) (model : String) (flavor : Flavor) :
    toEnvelope (some (buildRequestBody env model flavor)) taskClass metadata limits =
      .ok (env.forwarded model) := by
  obtain ⟨v, body, rfl, hdepth, hbody, hcount, -, rfl⟩ := toEnvelope_ok.1 h
  obtain ⟨ms, rfl, -⟩ := object_ok.1 hbody
  have hreads := body_reads.1 hbody
  obtain ⟨body', hreads', hsame, hlength, hn⟩ := hreads.again taskClass metadata model flavor
  refine toEnvelope_ok.2 ⟨_, body', rfl, ?_, body_reads.2 hreads', ?_, ?_, hsame.symm⟩
  · exact (Nat.succ_le_succ (hreads.shallow taskClass metadata model flavor)).trans hdepth
  · rw [hlength]
    exact hcount
  · rw [hn]
    exact le_refl 1

namespace Sample

/-- A body with one message, a tool and an empty list of stop sequences. -/
def chatBody : Json :=
  .obj [(js "model", .str (js "gpt")),
    (js "messages", .arr [.obj [(js "role", .str (js "developer")), (js "content", .null)]]),
    (js "tools", .arr [.obj [(js "type", .str (js "function")),
      (js "function", .obj [(js "name", .str (js "lookup"))])]]),
    (js "stop", .arr []), (js "max_tokens", .num 5)]

def chatEnvelope : AIRequest where
  taskClass := "chat"
  messages := [{ role := .system, content := .text [] }]
  tools := some [{ name := "lookup" }]
  maxTokens := some 5
  stop := some []
  stream := false
  modelRequested := some "gpt"
  metadata := { app := "app" }

theorem chatBody_reread :
    toEnvelope (some (buildRequestBody chatEnvelope "local" .ollama)) "chat" { app := "app" }
        ⟨10, 10⟩ =
      .ok (chatEnvelope.forwarded "local") :=
  have h : toEnvelope (some chatBody) "chat" { app := "app" } ⟨10, 10⟩ = .ok chatEnvelope := by rfl
  egress_reread h "local" .ollama

end Sample

end VibeRouter
