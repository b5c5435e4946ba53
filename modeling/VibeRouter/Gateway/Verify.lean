import VibeRouter.Gateway.Envelope
import VibeRouter.Gateway.Errors
import VibeRouter.Lib.Regex
import VibeRouter.Platform

/-! # Response verification

A provider that answers with an unusable result has failed, although it answered.
`verifyResponse` gives the finding that makes a response unusable for what the request asked:
an empty completion, tool arguments that are not JSON, a forced-JSON request answered with
prose, or a value that violates the schema.  `validateSchemaSubset` evaluates the supported
subset of JSON Schema; with `strict = false` an `enum` miss is collected and tolerated. -/

namespace VibeRouter

/-- `INVALID_RESPONSE_REASONS`. -/
inductive InvalidResponseReason
  | empty_response | provider_error_finish | tool_arguments_not_json | response_not_json
  | json_truncated | schema_violation
deriving DecidableEq, Repr

def InvalidResponseReason.text : InvalidResponseReason → String
  | empty_response => "empty_response"
  | provider_error_finish => "provider_error_finish"
  | tool_arguments_not_json => "tool_arguments_not_json"
  | response_not_json => "response_not_json"
  | json_truncated => "json_truncated"
  | schema_violation => "schema_violation"

structure VerifyFinding where
  reason : InvalidResponseReason
  message : String
  path : Option JsString := none
deriving DecidableEq

/-- The only soft keyword is `enum`. -/
structure SoftFinding where
  path : JsString
deriving DecidableEq

/-! ### Fences -/

/-- `` /^```(?:json)?\s*/i ``. -/
def fenceOpen : Regex :=
  .cat [.bol, .literal (js "```"), .opt (.word "json"), Regex.space.star]

/-- `` /\s*```$/ ``. -/
def fenceClose : Regex := .cat [Regex.space.star, .literal (js "```"), .eol]

def stripFence (raw : JsString) : JsString :=
  (fenceClose.removeFirst (fenceOpen.removeFirst raw.trim)).trim

/-! ### Schemas -/

/-- A value under validation; `none` is a function, which only an inherited property is. -/
abbrev Subject : Type := Option Json

def typeOf : Subject → String
  | none => "function"
  | some .null => "null"
  | some (.bool _) => "boolean"
  | some (.num _) => "number"
  | some (.str _) => "string"
  | some (.arr _) => "array"
  | some (.obj _) => "object"

/-- A type that is not a text matches nothing. -/
def typeMatches (value : Subject) (expected : Json) : Bool :=
  match expected with
  | .str t =>
      if t = js "integer" then match value with
        | some (.num n) => n.den = 1
        | _ => false
      else js (typeOf value) = t
  | _ => false

/-- The methods every object inherits. -/
def INHERITED : List JsString :=
  ["constructor", "hasOwnProperty", "isPrototypeOf", "propertyIsEnumerable", "toLocaleString",
    "toString", "valueOf", "__defineGetter__", "__defineSetter__", "__lookupGetter__",
    "__lookupSetter__"].map js

/-- `obj[key]` when `key in obj`: an own property, or else an inherited one. -/
def property (fields : List (JsString × Json)) (key : JsString) : Option Subject :=
  match fields.lookup key with
  | some v => some (some v)
  | none =>
      if INHERITED.contains key then some none
      else if key = js "__proto__" then some (some (.obj []))
      else none

structure SchemaViolation where
  path : JsString
  message : String
deriving DecidableEq

/-- The collectors a soft evaluation shares: the enum misses, and how many enum constraints the
value satisfied. -/
structure SchemaState where
  soft : List SoftFinding := []
  hits : ℕ := 0

/-- One check: the first violation, if any; or the message of the `TypeError` that a schema
which cannot be read leads to. -/
abbrev Check : Type := StateT SchemaState (Except String) (Option SchemaViolation)

/-- The first violation of several checks. -/
def firstBad : List Check → Check
  | [] => pure none
  | c :: cs => do
      match ← c with
      | some bad => pure (some bad)
      | none => firstBad cs

/-- The texts of `for (const key of required)`. -/
def iterateKeys : Json → Except String (List Json)
  | .arr xs => .ok xs
  | .str s => .ok (s.map fun c => Json.str [c])
  | _ => .error "required is not iterable"

/-- `Object.entries(properties)`. -/
def objectEntries : Json → List (JsString × Json)
  | .obj es => es
  | .arr xs => xs.zipIdx.map fun x => (js (toString x.2), x.1)
  | .str s => s.zipIdx.map fun c => (js (toString c.2), Json.str [c.1])
  | _ => []

/-- The outcome of the second pass over the branches of a union. -/
inductive Union
  | bad (v : SchemaViolation)
  | winner (soft : List SoftFinding) (hits : ℕ)
  | none

section
variable [Platform]

/-- A value used as a property name or in a message; only texts occur in a proper schema. -/
def propertyText : Json → JsString
  | .null => js "null"
  | .bool b => js (toString b)
  | .num n => Platform.numberText n
  | .str s => s
  | .arr _ => []
  | .obj _ => js "[object Object]"

/-- `e === value || JSON.stringify(e) === JSON.stringify(value)`. -/
def sameJson (value : Subject) (e : Json) : Bool :=
  match value with
  | some v => e.stringify Platform.numberText = v.stringify Platform.numberText
  | none => false

/-- The check of `enum`. -/
def checkEnum (strict : Bool) (value : Subject) (schema : Json) (path : JsString) : Check :=
  match schema.field "enum" with
  | some (.arr (e :: es)) =>
      if (e :: es).any (sameJson value) then do
        modify fun st => { st with hits := st.hits + 1 }
        pure none
      else if strict then
        pure (some ⟨path, "value is not one of the permitted enum members"⟩)
      else do
        modify fun st => { st with soft := st.soft ++ [⟨path⟩] }
        pure none
  | _ => pure none

/-- The check of `type` and `nullable`. -/
def checkType (value : Subject) (schema : Json) (path : JsString) : Option SchemaViolation :=
  match schema.field "type" with
  | none => none
  | some t =>
      let expected := match t with
        | .arr ts => ts
        | t => [t]
      let permitted := match schema.field "nullable" with
        | some (.bool true) => expected ++ [Json.str (js "null")]
        | _ => expected
      if permitted.any (typeMatches value) then none
      else some ⟨path, "expected " ++ " | ".intercalate (permitted.map fun t =>
        (propertyText t).toText) ++ ", received " ++ typeOf value⟩

/-- The branches of `anyOf ?? oneOf`, when there are any. -/
def unionBranches (schema : Json) : List Json :=
  let branches := match schema.field "anyOf" with
    | none | some .null => schema.field "oneOf"
    | some b => some b
  match branches with
  | some (.arr bs) => bs
  | _ => []

/-- The first pass: does some branch hold strictly? -/
def strictMatch (validate : Json → Check) : List Json → Except String Bool
  | [] => .ok false
  | b :: bs => do
      match ← (validate b).run {} with
      | (none, _) => pure true
      | (some _, _) => strictMatch validate bs

/-- The second pass: a branch whose enums the value satisfied and which then failed is
authoritative; otherwise the first branch that passes wins. -/
def softMatch (validate : Json → Check) : List Json → Union → Except String Union
  | [], u => .ok u
  | b :: bs, u => do
      match ← (validate b).run {} with
      | (none, st) => softMatch validate bs (match u with
        | .none => .winner st.soft st.hits
        | u => u)
      | (some bad, st) =>
          if 0 < st.hits ∧ st.soft = [] then pure (.bad bad) else softMatch validate bs u

/-- The JSON Schema subset validator, to a nesting of `fuel` schemas. -/
def validateAt (fuel : ℕ) (strict : Bool) (value : Subject) (schema : Json) (path : JsString) :
    Check :=
  match fuel with
  | 0 => pure none
  | fuel + 1 => do
      if let some bad ← checkEnum strict value schema path then return some bad
      let branches := unionBranches schema
      if branches ≠ [] then
        if ← strictMatch (fun b => validateAt fuel true value b path) branches then return none
        unless strict do
          match ← softMatch (fun b => validateAt fuel false value b path) branches .none with
          | .bad bad => return some bad
          | .winner soft hits =>
              modify fun st => { soft := st.soft ++ soft, hits := st.hits + hits }
              return none
          | .none => pure ()
        return some ⟨path, "value matches none of the anyOf/oneOf branches"⟩
      if let some bad := checkType value schema path then return some bad
      match value with
      | some (.obj fields) =>
          let properties := schema.field "properties"
          let required := schema.field "required"
          if !(properties.any Json.truthy || required.any Json.truthy) then return none
          -- present properties first, so that a discriminator counts as a hit
          if let some bad ← firstBad (((properties.map objectEntries).getD []).filterMap fun p =>
              (property fields p.1).map fun v =>
                validateAt fuel strict v p.2 (path ++ js "." ++ p.1))
            then return some bad
          let keys ← match required with
            | none | some .null => pure []
            | some r => liftM (iterateKeys r)
          return (keys.map propertyText).findSome? fun key =>
            if (property fields key).isSome then none
            else some ⟨path ++ js "." ++ key, "required property is missing"⟩
      | some (.arr xs) =>
          match (schema.field "items").filter Json.truthy with
          | some items => firstBad (xs.zipIdx.map fun x =>
              validateAt fuel strict (some x.1) items
                (path ++ js "[" ++ js (toString x.2) ++ js "]"))
          | none => return none
      | _ => return none

/-- `validateSchemaSubset(value, schema, '$', opts)`. -/
def validateSchemaSubset (strict : Bool) (value schema : Json) :
    Except String (Option SchemaViolation × SchemaState) :=
  (validateAt schema.size strict (some value) schema (js "$")).run {}

/-! ### Responses -/

def resolveValidationMode (rf : Option ResponseFormat)
    (defaultMode : SchemaValidationMode) : SchemaValidationMode :=
  match rf with
  | some (.json_schema _ _ _ (some validation)) => validation
  | some (.json_schema _ _ (some true) none) => .strict
  | _ => defaultMode

def wantsJson (env : AIRequest) : Bool :=
  match env.responseFormat with
  | some (.json_schema ..) => true
  | some .json_object => true
  | _ => false

/-- The check of the schema of a forced-JSON request. -/
def verifySchema (parsed : Json) (env : AIRequest) (defaultMode : SchemaValidationMode) :
    Except Thrown (Option VerifyFinding × List SoftFinding) :=
  match env.responseFormat with
  | some (.json_schema name (some schema) _ _) =>
      if !schema.truthy then .ok (none, [])
      else do
        let strict := resolveValidationMode env.responseFormat defaultMode = .strict
        let (bad, st) ← (validateSchemaSubset strict parsed schema).mapError Thrown.error
        match bad with
        | some bad => pure (some
            { reason := .schema_violation
              message := "response does not satisfy " ++ name ++ ": " ++ bad.message
              path := some bad.path }, st.soft)
        | none => pure (none, st.soft)
  | _ => .ok (none, [])

/-- The finding that makes a response unusable, if there is one, and the soft findings. -/
def verifyResponse (res : AIResponse) (env : AIRequest) (defaultMode : SchemaValidationMode) :
    Except Thrown (Option VerifyFinding × List SoftFinding) :=
  let content := res.message.content
  let toolCalls := res.message.toolCalls.getD []
  let finding := fun reason message => .ok (some { reason, message }, [])
  if res.finishReason = .error then
    finding .provider_error_finish "provider reported an error finish reason"
  else if content.trim = [] ∧ toolCalls.length = 0 ∧ res.finishReason ≠ .content_filter then
    finding .empty_response "provider returned no content and no tool calls"
  else match toolCalls.find? fun tc => (Json.parse tc.arguments).isNone with
  | some tc => finding .tool_arguments_not_json
      ("tool call " ++ tc.name ++ " produced arguments that are not valid JSON")
  | none =>
      if !wantsJson env then .ok (none, [])
      else
        let source := if content.trim ≠ [] then content
          else (toolCalls.head?.map ToolCall.arguments).getD []
        if res.finishReason = .length then
          finding .json_truncated "forced-JSON response was truncated at max_tokens"
        else match Json.parse (stripFence source) with
        | none => finding .response_not_json "forced-JSON response did not parse as JSON"
        | some parsed => verifySchema parsed env defaultMode

theorem verifySchema_error {parsed : Json} {env : AIRequest} {mode : SchemaValidationMode}
    {err : Thrown} (h : verifySchema parsed env mode = .error err) : ∃ m, err = .error m := by
  unfold verifySchema at h
  split at h
  · split at h
    · cases h
    · simp only [bind, Except.bind] at h
      split at h
      · next e he =>
          cases h
          unfold Except.mapError at he
          split at he
          · next m _ =>
              cases he
              exact ⟨m, rfl⟩
          · cases he
      · next r _ =>
          obtain ⟨bad, st⟩ := r
          cases bad <;> cases h
  · cases h

/-- Verification itself only fails with a plain error. -/
theorem verifyResponse_error {res : AIResponse} {env : AIRequest} {mode : SchemaValidationMode}
    {err : Thrown} (h : verifyResponse res env mode = .error err) : ∃ m, err = .error m := by
  unfold verifyResponse at h
  dsimp only at h
  split at h
  · cases h
  split at h
  · cases h
  split at h
  · cases h
  split at h
  · cases h
  split at h
  · cases h
  split at h
  · cases h
  · exact verifySchema_error h

end

end VibeRouter
