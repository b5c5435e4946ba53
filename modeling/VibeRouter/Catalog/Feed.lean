import Mathlib.Data.List.Find
import VibeRouter.Lib.JsMap
import VibeRouter.Lib.RegexLanguage
import VibeRouter.Lib.Zod
import VibeRouter.Db.Schema

/-! # The feed of models

The catalog is fed by an object that describes a model under each key.  Keys with a slash are
namespaced and are the canonical id of their model; the id of any other key is put together from the
provider and the key.  One pass keeps one entry for each id and reports every key it drops
(`parseFeed_spec`). -/

namespace VibeRouter

namespace Catalog

open Json

/-! ### The shape of an entry -/

structure LitellmEntry where
  max_tokens : Option ℚ
  max_input_tokens : Option ℚ
  max_output_tokens : Option ℚ
  input_cost_per_token : Option ℚ
  output_cost_per_token : Option ℚ
  cache_read_input_token_cost : Option ℚ
  cache_creation_input_token_cost : Option ℚ
  litellm_provider : JsString
  mode : Option JsString
  supports_function_calling : Option Bool
  supports_vision : Option Bool
  supports_response_schema : Option Bool
  supports_prompt_caching : Option Bool
  supports_reasoning : Option Bool
  deprecation_date : Option JsString

def litellmEntry : Zod.Schema LitellmEntry := Zod.object fun members => do
  let number := fun name => Zod.member (Zod.optional Zod.number) name members
  let string := fun name => Zod.member (Zod.optional Zod.string) name members
  let boolean := fun name => Zod.member (Zod.optional Zod.boolean) name members
  return {
    max_tokens := ← number "max_tokens"
    max_input_tokens := ← number "max_input_tokens"
    max_output_tokens := ← number "max_output_tokens"
    input_cost_per_token := ← number "input_cost_per_token"
    output_cost_per_token := ← number "output_cost_per_token"
    cache_read_input_token_cost := ← number "cache_read_input_token_cost"
    cache_creation_input_token_cost := ← number "cache_creation_input_token_cost"
    litellm_provider := ← Zod.member Zod.string "litellm_provider" members
    mode := ← string "mode"
    supports_function_calling := ← boolean "supports_function_calling"
    supports_vision := ← boolean "supports_vision"
    supports_response_schema := ← boolean "supports_response_schema"
    supports_prompt_caching := ← boolean "supports_prompt_caching"
    supports_reasoning := ← boolean "supports_reasoning"
    deprecation_date := ← string "deprecation_date" }

/-! ### Kinds -/

/-- What the table of providers has under a name: a kind, or what every object inherits. -/
inductive FeedKind
  | kind (k : ProviderKind)
  | inherited
deriving DecidableEq

/-- The table's own entries. -/
def providers : List (JsString × ProviderKind) :=
  [(js "openai", .openai_compat), (js "azure", .openai_compat), (js "groq", .openai_compat),
    (js "deepseek", .openai_compat), (js "anthropic", .anthropic), (js "ollama", .local),
    (js "digitalocean", .digitalocean)]

/-- The names on `Object.prototype`. -/
def inheritedNames : List JsString :=
  [js "constructor", js "__defineGetter__", js "__defineSetter__", js "hasOwnProperty",
    js "__lookupGetter__", js "__lookupSetter__", js "isPrototypeOf", js "propertyIsEnumerable",
    js "toString", js "valueOf", js "__proto__", js "toLocaleString"]

/-- Names are compared as lists of code units. -/
local instance : LawfulBEq JsString := inferInstanceAs (LawfulBEq (List ℕ))

def PROVIDER_TO_KIND (provider : JsString) : Option FeedKind :=
  match providers.lookup provider with
  | some k => some (.kind k)
  | none => if provider ∈ inheritedNames then some .inherited else none

/-- `\w`. -/
def isWordChar (c : ℕ) : Bool :=
  JsString.isDigit c || (65 ≤ c && c ≤ 90) || (97 ≤ c && c ≤ 122) || c == 95

/-- `-cloud\b` with the flag `i`; behind a letter, `\b` asks that no word goes on. -/
def cloudHosted : Regex := .seq (.literal (js "-")) (.seq (.word "cloud") (.notAhead isWordChar))

/-! ### Parsing -/

structure Pricing where
  inputPerMtok : Option JsString
  outputPerMtok : Option JsString
  cacheReadPerMtok : Option JsString
  cacheWritePerMtok : Option JsString
deriving DecidableEq

structure SyncedModel where
  canonicalId : JsString
  providerKind : FeedKind
  displayName : JsString
  contextWindow : Option ℚ
  maxOutput : Option ℚ
  capabilities : Capabilities
  deprecationDate : Option JsString
  pricing : Pricing
deriving DecidableEq

/-- A value of `byCanonicalId`. -/
structure Stored where
  entry : SyncedModel
  namespacedKey : Bool
deriving DecidableEq

/-- A feed, as `Object.entries` lists it: no key twice. -/
structure Feed where
  entries : List (JsString × Json)
  nodup : (entries.map Prod.fst).Nodup

/-- Something to apply when there is no context window. -/
def carriesData (e : LitellmEntry) : Bool :=
  e.input_cost_per_token.isSome || e.output_cost_per_token.isSome ||
    e.supports_function_calling.isSome || e.supports_response_schema.isSome ||
    e.supports_vision.isSome || e.supports_prompt_caching.isSome || e.supports_reasoning.isSome

section
-- `String(Number((perToken * 1_000_000).toPrecision(12)))`
variable (perMtok : ℚ → JsString)

/-- What is stored for a key whose entry passes the checks. -/
def stored (key : JsString) (kind : FeedKind) (e : LitellmEntry) : Stored :=
  let namespacedKey := key.contains 47
  { namespacedKey
    entry := {
      canonicalId := if namespacedKey then key else e.litellm_provider ++ js "/" ++ key
      providerKind := kind
      displayName := if namespacedKey then (key.splitOn 47).getLast?.getD key else key
      contextWindow := e.max_input_tokens.or e.max_tokens
      maxOutput := e.max_output_tokens
      capabilities := {
        tools := e.supports_function_calling
        json_schema := e.supports_response_schema
        vision := e.supports_vision
        caching := e.supports_prompt_caching
        reasoning := e.supports_reasoning }
      deprecationDate := e.deprecation_date
      pricing := {
        inputPerMtok := e.input_cost_per_token.map perMtok
        outputPerMtok := e.output_cost_per_token.map perMtok
        cacheReadPerMtok := e.cache_read_input_token_cost.map perMtok
        cacheWritePerMtok := e.cache_creation_input_token_cost.map perMtok } } }

/-- The body of the loop up to the look-up: what is to be stored for a key, or the report of it. -/
def readEntry (key : JsString) (raw : Json) : Except JsString Stored :=
  match litellmEntry (some raw) with
  | .error _ => .error key
  | .ok e =>
      if e.mode ≠ none ∧ e.mode ≠ some (js "chat") then .error key
      else match PROVIDER_TO_KIND e.litellm_provider with
        | none => .error key
        | some kind =>
            if e.litellm_provider = js "ollama" ∧ cloudHosted.test key = true then
              .error (key ++ js " (ollama cloud-hosted, not a local model)")
            else if e.max_input_tokens.or e.max_tokens = none ∧ carriesData e = false then .error key
            else .ok (stored perMtok key kind e)

structure Parsing where
  byCanonicalId : JsMap JsString Stored
  skipped : List JsString

/-- The body of the loop. -/
def parseEntry (σ : Parsing) (e : JsString × Json) : Parsing :=
  if e.1 = js "sample_spec" then σ
  else match readEntry perMtok e.1 e.2 with
    | .error report => { σ with skipped := σ.skipped ++ [report] }
    | .ok s =>
        let canonicalId := s.entry.canonicalId
        match σ.byCanonicalId.get canonicalId with
        | none => { σ with byCanonicalId := σ.byCanonicalId.set canonicalId s }
        | some existing =>
            -- the namespaced declaration is kept
            if s.namespacedKey && !existing.namespacedKey then
              ⟨σ.byCanonicalId.set canonicalId s,
                σ.skipped ++ [canonicalId ++ js " (duplicate, superseded)"]⟩
            else { σ with skipped := σ.skipped ++ [e.1 ++ js " (duplicate)"] }

/-- The entries and the reports of a feed. -/
def parseFeed (feed : Feed) : List SyncedModel × List JsString :=
  let σ := feed.entries.foldl (parseEntry perMtok) ⟨.empty, []⟩
  (σ.byCanonicalId.values.map Stored.entry, σ.skipped)

/-! ### Which key an entry comes from -/

/-- The keys of entries that may be stored. -/
def acceptable (entries : List (JsString × Json)) : List (JsString × Stored) :=
  entries.filterMap fun e =>
    if e.1 = js "sample_spec" then none
    else match readEntry perMtok e.1 e.2 with
      | .error _ => none
      | .ok s => some (e.1, s)

end

/-- The first namespaced key of an id, or else its first bare key. -/
def holder (cs : List (JsString × Stored)) (id : JsString) : Option (JsString × Stored) :=
  (cs.find? fun c => c.2.entry.canonicalId = id && c.2.namespacedKey).or
    (cs.find? fun c => c.2.entry.canonicalId = id && !c.2.namespacedKey)

theorem holder_append (cs : List (JsString × Stored)) (c : JsString × Stored) (id : JsString) :
    holder (cs ++ [c]) id =
      if c.2.entry.canonicalId = id then
        match holder cs id with
        | none => some c
        | some c₀ => if c.2.namespacedKey && !c₀.2.namespacedKey then some c else some c₀
      else holder cs id := by
  unfold holder
  rw [List.find?_append, List.find?_append]
  by_cases hid : c.2.entry.canonicalId = id
  · rw [if_pos hid]
    cases hns : cs.find? fun c => c.2.entry.canonicalId = id && c.2.namespacedKey with
    | some c₀ =>
        have hc₀ := List.find?_some hns
        simp at hc₀
        simp [hc₀.2]
    | none =>
        cases hbare : cs.find? fun c => c.2.entry.canonicalId = id && !c.2.namespacedKey with
        | some c₀ =>
            have hc₀ := List.find?_some hbare
            simp at hc₀
            cases hc : c.2.namespacedKey <;> simp [hid, hc, hc₀.2]
        | none => cases hc : c.2.namespacedKey <;> simp [hid, hc]
  · rw [if_neg hid]
    simp [hid]

theorem holder_mem {cs : List (JsString × Stored)} {id : JsString} {c : JsString × Stored}
    (h : holder cs id = some c) : c ∈ cs ∧ c.2.entry.canonicalId = id := by
  rcases Option.or_eq_some_iff.1 h with h | ⟨-, h⟩
  · have hid := List.find?_some h
    simp at hid
    exact ⟨List.mem_of_find?_eq_some h, hid.1⟩
  · have hid := List.find?_some h
    simp at hid
    exact ⟨List.mem_of_find?_eq_some h, hid.1⟩

/-- The key that was stored. -/
def Stored.key (s : Stored) : JsString :=
  if s.namespacedKey then s.entry.canonicalId else s.entry.displayName

/-- The entry of a key may be stored: it has the shape of one, is no other model than a chat model,
its provider is of a known kind, it is no model that ollama hosts in the cloud, and there is a
context window or else something to apply. -/
structure Acceptable (key : JsString) (raw : Json) (kind : FeedKind) (e : LitellmEntry) : Prop where
  shape : litellmEntry (some raw) = .ok e
  mode : ∀ mode, e.mode = some mode → mode = js "chat"
  provider : PROVIDER_TO_KIND e.litellm_provider = some kind
  hosted : e.litellm_provider = js "ollama" → cloudHosted.test key = false
  data : e.max_input_tokens = none → e.max_tokens = none → carriesData e = true

/-- A report of a skipped key of the entries: the key, it may be with the reason, or the id its
provider gives it when another key took its place. -/
def Reports (entries : List (JsString × Json)) (key report : JsString) : Prop :=
  report = key ∨ report = key ++ js " (ollama cloud-hosted, not a local model)" ∨
    report = key ++ js " (duplicate)" ∨
    ∃ raw e, (key, raw) ∈ entries ∧ litellmEntry (some raw) = .ok e ∧
      report = e.litellm_provider ++ js "/" ++ key ++ js " (duplicate, superseded)"

theorem Reports.mono {entries entries' : List (JsString × Json)} (hsub : entries ⊆ entries')
    {key report : JsString} (h : Reports entries key report) : Reports entries' key report := by
  rcases h with h | h | h | ⟨raw, e, hmem, he, h⟩
  · exact Or.inl h
  · exact Or.inr (Or.inl h)
  · exact Or.inr (Or.inr (Or.inl h))
  · exact Or.inr (Or.inr (Or.inr ⟨raw, e, hsub hmem, he, h⟩))

/-- The lower case of a letter of the alphabet. -/
def lowerCase (c : ℕ) : ℕ := if 65 ≤ c ∧ c ≤ 90 then c + 32 else c

/-- The key has `-cloud` in it, in either case, and no word goes on behind it. -/
def CloudMarked (key : JsString) : Prop :=
  ∃ pre mark post, key = pre ++ (js "-" ++ (mark ++ post)) ∧ mark.map lowerCase = js "cloud" ∧
    ∀ c ∈ post.head?, isWordChar c = false

theorem lowerCase_eq {c n : ℕ} (hn : 97 ≤ n ∧ n ≤ 122) (h : lowerCase c = n) :
    c = n ∨ c = n - 32 := by
  unfold lowerCase at h
  split at h <;> omega

/-- Small letters match a text that is the same in small letters. -/
theorem letters_of_lowerCase {mark : JsString} {cs : List Char}
    (hcs : ∀ c ∈ cs, 97 ≤ c.toNat ∧ c.toNat ≤ 122 ∧ c.toLower.toNat = c.toNat ∧
      c.toUpper.toNat = c.toNat - 32) (h : mark.map lowerCase = cs.map Char.toNat) :
    List.Forall₂ (fun x (c : Char) => (x == c.toLower.toNat || x == c.toUpper.toNat) = true)
      mark cs := by
  induction cs generalizing mark with
  | nil =>
      obtain rfl := List.map_eq_nil_iff.1 h
      exact List.Forall₂.nil
  | cons c cs ih =>
      obtain ⟨x, mark, rfl, hx, hmark⟩ := List.map_eq_cons_iff.1 h
      obtain ⟨⟨hleast, hmost, hlower, hupper⟩, hcs⟩ := List.forall_mem_cons.1 hcs
      refine List.Forall₂.cons ?_ (ih hcs hmark)
      rw [hlower, hupper, Bool.or_eq_true, beq_iff_eq, beq_iff_eq]
      exact lowerCase_eq ⟨hleast, hmost⟩ hx

theorem cloudHosted_of_marked {key : JsString} (h : CloudMarked key) :
    cloudHosted.test key = true := by
  obtain ⟨pre, mark, post, rfl, hmark, hpost⟩ := h
  have hcloud : ∀ c ∈ "cloud".toList, 97 ≤ c.toNat ∧ c.toNat ≤ 122 ∧
      c.toLower.toNat = c.toNat ∧ c.toUpper.toNat = c.toNat - 32 := by
    have hletters : "cloud".toList = ['c', 'l', 'o', 'u', 'd'] := rfl
    rw [hletters]
    simp only [List.forall_mem_cons, List.not_mem_nil, false_imp_iff, implies_true, and_true]
    decide
  have hword := letters_of_lowerCase hcloud hmark
  have hdash : List.Forall₂ (fun x y => (x == y) = true) (js "-") (js "-") :=
    List.forall₂_same.2 fun x _ => beq_self_eq_true x
  obtain ⟨c₁, hc₁, hrest₁⟩ := (Regex.denotes_foldr (fun x y => y == x) (js "-")
    ⟨pre.reverse, js "-" ++ (mark ++ post), fun _ => none⟩ (mark ++ post)).2 ⟨js "-", hdash, rfl⟩
  obtain ⟨c₂, hc₂, hrest₂⟩ := (Regex.denotes_foldr
    (fun (c : Char) x => x == c.toLower.toNat || x == c.toUpper.toNat) "cloud".toList c₁ post).2
    ⟨mark, hword, hrest₁⟩
  have hc₃ : c₂ ∈ Regex.run (.notAhead isWordChar) c₂ := by
    rw [Regex.run_notAhead (hrest₂ ▸ hpost)]
    exact List.mem_singleton_self c₂
  exact Regex.test_of_run (Regex.mem_run_seq.2 ⟨c₁, hc₁, Regex.mem_run_seq.2 ⟨c₂, hc₂, hc₃⟩⟩)

theorem ollama_of_local {provider : JsString}
    (h : PROVIDER_TO_KIND provider = some (.kind .local)) : provider = js "ollama" := by
  have htable : ∀ e ∈ providers, e.2 = ProviderKind.local → e.1 = js "ollama" := by decide
  unfold PROVIDER_TO_KIND at h
  cases hk : providers.lookup provider with
  | some k =>
      rw [hk] at h
      cases h
      obtain ⟨before, after, htable', -⟩ := List.lookup_eq_some_iff.1 hk
      have hmem : (provider, ProviderKind.local) ∈ providers := by
        rw [htable']
        exact List.mem_append_right _ List.mem_cons_self
      exact htable _ hmem rfl
  | none =>
      rw [hk] at h
      dsimp only at h
      split at h <;> cases h

section
variable (perMtok : ℚ → JsString)

/-- A key is either reported or has an acceptable entry, which is stored. -/
theorem readEntry_cases (entries : List (JsString × Json)) (key : JsString) (raw : Json) :
    (∃ report, readEntry perMtok key raw = .error report ∧ Reports entries key report) ∨
      ∃ kind e, readEntry perMtok key raw = .ok (stored perMtok key kind e) ∧
        Acceptable key raw kind e := by
  unfold readEntry
  split
  · exact Or.inl ⟨key, rfl, Or.inl rfl⟩
  · next e he =>
    split
    · exact Or.inl ⟨key, rfl, Or.inl rfl⟩
    · next hmode =>
      split
      · exact Or.inl ⟨key, rfl, Or.inl rfl⟩
      · next kind hkind =>
        split
        · exact Or.inl ⟨_, rfl, Or.inr (Or.inl rfl)⟩
        · next hollama =>
          split
          · exact Or.inl ⟨key, rfl, Or.inl rfl⟩
          · next hdata =>
            refine Or.inr ⟨kind, e, rfl, he, ?_, hkind, ?_, ?_⟩
            · intro mode hsome
              by_contra hne
              exact hmode ⟨by rw [hsome]; simp, by rw [hsome]; simpa using hne⟩
            · intro hprovider
              exact Bool.not_eq_true _ ▸ fun hmarked => hollama ⟨hprovider, hmarked⟩
            · intro hinput hmax
              by_contra hcarries
              exact hdata ⟨by rw [hinput, hmax]; rfl, Bool.not_eq_true _ ▸ hcarries⟩

/-- An acceptable entry is stored. -/
theorem Acceptable.readEntry {key : JsString} {raw : Json} {kind : FeedKind} {e : LitellmEntry}
    (h : Acceptable key raw kind e) :
    readEntry perMtok key raw = .ok (stored perMtok key kind e) := by
  have hmode : ¬(e.mode ≠ none ∧ e.mode ≠ some (js "chat")) := by
    rintro ⟨hsome, hne⟩
    obtain ⟨mode, hmode⟩ := Option.ne_none_iff_exists'.1 hsome
    exact hne (h.mode mode hmode ▸ hmode)
  have hhosted : ¬(e.litellm_provider = js "ollama" ∧ cloudHosted.test key = true) := by
    rintro ⟨hprovider, hmarked⟩
    rw [h.hosted hprovider] at hmarked
    cases hmarked
  have hdata : ¬(e.max_input_tokens.or e.max_tokens = none ∧ carriesData e = false) := by
    rintro ⟨hnone, hcarries⟩
    obtain ⟨hinput, hmax⟩ := Option.or_eq_none_iff.1 hnone
    rw [h.data hinput hmax] at hcarries
    cases hcarries
  unfold Catalog.readEntry
  rw [h.shape]
  simp only [if_neg hmode, h.provider, if_neg hhosted, if_neg hdata]

/-- What is stored for a key says which key it is. -/
theorem readEntry_ok {key : JsString} {raw : Json} {s : Stored}
    (h : readEntry perMtok key raw = .ok s) :
    s.key = key ∧
      (s.namespacedKey = false → ∃ e, litellmEntry (some raw) = .ok e ∧
        s.entry.canonicalId = e.litellm_provider ++ js "/" ++ key) ∧
      (s.entry.providerKind = .kind .local → ¬CloudMarked key) := by
  rcases readEntry_cases perMtok [] key raw with ⟨report, herror, -⟩ | ⟨kind, e, hok, hacceptable⟩
  · rw [h] at herror
    cases herror
  · obtain rfl : s = stored perMtok key kind e := by
      rw [h] at hok
      exact Except.ok.inj hok
    refine ⟨?_, ?_, ?_⟩
    · unfold Stored.key stored
      dsimp only
      split <;> rfl
    · intro hbare
      have hbare : key.contains 47 = false := hbare
      refine ⟨e, hacceptable.shape, ?_⟩
      show (if key.contains 47 = true then _ else _) = _
      rw [hbare]
      rfl
    · intro hlocal hmarked
      have hlocal : kind = .kind .local := hlocal
      have hkind := hlocal ▸ hacceptable.provider
      have hunmarked := hacceptable.hosted (ollama_of_local hkind)
      rw [cloudHosted_of_marked hmarked] at hunmarked
      cases hunmarked

/-- What may be stored comes from the acceptable entries. -/
theorem mem_acceptable {entries : List (JsString × Json)} {c : JsString × Stored} :
    c ∈ acceptable perMtok entries ↔ c.1 ≠ js "sample_spec" ∧ ∃ raw kind e,
      (c.1, raw) ∈ entries ∧ Acceptable c.1 raw kind e ∧ c.2 = stored perMtok c.1 kind e := by
  unfold acceptable
  rw [List.mem_filterMap]
  constructor
  · rintro ⟨⟨key, raw⟩, he, heq⟩
    dsimp only at heq
    split at heq
    · cases heq
    · next hkey =>
      rcases readEntry_cases perMtok [] key raw with ⟨report, herror, -⟩ | ⟨kind, e, hok, hacceptable⟩
      · rw [herror] at heq
        cases heq
      · rw [hok] at heq
        cases heq
        exact ⟨hkey, raw, kind, e, he, hacceptable, rfl⟩
  · rintro ⟨hkey, raw, kind, e, he, hacceptable, hstored⟩
    refine ⟨(c.1, raw), he, ?_⟩
    dsimp only
    rw [if_neg hkey, hacceptable.readEntry perMtok, ← hstored]

/-! ### The pass -/

/-- What the pass has made of the entries before it. -/
structure Parsed (entries : List (JsString × Json)) (σ : Parsing) : Prop where
  held : ∀ id, σ.byCanonicalId.get id = (holder (acceptable perMtok entries) id).map Prod.snd
  reported : ∃ keys, List.Forall₂ (Reports entries) keys σ.skipped ∧
    (keys ++ σ.byCanonicalId.values.map Stored.key).Perm
      ((entries.map Prod.fst).filter fun k => k ≠ js "sample_spec")

theorem acceptable_mem {entries : List (JsString × Json)} {c : JsString × Stored}
    (h : c ∈ acceptable perMtok entries) :
    ∃ raw, (c.1, raw) ∈ entries ∧ readEntry perMtok c.1 raw = .ok c.2 := by
  obtain ⟨-, raw, kind, e, he, hacceptable, hstored⟩ := (mem_acceptable perMtok).1 h
  exact ⟨raw, he, hstored ▸ hacceptable.readEntry perMtok⟩

theorem acceptable_append (entries : List (JsString × Json)) (e : JsString × Json) :
    acceptable perMtok (entries ++ [e]) =
      acceptable perMtok entries ++ acceptable perMtok [e] := List.filterMap_append

omit perMtok in
/-- One report more, for one key more that is not kept. -/
theorem reported_append {entries : List (JsString × Json)} {keys kept all skipped : List JsString}
    {key report : JsString} (hreports : List.Forall₂ (Reports entries) keys skipped)
    (hperm : (keys ++ kept).Perm all) (hreport : Reports entries key report) :
    List.Forall₂ (Reports entries) (keys ++ [key]) (skipped ++ [report]) ∧
      ((keys ++ [key]) ++ kept).Perm (all ++ [key]) := by
  refine ⟨List.rel_append hreports (List.Forall₂.cons hreport List.Forall₂.nil), ?_⟩
  have hswap : ((keys ++ [key]) ++ kept).Perm ((keys ++ kept) ++ [key]) := by
    rw [List.append_assoc, List.append_assoc]
    exact List.perm_append_comm.append_left keys
  exact hswap.trans (hperm.append_right [key])

/-- One entry of the feed. -/
theorem Parsed.step {entries : List (JsString × Json)} {σ : Parsing} (h : Parsed perMtok entries σ)
    (e : JsString × Json) : Parsed perMtok (entries ++ [e]) (parseEntry perMtok σ e) := by
  obtain ⟨hheld, keys, hreports, hperm⟩ := h
  have hreports : List.Forall₂ (Reports (entries ++ [e])) keys σ.skipped :=
    hreports.imp fun _ _ => Reports.mono (List.subset_append_left entries [e])
  have hkeys : ((entries ++ [e]).map Prod.fst).filter (fun k => k ≠ js "sample_spec") =
      (entries.map Prod.fst).filter (fun k => k ≠ js "sample_spec") ++
        [e.1].filter fun k => k ≠ js "sample_spec" := by
    rw [List.map_append, List.filter_append]
    rfl
  unfold parseEntry
  by_cases hsample : e.1 = js "sample_spec"
  · rw [if_pos hsample]
    have hnone : acceptable perMtok [e] = [] := by simp [acceptable, hsample]
    refine ⟨?_, keys, hreports, ?_⟩
    · rw [acceptable_append, hnone, List.append_nil]
      exact hheld
    · rw [hkeys, hsample, List.filter_cons_of_neg (by simp), List.filter_nil, List.append_nil]
      exact hperm
  rw [if_neg hsample]
  rw [List.filter_cons_of_pos (by simpa using hsample), List.filter_nil] at hkeys
  rcases readEntry_cases perMtok (entries ++ [e]) e.1 e.2 with
    ⟨report, herror, hreport⟩ | ⟨kind, l, hok, -⟩
  · have hnone : acceptable perMtok [e] = [] := by simp [acceptable, hsample, herror]
    rw [herror]
    obtain ⟨hreports', hperm'⟩ := reported_append hreports hperm hreport
    refine ⟨?_, keys ++ [e.1], hreports', hkeys ▸ hperm'⟩
    rw [acceptable_append, hnone, List.append_nil]
    exact hheld
  · generalize stored perMtok e.1 kind l = s at hok
    obtain ⟨hkey, hbare, -⟩ := readEntry_ok perMtok hok
    have hone : acceptable perMtok [e] = [(e.1, s)] := by simp [acceptable, hsample, hok]
    have hholder : ∀ id, holder (acceptable perMtok (entries ++ [e])) id =
        if s.entry.canonicalId = id then
          match holder (acceptable perMtok entries) id with
          | none => some (e.1, s)
          | some c₀ => if s.namespacedKey && !c₀.2.namespacedKey then some (e.1, s) else some c₀
        else holder (acceptable perMtok entries) id := by
      intro id
      rw [acceptable_append, hone]
      exact holder_append _ (e.1, s) id
    rw [hok]
    dsimp only
    cases hget : σ.byCanonicalId.get s.entry.canonicalId with
    | none =>
        have hnone : holder (acceptable perMtok entries) s.entry.canonicalId = none := by
          rw [hheld] at hget
          exact Option.map_eq_none_iff.1 hget
        refine ⟨?_, keys, hreports, ?_⟩
        · intro id
          rw [JsMap.get_set, hholder]
          by_cases hid : id = s.entry.canonicalId
          · rw [if_pos hid, if_pos hid.symm, hid, hnone]
            rfl
          · rw [if_neg hid, if_neg (Ne.symm hid)]
            exact hheld id
        · rw [JsMap.values_set hget, List.map_append, List.map_singleton, hkey, hkeys,
            ← List.append_assoc]
          exact hperm.append_right [e.1]
    | some w =>
        obtain ⟨c₀, hc₀, rfl⟩ : ∃ c₀, holder (acceptable perMtok entries) s.entry.canonicalId =
            some c₀ ∧ c₀.2 = w := by
          rw [hheld] at hget
          exact Option.map_eq_some_iff.1 hget
        dsimp only
        by_cases hwins : (s.namespacedKey && !c₀.2.namespacedKey) = true
        · rw [if_pos hwins]
          obtain ⟨hmem, hid₀⟩ := holder_mem hc₀
          obtain ⟨raw, hraw, hread⟩ := acceptable_mem perMtok hmem
          obtain ⟨hkey₀, hbare₀, -⟩ := readEntry_ok perMtok hread
          have hreport : Reports (entries ++ [e]) c₀.2.key
              (s.entry.canonicalId ++ js " (duplicate, superseded)") := by
            obtain ⟨l₀, hl₀, hprovider⟩ := hbare₀ (by simp at hwins; exact hwins.2)
            rw [← hid₀, hprovider, hkey₀]
            exact Or.inr (Or.inr (Or.inr
              ⟨raw, l₀, List.subset_append_left entries [e] hraw, hl₀, rfl⟩))
          have hvalues := (JsMap.values_set_of_some hget s).map Stored.key
          rw [List.map_cons, List.map_cons, hkey] at hvalues
          refine ⟨?_, keys ++ [c₀.2.key],
            List.rel_append hreports (List.Forall₂.cons hreport List.Forall₂.nil), ?_⟩
          · intro id
            rw [JsMap.get_set, hholder]
            by_cases hid : id = s.entry.canonicalId
            · rw [if_pos hid, if_pos hid.symm, hid, hc₀]
              dsimp only
              rw [if_pos hwins]
              rfl
            · rw [if_neg hid, if_neg (Ne.symm hid)]
              exact hheld id
          · rw [hkeys, List.append_assoc]
            refine (hvalues.append_left keys).trans ?_
            refine List.Perm.trans ?_ (hperm.append_right [e.1])
            rw [List.append_assoc]
            exact (List.perm_append_singleton _ _).symm.append_left keys
        · rw [if_neg hwins]
          have hreport : Reports (entries ++ [e]) e.1 (e.1 ++ js " (duplicate)") :=
            Or.inr (Or.inr (Or.inl rfl))
          obtain ⟨hreports', hperm'⟩ := reported_append hreports hperm hreport
          refine ⟨?_, keys ++ [e.1], hreports', hkeys ▸ hperm'⟩
          intro id
          rw [hholder]
          by_cases hid : id = s.entry.canonicalId
          · rw [if_pos hid.symm, hid, hc₀, hget]
            dsimp only
            rw [if_neg hwins]
            rfl
          · rw [if_neg (Ne.symm hid)]
            exact hheld id

theorem parsed (entries : List (JsString × Json)) :
    Parsed perMtok entries (entries.foldl (parseEntry perMtok) ⟨.empty, []⟩) := by
  induction entries using List.reverseRecOn with
  | nil => exact ⟨fun _ => rfl, [], List.Forall₂.nil, List.Perm.refl []⟩
  | append_singleton entries e ih =>
      rw [List.foldl_append]
      exact ih.step perMtok e

/-! ### What the pass makes of a feed -/

/-- The keys that are kept: each the holder of its id. -/
def keptKeys (feed : Feed) : List JsString :=
  (acceptable perMtok feed.entries).filterMap fun c =>
    (holder (acceptable perMtok feed.entries) c.2.entry.canonicalId).map Prod.fst

/-- Every other key. -/
def droppedKeys (feed : Feed) : List JsString :=
  (feed.entries.map Prod.fst).filter fun k => k ≠ js "sample_spec" && !(keptKeys perMtok feed).contains k

/-- The key of a holder. -/
theorem holder_key {entries : List (JsString × Json)} {id : JsString} {c : JsString × Stored}
    (h : holder (acceptable perMtok entries) id = some c) :
    c.2.key = c.1 ∧ c.2.entry.canonicalId = id ∧
      (c.2.entry.providerKind = .kind .local → ¬CloudMarked c.1) := by
  obtain ⟨hmem, hid⟩ := holder_mem h
  obtain ⟨raw, -, hread⟩ := acceptable_mem perMtok hmem
  obtain ⟨hkey, -, hlocal⟩ := readEntry_ok perMtok hread
  exact ⟨hkey, hid, hlocal⟩

/-- Each entry is held under its id. -/
theorem canonicalId_of_mem {entries : List (JsString × Json)} {σ : Parsing}
    (h : Parsed perMtok entries σ) {e : JsString × Stored} (he : e ∈ σ.byCanonicalId.entries) :
    e.2.entry.canonicalId = e.1 := by
  have hget := JsMap.get_eq_some_iff.2 he
  rw [h.held] at hget
  obtain ⟨c, hc, hce⟩ := Option.map_eq_some_iff.1 hget
  rw [← hce]
  exact (holder_key perMtok hc).2.1

theorem mem_keptKeys {feed : Feed} {σ : Parsing} (h : Parsed perMtok feed.entries σ) (k : JsString) :
    k ∈ keptKeys perMtok feed ↔ k ∈ σ.byCanonicalId.values.map Stored.key := by
  unfold keptKeys
  rw [List.mem_filterMap, List.mem_map]
  constructor
  · rintro ⟨c, -, hk⟩
    obtain ⟨c', hc', rfl⟩ := Option.map_eq_some_iff.1 hk
    have hget : σ.byCanonicalId.get c.2.entry.canonicalId = some c'.2 := by
      rw [h.held, hc']
      rfl
    exact ⟨c'.2, JsMap.mem_values_of_get hget, (holder_key perMtok hc').1⟩
  · rintro ⟨s, hs, rfl⟩
    obtain ⟨id, hget⟩ := JsMap.exists_get_of_mem_values hs
    rw [h.held] at hget
    obtain ⟨c, hc, rfl⟩ := Option.map_eq_some_iff.1 hget
    obtain ⟨hkey, hid, -⟩ := holder_key perMtok hc
    refine ⟨c, (holder_mem hc).1, ?_⟩
    rw [hid, hc, Option.map_some, hkey]

/-- **What a feed is parsed to.**  No id has two entries; each has that of its first acceptable
namespaced key, or else that of its first acceptable bare key; every other key but `sample_spec` is
reported once; and no local model comes from a key that is marked as hosted in the cloud. -/
theorem parseFeed_spec (feed : Feed) :
    (∀ key s, (key, s) ∈ acceptable perMtok feed.entries ↔ key ≠ js "sample_spec" ∧
      ∃ raw kind e, (key, raw) ∈ feed.entries ∧ Acceptable key raw kind e ∧
        s = stored perMtok key kind e) ∧
    ((parseFeed perMtok feed).1.map SyncedModel.canonicalId).Nodup ∧
    (∀ id, ((parseFeed perMtok feed).1.find? fun m => m.canonicalId = id) =
      (holder (acceptable perMtok feed.entries) id).map fun c => c.2.entry) ∧
    (∃ keys, keys.Perm (droppedKeys perMtok feed) ∧
      List.Forall₂ (Reports feed.entries) keys (parseFeed perMtok feed).2) ∧
    ∀ m ∈ (parseFeed perMtok feed).1, m.providerKind = .kind .local →
      ∀ c, holder (acceptable perMtok feed.entries) m.canonicalId = some c → ¬CloudMarked c.1 := by
  have h := parsed perMtok feed.entries
  unfold parseFeed
  dsimp only
  generalize feed.entries.foldl (parseEntry perMtok) ⟨.empty, []⟩ = σ at h
  have hfind : ∀ id, ((σ.byCanonicalId.values.map Stored.entry).find? fun m => m.canonicalId = id) =
      (holder (acceptable perMtok feed.entries) id).map fun c => c.2.entry := by
    intro id
    have hget := congrArg (Option.map Stored.entry) (h.held id)
    rw [Option.map_map] at hget
    refine Eq.trans ?_ hget
    unfold JsMap.values JsMap.get
    rw [List.map_map, List.find?_map, Option.map_map]
    refine congrArg _ (List.find?_congr fun e he => ?_)
    have hid := canonicalId_of_mem perMtok h he
    simp [hid]
  refine ⟨fun key s => mem_acceptable perMtok, ?_, hfind, ?_, ?_⟩
  · unfold JsMap.values
    rw [List.map_map, List.map_map]
    refine (List.map_congr_left fun e he => ?_) ▸ σ.byCanonicalId.nodup
    exact (canonicalId_of_mem perMtok h he).symm
  · obtain ⟨keys, hreports, hperm⟩ := h.reported
    refine ⟨keys, ?_, hreports⟩
    have hnodup := hperm.nodup_iff.2 (feed.nodup.filter _)
    obtain ⟨hkeys, -, hdisjoint⟩ := List.nodup_append.1 hnodup
    unfold droppedKeys
    rw [List.perm_ext_iff_of_nodup hkeys (feed.nodup.filter _)]
    intro k
    have hmem := hperm.mem_iff (a := k)
    rw [List.mem_append, ← mem_keptKeys perMtok h, List.mem_filter] at hmem
    have hne : k ∈ keys → k ∉ keptKeys perMtok feed := fun hk hkept =>
      hdisjoint k hk k ((mem_keptKeys perMtok h k).1 hkept) rfl
    rw [List.mem_filter, Bool.and_eq_true, ← and_assoc, ← hmem, Bool.not_eq_true',
      ← Bool.not_eq_true, List.contains_iff_mem]
    tauto
  · intro m hm hlocal c hc
    obtain ⟨s, hs, rfl⟩ := List.mem_map.1 hm
    obtain ⟨id, hget⟩ := JsMap.exists_get_of_mem_values hs
    rw [h.held] at hget
    obtain ⟨c', hc', rfl⟩ := Option.map_eq_some_iff.1 hget
    obtain ⟨-, hid, hkind⟩ := holder_key perMtok hc'
    rw [hid, hc'] at hc
    cases hc
    exact hkind hlocal

end

/-- A bare key gives way to the namespaced key of its model, and a model that ollama hosts in the
cloud is no local model. -/
example :
    let spec := fun provider => Json.obj [(js "litellm_provider", .str (js provider)),
      (js "max_tokens", .num 8)]
    let feed : Feed := ⟨[(js "m", spec "azure"), (js "azure/m", spec "azure"),
      (js "qwen3-cloud", spec "ollama"), (js "llama3", spec "ollama")], by decide⟩
    ((parseFeed (fun _ => []) feed).1.map SyncedModel.canonicalId,
      (parseFeed (fun _ => []) feed).2) =
    ([js "azure/m", js "ollama/llama3"], [js "azure/m (duplicate, superseded)",
      js "qwen3-cloud (ollama cloud-hosted, not a local model)"]) := by
  decide +kernel

end Catalog

end VibeRouter
