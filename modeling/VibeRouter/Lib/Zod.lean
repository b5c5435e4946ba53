import VibeRouter.Lib.JsonText
import VibeRouter.Lib.Utf8

/-! # Schemas with issues

Readers for JSON values that say, where they do not accept a value, at which path and why; only
the first issue is kept.  A value that is absent is `none`.  An accepted value is at least as deep
as what the schema reads of it (`Within`), and the schemas below read back what is written in
their shape. -/

namespace Zod

open Json

structure Issue where
  path : List String
  message : String

/-- A schema, for a value that may be absent. -/
abbrev Schema (α : Type) : Type := Option Json → Except Issue α

variable {α β : Type}

/-! ### Values -/

def typeOf : Json → String
  | .null => "null"
  | .bool _ => "boolean"
  | .num _ => "number"
  | .str _ => "string"
  | .arr _ => "array"
  | .obj _ => "object"

def invalidType (expected : String) : Option Json → Issue
  | none => ⟨[], "Required"⟩
  | some v => ⟨[], "Expected " ++ expected ++ ", received " ++ typeOf v⟩

def string : Schema JsString
  | some (.str s) => .ok s
  | v => .error (invalidType "string" v)

/-- A string, as a text. -/
def text : Schema String := fun v => (string v).map Utf8.text

def boolean : Schema Bool
  | some (.bool b) => .ok b
  | v => .error (invalidType "boolean" v)

def number : Schema ℚ
  | some (.num n) => .ok n
  | v => .error (invalidType "number" v)

def null : Schema Unit
  | some .null => .ok ()
  | v => .error (invalidType "null" v)

def unknown : Schema (Option Json) := .ok

def literal (value : String) : Schema Unit
  | some (.str s) =>
      if s = js value then .ok ()
      else .error ⟨[], "Invalid literal value, expected \"" ++ value ++ "\""⟩
  | _ => .error ⟨[], "Invalid literal value, expected \"" ++ value ++ "\""⟩

/-- The texts of an enumeration, in quotation marks. -/
def joinValues (values : List (String × α)) : String :=
  " | ".intercalate (values.map fun v => "\x27" ++ v.1 ++ "\x27")

def enumeration (values : List (String × α)) : Schema α
  | some (.str s) => match values.find? fun v => js v.1 = s with
    | some v => .ok v.2
    | none => .error ⟨[], "Invalid enum value. Expected " ++ joinValues values ++
        ", received \x27" ++ Utf8.text s ++ "\x27"⟩
  | v => .error (invalidType (joinValues values) v)

/-! ### Checks -/

/-- A schema with checks on what it reads; each says what is wrong. -/
def checked (s : Schema α) (checks : List (α → Option String)) : Schema α := fun v =>
  match s v with
  | .error issue => .error issue
  | .ok a => match checks.findSome? fun check => check a with
    | some message => .error ⟨[], message⟩
    | none => .ok a

def isInt (n : ℚ) : Option String :=
  if n.den = 1 then none else some "Expected integer, received float"

def positive (n : ℚ) : Option String :=
  if 0 < n then none else some "Number must be greater than 0"

/-- `.min(least).max(most)`, with the bounds as they are written. -/
def between (least most : ℕ) : List (ℚ → Option String) :=
  [fun n => if least ≤ n then none
      else some ("Number must be greater than or equal to " ++ toString least),
    fun n => if n ≤ most then none
      else some ("Number must be less than or equal to " ++ toString most)]

/-- `z.number().int().positive()`. -/
def positiveInt : Schema ℤ := fun v => (checked number [isInt, positive] v).map fun n => n.num

/-! ### Composed values -/

def optional (s : Schema α) : Schema (Option α)
  | none => .ok none
  | some v => (s (some v)).map some

def nullish (s : Schema α) : Schema (Option α)
  | none => .ok none
  | some .null => .ok none
  | some v => (s (some v)).map some

/-- The first of two schemas that accepts the value. -/
def union (s t : Schema α) : Schema α := fun v => match s v with
  | .ok a => .ok a
  | .error _ => match t v with
    | .ok a => .ok a
    | .error _ => .error ⟨[], "Invalid input"⟩

def mapped (f : α → β) (s : Schema α) : Schema β := fun v => (s v).map f

/-- The issue, one step further out. -/
def Issue.inside (name : String) (issue : Issue) : Issue := { issue with path := name :: issue.path }

/-- The members of an object. -/
abbrev Members : Type := List (JsString × Json)

def member (s : Schema α) (name : String) (members : Members) : Except Issue α :=
  (s (members.lookup (js name))).mapError (Issue.inside name)

def object (read : Members → Except Issue α) : Schema α
  | some (.obj members) => read members
  | v => .error (invalidType "object" v)

/-- The elements of an array from the place `i` on. -/
def elements (s : Schema α) : ℕ → List Json → Except Issue (List α)
  | _, [] => .ok []
  | i, v :: vs => do
      let a ← (s (some v)).mapError (Issue.inside (toString i))
      let as ← elements s (i + 1) vs
      pure (a :: as)

def array (s : Schema α) : Schema (List α)
  | some (.arr vs) => elements s 0 vs
  | v => .error (invalidType "array" v)

/-- `z.array(s).min(1)`. -/
def someOf (s : Schema α) : Schema (List α)
  | some (.arr []) => .error ⟨[], "Array must contain at least 1 element(s)"⟩
  | v => array s v

/-- `z.array(…).max(most)`, looked at before the elements. -/
def atMost (most : ℕ) (s : Schema (List α)) : Schema (List α)
  | some (.arr vs) =>
      if vs.length ≤ most then s (some (.arr vs))
      else .error ⟨[], "Array must contain at most " ++ toString most ++ " element(s)"⟩
  | v => s v

/-! ### Values as they are -/

/-- A schema that gives back the value it accepts. -/
def unchanged (s : Schema α) : Schema Json := fun v => (s v).map fun _ => v.getD .null

/-- The values of an object, each under its name. -/
def named (s : Schema α) : Members → Except Issue (List (JsString × α))
  | [] => .ok []
  | (name, v) :: members => do
      let a ← (s (some v)).mapError (Issue.inside (Utf8.text name))
      let as ← named s members
      pure ((name, a) :: as)

/-- `z.record(s)`: a value named `__proto__` is read, but it is not kept. -/
def record (s : Schema α) : Schema (List (JsString × α)) :=
  object fun members => (named s members).map fun as => as.filter fun a => a.1 ≠ js "__proto__"

/-- The members that are there, in the order of their schemas; each of them is optional. -/
def optionals : List (String × Schema Json) → Members → Except Issue Members
  | [], _ => .ok []
  | (name, s) :: schemas, members => do
      let v ← member (optional s) name members
      let vs ← optionals schemas members
      pure ((v.map fun v => (js name, v)).toList ++ vs)

/-- `.strict()`: no member but these. -/
def only (names : List String) (members : Members) : Except Issue Unit :=
  match members.filter fun m => m.1 ∉ names.map js with
  | [] => .ok ()
  | extra => .error ⟨[], "Unrecognized key(s) in object: " ++
      ", ".intercalate (extra.map fun m => "\x27" ++ Utf8.text m.1 ++ "\x27")⟩

/-! ### What is read -/

section
variable {ε : Type} {s t : Schema α} {a : α} {v : Json} {name : String} {members : Members}

theorem bind_ok {x : Except ε α} {f : α → Except ε β} {b : β} :
    (x >>= f) = .ok b ↔ ∃ a, x = .ok a ∧ f a = .ok b := by
  cases x with
  | error e =>
      constructor
      · intro h
        cases h
      · rintro ⟨a, h, -⟩
        cases h
  | ok a =>
      constructor
      · exact fun h => ⟨a, rfl, h⟩
      · rintro ⟨a', ⟨⟩, h⟩
        exact h

theorem map_ok {x : Except ε α} {f : α → β} {b : β} :
    x.map f = .ok b ↔ ∃ a, x = .ok a ∧ f a = b := by
  cases x with
  | error e =>
      constructor
      · intro h
        cases h
      · rintro ⟨a, h, -⟩
        cases h
  | ok a =>
      constructor
      · rintro ⟨⟩
        exact ⟨a, rfl, rfl⟩
      · rintro ⟨a', ⟨⟩, rfl⟩
        rfl

theorem member_ok : member s name members = .ok a ↔ s (members.lookup (js name)) = .ok a := by
  unfold member
  cases s (members.lookup (js name)) with
  | error issue => exact ⟨fun h => (by cases h), fun h => (by cases h)⟩
  | ok a' => exact Iff.rfl

theorem object_ok {read : Members → Except Issue α} :
    object read (some v) = .ok a ↔ ∃ ms, v = .obj ms ∧ read ms = .ok a := by
  cases v with
  | obj ms =>
      constructor
      · exact fun h => ⟨ms, rfl, h⟩
      · rintro ⟨ms', ⟨⟩, h⟩
        exact h
  | _ =>
      constructor
      · intro h
        cases h
      · rintro ⟨ms, h, -⟩
        cases h

theorem string_ok {v : Option Json} {x : JsString} : string v = .ok x ↔ v = some (.str x) := by
  constructor
  · intro h
    unfold string at h
    split at h
    · cases h
      rfl
    · cases h
  · rintro rfl
    rfl

theorem text_ok {v : Option Json} {x : String} :
    text v = .ok x ↔ ∃ y, v = some (.str y) ∧ Utf8.text y = x := by
  unfold text
  rw [map_ok]
  simp only [string_ok]

/-- A text is read as it was written. -/
theorem text_written (x : String) : text (some (.str (js x))) = .ok x :=
  text_ok.2 ⟨js x, rfl, Utf8.text_js x⟩

theorem number_ok {v : Option Json} {n : ℚ} : number v = .ok n ↔ v = some (.num n) := by
  constructor
  · intro h
    unfold number at h
    split at h
    · cases h
      rfl
    · cases h
  · rintro rfl
    rfl

theorem checked_ok {checks : List (α → Option String)} {v : Option Json} :
    checked s checks v = .ok a ↔ s v = .ok a ∧ checks.findSome? (fun check => check a) = none := by
  unfold checked
  cases hs : s v with
  | error issue => exact ⟨fun h => (by cases h), fun h => (by cases h.1)⟩
  | ok a' =>
      dsimp only
      cases hc : checks.findSome? fun check => check a' with
      | some message =>
          refine ⟨fun h => (by cases h), fun h => ?_⟩
          cases h.1
          rw [hc] at h
          cases h.2
      | none =>
          constructor
          · rintro ⟨⟩
            exact ⟨rfl, hc⟩
          · rintro ⟨⟨⟩, -⟩
            rfl

theorem positiveInt_pos {v : Option Json} {n : ℤ} (h : positiveInt v = .ok n) : 0 < n := by
  obtain ⟨q, hq, rfl⟩ := map_ok.1 h
  obtain ⟨-, hchecks⟩ := checked_ok.1 hq
  by_contra hnot
  have hneg : ¬0 < q := fun hpos => hnot (Rat.num_pos.2 hpos)
  by_cases hint : q.den = 1
  · simp [isInt, positive, hint, hneg] at hchecks
  · simp [isInt, hint] at hchecks

theorem positiveInt_written {n : ℤ} (h : 0 < n) : positiveInt (some (.num n)) = .ok n := by
  have hpos : (0 : ℚ) < n := Rat.num_pos.1 (by rwa [Rat.num_intCast])
  have hnone : [isInt, positive].findSome? (fun check => check (n : ℚ)) = none := by
    simp [isInt, positive, hpos]
  unfold positiveInt checked number
  dsimp only
  rw [hnone]
  exact congrArg Except.ok (Rat.num_intCast n)

theorem optional_some {o : Option α} :
    optional s (some v) = .ok o ↔ ∃ a, s (some v) = .ok a ∧ some a = o := map_ok

theorem union_ok {v : Option Json} (h : union s t v = .ok a) : s v = .ok a ∨ t v = .ok a := by
  unfold union at h
  cases hs : s v with
  | ok a' =>
      rw [hs] at h
      exact Or.inl h
  | error issue =>
      rw [hs] at h
      cases ht : t v with
      | ok a' =>
          rw [ht] at h
          exact Or.inr h
      | error issue =>
          rw [ht] at h
          cases h

theorem union_right {v : Option Json} {issue : Issue} (hs : s v = .error issue) (ht : t v = .ok a) :
    union s t v = .ok a := by
  unfold union
  rw [hs]
  dsimp only
  rw [ht]

theorem enumeration_mem {values : List (String × α)} {v : Option Json}
    (h : enumeration values v = .ok a) : ∃ name, (name, a) ∈ values ∧ v = some (.str (js name)) := by
  unfold enumeration at h
  split at h
  · next x =>
      split at h
      · next entry hfind =>
          cases h
          have hname : js entry.1 = x := by simpa using List.find?_some hfind
          exact ⟨entry.1, List.mem_of_find?_eq_some hfind, by rw [hname]⟩
      · cases h
  · cases h

/-- A member whose schema does not accept an absent value is there. -/
theorem member_there (h : member s name members = .ok a) (hnone : ∀ a, s none ≠ .ok a) :
    ∃ v, members.lookup (js name) = some v ∧ s (some v) = .ok a := by
  rw [member_ok] at h
  cases hv : members.lookup (js name) with
  | none =>
      rw [hv] at h
      exact absurd h (hnone a)
  | some v =>
      rw [hv] at h
      exact ⟨v, rfl, h⟩

theorem object_none {read : Members → Except Issue α} (a : α) : object read none ≠ .ok a := by
  intro h
  cases h

theorem elements_ok {i : ℕ} {vs : List Json} {as : List α} :
    elements s i vs = .ok as ↔ List.Forall₂ (fun v a => s (some v) = .ok a) vs as := by
  induction vs generalizing i as with
  | nil =>
      constructor
      · rintro ⟨⟩
        exact .nil
      · rintro ⟨⟩
        rfl
  | cons v vs ih =>
      have hfirst : ∀ a, (s (some v)).mapError (Issue.inside (toString i)) = .ok a ↔
          s (some v) = .ok a := by
        intro a
        cases s (some v) with
        | error issue => exact ⟨fun h => (by cases h), fun h => (by cases h)⟩
        | ok a' => exact Iff.rfl
      simp only [elements, bind_ok, hfirst, ih]
      constructor
      · rintro ⟨a, ha, as', has, ⟨⟩⟩
        exact .cons ha has
      · rintro ⟨⟩
        exact ⟨_, ‹_›, _, ‹_›, rfl⟩

end

/-! ### Depth -/

mutual

/-- How deep arrays and objects are nested in a value. -/
def depth : Json → ℕ
  | .arr vs => depthList vs + 1
  | .obj members => depthMembers members + 1
  | _ => 0

def depthList : List Json → ℕ
  | [] => 0
  | v :: vs => max (depth v) (depthList vs)

def depthMembers : List (JsString × Json) → ℕ
  | [] => 0
  | m :: ms => max (depth m.2) (depthMembers ms)

end

theorem depthList_le {vs : List Json} {n : ℕ} : depthList vs ≤ n ↔ ∀ v ∈ vs, depth v ≤ n := by
  induction vs with
  | nil => simp [depthList]
  | cons v vs ih => simp [depthList, ih]

theorem depthMembers_le {ms : Members} {n : ℕ} :
    depthMembers ms ≤ n ↔ ∀ m ∈ ms, depth m.2 ≤ n := by
  induction ms with
  | nil => simp [depthMembers]
  | cons m ms ih => simp [depthMembers, ih]

theorem depthMembers_append (ms ms' : Members) :
    depthMembers (ms ++ ms') = max (depthMembers ms) (depthMembers ms') := by
  induction ms with
  | nil => simp [depthMembers]
  | cons m ms ih => rw [List.cons_append, depthMembers, depthMembers, ih, max_assoc]

theorem depth_lookup {ms : Members} {k : JsString} {v : Json} (h : ms.lookup k = some v) :
    depth v + 1 ≤ depth (.obj ms) := by
  have hmem := mem_of_lookup h
  have hle := depthMembers_le.1 (le_refl (depthMembers ms)) (k, v) hmem
  rw [depth]
  exact Nat.succ_le_succ hle

/-! ### Reading again -/

/-- What `s` reads and `f` translates can be written by `emit`, no deeper than it was, and read
again, up to `norm`. -/
structure Returns {γ : Type} (s : Schema α) (f : α → γ) (emit : γ → Json) (norm : γ → γ) : Prop where
  again : ∀ v a, s (some v) = .ok a → ∃ a', s (some (emit (f a))) = .ok a' ∧ f a' = norm (f a)
  depth : ∀ v a, s (some v) = .ok a → depth (emit (f a)) ≤ depth v

section
variable {γ : Type} {s : Schema α} {f : α → γ} {emit : γ → Json} {norm : γ → γ}

/-- What holds of every element holds of the array. -/
theorem Returns.elements (h : Returns s f emit norm) {vs : List Json} {as : List α}
    (hread : List.Forall₂ (fun v a => s (some v) = .ok a) vs as) (i : ℕ) :
    ∃ as', Zod.elements s i ((as.map f).map emit) = .ok as' ∧
      as'.map f = (as.map f).map norm := by
  induction hread generalizing i with
  | nil => exact ⟨[], rfl, rfl⟩
  | cons hv _ ih =>
      obtain ⟨a', ha', hnorm⟩ := h.again _ _ hv
      obtain ⟨as', has', hnorms⟩ := ih (i + 1)
      refine ⟨a' :: as', ?_, ?_⟩
      · rw [List.map_cons, List.map_cons, elements_ok]
        exact .cons ha' (elements_ok.1 has')
      · rw [List.map_cons, List.map_cons, List.map_cons, hnorm, hnorms]

theorem Returns.depthList (h : Returns s f emit norm) {vs : List Json} {as : List α}
    (hread : List.Forall₂ (fun v a => s (some v) = .ok a) vs as) :
    depthList ((as.map f).map emit) ≤ depthList vs := by
  induction hread with
  | nil => exact le_refl _
  | cons hv _ ih =>
      rw [List.map_cons, List.map_cons, Zod.depthList, Zod.depthList]
      exact max_le_max (h.depth _ _ hv) ih

theorem Returns.array (h : Returns s f emit norm) :
    Returns (Zod.array s) (List.map f) (fun bs => .arr (bs.map emit)) (List.map norm) where
  again := by
    intro v as hv
    cases v with
    | arr vs => exact h.elements (elements_ok.1 hv) 0
    | _ => cases hv
  depth := by
    intro v as hv
    cases v with
    | arr vs => exact Nat.succ_le_succ (h.depthList (elements_ok.1 hv))
    | _ => cases hv

theorem Returns.someOf (h : Returns s f emit norm) :
    Returns (Zod.someOf s) (List.map f) (fun bs => .arr (bs.map emit)) (List.map norm) where
  again := by
    intro v as hv
    cases v with
    | arr vs =>
        cases vs with
        | nil => cases hv
        | cons v vs =>
            have hread := elements_ok.1 (show Zod.elements s 0 (v :: vs) = .ok as from hv)
            cases hread with
            | cons hfirst hrest => exact h.elements (.cons hfirst hrest) 0
    | _ => cases hv
  depth := by
    intro v as hv
    cases v with
    | arr vs =>
        cases vs with
        | nil => cases hv
        | cons v vs =>
            have hread := elements_ok.1 (show Zod.elements s 0 (v :: vs) = .ok as from hv)
            exact Nat.succ_le_succ (h.depthList hread)
    | _ => cases hv

/-- A member that may be absent, written under its name if it is there. -/
theorem Returns.optional (h : Returns s f emit norm) {name : String} {ms ms' : Members}
    {o : Option α} (hread : member (Zod.optional s) name ms = .ok o)
    (hwritten : ms'.lookup (js name) = (o.map f).map emit) :
    ∃ o', member (Zod.optional s) name ms' = .ok o' ∧ o'.map f = (o.map f).map norm := by
  rw [member_ok] at hread
  cases hv : ms.lookup (js name) with
  | none =>
      rw [hv] at hread
      cases hread
      exact ⟨none, member_ok.2 (by rw [hwritten]; rfl), rfl⟩
  | some v =>
      rw [hv, optional_some] at hread
      obtain ⟨a, ha, rfl⟩ := hread
      obtain ⟨a', ha', hnorm⟩ := h.again v a ha
      refine ⟨some a', member_ok.2 ?_, congrArg some hnorm⟩
      rw [hwritten]
      exact optional_some.2 ⟨a', ha', rfl⟩

theorem Returns.optional_depth (h : Returns s f emit norm) {name : String} {ms : Members}
    {o : Option α} (hread : member (Zod.optional s) name ms = .ok o) {b : γ} (hb : o.map f = some b) :
    Zod.depth (emit b) + 1 ≤ Zod.depth (.obj ms) := by
  rw [member_ok] at hread
  cases hv : ms.lookup (js name) with
  | none =>
      rw [hv] at hread
      cases hread
      cases hb
  | some v =>
      rw [hv, optional_some] at hread
      obtain ⟨a, ha, rfl⟩ := hread
      obtain rfl := Option.some.inj hb
      exact Nat.le_trans (Nat.succ_le_succ (h.depth v a ha)) (depth_lookup hv)

end

end Zod
