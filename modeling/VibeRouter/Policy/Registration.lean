import VibeRouter.Gateway.Context
import VibeRouter.Policy.Import
import VibeRouter.Policy.Pack
import Mathlib.Data.List.Induction

/-! # Registration of task classes

An application declares its task classes when it starts.  A class is looked up by its key alone,
so a declaration also updates a class that another application owns: the rows of other
applications stay as they are exactly if what the request declares for them is what they have
already (`registration_stays_iff`).  No sensitivity ever moves, and a new class has the one of the
pack or `local_only`. -/

namespace VibeRouter

open Effects Effects.Code Admin

/-! ### The request -/

/-- `requires` of a declared class. -/
structure DeclaredRequires where
  tools : Option Bool := none
  json_schema : Option Bool := none
  vision : Option Bool := none
  caching : Option Bool := none
  thinking_budget : Option ℤ := none

/-- The value as `jsonb` keeps it, with the shorter names first. -/
def DeclaredRequires.json (r : DeclaredRequires) : Json :=
  .obj ((r.tools.map fun b => (js "tools", Json.bool b)).toList ++
    (r.vision.map fun b => (js "vision", Json.bool b)).toList ++
    (r.caching.map fun b => (js "caching", Json.bool b)).toList ++
    (r.json_schema.map fun b => (js "json_schema", Json.bool b)).toList ++
    (r.thinking_budget.map fun n => (js "thinking_budget", Json.num n)).toList)

structure DeclaredClass where
  key : String
  description : String := ""
  requires : DeclaredRequires := {}
  defaultMaxTokens : ℤ := 1024

structure Registration where
  app : String
  version : String
  classes : List DeclaredClass

/-- A body as the schema sees it: a registration, or the path and the text of its first issue. -/
abbrev RegistrationBody : Type := Except (String × String) Registration

/-- `/^[a-z0-9][a-z0-9_]*$/`. -/
def isClassKey (key : String) : Bool :=
  match key.toList with
  | [] => false
  | c :: cs => (c.isLower || c.isDigit) && cs.all fun c => c.isLower || c.isDigit || c == '_'

/-- The issues of the class at the place `i`. -/
def declaredIssues (c : DeclaredClass) (i : ℕ) : List (String × String) :=
  let path := "classes." ++ toString i ++ "."
  (if isClassKey c.key then [] else [(path ++ "key", "Invalid")]) ++
  (if (js c.description).length ≤ 500 then []
    else [(path ++ "description", "String must contain at most 500 character(s)")]) ++
  (match c.requires.thinking_budget with
    | some n => if n ≤ 0 then [(path ++ "requires.thinking_budget", "Number must be greater than 0")]
        else []
    | none => []) ++
  (if c.defaultMaxTokens ≤ 0 then [(path ++ "defaultMaxTokens", "Number must be greater than 0")]
    else if 200000 < c.defaultMaxTokens then
      [(path ++ "defaultMaxTokens", "Number must be less than or equal to 200000")]
    else [])

/-- What `registrationSchema` makes of a body of the right types, with the defaults filled in. -/
def registrationSchema (body : Registration) : RegistrationBody :=
  match
    (if body.app = "" then [("app", "String must contain at least 1 character(s)")] else []) ++
    (if body.version = "" then [("version", "String must contain at least 1 character(s)")]
      else []) ++
    (if body.classes = [] then [("classes", "Array must contain at least 1 element(s)")]
      else if 50 < body.classes.length then
        [("classes", "Array must contain at most 50 element(s)")]
      else []) ++
    body.classes.zipIdx.flatMap fun c => declaredIssues c.1 c.2 with
  | issue :: _ => .error issue
  | [] => .ok body

/-! ### The handler -/

/-- What the answer says of a class. -/
structure RegisteredResult where
  key : String
  created : Bool
  sensitivity : Sensitivity

/-- The default of the pack is a floor. -/
def flooredTokens (cls : DeclaredClass) : ℤ :=
  max cls.defaultMaxTokens (((findPackEntry cls.key).map fun p => p.defaultMaxTokens).getD 0)

/-- The sensitivity of a class that is created. -/
def packSensitivity (key : String) : Sensitivity :=
  ((findPackEntry key).map fun p => p.sensitivity).getD .local_only

def Registration.stamp (body : Registration) : String := body.app ++ "@" ++ body.version

/-- What a declaration sets in the row that is found. -/
def declaredSet (body : Registration) (cls : DeclaredClass) (existing : TaskClassRecord) :
    TaskClassSet where
  description := some (if cls.description = "" then existing.description else cls.description)
  requires := some cls.requires.json
  defaultMaxTokens := some (flooredTokens cls)
  registeredByAppVersion := some body.stamp

/-- One pass of the loop of the handler. -/
def registerClass (body : Registration) (cls : DeclaredClass) : Admin RegisteredResult := do
  match ← op (.findTaskClass cls.key) with
  | some existing => do
      op (.updateTaskClass existing.id (declaredSet body cls existing))
      pure ⟨cls.key, false, existing.sensitivity⟩
  | none => do
      let _ ← op (.insertTaskClass ⟨packSensitivity cls.key, cls.requires.json⟩ cls.key body.app
        cls.description (flooredTokens cls) (some body.stamp))
      pure ⟨cls.key, true, packSensitivity cls.key⟩

def registerClasses (body : Registration) : List DeclaredClass → Admin (List RegisteredResult)
  | [] => pure []
  | cls :: classes => do
      let result ← registerClass body cls
      let results ← registerClasses body classes
      pure (result :: results)

/-- `POST /v1/task-classes/register` for a token of `auth`. -/
def registerTaskClassRegistration (auth : AuthContext) (raw : RegistrationBody) :
    Admin (List RegisteredResult) :=
  match raw with
  | .error (path, message) =>
      fail .invalid_request ("invalid registration: " ++ path ++ ": " ++ message)
  | .ok body =>
      if body.app ≠ auth.app then
        fail .auth_error ("token is for app " ++ auth.app ++ ", not " ++ body.app)
      else do
        let results ← registerClasses body body.classes
        op (.invalidate (some auth.firmId))
        pure results

/-! ### What a declaration does to a row -/

/-- The row after the declarations `cs`, one after the other. -/
def settle (body : Registration) (cs : List DeclaredClass) (row : TaskClassRecord) :
    TaskClassRecord :=
  cs.foldl (fun row c => if row.key = c.key then (declaredSet body c row).apply row else row) row

section
variable {body : Registration} {cs : List DeclaredClass} {c : DeclaredClass} {row : TaskClassRecord}

theorem settle_cons : settle body (c :: cs) row =
    settle body cs (if row.key = c.key then (declaredSet body c row).apply row else row) := rfl

theorem settle_append (cs' : List DeclaredClass) :
    settle body (cs ++ cs') row = settle body cs' (settle body cs row) := List.foldl_append ..

/-- What no declaration changes. -/
theorem settle_keeps (body : Registration) (cs : List DeclaredClass) (row : TaskClassRecord) :
    (settle body cs row).id = row.id ∧ (settle body cs row).key = row.key ∧
      (settle body cs row).app = row.app ∧ (settle body cs row).sensitivity = row.sensitivity := by
  induction cs generalizing row with
  | nil => exact ⟨rfl, rfl, rfl, rfl⟩
  | cons c cs ih =>
      rw [settle_cons]
      split
      · obtain ⟨hid, hkey, happ, hsensitivity⟩ := ih ((declaredSet body c row).apply row)
        exact ⟨hid, hkey, happ, hsensitivity⟩
      · exact ih row

end

/-- The last of the declarations for the key of the row. -/
def lastFor (cs : List DeclaredClass) (key : String) : Option DeclaredClass :=
  (cs.filter fun c => c.key = key).getLast?

/-- The last description declared for the key. -/
def lastDescription (cs : List DeclaredClass) (key : String) : Option String :=
  ((cs.filter fun c => c.key = key ∧ c.description ≠ "").getLast?).map fun c => c.description

/-- The row has what the request declares for its key. -/
def Registration.Agrees (body : Registration) (row : TaskClassRecord) : Prop :=
  ∀ c, lastFor body.classes row.key = some c →
    row.registeredByAppVersion = some body.stamp ∧ row.requires = c.requires.json ∧
    row.defaultMaxTokens = flooredTokens c ∧
    ∀ text, lastDescription body.classes row.key = some text → row.description = text

/-- The row with what the last declaration `c` for it sets. -/
def declaredRow (body : Registration) (cs : List DeclaredClass) (row : TaskClassRecord)
    (c : DeclaredClass) : TaskClassRecord :=
  { row with
    description := (lastDescription cs row.key).getD row.description
    requires := c.requires.json
    defaultMaxTokens := flooredTokens c
    registeredByAppVersion := some body.stamp }

section
variable {body : Registration} {cs : List DeclaredClass} {row : TaskClassRecord}

theorem settle_eq :
    settle body cs row = (lastFor cs row.key).elim row (declaredRow body cs row) := by
  induction cs using List.reverseRecOn with
  | nil => rfl
  | append_singleton cs c ih =>
      have hkeep := settle_keeps body cs row
      rw [settle_append, settle_cons, hkeep.2.1]
      by_cases hkey : row.key = c.key
      · have hlast : lastFor (cs ++ [c]) row.key = some c := by
          simp [lastFor, hkey]
        rw [if_pos hkey, hlast, ih]
        by_cases htext : c.description = ""
        · have hdescription : lastDescription (cs ++ [c]) row.key = lastDescription cs row.key := by
            simp [lastDescription, htext]
          cases hbefore : lastFor cs row.key with
          | none =>
              have hnone : lastDescription cs row.key = none := by
                unfold lastDescription
                rw [Option.map_eq_none_iff, List.getLast?_eq_none_iff, List.filter_eq_nil_iff]
                intro c' hc' hboth
                have hall := List.filter_eq_nil_iff.1 (List.getLast?_eq_none_iff.1 hbefore) c' hc'
                simp only [decide_eq_true_eq] at hall hboth
                exact hall hboth.1
              simp [settle, declaredSet, declaredRow, TaskClassSet.apply, htext, hdescription, hnone]
          | some c' =>
              simp [settle, declaredSet, declaredRow, TaskClassSet.apply, htext, hdescription]
        · have hdescription : lastDescription (cs ++ [c]) row.key = some c.description := by
            simp [lastDescription, htext, hkey]
          cases lastFor cs row.key with
          | none =>
              simp [settle, declaredSet, declaredRow, TaskClassSet.apply, htext, hdescription]
          | some c' =>
              simp [settle, declaredSet, declaredRow, TaskClassSet.apply, htext, hdescription]
      · have hlast : lastFor (cs ++ [c]) row.key = lastFor cs row.key := by
          simp [lastFor, Ne.symm hkey]
        have hdescription : lastDescription (cs ++ [c]) row.key = lastDescription cs row.key := by
          simp [lastDescription, Ne.symm hkey]
        have hrow : declaredRow body (cs ++ [c]) row = declaredRow body cs row := by
          funext c'
          unfold declaredRow
          rw [hdescription]
        rw [if_neg hkey, hlast, hrow]
        exact ih

theorem settle_eq_iff : settle body body.classes row = row ↔ body.Agrees row := by
  rw [settle_eq]
  unfold Registration.Agrees
  cases hlast : lastFor body.classes row.key with
  | none =>
      refine iff_of_true rfl ?_
      intro c hc
      cases hc
  | some c =>
      rw [Option.elim_some]
      constructor
      · rintro h c' ⟨⟩
        refine ⟨(congrArg TaskClassRecord.registeredByAppVersion h).symm,
          (congrArg (fun row => row.requires) h).symm,
          (congrArg TaskClassRecord.defaultMaxTokens h).symm, fun text htext => ?_⟩
        have hdescription := congrArg TaskClassRecord.description h
        unfold declaredRow at hdescription
        rw [htext] at hdescription
        exact hdescription.symm
      · intro h
        obtain ⟨hstamp, hrequires, htokens, htext⟩ := h c rfl
        have hdescription : (lastDescription body.classes row.key).getD row.description =
            row.description := by
          cases hd : lastDescription body.classes row.key with
          | none => rfl
          | some text => exact (htext text hd).symm
        unfold declaredRow
        rw [hdescription, ← hstamp, ← hrequires, ← htokens]

end

/-! ### What a registration does to the tables -/

/-- A row that the application of `body` has created. -/
structure CreatedBy (body : Registration) (row : TaskClassRecord) : Prop where
  app : row.app = body.app
  sensitivity : row.sensitivity = packSensitivity row.key

/-- The row of a class that is created. -/
def createdClass (body : Registration) (c : DeclaredClass) (id : Uuid) : TaskClassRecord where
  sensitivity := packSensitivity c.key
  requires := c.requires.json
  id := id
  key := c.key
  app := body.app
  description := c.description
  defaultMaxTokens := flooredTokens c
  registeredByAppVersion := some body.stamp

/-- The declarations `cs` lead from `db` to `db'`. -/
structure Declared (body : Registration) (cs : List DeclaredClass) (db db' : AdminDb) : Prop where
  valid : db'.Valid
  others : db' = { db with taskClasses := db'.taskClasses }
  rows : ∃ created, db'.taskClasses = db.taskClasses.map (settle body cs) ++ created ∧
    ∀ row ∈ created, CreatedBy body row ∧ ∀ row' ∈ db.taskClasses, row'.id ≠ row.id

section
variable {body : Registration} {cs : List DeclaredClass} {c : DeclaredClass} {db db₁ db' : AdminDb}

theorem Declared.nil (h : db.Valid) : Declared body [] db db where
  valid := h
  others := rfl
  rows := by
    refine ⟨[], ?_, fun row hrow => by cases hrow⟩
    rw [List.append_nil]
    exact (List.map_id db.taskClasses).symm

theorem Declared.cons (h : Declared body [c] db db₁) (hrest : Declared body cs db₁ db') :
    Declared body (c :: cs) db db' where
  valid := hrest.valid
  others := by
    rw [hrest.others, h.others]
  rows := by
    obtain ⟨created, hrows, hcreated⟩ := h.rows
    obtain ⟨later, hrows', hlater⟩ := hrest.rows
    refine ⟨created.map (settle body cs) ++ later, ?_, ?_⟩
    · rw [hrows', hrows, List.map_append, List.map_map, List.append_assoc]
      rfl
    · intro row hrow
      rcases List.mem_append.1 hrow with hrow | hrow
      · obtain ⟨row₀, hrow₀, rfl⟩ := List.mem_map.1 hrow
        obtain ⟨hby, hid⟩ := hcreated row₀ hrow₀
        have hkeep := settle_keeps body cs row₀
        refine ⟨⟨hkeep.2.2.1.trans hby.app, ?_⟩, fun row' hrow' => ?_⟩
        · rw [hkeep.2.2.2, hkeep.2.1]
          exact hby.sensitivity
        · rw [hkeep.1]
          exact hid row' hrow'
      · obtain ⟨hby, hid⟩ := hlater row hrow
        refine ⟨hby, fun row' hrow' => ?_⟩
        have hmem : settle body [c] row' ∈ db₁.taskClasses := by
          rw [hrows]
          exact List.mem_append_left _ (List.mem_map_of_mem hrow')
        have hne := hid _ hmem
        rwa [(settle_keeps body [c] row').1] at hne

/-- A class that is stored is updated in its row. -/
theorem Declared.update {existing : TaskClassRecord} (h : db.Valid)
    (hfind : db.findTaskClass c.key = some existing) :
    Declared body [c] db (db.updateTaskClass existing.id (declaredSet body c existing)) where
  valid := h.updateTaskClass _ _
  others := rfl
  rows := by
    obtain ⟨hmem, hkey⟩ := AdminDb.findTaskClass_mem hfind
    refine ⟨[], ?_, fun row hrow => by cases hrow⟩
    rw [List.append_nil]
    refine List.map_congr_left fun row hrow => ?_
    show _ = if row.key = c.key then (declaredSet body c row).apply row else row
    by_cases hid : row.id = existing.id
    · obtain rfl : row = existing := h.key_eq hrow hmem hid
      rw [if_pos rfl, if_pos hkey]
    · have hne : row.key ≠ c.key := by
        intro hsame
        exact hid (congrArg TaskClassRecord.id
          (Rows.eq_of_key h.classKeys hrow hmem (hsame.trans hkey.symm)))
      rw [if_neg hid, if_neg hne]

theorem Declared.insert {id : Uuid} (h : db.Valid) (hnone : db.findTaskClass c.key = none)
    (hid : ∀ row ∈ db.taskClasses, row.id ≠ id) :
    Declared body [c] db (db.insertTaskClass (createdClass body c id)) where
  valid := h.insertTaskClass hid hnone
  others := rfl
  rows := by
    refine ⟨[createdClass body c id], ?_, ?_⟩
    · have hsame : db.taskClasses.map (settle body [c]) = db.taskClasses.map fun row => row := by
        refine List.map_congr_left fun row hrow => ?_
        rw [AdminDb.findTaskClass_eq, Rows.find_eq_none_iff] at hnone
        exact if_neg (hnone row hrow)
      rw [hsame, List.map_id']
      rfl
    · intro row hrow
      rw [List.mem_singleton.1 hrow]
      exact ⟨⟨rfl, rfl⟩, hid⟩

end

open AdminSession

section
variable {u : Unit} {q : AdminSession} {body : Registration}

theorem registerClass_spec (c : DeclaredClass) (hq : q.db.Valid) :
    (registerClass body c).wp env (fun _ _ => True)
      (fun r _ q' => r.isOk = true ∧ Declared body [c] q.db q'.db) u q := by
  simp only [registerClass, op, wp_bind, wp_perform]
  refine ⟨trivial, fun r hr => ?_⟩
  replace hr : r = q.db.findTaskClass c.key := hr
  subst hr
  cases hfind : q.db.findTaskClass c.key with
  | some existing =>
      simp only [wp_bind, wp_perform, wp_pure]
      exact ⟨trivial, fun r _ => ⟨rfl, .update hq hfind⟩⟩
  | none =>
      simp only [wp_bind, wp_perform, wp_pure]
      exact ⟨trivial, fun id hid => ⟨rfl, .insert hq hfind hid⟩⟩

theorem registerClasses_spec (cs : List DeclaredClass) (hq : q.db.Valid) :
    (registerClasses body cs).wp env (fun _ _ => True)
      (fun r _ q' => r.isOk = true ∧ Declared body cs q.db q'.db) u q := by
  induction cs generalizing u q with
  | nil => exact ⟨rfl, .nil hq⟩
  | cons c cs ih =>
      simp only [registerClasses, wp_bind]
      refine wp_mono (registerClass_spec c hq) ?_
      rintro r u' q₁ ⟨hok, hfirst⟩
      cases r with
      | error e => cases hok
      | ok result =>
          refine wp_mono (ih hfirst.valid) ?_
          rintro r u'' q' ⟨hok, hrest⟩
          cases r with
          | error e => cases hok
          | ok results => exact ⟨rfl, hfirst.cons hrest⟩

end

/-! ### Whose classes a registration changes -/

/-- From `db` to `db'` an application has changed classes of its own only, has kept all
sensitivities, and has created classes of its own, none less strict than the pack has it. -/
structure StaysInApp (app : String) (db db' : AdminDb) : Prop where
  otherTables : db' = { db with taskClasses := db'.taskClasses }
  otherApps : ∀ row ∈ db.taskClasses, row.app ≠ app → row ∈ db'.taskClasses
  sensitivity : ∀ row ∈ db.taskClasses, ∃ row' ∈ db'.taskClasses, row'.id = row.id ∧
    row'.key = row.key ∧ row'.app = row.app ∧ row'.sensitivity = row.sensitivity
  created : ∀ row ∈ db'.taskClasses, (∀ row' ∈ db.taskClasses, row'.id ≠ row.id) →
    row.app = app ∧ (row.sensitivity ≠ .local_only →
      ∃ entry ∈ DEFAULT_PACK, entry.key = row.key ∧ entry.sensitivity = row.sensitivity)

/-- The request is refused, or every row of another application has what is declared for it. -/
def RegistrationBody.Stays (auth : AuthContext) (db : AdminDb) : RegistrationBody → Prop
  | .error _ => True
  | .ok body => body.app ≠ auth.app ∨
      ∀ row ∈ db.taskClasses, row.app ≠ auth.app → body.Agrees row

theorem StaysInApp.refl (app : String) (db : AdminDb) : StaysInApp app db db where
  otherTables := rfl
  otherApps := fun _ hrow _ => hrow
  sensitivity := fun row hrow => ⟨row, hrow, rfl, rfl, rfl, rfl⟩
  created := fun row hrow hnew => absurd rfl (hnew row hrow)

theorem Declared.stays_iff {body : Registration} {db db' : AdminDb}
    (h : Declared body body.classes db db') : StaysInApp body.app db db' ↔
      ∀ row ∈ db.taskClasses, row.app ≠ body.app → body.Agrees row := by
  obtain ⟨created, hrows, hcreated⟩ := h.rows
  have hsettled : ∀ row ∈ db.taskClasses, settle body body.classes row ∈ db'.taskClasses := by
    intro row hrow
    rw [hrows]
    exact List.mem_append_left _ (List.mem_map_of_mem hrow)
  constructor
  · intro hstays row hrow hother
    have hsame := h.valid.key_eq (hsettled row hrow) (hstays.otherApps row hrow hother)
      (settle_keeps body body.classes row).1
    exact settle_eq_iff.1 hsame
  · intro hagrees
    refine ⟨h.others, fun row hrow hother => ?_, fun row hrow => ?_, fun row hrow hnew => ?_⟩
    · have hmem := hsettled row hrow
      rwa [settle_eq_iff.2 (hagrees row hrow hother)] at hmem
    · exact ⟨_, hsettled row hrow, settle_keeps body body.classes row⟩
    · rw [hrows] at hrow
      rcases List.mem_append.1 hrow with hrow | hrow
      · obtain ⟨row₀, hrow₀, rfl⟩ := List.mem_map.1 hrow
        exact absurd (settle_keeps body body.classes row₀).1.symm (hnew row₀ hrow₀)
      · obtain ⟨hby, -⟩ := hcreated row hrow
        refine ⟨hby.app, fun hsensitivity => ?_⟩
        rw [hby.sensitivity] at hsensitivity ⊢
        unfold packSensitivity at hsensitivity ⊢
        cases hentry : findPackEntry row.key with
        | none =>
            rw [hentry] at hsensitivity
            exact absurd rfl hsensitivity
        | some entry =>
            obtain ⟨hmem, hkey⟩ := findPackEntry_some hentry
            exact ⟨entry, hmem, hkey, rfl⟩

/-- **Registration and the classes of other applications.**  Whatever is stored and whatever an
application sends, the call keeps to the application's own classes, moves no sensitivity and
creates classes as strict as the pack has them, exactly if the request is refused or every class
of another application already has what the request declares for it last. -/
theorem registration_stays_iff {db : AdminDb} (hdb : db.Valid) (auth : AuthContext)
    (raw : RegistrationBody) {r : Except Thrown (List RegisteredResult)} {u : Unit}
    {q : AdminSession} (hrun : Prog.Run env (registerTaskClassRegistration auth raw u)
      { db := db } (.ret (r, u)) q) :
    StaysInApp auth.app db q.db ↔ raw.Stays auth db := by
  have hwp : (registerTaskClassRegistration auth raw).wp env (fun _ _ => True)
      (fun _ _ q' => StaysInApp auth.app db q'.db ↔ raw.Stays auth db) u { db := db } := by
    cases raw with
    | error issue => exact iff_of_true (.refl _ _) trivial
    | ok body =>
        unfold registerTaskClassRegistration
        by_cases happ : body.app = auth.app
        · simp only [happ, ne_eq, not_true_eq_false, if_false, op, wp_bind, wp_perform, wp_pure]
          refine wp_mono (registerClasses_spec body.classes hdb) ?_
          rintro r u' q₁ ⟨hok, hdeclared⟩
          have hiff := hdeclared.stays_iff
          have hstays : RegistrationBody.Stays auth db (.ok body) ↔
              ∀ row ∈ db.taskClasses, row.app ≠ body.app → body.Agrees row := by
            unfold RegistrationBody.Stays
            simp [happ]
          rw [happ] at hiff
          rw [happ] at hstays
          rw [hstays]
          cases r with
          | error e => cases hok
          | ok results => exact ⟨trivial, fun r _ => hiff⟩
        · simp only [ne_eq, happ, not_false_eq_true, if_true]
          exact iff_of_true (.refl _ _) (Or.inl happ)
  have hpost := Prog.post_of_run hwp hrun
  exact hpost

/-! ### Sample registrations -/

namespace Sample

/-- The token of another application than the one that owns `adminClass`. -/
def otherApp : AuthContext where
  firmId := adminFirm
  app := "other"
  scopes := []
  tokenId := adminFirm

/-- It declares the class of that application, with requirements of its own. -/
def trespass : Registration where
  app := "other"
  version := "1"
  classes := [{ key := "k", requires := { tools := some true } }]

/-- It declares a class of its own. -/
def ownClass : Registration where
  app := "other"
  version := "1"
  classes := [{ key := "other_memo" }]

theorem trespass_accepted : (registrationSchema trespass).isOk = true := by decide

theorem trespass_run : ∃ r q, Prog.Run env (registerTaskClassRegistration otherApp (.ok trespass) ())
    { db := adminDb } (.ret (r, ())) q ∧ adminClass ∉ q.db.taskClasses := by
  refine ⟨_, _, .step (some adminClass) rfl (.step () trivial (.step () trivial (.refl _ _))), ?_⟩
  intro hmem
  have heq := List.mem_singleton.1 hmem
  have hversion := congrArg TaskClassRecord.registeredByAppVersion heq
  cases hversion

/-- An application has changed the class of another one. -/
theorem registration_leaves_app :
    ¬∀ (db : AdminDb) (auth : AuthContext) (body : Registration)
      (r : Except Thrown (List RegisteredResult)) (u : Unit) (q : AdminSession), db.Valid →
      (registrationSchema body).isOk = true →
      Prog.Run env (registerTaskClassRegistration auth (.ok body) u) { db := db } (.ret (r, u)) q →
      StaysInApp auth.app db q.db := by
  intro h
  obtain ⟨r, q, hrun, hgone⟩ := trespass_run
  have hstays := h adminDb otherApp trespass r () q adminDb_valid trespass_accepted hrun
  exact hgone (hstays.otherApps adminClass List.mem_cons_self (by decide))

theorem ownClass_run : ∃ r q, Prog.Run env (registerTaskClassRegistration otherApp (.ok ownClass) ())
    { db := adminDb } (.ret (r, ())) q := by
  refine ⟨_, _, .step none rfl (.step (⟨"e1", by decide⟩ : Uuid) ?_ (.step () trivial (.refl _ _)))⟩
  intro row hrow
  rw [List.mem_singleton.1 hrow]
  decide

theorem ownClass_stays : ∃ r q, Prog.Run env
    (registerTaskClassRegistration otherApp (.ok ownClass) ()) { db := adminDb } (.ret (r, ())) q ∧
    StaysInApp "other" adminDb q.db := by
  obtain ⟨r, q, hrun⟩ := ownClass_run
  refine ⟨r, q, hrun, (registration_stays_iff adminDb_valid otherApp (.ok ownClass) hrun).2 ?_⟩
  refine Or.inr fun row hrow _ c hc => ?_
  rw [List.mem_singleton.1 hrow] at hc
  cases hc

end Sample

end VibeRouter
