import Mathlib.Data.List.Lex
import Mathlib.Data.List.Sort
import VibeRouter.Gateway.Errors
import VibeRouter.Lib.JsString

/-! # Migrations

`migrate` runs the scripts of the directories that are not applied in the order of their names, or takes
applied ones back in the reverse order.  Each is a transaction that also notes the name; the first that
fails ends the run.

Over every history of such runs, in both directions, with any number of steps, with failures and with
releases that add directories behind the others, what is applied are the first directories, and the schema
is what their scripts make of an empty database (`migrations_in_order`). -/

namespace VibeRouter

namespace Migrations

variable {σ : Type}

/-- What `up.sql` and `down.sql` of a directory do to a schema. -/
structure Scripts (σ : Type) where
  up : JsString → σ → Except Thrown σ
  down : JsString → σ → Except Thrown σ

structure DirEntry where
  name : JsString
  isDirectory : Bool

/-- The entries of the directory of migrations.  No two have one name. -/
structure Listing where
  entries : List DirEntry
  nodup : (entries.map DirEntry.name).Nodup

def listMigrationDirs (listing : Listing) : List JsString :=
  ((listing.entries.filter DirEntry.isDirectory).map DirEntry.name).insertionSort fun a b => a ≤ b

/-- The names in `_migrations`, and the schema. -/
structure Database (σ : Type) where
  applied : List JsString
  schema : σ
deriving DecidableEq

inductive Direction
  | up | down

/-- `xs.slice(0, steps)`; no number for `Infinity`, and 0 for what is not a number. -/
def sliceTo (steps : Option ℤ) (xs : List JsString) : List JsString :=
  match steps with
  | none => xs
  | some k => xs.take (if k < 0 then xs.length - k.natAbs else k.toNat)

def targets (all applied : List JsString) (steps : Option ℤ) : Direction → List JsString
  | .up => sliceTo steps (all.filter fun n => !applied.contains n)
  | .down => sliceTo steps (all.filter fun n => applied.contains n).reverse

/-- One transaction.  `fails` says which fail of themselves, or for want of a file or a connection. -/
def transaction (scripts : Scripts σ) (fails : JsString → Option Thrown) (direction : Direction)
    (name : JsString) (d : Database σ) : Except Thrown (Database σ) :=
  match fails name with
  | some err => .error err
  | none =>
      match direction with
      | .up => do
          let schema ← scripts.up name d.schema
          -- the name is a primary key
          if d.applied.contains name then .error .other else .ok ⟨d.applied ++ [name], schema⟩
      | .down => do
          let schema ← scripts.down name d.schema
          .ok ⟨d.applied.filter fun n => n ≠ name, schema⟩

/-- The loop, with the names in `ran` unless it has thrown. -/
def runTargets (scripts : Scripts σ) (fails : JsString → Option Thrown) (direction : Direction) :
    List JsString → Database σ → Database σ × Except Thrown (List JsString)
  | [], d => (d, .ok [])
  | name :: rest, d =>
      match transaction scripts fails direction name d with
      | .error err => (d, .error err)
      | .ok d' =>
          let (d'', ran) := runTargets scripts fails direction rest d'
          (d'', ran.map fun names => name :: names)

def migrate (scripts : Scripts σ) (listing : Listing) (fails : JsString → Option Thrown)
    (direction : Direction) (steps : Option ℤ) (d : Database σ) :
    Database σ × Except Thrown (List JsString) :=
  runTargets scripts fails direction (targets (listMigrationDirs listing) d.applied steps direction) d

/-- What `status` says of each directory. -/
def status (listing : Listing) (d : Database σ) : List (JsString × Bool) :=
  (listMigrationDirs listing).map fun name => (name, d.applied.contains name)

/-- The histories of a database that starts empty.  A release may add directories behind the others; it does
not change the scripts of a name. -/
inductive History (scripts : Scripts σ) (empty : σ) : Listing → Database σ → Prop
  | start (listing : Listing) : History scripts empty listing ⟨[], empty⟩
  | run {listing : Listing} {d : Database σ} (fails : JsString → Option Thrown) (direction : Direction)
      (steps : Option ℤ) :
      History scripts empty listing d →
      History scripts empty listing (migrate scripts listing fails direction steps d).1
  | release {listing listing' : Listing} {d : Database σ} :
      History scripts empty listing d → listMigrationDirs listing <+: listMigrationDirs listing' →
      History scripts empty listing' d

/-! ### The schema of what is applied -/

/-- The scripts one after the other. -/
def upAll (scripts : Scripts σ) (names : List JsString) (s : σ) : Except Thrown σ :=
  names.foldlM (fun s name => scripts.up name s) s

/-- Every `down.sql` that succeeds takes back what `up.sql` has made of the schema before it. -/
def Reverts (scripts : Scripts σ) (empty : σ) (all : List JsString) : Prop :=
  ∀ before name s s', before ++ [name] <+: all → upAll scripts before empty = .ok s →
    scripts.up name s = .ok s' → ∀ s'', scripts.down name s' = .ok s'' → s'' = s

/-- The first directories are applied, and the schema is theirs. -/
structure InOrder (scripts : Scripts σ) (empty : σ) (all : List JsString) (d : Database σ) : Prop where
  applied : d.applied <+: all
  schema : upAll scripts d.applied empty = .ok d.schema

theorem upAll_concat (scripts : Scripts σ) (names : List JsString) (name : JsString) (s : σ) :
    upAll scripts (names ++ [name]) s = upAll scripts names s >>= scripts.up name := by
  unfold upAll
  simp only [List.foldlM_append, List.foldlM_cons, List.foldlM_nil, bind_pure]

theorem nodup_listMigrationDirs (listing : Listing) : (listMigrationDirs listing).Nodup := by
  unfold listMigrationDirs
  rw [(List.perm_insertionSort _ _).nodup_iff]
  exact listing.nodup.sublist ((List.filter_sublist ..).map _)

theorem sliceTo_initial (steps : Option ℤ) (xs : List JsString) : sliceTo steps xs <+: xs := by
  unfold sliceTo
  split
  · exact List.prefix_refl xs
  · exact List.take_prefix _ xs

section
variable {scripts : Scripts σ} {empty : σ} {all : List JsString}

/-- The transactions of a run upwards. -/
theorem transaction_up {fails : JsString → Option Thrown} {name : JsString} {d d' : Database σ}
    (h : transaction scripts fails .up name d = .ok d') :
    scripts.up name d.schema = .ok d'.schema ∧ d'.applied = d.applied ++ [name] := by
  unfold transaction at h
  split at h
  · cases h
  · cases hup : scripts.up name d.schema with
    | error err =>
        rw [hup] at h
        cases h
    | ok schema =>
        rw [hup] at h
        dsimp only [bind, Except.bind] at h
        split at h
        · cases h
        · cases h
          exact ⟨rfl, rfl⟩

theorem transaction_down {fails : JsString → Option Thrown} {name : JsString} {d d' : Database σ}
    (h : transaction scripts fails .down name d = .ok d') :
    scripts.down name d.schema = .ok d'.schema ∧ d'.applied = d.applied.filter fun n => n ≠ name := by
  unfold transaction at h
  split at h
  · cases h
  · cases hdown : scripts.down name d.schema with
    | error err =>
        rw [hdown] at h
        cases h
    | ok schema =>
        rw [hdown] at h
        cases h
        exact ⟨rfl, rfl⟩

/-- A run upwards, whatever fails in it, leaves the first directories applied. -/
theorem runTargets_up (fails : JsString → Option Thrown) {d : Database σ}
    (h : InOrder scripts empty all d) {ts : List JsString} (hts : d.applied ++ ts <+: all) :
    InOrder scripts empty all (runTargets scripts fails .up ts d).1 ∧
      ∀ ran, (runTargets scripts fails .up ts d).2 = .ok ran →
        ran = ts ∧ (runTargets scripts fails .up ts d).1.applied = d.applied ++ ts := by
  induction ts generalizing d with
  | nil =>
      refine ⟨h, ?_⟩
      rintro _ ⟨⟩
      exact ⟨rfl, (List.append_nil _).symm⟩
  | cons name rest ih =>
      unfold runTargets
      cases htrans : transaction scripts fails .up name d with
      | error err =>
          refine ⟨h, ?_⟩
          rintro _ ⟨⟩
      | ok d' =>
          obtain ⟨hup, happlied⟩ := transaction_up htrans
          have hassoc : d'.applied ++ rest = d.applied ++ name :: rest := by
            rw [happlied, List.append_assoc]
            rfl
          have hrest : d'.applied ++ rest <+: all := by
            rw [hassoc]
            exact hts
          have hnext : InOrder scripts empty all d' := by
            refine ⟨(List.prefix_append _ _).trans hrest, ?_⟩
            rw [happlied, upAll_concat, h.schema]
            exact hup
          obtain ⟨horder, hran⟩ := ih hnext hrest
          refine ⟨horder, fun ran heq => ?_⟩
          dsimp only at heq ⊢
          cases hr : (runTargets scripts fails .up rest d').2 with
          | error err =>
              rw [hr] at heq
              cases heq
          | ok names =>
              obtain ⟨hnames, hall⟩ := hran names hr
              rw [hr] at heq
              cases heq
              rw [hnames, hall, hassoc]
              exact ⟨rfl, rfl⟩

/-- A run downwards takes back the last of what is applied. -/
theorem runTargets_down (fails : JsString → Option Thrown) (hreverts : Reverts scripts empty all)
    (hnodup : all.Nodup) {d : Database σ} (h : InOrder scripts empty all d) {kept ts : List JsString}
    (hts : d.applied = kept ++ ts.reverse) :
    InOrder scripts empty all (runTargets scripts fails .down ts d).1 ∧
      ∀ ran, (runTargets scripts fails .down ts d).2 = .ok ran →
        ran = ts ∧ (runTargets scripts fails .down ts d).1.applied = kept := by
  induction ts generalizing d with
  | nil =>
      refine ⟨h, ?_⟩
      rintro _ ⟨⟩
      exact ⟨rfl, hts.trans (List.append_nil _)⟩
  | cons name rest ih =>
      unfold runTargets
      cases htrans : transaction scripts fails .down name d with
      | error err =>
          refine ⟨h, ?_⟩
          rintro _ ⟨⟩
      | ok d' =>
          obtain ⟨hdown, happlied⟩ := transaction_down htrans
          have hlast : d.applied = (kept ++ rest.reverse) ++ [name] := by
            rw [hts, List.reverse_cons, List.append_assoc]
          have hinitial : (kept ++ rest.reverse) ++ [name] <+: all := by
            rw [← hlast]
            exact h.applied
          have hfresh : name ∉ kept ++ rest.reverse := by
            have hdistinct := hinitial.sublist.nodup hnodup
            intro hmem
            exact (List.nodup_append.1 hdistinct).2.2 name hmem name (List.mem_singleton.2 rfl) rfl
          have hnames : d'.applied = kept ++ rest.reverse := by
            rw [happlied, hlast, List.filter_append, List.filter_eq_self.2]
            · simp
            · intro n hn
              simp only [decide_eq_true_eq]
              rintro rfl
              exact hfresh hn
          have hnext : InOrder scripts empty all d' := by
            refine ⟨by rw [hnames]; exact (List.prefix_append _ _).trans hinitial, ?_⟩
            have hschema := h.schema
            rw [hlast, upAll_concat] at hschema
            cases hbefore : upAll scripts (kept ++ rest.reverse) empty with
            | error err =>
                rw [hbefore] at hschema
                cases hschema
            | ok s =>
                rw [hbefore] at hschema
                rw [hnames, hbefore, hreverts _ name s d.schema hinitial hbefore hschema _ hdown]
          obtain ⟨horder, hran⟩ := ih hnext hnames
          refine ⟨horder, fun ran heq => ?_⟩
          dsimp only at heq ⊢
          cases hr : (runTargets scripts fails .down rest d').2 with
          | error err =>
              rw [hr] at heq
              cases heq
          | ok names =>
              obtain ⟨heqNames, hall⟩ := hran names hr
              rw [hr] at heq
              cases heq
              rw [heqNames, hall]
              exact ⟨rfl, rfl⟩

/-- With the first directories applied, the others are the rest. -/
theorem filter_applied {applied rest : List JsString} (hnodup : (applied ++ rest).Nodup) :
    ((applied ++ rest).filter fun n => !applied.contains n) = rest ∧
      ((applied ++ rest).filter fun n => applied.contains n) = applied := by
  have hfresh : ∀ n ∈ rest, n ∉ applied := fun n hn hmem =>
    (List.nodup_append.1 hnodup).2.2 n hmem n hn rfl
  constructor
  · rw [List.filter_append, List.filter_eq_nil_iff.2 (by simp), List.filter_eq_self.2 (by simpa using hfresh)]
    rfl
  · rw [List.filter_append, List.filter_eq_self.2 (by simp),
      List.filter_eq_nil_iff.2 (by simpa using hfresh), List.append_nil]

end

section
variable {scripts : Scripts σ} {empty : σ} {listing : Listing} {d : Database σ}

theorem migrate_up (fails : JsString → Option Thrown)
    (h : InOrder scripts empty (listMigrationDirs listing) d) (steps : Option ℤ) :
    ∃ rest, listMigrationDirs listing = d.applied ++ rest ∧
      InOrder scripts empty (listMigrationDirs listing) (migrate scripts listing fails .up steps d).1 ∧
      ∀ ran, (migrate scripts listing fails .up steps d).2 = .ok ran → ran = sliceTo steps rest ∧
        (migrate scripts listing fails .up steps d).1.applied = d.applied ++ ran := by
  obtain ⟨rest, hall⟩ := h.applied
  have hnodup := nodup_listMigrationDirs listing
  have htargets : targets (listMigrationDirs listing) d.applied steps .up = sliceTo steps rest := by
    unfold targets
    rw [← hall] at hnodup ⊢
    rw [(filter_applied hnodup).1]
  have hts : d.applied ++ sliceTo steps rest <+: listMigrationDirs listing := by
    rw [← hall]
    exact (List.prefix_append_right_inj _).2 (sliceTo_initial steps rest)
  obtain ⟨horder, hran⟩ := runTargets_up fails h hts
  unfold migrate
  rw [htargets]
  refine ⟨rest, hall.symm, horder, fun ran heq => ?_⟩
  obtain ⟨hnames, happlied⟩ := hran ran heq
  exact ⟨hnames, by rw [happlied, hnames]⟩

theorem migrate_down (fails : JsString → Option Thrown)
    (hreverts : Reverts scripts empty (listMigrationDirs listing))
    (h : InOrder scripts empty (listMigrationDirs listing) d) (steps : Option ℤ) :
    InOrder scripts empty (listMigrationDirs listing) (migrate scripts listing fails .down steps d).1 ∧
      ∀ ran, (migrate scripts listing fails .down steps d).2 = .ok ran →
        ran = sliceTo steps d.applied.reverse ∧
        d.applied = (migrate scripts listing fails .down steps d).1.applied ++ ran.reverse := by
  obtain ⟨rest, hall⟩ := h.applied
  have hnodup := nodup_listMigrationDirs listing
  have htargets : targets (listMigrationDirs listing) d.applied steps .down =
      sliceTo steps d.applied.reverse := by
    unfold targets
    rw [← hall] at hnodup ⊢
    rw [(filter_applied hnodup).2]
  obtain ⟨kept, hkept⟩ := sliceTo_initial steps d.applied.reverse
  have hts : d.applied = kept.reverse ++ (sliceTo steps d.applied.reverse).reverse := by
    rw [← List.reverse_append, hkept, List.reverse_reverse]
  obtain ⟨horder, hran⟩ := runTargets_down fails hreverts hnodup h hts
  unfold migrate
  rw [htargets]
  refine ⟨horder, fun ran heq => ?_⟩
  obtain ⟨hnames, happlied⟩ := hran ran heq
  refine ⟨hnames, ?_⟩
  rw [happlied, hnames]
  exact hts

end

/-- A history stays in order as long as the scripts of its last release revert. -/
theorem History.inOrder {scripts : Scripts σ} {empty : σ} {listing : Listing} {d : Database σ}
    (hhistory : History scripts empty listing d)
    (hreverts : Reverts scripts empty (listMigrationDirs listing)) :
    InOrder scripts empty (listMigrationDirs listing) d := by
  induction hhistory with
  | start listing => exact ⟨List.nil_prefix, rfl⟩
  | run fails direction steps _ ih =>
      cases direction with
      | up =>
          obtain ⟨-, -, horder, -⟩ := migrate_up fails (ih hreverts) steps
          exact horder
      | down => exact (migrate_down fails hreverts (ih hreverts) steps).1
  | release _ hinitial ih =>
      have hold := ih fun before name s s' hall => hreverts before name s s' (hall.trans hinitial)
      exact ⟨hold.applied.trans hinitial, hold.schema⟩

/-- What `status` prints: first the directories that are applied, then the others. -/
theorem status_eq {scripts : Scripts σ} {empty : σ} {listing : Listing} {d : Database σ}
    (h : InOrder scripts empty (listMigrationDirs listing) d) :
    ∃ rest, listMigrationDirs listing = d.applied ++ rest ∧
      status listing d = d.applied.map (fun n => (n, true)) ++ rest.map fun n => (n, false) := by
  obtain ⟨rest, hall⟩ := h.applied
  have hnodup := nodup_listMigrationDirs listing
  rw [← hall] at hnodup
  refine ⟨rest, hall.symm, ?_⟩
  unfold status
  rw [← hall, List.map_append]
  congr 1
  · refine List.map_congr_left fun n hn => ?_
    simp [hn]
  · refine List.map_congr_left fun n hn => ?_
    have hfresh : n ∉ d.applied := fun hmem => (List.nodup_append.1 hnodup).2.2 n hmem n hn rfl
    simp [hfresh]

/-- **Migrations are in order.**  After every history what is applied are the first directories, with the
schema that their scripts make of an empty database, and `status` says so.  A run upwards without a number
that ends leaves all applied; and taking back as many as a run upwards has run, if this ends, takes back
these in the reverse order and restores the database. -/
theorem migrations_in_order {scripts : Scripts σ} {empty : σ} {listing : Listing} {d : Database σ}
    (hhistory : History scripts empty listing d)
    (hreverts : Reverts scripts empty (listMigrationDirs listing)) :
    (∃ rest, listMigrationDirs listing = d.applied ++ rest ∧
      status listing d = d.applied.map (fun n => (n, true)) ++ rest.map fun n => (n, false)) ∧
    upAll scripts d.applied empty = .ok d.schema ∧
    ∀ fails steps d' ran, migrate scripts listing fails .up steps d = (d', .ok ran) →
      (steps = none → d'.applied = listMigrationDirs listing) ∧
      ∀ fails' d'' back, migrate scripts listing fails' .down (some ran.length) d' = (d'', .ok back) →
        d'' = d ∧ back = ran.reverse := by
  have horder := hhistory.inOrder hreverts
  refine ⟨status_eq horder, horder.schema, fun fails steps d' ran hup => ?_⟩
  obtain ⟨rest, hall, horder', hran⟩ := migrate_up fails horder steps
  rw [hup] at horder' hran
  obtain ⟨hslice, happlied⟩ := hran ran rfl
  dsimp only at horder' happlied
  refine ⟨?_, fun fails' d'' back hdown => ?_⟩
  · rintro rfl
    rw [happlied, hslice, hall]
    rfl
  · obtain ⟨horder'', hback⟩ := migrate_down fails' hreverts horder' (some ran.length)
    rw [hdown] at horder'' hback
    obtain ⟨hlast, hkept⟩ := hback back rfl
    dsimp only at horder'' hkept
    have hbackRan : back = ran.reverse := by
      rw [hlast, happlied, List.reverse_append]
      unfold sliceTo
      simp
    rw [hbackRan, List.reverse_reverse, happlied] at hkept
    have hsame : d''.applied = d.applied := (List.append_cancel_right hkept).symm
    have hschema : d''.schema = d.schema := by
      have heq := horder''.schema
      rw [hsame, horder.schema] at heq
      exact (Except.ok.inj heq).symm
    obtain ⟨applied, schema⟩ := d
    obtain ⟨applied'', schema''⟩ := d''
    exact ⟨by rw [Database.mk.injEq]; exact ⟨hsame, hschema⟩, hbackRan⟩

/-! ### Three tables -/

namespace Sample

/-- Each directory adds a table and takes the last one away. -/
def tables : Scripts (List JsString) where
  up name s := .ok (s ++ [name])
  down _ s := .ok s.dropLast

def twoDirs : Listing where
  entries := [⟨js "0001_data_model", true⟩, ⟨js "README.md", false⟩, ⟨js "0000_init", true⟩]
  nodup := by decide

/-- The next release. -/
def threeDirs : Listing where
  entries := ⟨js "0002_budgets", true⟩ :: twoDirs.entries
  nodup := by decide

def noTables : Database (List JsString) := ⟨[], []⟩

/-- The second script fails. -/
def halfway : Database (List JsString) :=
  (migrate tables twoDirs (fun name => if name = js "0001_data_model" then some .other else none) .up
    none noTables).1

/-- The release is installed over a run that has failed. -/
theorem halfway_history : History tables [] threeDirs halfway := by
  have hdirs : listMigrationDirs threeDirs = listMigrationDirs twoDirs ++ [js "0002_budgets"] := by
    decide +kernel
  exact .release (.run _ .up none (.start twoDirs)) (hdirs ▸ List.prefix_append _ _)

theorem tables_revert (all : List JsString) : Reverts tables [] all := by
  rintro before name s s' - - hup s'' hdown
  cases hup
  cases hdown
  exact List.dropLast_concat

end Sample

open Migrations.Sample in
theorem sample_migrations_in_order :
    halfway.applied = [js "0000_init"] ∧ upAll tables halfway.applied [] = .ok halfway.schema ∧
    (migrate tables threeDirs (fun _ => none) .up none halfway).1.applied =
      [js "0000_init", js "0001_data_model", js "0002_budgets"] ∧
    (migrate tables threeDirs (fun _ => none) .down (some 2)
      (migrate tables threeDirs (fun _ => none) .up none halfway).1).1 = halfway := by
  obtain ⟨-, hschema, hruns⟩ := migrations_in_order halfway_history (tables_revert _)
  obtain ⟨hall, hback⟩ := hruns (fun _ => none) none
    (migrate tables threeDirs (fun _ => none) .up none halfway).1
    [js "0001_data_model", js "0002_budgets"] (by decide +kernel)
  have hdirs : listMigrationDirs threeDirs =
      [js "0000_init", js "0001_data_model", js "0002_budgets"] := by
    decide +kernel
  obtain ⟨hsame, -⟩ := hback (fun _ => none)
    (migrate tables threeDirs (fun _ => none) .down (some 2)
      (migrate tables threeDirs (fun _ => none) .up none halfway).1).1
    [js "0002_budgets", js "0001_data_model"] (by decide +kernel)
  exact ⟨by decide +kernel, hschema, (hall rfl).trans hdirs, hsame⟩

end Migrations
end VibeRouter
