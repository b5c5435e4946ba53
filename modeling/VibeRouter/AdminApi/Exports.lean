import VibeRouter.Lib.Csv
import VibeRouter.Lib.RegexLanguage
import VibeRouter.Lib.Calendar
import VibeRouter.Lib.Json
import VibeRouter.Platform

/-! # The exports

The dashboard's costs, the ledger and the audit log are exported as comma-separated values.  A cell
that a spreadsheet would take for a formula is given a quote in front; a cell with a quote, a comma or
a line feed is put in quotes, one with a carriage return alone is not.  So an export is read back with
every cell in its place exactly when no cell has a carriage return alone (`exports_faithful`). -/

namespace VibeRouter

namespace Exports

open Regex

/-! ### Cells -/

/-- `/^[=+@]/`. -/
def formulaStart : Regex := seq bol (char (oneOf "=+@"))

/-- A minus sign at the start. -/
def minusStart : Regex := seq bol (char (oneOf "-"))

/-- `-?\d+(\.\d+)?`. -/
def number : Regex :=
  seq (opt (char (oneOf "-"))) (seq (rep digit 1 none true)
    (opt (group 1 (seq (char (oneOf ".")) (rep digit 1 none true)))))

/-- `/^-?\d+(\.\d+)?$/`. -/
def plainNumber : Regex := seq bol (seq number eol)

/-- The quote in front of a formula. -/
def guardFormula (s : JsString) : JsString :=
  if formulaStart.test s || (minusStart.test s && !plainNumber.test s) then 39 :: s else s

/-- `/[",\n]/`. -/
def special (c : ℕ) : Bool := oneOf "\",\n" c

/-- What both writers do with the text of a cell. -/
def escapeText (s : JsString) : JsString := Csv.writeField special (guardFormula s)

/-- `[header, ...lines].join('\n') + '\n'`. -/
def joinLines (header : JsString) (lines : List JsString) : JsString :=
  [10].intercalate (header :: lines) ++ [10]

/-! ### Costs and ledger -/

/-- What a row may have under a name. -/
inductive Value
  | absent
  | str (s : JsString)
  | num (n : ℚ)
  | bool (b : Bool)
  /-- A date or another object, by what `String` writes for it. -/
  | object (text : JsString)

/-- A row, by the names it has. -/
abbrev Row : Type := List (JsString × Value)

def Row.cell (r : Row) (column : JsString) : Value := (r.lookup column).getD .absent

/-! ### Audit log -/

structure AuditRow where
  ts : ℕ
  event : JsString
  app : Option JsString
  taskClass : Option JsString
  model : Option JsString
  provider : Option JsString
  userId : Option JsString
  requestHash : Option JsString
  detail : Json

/-- A number with leading zeros. -/
def padded (width n : ℕ) : JsString :=
  List.replicate (width - (js (toString n)).length) 48 ++ js (toString n)

/-- `date.toISOString()`. -/
def toISOString (ms : ℕ) : JsString :=
  let day := ms / 86400000
  let month := Calendar.monthOf day
  let year := 1970 + month / 12
  (if year < 10000 then padded 4 year else 43 :: padded 6 year) ++
    js "-" ++ padded 2 (month % 12 + 1) ++ js "-" ++ padded 2 (day - Calendar.firstDay month + 1) ++
    js "T" ++ padded 2 (ms / 3600000 % 24) ++ js ":" ++ padded 2 (ms / 60000 % 60) ++
    js ":" ++ padded 2 (ms / 1000 % 60) ++ js "." ++ padded 3 (ms % 1000) ++ js "Z"

def optional : Option JsString → Json
  | some s => .str s
  | none => .null

/-- The cells of a row. -/
def AuditRow.cells (r : AuditRow) : List Json :=
  [.str (toISOString r.ts), .str r.event, optional r.app, optional r.taskClass, optional r.model,
    optional r.provider, optional r.userId, optional r.requestHash, r.detail]

section
variable [Platform]

/-- `v == null ? '' : String(v)`. -/
def Value.text : Value → JsString
  | absent => []
  | str s => s
  | num n => Platform.numberText n
  | bool b => js (if b then "true" else "false")
  | object text => text

/-- `csvEscape(v)` of the ledger's exports. -/
def csvEscape (v : Value) : JsString := escapeText v.text

def rowsToCsv (rows : List Row) (columns : List JsString) : JsString :=
  joinLines ([44].intercalate columns)
    (rows.map fun r => [44].intercalate (columns.map fun c => csvEscape (r.cell c)))

/-- `v == null ? '' : typeof v === 'object' ? JSON.stringify(v) : String(v)`. -/
def auditText : Json → JsString
  | .null => []
  | .str s => s
  | .num n => Platform.numberText n
  | .bool b => js (if b then "true" else "false")
  | v => v.stringify Platform.numberText

/-- `csvEscape(v)` of the audit log's export. -/
def auditEscape (v : Json) : JsString := escapeText (auditText v)

def auditToCsv (rows : List AuditRow) : JsString :=
  joinLines (js "ts,event,app,task_class,model,provider,user_id,request_hash,detail")
    (rows.map fun r => [44].intercalate (r.cells.map auditEscape))

end

/-! ### Columns -/

/-- The names of the columns of an export: at least one, none with a code unit that the format
gives a meaning to. -/
structure Columns where
  names : List JsString
  nonempty : names ≠ []
  plain : ∀ name ∈ names, name.any special = false ∧ 13 ∉ name

/-- The columns of `costs.csv`. -/
def costColumns : Columns where
  names := [js "app", js "taskClass", js "model", js "requests", js "promptTokens",
    js "completionTokens", js "cachedReadTokens", js "costCents", js "costUnknownCount",
    js "estimatedCount"]
  nonempty := List.cons_ne_nil _ _
  plain := by decide

/-- The columns of `ledger.csv`. -/
def ledgerColumns : Columns where
  names := [js "ts", js "requestId", js "app", js "modelServed", js "promptTokens",
    js "completionTokens", js "cachedReadTokens", js "costCents", js "costUnknown", js "latencyMs",
    js "status", js "clientRef", js "engagementRef"]
  nonempty := List.cons_ne_nil _ _
  plain := by decide

/-- The columns of `audit.csv`. -/
def auditColumns : Columns where
  names := [js "ts", js "event", js "app", js "task_class", js "model", js "provider", js "user_id",
    js "request_hash", js "detail"]
  nonempty := List.cons_ne_nil _ _
  plain := by decide

theorem auditHeader : js "ts,event,app,task_class,model,provider,user_id,request_hash,detail" =
    [44].intercalate auditColumns.names := by decide

/-! ### Formulas -/

/-- Digits, and at least one. -/
def Digits (ds : JsString) : Prop := ds ≠ [] ∧ ∀ d ∈ ds, JsString.isDigit d = true

/-- A number as it is written without an exponent. -/
def PlainNumber (s : JsString) : Prop :=
  ∃ sign ds fraction, s = sign ++ (ds ++ fraction) ∧ (sign = [] ∨ sign = js "-") ∧ Digits ds ∧
    (fraction = [] ∨ ∃ fs, fraction = js "." ++ fs ∧ Digits fs)

/-- A cell that no spreadsheet takes for a formula. -/
def Inert (t : JsString) : Prop :=
  ∀ c ∈ t.head?, c ≠ 61 ∧ c ≠ 43 ∧ c ≠ 64 ∧ (c = 45 → PlainNumber t)

theorem mem_letters {text : String} {w : JsString} :
    w ∈ letters (oneOf text) ↔ ∃ c ∈ js text, w = [c] := by
  unfold letters oneOf
  simp only [List.contains_iff_mem]
  rfl

theorem plainNumber_iff (s : JsString) : plainNumber.test s = true ↔ PlainNumber s := by
  have hdigits := denotes_plus JsString.isDigit true
  have hsign := (denotes_char (oneOf "-")).opt Nat.one_pos
  have hfraction := (((denotes_char (oneOf ".")).seq hdigits).group 1).opt (by decide)
  have hnumber : Denotes number _ := hsign.seq (hdigits.seq hfraction)
  unfold plainNumber
  rw [test_whole hnumber, Language.mem_mul]
  constructor
  · rintro ⟨sign, hsign, rest, hrest, rfl⟩
    obtain ⟨ds, hds, fraction, hfraction, rfl⟩ := Language.mem_mul.1 hrest
    refine ⟨sign, ds, fraction, rfl, ?_, hds, ?_⟩
    · rcases hsign with rfl | hsign
      · exact Or.inl rfl
      · obtain ⟨c, hc, rfl⟩ := mem_letters.1 hsign
        exact Or.inr (by rw [List.mem_singleton.1 hc]; rfl)
    · rcases hfraction with rfl | hfraction
      · exact Or.inl rfl
      · obtain ⟨dot, hdot, fs, hfs, rfl⟩ := Language.mem_mul.1 hfraction
        obtain ⟨c, hc, rfl⟩ := mem_letters.1 hdot
        exact Or.inr ⟨fs, by rw [List.mem_singleton.1 hc]; rfl, hfs⟩
  · rintro ⟨sign, ds, fraction, rfl, hsign, hds, hfraction⟩
    refine ⟨sign, ?_, ds ++ fraction, Language.append_mem_mul hds ?_, rfl⟩
    · rcases hsign with rfl | rfl
      · exact Or.inl rfl
      · exact Or.inr (mem_letters.2 ⟨45, by decide, rfl⟩)
    · rcases hfraction with rfl | ⟨fs, rfl, hfs⟩
      · exact Or.inl rfl
      · exact Or.inr (Language.append_mem_mul (mem_letters.2 ⟨46, by decide, rfl⟩) hfs)

/-- An expression for the first character. -/
theorem test_first (p : ℕ → Bool) (s : JsString) :
    (seq bol (char p)).test s = true ↔ ∃ c ∈ s.head?, p c = true := by
  rw [test_bol_iff]
  cases s with
  | nil => exact iff_of_false (by simp [run]) (by simp)
  | cons x s =>
      constructor
      · rintro ⟨c, hc⟩
        obtain ⟨y, hrest, hy, -⟩ := mem_run_char hc
        cases hrest
        exact ⟨_, rfl, hy⟩
      · rintro ⟨c, hc, hp⟩
        cases hc
        exact ⟨_, by rw [run_char_of hp]; exact List.mem_singleton_self _⟩

/-- `t` is `s`, with a quote in front when a spreadsheet would take `s` for a formula. -/
def Guarded (s t : JsString) : Prop := (Inert s ∧ t = s) ∨ (¬Inert s ∧ t = 39 :: s)

theorem guard_iff (s : JsString) :
    (formulaStart.test s || (minusStart.test s && !plainNumber.test s)) = true ↔ ¬Inert s := by
  have hplain : (!plainNumber.test s) = true ↔ ¬PlainNumber s := by
    rw [← plainNumber_iff, Bool.not_eq_true', Bool.not_eq_true]
  have hformula : ∀ c, oneOf "=+@" c = true ↔ c = 61 ∨ c = 43 ∨ c = 64 := by
    intro c
    have hunits : js "=+@" = [61, 43, 64] := by decide
    simp [oneOf, hunits]
  have hminus : ∀ c, oneOf "-" c = true ↔ c = 45 := by
    intro c
    have hunits : js "-" = [45] := by decide
    simp [oneOf, hunits]
  unfold formulaStart minusStart Inert
  rw [Bool.or_eq_true, Bool.and_eq_true, hplain, test_first, test_first]
  simp only [hformula, hminus]
  cases s.head? with
  | none => simp
  | some c =>
      simp only [Option.mem_def, Option.some.injEq, exists_eq_left', forall_eq']
      tauto

theorem guarded_iff (s t : JsString) : Guarded s t ↔ guardFormula s = t := by
  unfold Guarded guardFormula
  by_cases h : Inert s
  · rw [if_neg fun hguard => (guard_iff s).1 hguard h]
    simp [h, eq_comm]
  · rw [if_pos ((guard_iff s).2 h)]
    simp [h, eq_comm]

theorem Guarded.inert {s t : JsString} (h : Guarded s t) : Inert t := by
  rcases h with ⟨hs, rfl⟩ | ⟨-, rfl⟩
  · exact hs
  · intro c hc
    cases hc
    exact ⟨by decide, by decide, by decide, fun h => absurd h (by decide)⟩

/-! ### Reading an export -/

/-- The export is read as the header and the cells in their rows and columns, each unchanged but for
the quote in front of a formula, and none of them is a formula. -/
def Faithful (csv : JsString) (header : List JsString) (cells : List (List JsString)) : Prop :=
  ∃ table, Csv.read csv = some (header :: table) ∧ List.Forall₂ (List.Forall₂ Guarded) cells table ∧
    ∀ row ∈ table, ∀ t ∈ row, Inert t

/-- A carriage return stands with a quote, a comma or a line feed. -/
def ReturnsAccompanied (s : JsString) : Prop := 13 ∈ s → 34 ∈ s ∨ 44 ∈ s ∨ 10 ∈ s

theorem special_iff (c : ℕ) : special c = true ↔ c = 34 ∨ c = 44 ∨ c = 10 := by
  have hunits : js "\",\n" = [34, 44, 10] := by decide
  simp [special, oneOf, hunits]

theorem returnsQuoted_guardFormula (s : JsString) :
    Csv.ReturnsQuoted special (guardFormula s) ↔ ReturnsAccompanied s := by
  have hany : ∀ t : JsString, t.any special = true ↔ 34 ∈ t ∨ 44 ∈ t ∨ 10 ∈ t := by
    intro t
    rw [List.any_eq_true]
    simp only [special_iff]
    constructor
    · rintro ⟨c, hc, rfl | rfl | rfl⟩ <;> tauto
    · rintro (h | h | h)
      · exact ⟨34, h, by tauto⟩
      · exact ⟨44, h, by tauto⟩
      · exact ⟨10, h, by tauto⟩
  unfold Csv.ReturnsQuoted ReturnsAccompanied guardFormula
  rw [hany]
  split <;> simp

theorem forall₂_iff_map {α : Type} {R : α → α → Prop} {f : α → α} (h : ∀ a b, R a b ↔ f a = b)
    (l m : List α) : List.Forall₂ R l m ↔ l.map f = m := by
  have hmap : List.Forall₂ R l m ↔ List.Forall₂ Eq (l.map f) m := by
    rw [List.forall₂_map_left_iff]
    exact ⟨List.Forall₂.imp fun a b => (h a b).1, List.Forall₂.imp fun a b => (h a b).2⟩
  rw [hmap, List.forall₂_eq_eq_eq]

theorem forall₂_guarded (cells table : List (List JsString)) :
    List.Forall₂ (List.Forall₂ Guarded) cells table ↔ cells.map (List.map guardFormula) = table :=
  forall₂_iff_map (forall₂_iff_map guarded_iff) cells table

theorem joinLines_eq (header : JsString) (lines : List JsString) :
    joinLines header lines = (header :: lines).flatMap fun line => line ++ [10] := by
  unfold joinLines
  induction lines generalizing header with
  | nil => simp
  | cons line lines ih =>
      rw [List.intercalate_cons_cons, List.flatMap_cons, ← ih line]
      simp

/-- An export is what the format's writer writes for the guarded cells. -/
theorem joinLines_write (columns : Columns) (cells : List (List JsString)) :
    joinLines ([44].intercalate columns.names)
      (cells.map fun row => [44].intercalate (row.map escapeText)) =
      Csv.write special (columns.names :: cells.map (List.map guardFormula)) := by
  have hnames : columns.names.map (Csv.writeField special) = columns.names := by
    refine (List.map_congr_left fun name hname => ?_).trans (List.map_id _)
    unfold Csv.writeField
    rw [(columns.plain name hname).1]
    rfl
  rw [joinLines_eq]
  unfold Csv.write Csv.writeRecord
  rw [List.flatMap_cons, List.flatMap_cons, hnames, List.flatMap_map, List.flatMap_map]
  simp only [List.map_map]
  rfl

/-- What an export is read as. -/
theorem faithful_iff (columns : Columns) {cells : List (List JsString)}
    (hne : ∀ row ∈ cells, row ≠ []) :
    Faithful (joinLines ([44].intercalate columns.names)
      (cells.map fun row => [44].intercalate (row.map escapeText))) columns.names cells ↔
      ∀ row ∈ cells, ∀ s ∈ row, ReturnsAccompanied s := by
  have hrows : ∀ row ∈ columns.names :: cells.map (List.map guardFormula), row ≠ [] := by
    rw [List.forall_mem_cons, List.forall_mem_map]
    exact ⟨columns.nonempty, fun row hrow h => hne row hrow (List.map_eq_nil_iff.1 h)⟩
  have hspecial : ∀ c, c = 34 ∨ c = 44 ∨ c = 10 → special c = true := fun c => (special_iff c).2
  have hread := Csv.read_write (hspecial 34 (by decide)) (hspecial 44 (by decide))
    (hspecial 10 (by decide)) hrows
  have hplain : ∀ name ∈ columns.names, Csv.ReturnsQuoted special name :=
    fun name hname h => absurd h (columns.plain name hname).2
  rw [← joinLines_write, List.forall_mem_cons, List.forall_mem_map] at hread
  simp only [List.forall_mem_map, returnsQuoted_guardFormula] at hread
  rw [and_iff_right hplain] at hread
  rw [← hread]
  unfold Faithful
  constructor
  · rintro ⟨table, htable, hcells, -⟩
    rw [htable, (forall₂_guarded cells table).1 hcells]
  · intro htable
    refine ⟨_, htable, (forall₂_guarded _ _).2 rfl, ?_⟩
    simp only [List.forall_mem_map]
    exact fun row _ s _ => ((guarded_iff s _).2 rfl).inert

/-! ### Both writers -/

section
variable [Platform]

/-- The texts of the cells of a table. -/
def rowTexts (rows : List Row) (columns : List JsString) : List (List JsString) :=
  rows.map fun r => columns.map fun c => (r.cell c).text

def auditTexts (rows : List AuditRow) : List (List JsString) :=
  rows.map fun r => r.cells.map auditText

theorem rowsToCsv_eq (rows : List Row) (columns : List JsString) : rowsToCsv rows columns =
    joinLines ([44].intercalate columns)
      ((rowTexts rows columns).map fun row => [44].intercalate (row.map escapeText)) := by
  unfold rowsToCsv rowTexts
  rw [List.map_map]
  simp only [Function.comp_def, List.map_map]
  rfl

theorem auditToCsv_eq (rows : List AuditRow) : auditToCsv rows =
    joinLines ([44].intercalate auditColumns.names)
      ((auditTexts rows).map fun row => [44].intercalate (row.map escapeText)) := by
  unfold auditToCsv auditTexts
  refine congrArg₂ joinLines auditHeader ?_
  rw [List.map_map]
  simp only [Function.comp_def, List.map_map]
  rfl

/-- **What the exports say.**  An export is read back with its header and every cell in its place,
unchanged but for the quote in front of formulas and none of them a formula, exactly when no cell
has a carriage return without a quote, a comma or a line feed. -/
theorem exports_faithful (rows : List Row) (columns : Columns) (auditRows : List AuditRow) :
    (Faithful (rowsToCsv rows columns.names) columns.names (rowTexts rows columns.names) ↔
      ∀ row ∈ rowTexts rows columns.names, ∀ s ∈ row, ReturnsAccompanied s) ∧
    (Faithful (auditToCsv auditRows) auditColumns.names (auditTexts auditRows) ↔
      ∀ row ∈ auditTexts auditRows, ∀ s ∈ row, ReturnsAccompanied s) := by
  constructor
  · rw [rowsToCsv_eq]
    apply faithful_iff
    unfold rowTexts
    rw [List.forall_mem_map]
    exact fun r _ h => columns.nonempty (List.map_eq_nil_iff.1 h)
  · rw [auditToCsv_eq]
    apply faithful_iff
    unfold auditTexts
    rw [List.forall_mem_map]
    exact fun r _ => List.cons_ne_nil _ _

end

/-! ### A carriage return in the name of an application -/

/-- The costs of an application whose name breaks the line before a formula. -/
def brokenRow : Row :=
  [(js "app", .str (js "memo\r=1+1")), (js "taskClass", .str (js "memo")),
    (js "model", .str (js "llama")), (js "requests", .num 1), (js "promptTokens", .num 12),
    (js "completionTokens", .num 5), (js "cachedReadTokens", .num 0),
    (js "costCents", .str (js "0.010000")), (js "costUnknownCount", .num 0),
    (js "estimatedCount", .num 0)]

/-- A platform that writes whole numbers. -/
@[reducible] def counting : Platform := .ofDigests [] ⟨"f3", by decide⟩

theorem broken_export :
    ¬Faithful (@rowsToCsv counting [brokenRow] costColumns.names) costColumns.names
      (@rowTexts counting [brokenRow] costColumns.names) := by
  have hread : Csv.read (@rowsToCsv counting [brokenRow] costColumns.names) = none := by
    decide +kernel
  rintro ⟨table, htable, -⟩
  rw [hread] at htable
  cases htable

end Exports

end VibeRouter
