import VibeRouter.Lib.JsString

/-! # Comma-separated values

The format of RFC 4180, with records that end with a line feed or with a carriage return and a line
feed.  A field in quotes holds any text, its quotes doubled; any other field holds no quote, no
comma, no line feed and no carriage return.  The line end behind the last record may be left out.

A writer chooses the texts it puts in quotes by the code units in them.  When quotes, commas and line
feeds are among these, a table is read back exactly when the carriage returns of its fields stand
in quotes (`read_write`). -/

namespace Csv

/-! ### The reader -/

/-- Where the reader stands: at a record's start, at the start of a later field, in a field without
quotes, in one with quotes, behind its last quote, or behind the carriage return of a line end. -/
inductive Mode
  | record
  | field
  | bare
  | quoted
  | closed
  | lineEnd
deriving DecidableEq

structure Reader where
  mode : Mode
  records : List (List JsString)
  fields : List JsString
  text : JsString

namespace Reader

def add (r : Reader) (mode : Mode) (c : ℕ) : Reader := { r with mode, text := r.text ++ [c] }

def endField (r : Reader) : Reader := ⟨.field, r.records, r.fields ++ [r.text], []⟩

def endRecord (r : Reader) : Reader := ⟨.record, r.records ++ [r.fields ++ [r.text]], [], []⟩

/-- What may stand behind a field. -/
def separate (r : Reader) (c : ℕ) : Option Reader :=
  if c = 44 then some r.endField
  else if c = 10 then some r.endRecord
  else if c = 13 then some { r with mode := .lineEnd }
  else none

def step (r : Reader) (c : ℕ) : Option Reader :=
  match r.mode with
  | .record | .field =>
      if c = 34 then some { r with mode := .quoted }
      else (r.separate c).or (some (r.add .bare c))
  | .bare => if c = 34 then none else (r.separate c).or (some (r.add .bare c))
  | .quoted => some (if c = 34 then { r with mode := .closed } else r.add .quoted c)
  | .closed => if c = 34 then some (r.add .quoted c) else r.separate c
  | .lineEnd => if c = 10 then some r.endRecord else none

def run (r : Reader) (text : JsString) : Option Reader := text.foldlM step r

/-- The records at the end of the text. -/
def finish (r : Reader) : Option (List (List JsString)) :=
  match r.mode with
  | .record => some r.records
  | .field | .bare | .closed => some r.endRecord.records
  | .quoted | .lineEnd => none

end Reader

/-- The records of a text; `none` when it is not in the format. -/
def read (text : JsString) : Option (List (List JsString)) :=
  (Reader.run ⟨.record, [], [], []⟩ text).bind Reader.finish

/-! ### The writer -/

/-- A text in quotes. -/
def quote (text : JsString) : JsString :=
  34 :: text.flatMap (fun c => if c = 34 then [34, 34] else [c]) ++ [34]

section
variable (special : ℕ → Bool)

/-- A field, in quotes when one of the code units in it calls for them. -/
def writeField (text : JsString) : JsString := if text.any special then quote text else text

def writeRecord (fields : List JsString) : JsString :=
  [44].intercalate (fields.map (writeField special))

def write (records : List (List JsString)) : JsString :=
  records.flatMap fun fields => writeRecord special fields ++ [10]

/-- Carriage returns stand in quotes. -/
def ReturnsQuoted (text : JsString) : Prop := 13 ∈ text → text.any special = true

instance (text : JsString) : Decidable (ReturnsQuoted special text) :=
  inferInstanceAs (Decidable (_ → _))

end

/-! ### What the reader makes of a field -/

namespace Reader

theorem run_append (r : Reader) (s t : JsString) : r.run (s ++ t) = (r.run s).bind fun r => r.run t :=
  List.foldlM_append

theorem run_cons (r : Reader) (c : ℕ) (t : JsString) :
    r.run (c :: t) = (r.step c).bind fun r => r.run t := rfl

/-- In a field without quotes, or before a field. -/
def Unquoted (r : Reader) : Prop := r.mode = .record ∨ r.mode = .field ∨ r.mode = .bare

theorem Unquoted.separate {r : Reader} (hr : r.Unquoted) {c : ℕ} (hc : c = 44 ∨ c = 10 ∨ c = 13) :
    r.step c = r.separate c := by
  obtain ⟨mode, records, fields, text⟩ := r
  rcases hr with hr | hr | hr <;> cases hr <;> rcases hc with rfl | rfl | rfl <;> rfl

/-- A text without quotes, commas and line ends is read as it stands. -/
theorem run_plain {r : Reader} (hr : r.Unquoted) {t : JsString}
    (ht : ∀ c ∈ t, c ≠ 34 ∧ c ≠ 44 ∧ c ≠ 10 ∧ c ≠ 13) :
    ∃ r' : Reader, r.run t = some r' ∧ r'.Unquoted ∧
      r'.records = r.records ∧ r'.fields = r.fields ∧ r'.text = r.text ++ t := by
  induction t generalizing r with
  | nil => exact ⟨r, rfl, hr, rfl, rfl, (List.append_nil _).symm⟩
  | cons c t ih =>
      obtain ⟨h34, h44, h10, h13⟩ := ht c (List.mem_cons_self ..)
      have hstep : r.step c = some (r.add .bare c) := by
        have hseparate : r.separate c = none := by
          unfold Reader.separate
          rw [if_neg h44, if_neg h10, if_neg h13]
        obtain ⟨mode, records, fields, text⟩ := r
        rcases hr with hr | hr | hr <;> cases hr <;> unfold step <;> dsimp only <;>
          rw [if_neg h34, hseparate] <;> rfl
      have hbare : (r.add .bare c).Unquoted := Or.inr (Or.inr rfl)
      obtain ⟨r', hrun, hr', hrecords, hfields, htext⟩ :=
        ih hbare fun x hx => ht x (List.mem_cons_of_mem _ hx)
      refine ⟨r', ?_, hr', hrecords, hfields, ?_⟩
      · rw [run_cons, hstep]
        exact hrun
      · rw [htext, add, List.append_assoc]
        rfl

/-- In quotes every text is read. -/
theorem run_doubled (records : List (List JsString)) (fields : List JsString) (s t : JsString) :
    run ⟨.quoted, records, fields, s⟩ (t.flatMap fun c => if c = 34 then [34, 34] else [c]) =
      some ⟨.quoted, records, fields, s ++ t⟩ := by
  induction t generalizing s with
  | nil => rw [List.append_nil]; rfl
  | cons c t ih =>
      have hone : run ⟨.quoted, records, fields, s⟩ (if c = 34 then [34, 34] else [c]) =
          some ⟨.quoted, records, fields, s ++ [c]⟩ := by
        by_cases hc : c = 34
        · rw [hc]
          rfl
        · rw [if_neg hc, run_cons]
          unfold step
          dsimp only
          rw [if_neg hc]
          rfl
      rw [List.flatMap_cons, run_append, hone, Option.bind_some, ih, List.append_assoc]
      rfl

theorem run_quote {r : Reader} (hr : r.mode = .record ∨ r.mode = .field) (htext : r.text = [])
    (t : JsString) : r.run (quote t) = some ⟨.closed, r.records, r.fields, t⟩ := by
  obtain ⟨mode, records, fields, text⟩ := r
  cases htext
  have hopen : step ⟨mode, records, fields, []⟩ 34 = some ⟨.quoted, records, fields, []⟩ := by
    rcases hr with hr | hr <;> cases hr <;> rfl
  unfold quote
  rw [List.cons_append, run_cons, hopen, Option.bind_some, run_append, run_doubled]
  rfl

/-! ### What the reader makes of what is written -/

section
variable {special : ℕ → Bool} (h34 : special 34 = true) (h44 : special 44 = true)
  (h10 : special 10 = true)

include h34 h44 h10

/-- A field that is written without quotes has nothing in it but, it may be, carriage returns. -/
theorem plain_of_not_special {t : JsString} (ht : ¬t.any special = true) {c : ℕ} (hc : c ∈ t) :
    c ≠ 34 ∧ c ≠ 44 ∧ c ≠ 10 := by
  have hnot : special c ≠ true := fun h => ht (List.any_eq_true.2 ⟨c, hc, h⟩)
  refine ⟨?_, ?_, ?_⟩
  · rintro rfl
    exact hnot h34
  · rintro rfl
    exact hnot h44
  · rintro rfl
    exact hnot h10

theorem run_field {r : Reader} (hr : r.mode = .record ∨ r.mode = .field) (htext : r.text = [])
    {t : JsString} (ht : ReturnsQuoted special t) {c : ℕ} (hc : c = 44 ∨ c = 10) :
    r.run (writeField special t ++ [c]) = separate ⟨r.mode, r.records, r.fields, t⟩ c := by
  unfold writeField
  by_cases hspecial : t.any special = true
  · rw [if_pos hspecial, run_append, run_quote hr htext]
    rcases hc with rfl | rfl <;> rfl
  · rw [if_neg hspecial, run_append]
    have hplain : ∀ x ∈ t, x ≠ 34 ∧ x ≠ 44 ∧ x ≠ 10 ∧ x ≠ 13 := by
      intro x hx
      obtain ⟨hx34, hx44, hx10⟩ := plain_of_not_special h34 h44 h10 hspecial hx
      refine ⟨hx34, hx44, hx10, ?_⟩
      rintro rfl
      exact hspecial (ht hx)
    have hunquoted : r.Unquoted := by
      unfold Unquoted
      tauto
    obtain ⟨r', hrun, hr', hrecords, hfields, htext'⟩ := run_plain hunquoted hplain
    rw [hrun, Option.bind_some, run_cons, hr'.separate (by tauto)]
    obtain ⟨mode, records, fields, text⟩ := r'
    rw [htext, List.nil_append] at htext'
    cases hrecords
    cases hfields
    cases htext'
    rcases hc with rfl | rfl <;> rfl

/-- A carriage return outside quotes is lost at the end of a record, and an error elsewhere. -/
theorem run_return {r : Reader} (hr : r.mode = .record ∨ r.mode = .field) (htext : r.text = [])
    {t : JsString} (ht : ¬ReturnsQuoted special t) :
    r.run (writeField special t ++ [44]) = none ∧
      (r.run (writeField special t ++ [10]) = none ∨
        ∃ u, u ≠ t ∧ r.run (writeField special t ++ [10]) =
          some (endRecord ⟨r.mode, r.records, r.fields, u⟩)) := by
  unfold ReturnsQuoted at ht
  push Not at ht
  obtain ⟨hreturn, hspecial⟩ := ht
  obtain ⟨a, b, rfl, ha⟩ := List.eq_append_cons_of_mem hreturn
  have hplain : ∀ x ∈ a, x ≠ 34 ∧ x ≠ 44 ∧ x ≠ 10 ∧ x ≠ 13 := by
    intro x hx
    obtain ⟨hx34, hx44, hx10⟩ := plain_of_not_special h34 h44 h10 hspecial (List.mem_append_left _ hx)
    refine ⟨hx34, hx44, hx10, ?_⟩
    rintro rfl
    exact ha hx
  have hunquoted : r.Unquoted := by
    unfold Unquoted
    tauto
  obtain ⟨r', hrun, hr', hrecords, hfields, htext'⟩ := run_plain hunquoted hplain
  have hcut : ∀ c, r.run (writeField special (a ++ 13 :: b) ++ [c]) =
      run { r' with mode := .lineEnd } (b ++ [c]) := by
    intro c
    unfold writeField
    rw [if_neg hspecial, List.append_assoc, run_append, hrun, Option.bind_some, List.cons_append,
      run_cons, hr'.separate (by tauto)]
    rfl
  rw [hcut, hcut]
  cases b with
  | nil =>
      refine ⟨rfl, Or.inr ⟨a, ?_, ?_⟩⟩
      · intro h
        exact absurd (congrArg List.length h) (by simp)
      · obtain ⟨mode, records, fields, text⟩ := r'
        rw [htext, List.nil_append] at htext'
        cases hrecords
        cases hfields
        cases htext'
        rfl
  | cons x b =>
      have hx : x ≠ 10 :=
        (plain_of_not_special h34 h44 h10 hspecial (c := x) (by simp)).2.2
      have hnone : ∀ c, run { r' with mode := .lineEnd } (x :: b ++ [c]) = none := by
        intro c
        rw [List.cons_append, run_cons]
        unfold step
        dsimp only
        rw [if_neg hx]
        rfl
      exact ⟨hnone 44, Or.inl (hnone 10)⟩

/-- A record that is written is read as one record, if it is read: the same one exactly when its
carriage returns stand in quotes. -/
theorem run_record {m : Mode} (hm : m = .record ∨ m = .field)
    (records : List (List JsString)) (fields : List JsString) {ts : List JsString} (hne : ts ≠ []) :
    ∃ o : Option (List JsString),
      run ⟨m, records, fields, []⟩ (writeRecord special ts ++ [10]) =
        o.map (fun us => ⟨.record, records ++ [fields ++ us], [], []⟩) ∧
      (o = some ts ↔ ∀ t ∈ ts, ReturnsQuoted special t) := by
  induction ts generalizing m fields with
  | nil => exact absurd rfl hne
  | cons t ts ih =>
      cases ts with
      | nil =>
          have hwrite : writeRecord special [t] = writeField special t := by simp [writeRecord]
          rw [hwrite, List.forall_mem_singleton]
          by_cases ht : ReturnsQuoted special t
          · refine ⟨some [t], ?_, iff_of_true rfl ht⟩
            exact run_field h34 h44 h10 hm rfl ht (Or.inr rfl)
          · obtain ⟨-, hnone | ⟨u, hu, hrun⟩⟩ :=
              run_return h34 h44 h10 (r := ⟨m, records, fields, []⟩) hm rfl ht
            · exact ⟨none, hnone, iff_of_false (by simp) ht⟩
            · exact ⟨some [u], hrun, iff_of_false (by simpa using hu) ht⟩
      | cons t' ts =>
          have hwrite : writeRecord special (t :: t' :: ts) ++ [10] =
              (writeField special t ++ [44]) ++ (writeRecord special (t' :: ts) ++ [10]) := by
            simp [writeRecord, List.intercalate_cons_cons]
          rw [hwrite, run_append, List.forall_mem_cons]
          by_cases ht : ReturnsQuoted special t
          · obtain ⟨o, hrun, ho⟩ := ih (Or.inr rfl) (fields ++ [t]) (by simp)
            rw [run_field h34 h44 h10 hm rfl ht (Or.inl rfl)]
            refine ⟨o.map (t :: ·), ?_, ?_⟩
            · rw [Option.map_map]
              refine hrun.trans ?_
              simp [Function.comp_def]
            · rw [← ho]
              simp [ht]
          · refine ⟨none, ?_, iff_of_false (by simp) fun h => ht h.1⟩
            rw [(run_return h34 h44 h10 (r := ⟨m, records, fields, []⟩) hm rfl ht).1]
            rfl

theorem run_records (records : List (List JsString)) {table : List (List JsString)}
    (hne : ∀ ts ∈ table, ts ≠ []) :
    ∃ o : Option (List (List JsString)),
      run ⟨.record, records, [], []⟩ (write special table) =
        o.map (fun us => ⟨.record, records ++ us, [], []⟩) ∧
      (o = some table ↔ ∀ ts ∈ table, ∀ t ∈ ts, ReturnsQuoted special t) := by
  induction table generalizing records with
  | nil =>
      refine ⟨some [], ?_, iff_of_true rfl fun ts hts => by cases hts⟩
      rw [Option.map_some, List.append_nil]
      rfl
  | cons ts table ih =>
      obtain ⟨hts, hne⟩ := List.forall_mem_cons.1 hne
      obtain ⟨o, hrun, ho⟩ :=
        run_record h34 h44 h10 (m := .record) (Or.inl rfl) records [] hts
      have hwrite : write special (ts :: table) =
          (writeRecord special ts ++ [10]) ++ write special table := List.flatMap_cons
      rw [hwrite, run_append, hrun, List.forall_mem_cons, ← ho]
      cases o with
      | none => exact ⟨none, rfl, iff_of_false (by simp) fun h => by cases h.1⟩
      | some us =>
          obtain ⟨o', hrun', ho'⟩ := ih (records ++ [us]) hne
          refine ⟨o'.map (us :: ·), ?_, ?_⟩
          · rw [Option.map_map]
            refine hrun'.trans ?_
            simp [Function.comp_def]
          · rw [← ho']
            simp [and_comm]

end

end Reader

/-- **What is read back.**  A table is read back as it was written exactly when the carriage returns
of its fields stand in quotes. -/
theorem read_write {special : ℕ → Bool} (h34 : special 34 = true) (h44 : special 44 = true)
    (h10 : special 10 = true) {table : List (List JsString)} (hne : ∀ ts ∈ table, ts ≠ []) :
    read (write special table) = some table ↔
      ∀ ts ∈ table, ∀ t ∈ ts, ReturnsQuoted special t := by
  obtain ⟨o, hrun, ho⟩ := Reader.run_records h34 h44 h10 [] hne
  rw [← ho]
  unfold read
  rw [hrun]
  cases o <;> simp [Reader.finish]

end Csv
