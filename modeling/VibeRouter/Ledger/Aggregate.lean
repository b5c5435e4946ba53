import Mathlib.Data.List.Sort
import VibeRouter.Db.Tables
import VibeRouter.Lib.Grouping

/-! # The dashboards of the ledger

`spendBy` adds the rows of a firm up by one dimension, and `costBreakdown` by app, task class and model
at once.  The view of the costs gets the breakdown only and groups it again, by one dimension (`groupBy`)
and below each entry by the others.  What it shows is what the rows of the ledger add up to, at every
level (`total_eq`, `mem_groupBy_where`), and what `spendBy` adds up by the same dimension
(`costs_view_faithful`).

Sums are exact, and costs are in millionths of a cent: the view adds doubles, of which this is the exact
arithmetic.  Times are whole milliseconds.  The session of the database
writes days (`toChar`) and orders texts (`collation`) in a way that is not the router's. -/

namespace VibeRouter
namespace Aggregate

open Grouping

/-! ### Columns -/

structure LedgerFilter where
  firmId : Uuid
  from_ : Option ℕ := none
  to_ : Option ℕ := none

def conds (f : LedgerFilter) (row : UsageLedgerRow) : Bool :=
  row.firmId = f.firmId ∧ (∀ from_ ∈ f.from_, from_ ≤ row.ts) ∧ ∀ to_ ∈ f.to_, row.ts ≤ to_

/-- `::int`. -/
def int4 (n : ℚ) : Except Thrown ℚ :=
  if -2147483648 ≤ n ∧ n ≤ 2147483647 then .ok n else .error (.error "integer out of range")

def countInt (p : UsageLedgerRow → Bool) (rows : List UsageLedgerRow) : Except Thrown ℕ :=
  (int4 (rows.countP p)).map fun _ => rows.countP p

def sumInt (column : UsageLedgerRow → ℚ) (rows : List UsageLedgerRow) : Except Thrown ℚ :=
  int4 (rows.map column).sum

def sumCents (rows : List UsageLedgerRow) : ℤ := (rows.map fun row => row.costCents.getD 0).sum

/-- A row of the ledger with its task class. -/
abbrev Joined : Type := UsageLedgerRow × Option TaskClassRow

def withClasses (rows : List UsageLedgerRow) (classes : List TaskClassRow) : List Joined :=
  leftJoin (fun row : UsageLedgerRow => row.taskClassId) TaskClassRow.id rows classes

/-! ### Spend by a dimension -/

inductive SpendDimension
  | day | model | app | task_class | client
deriving DecidableEq

def dimensionColumn (toChar : ℕ → String) : SpendDimension → Joined → String
  | .day, (row, _) => toChar row.ts
  | .model, (row, _) => row.modelServed.getD "(none)"
  | .app, (row, _) => row.app
  | .task_class, (_, taskClass) => (taskClass.map TaskClassRow.key).getD "(none)"
  | .client, (row, _) => row.clientRef.getD "(none)"

structure SpendRow where
  dimension : String
  requests : ℕ
  promptTokens : ℚ
  completionTokens : ℚ
  cachedReadTokens : ℚ
  costCents : ℤ
  costUnknownCount : ℕ
deriving DecidableEq

def spendRow (g : String × List Joined) : Except Thrown SpendRow := do
  let rows := g.2.map Prod.fst
  let requests ← countInt (fun _ => true) rows
  let promptTokens ← sumInt (fun row => row.promptTokens) rows
  let completionTokens ← sumInt (fun row => row.completionTokens) rows
  let cachedReadTokens ← sumInt (fun row => row.cachedReadTokens) rows
  let costUnknownCount ← countInt (fun row => row.costUnknown) rows
  return {
    dimension := g.1, requests, promptTokens, completionTokens, cachedReadTokens
    costCents := sumCents rows, costUnknownCount }

def spendBy (toChar : ℕ → String) (collation : String → String → Bool) (ledger : List UsageLedgerRow)
    (classes : List TaskClassRow) (dim : SpendDimension) (f : LedgerFilter) :
    Except Thrown (List SpendRow) := do
  let rows := ledger.filter (conds f)
  let joined : List Joined :=
    if dim = .task_class then withClasses rows classes else rows.map fun row => (row, none)
  let selected ← select spendRow (groups (dimensionColumn toChar dim) joined)
  return selected.insertionSort fun a b => collation a.dimension b.dimension

/-! ### The cost breakdown -/

structure CostBreakdownRow where
  app : String
  taskClass : String
  model : String
  requests : ℕ
  promptTokens : ℚ
  completionTokens : ℚ
  cachedReadTokens : ℚ
  costCents : ℤ
  costUnknownCount : ℕ
  estimatedCount : ℕ
deriving DecidableEq

/-- App, task class and model. -/
abbrev Bucket : Type := String × String × String

def bucketOf (j : Joined) : Bucket :=
  (j.1.app, (j.2.map TaskClassRow.key).getD "(none)", j.1.modelServed.getD "(none)")

def breakdownRow (g : Bucket × List Joined) : Except Thrown CostBreakdownRow := do
  let rows := g.2.map Prod.fst
  let requests ← countInt (fun _ => true) rows
  let promptTokens ← sumInt (fun row => row.promptTokens) rows
  let completionTokens ← sumInt (fun row => row.completionTokens) rows
  let cachedReadTokens ← sumInt (fun row => row.cachedReadTokens) rows
  let costUnknownCount ← countInt (fun row => row.costUnknown) rows
  let estimatedCount ← countInt (fun row => row.costEstimated) rows
  return {
    app := g.1.1, taskClass := g.1.2.1, model := g.1.2.2, requests, promptTokens, completionTokens
    cachedReadTokens, costCents := sumCents rows, costUnknownCount, estimatedCount }

def costBreakdown (ledger : List UsageLedgerRow) (classes : List TaskClassRow) (f : LedgerFilter) :
    Except Thrown (List CostBreakdownRow) := do
  let joined := withClasses (ledger.filter (conds f)) classes
  let selected ← select breakdownRow (groups bucketOf joined)
  return selected.insertionSort fun a b => b.costCents ≤ a.costCents

/-! ### The view of the costs -/

inductive Dim
  | app | taskClass | model
deriving DecidableEq

structure Totals where
  requests : ℕ
  promptTokens : ℚ
  completionTokens : ℚ
  cachedReadTokens : ℚ
  costCents : ℤ
  costUnknownCount : ℕ
  estimatedCount : ℕ
deriving DecidableEq

def ZERO : Totals := ⟨0, 0, 0, 0, 0, 0, 0⟩

/-- `add`, in exact arithmetic. -/
def add (a : Totals) (r : CostBreakdownRow) : Totals where
  requests := a.requests + r.requests
  promptTokens := a.promptTokens + r.promptTokens
  completionTokens := a.completionTokens + r.completionTokens
  cachedReadTokens := a.cachedReadTokens + r.cachedReadTokens
  costCents := a.costCents + r.costCents
  costUnknownCount := a.costUnknownCount + r.costUnknownCount
  estimatedCount := a.estimatedCount + r.estimatedCount

def Dim.ofBucket : Dim → Bucket → String
  | .app, b => b.1
  | .taskClass, b => b.2.1
  | .model, b => b.2.2

def CostBreakdownRow.bucket (r : CostBreakdownRow) : Bucket := (r.app, r.taskClass, r.model)

/-- `r[dim]`. -/
def CostBreakdownRow.get (r : CostBreakdownRow) (dim : Dim) : String := dim.ofBucket r.bucket

/-- The dearest first, and of equally dear ones the most frequent. -/
def dearer (a b : String × Totals) : Prop :=
  b.2.costCents < a.2.costCents ∨ b.2.costCents = a.2.costCents ∧ b.2.requests ≤ a.2.requests

instance : DecidableRel dearer := fun _ _ => inferInstanceAs (Decidable (_ ∨ _))

def groupBy (rows : List CostBreakdownRow) (dim : Dim) : List (String × Totals) :=
  (Grouping.collect (fun r => CostBreakdownRow.get r dim) add ZERO rows).entries.insertionSort dearer

def total (rows : List CostBreakdownRow) : Totals := rows.foldl add ZERO

/-- What the view shows below an entry. -/
def subBreakdown (rows : List CostBreakdownRow) (dim : Dim) (key : String) (sub : Dim) :
    List (String × Totals) := groupBy (rows.filter fun r => r.get dim = key) sub

/-! ### Adding up -/

namespace Totals

instance : Add Totals where
  add a b := ⟨a.requests + b.requests, a.promptTokens + b.promptTokens,
    a.completionTokens + b.completionTokens, a.cachedReadTokens + b.cachedReadTokens,
    a.costCents + b.costCents, a.costUnknownCount + b.costUnknownCount,
    a.estimatedCount + b.estimatedCount⟩

instance : Zero Totals := ⟨ZERO⟩

theorem add_def (a b : Totals) : a + b = ⟨a.requests + b.requests, a.promptTokens + b.promptTokens,
    a.completionTokens + b.completionTokens, a.cachedReadTokens + b.cachedReadTokens,
    a.costCents + b.costCents, a.costUnknownCount + b.costUnknownCount,
    a.estimatedCount + b.estimatedCount⟩ := rfl

theorem zero_def : (0 : Totals) = ⟨0, 0, 0, 0, 0, 0, 0⟩ := rfl

instance : AddCommMonoid Totals where
  add_assoc a b c := by simp only [add_def, add_assoc]
  zero_add a := by simp only [add_def, zero_def, zero_add]
  add_zero a := by simp only [add_def, zero_def, add_zero]
  add_comm a b := by simp only [add_def, add_comm]
  nsmul := nsmulRec

/-- What a row of the ledger adds. -/
def ofRow (row : UsageLedgerRow) : Totals where
  requests := 1
  promptTokens := row.promptTokens
  completionTokens := row.completionTokens
  cachedReadTokens := row.cachedReadTokens
  costCents := row.costCents.getD 0
  costUnknownCount := if row.costUnknown then 1 else 0
  estimatedCount := if row.costEstimated then 1 else 0

/-- What rows of the ledger add up to. -/
def ofRows (rows : List UsageLedgerRow) : Totals := (rows.map ofRow).sum

theorem ofRows_eq (rows : List UsageLedgerRow) : ofRows rows = {
    requests := rows.countP fun _ => true
    promptTokens := (rows.map fun row => row.promptTokens).sum
    completionTokens := (rows.map fun row => row.completionTokens).sum
    cachedReadTokens := (rows.map fun row => row.cachedReadTokens).sum
    costCents := sumCents rows
    costUnknownCount := rows.countP fun row => row.costUnknown
    estimatedCount := rows.countP fun row => row.costEstimated } := by
  induction rows with
  | nil => rfl
  | cons row rows ih =>
      unfold ofRows at ih ⊢
      rw [List.map_cons, List.sum_cons, ih, add_def]
      simp only [ofRow, sumCents, List.map_cons, List.sum_cons, List.countP_cons, mk.injEq,
        if_true, true_and]
      exact ⟨add_comm _ _, add_comm _ _, add_comm _ _⟩

end Totals

def CostBreakdownRow.totals (r : CostBreakdownRow) : Totals where
  requests := r.requests
  promptTokens := r.promptTokens
  completionTokens := r.completionTokens
  cachedReadTokens := r.cachedReadTokens
  costCents := r.costCents
  costUnknownCount := r.costUnknownCount
  estimatedCount := r.estimatedCount

def SpendRow.of (dimension : String) (t : Totals) : SpendRow where
  dimension := dimension
  requests := t.requests
  promptTokens := t.promptTokens
  completionTokens := t.completionTokens
  cachedReadTokens := t.cachedReadTokens
  costCents := t.costCents
  costUnknownCount := t.costUnknownCount

theorem foldl_add (rows : List CostBreakdownRow) (a : Totals) :
    rows.foldl add a = a + (rows.map CostBreakdownRow.totals).sum := by
  induction rows generalizing a with
  | nil => simp
  | cons r rows ih =>
      rw [List.foldl_cons, ih, List.map_cons, List.sum_cons, ← add_assoc]
      rfl

/-! ### What the queries select -/

theorem bind_ok {α β : Type} {x : Except Thrown α} {f : α → Except Thrown β} {b : β}
    (h : (x >>= f) = .ok b) : ∃ a, x = .ok a ∧ f a = .ok b := by
  cases x with
  | error err => cases h
  | ok a => exact ⟨a, rfl, h⟩

theorem int4_ok {n m : ℚ} (h : int4 n = .ok m) : m = n := by
  unfold int4 at h
  split at h
  · cases h
    rfl
  · cases h

theorem sumInt_ok {column : UsageLedgerRow → ℚ} {rows : List UsageLedgerRow} {m : ℚ}
    (h : sumInt column rows = .ok m) : m = (rows.map column).sum := int4_ok h

theorem countInt_ok {p : UsageLedgerRow → Bool} {rows : List UsageLedgerRow} {m : ℕ}
    (h : countInt p rows = .ok m) : m = rows.countP p := by
  unfold countInt at h
  cases hn : int4 (rows.countP p) with
  | error err =>
      rw [hn] at h
      cases h
  | ok n =>
      rw [hn] at h
      cases h
      rfl

theorem breakdownRow_ok {g : Bucket × List Joined} {r : CostBreakdownRow}
    (h : breakdownRow g = .ok r) :
    r.bucket = g.1 ∧ r.totals = Totals.ofRows (g.2.map Prod.fst) := by
  obtain ⟨requests, h₁, h⟩ := bind_ok h
  obtain ⟨promptTokens, h₂, h⟩ := bind_ok h
  obtain ⟨completionTokens, h₃, h⟩ := bind_ok h
  obtain ⟨cachedReadTokens, h₄, h⟩ := bind_ok h
  obtain ⟨costUnknownCount, h₅, h⟩ := bind_ok h
  obtain ⟨estimatedCount, h₆, h⟩ := bind_ok h
  cases h
  refine ⟨rfl, ?_⟩
  rw [Totals.ofRows_eq]
  simp only [CostBreakdownRow.totals, countInt_ok h₁, sumInt_ok h₂, sumInt_ok h₃, sumInt_ok h₄,
    countInt_ok h₅, countInt_ok h₆]

theorem spendRow_ok {g : String × List Joined} {s : SpendRow} (h : spendRow g = .ok s) :
    s = .of g.1 (Totals.ofRows (g.2.map Prod.fst)) := by
  obtain ⟨requests, h₁, h⟩ := bind_ok h
  obtain ⟨promptTokens, h₂, h⟩ := bind_ok h
  obtain ⟨completionTokens, h₃, h⟩ := bind_ok h
  obtain ⟨cachedReadTokens, h₄, h⟩ := bind_ok h
  obtain ⟨costUnknownCount, h₅, h⟩ := bind_ok h
  cases h
  rw [Totals.ofRows_eq]
  simp only [SpendRow.of, countInt_ok h₁, sumInt_ok h₂, sumInt_ok h₃, sumInt_ok h₄, countInt_ok h₅]

/-! ### What the view shows -/

section
variable {ledger : List UsageLedgerRow} {classes : List TaskClassRow} {f : LedgerFilter}
  {rows : List CostBreakdownRow}

/-- The rows of the filter, with their classes. -/
def joinedRows (ledger : List UsageLedgerRow) (classes : List TaskClassRow) (f : LedgerFilter) :
    List Joined := withClasses (ledger.filter (conds f)) classes

theorem joinedRows_eq (hclasses : (classes.map TaskClassRow.id).Nodup) :
    joinedRows ledger classes f = (ledger.filter (conds f)).map fun row =>
      (row, referred (fun row : UsageLedgerRow => row.taskClassId) TaskClassRow.id classes row) :=
  leftJoin_eq _ hclasses

/-- The breakdown is the groups of the rows, in some order. -/
theorem costBreakdown_perm (h : costBreakdown ledger classes f = .ok rows) :
    (rows.map fun r => (r.bucket, r.totals)).Perm
      ((groups bucketOf (joinedRows ledger classes f)).map fun g =>
        (g.1, (g.2.map fun j => Totals.ofRow j.1).sum)) := by
  obtain ⟨selected, hselected, hrows⟩ := bind_ok h
  cases hrows
  refine ((List.perm_insertionSort _ _).map _).trans (List.Perm.of_eq ?_)
  refine map_select hselected fun g r hr => ?_
  obtain ⟨hbucket, htotals⟩ := breakdownRow_ok hr
  rw [hbucket, htotals, Totals.ofRows, List.map_map]
  rfl

theorem exists_bucket (h : costBreakdown ledger classes f = .ok rows) (p : Bucket → Prop) :
    (∃ r ∈ rows, p r.bucket) ↔ ∃ j ∈ joinedRows ledger classes f, p (bucketOf j) := by
  have hperm := (costBreakdown_perm h).map Prod.fst
  rw [List.map_map, List.map_map] at hperm
  have hmem : ∀ b, (∃ r ∈ rows, r.bucket = b) ↔ ∃ j ∈ joinedRows ledger classes f, bucketOf j = b := by
    intro b
    have hb := hperm.mem_iff (a := b)
    simp only [List.mem_map, Function.comp_apply] at hb
    rw [hb]
    constructor
    · rintro ⟨g, hg, rfl⟩
      exact (mem_groups.1 hg).1
    · rintro ⟨j, hj, hkey⟩
      exact ⟨_, group_of_mem hj hkey, rfl⟩
  constructor
  · rintro ⟨r, hr, hp⟩
    obtain ⟨j, hj, hkey⟩ := (hmem r.bucket).1 ⟨r, hr, rfl⟩
    exact ⟨j, hj, hkey ▸ hp⟩
  · rintro ⟨j, hj, hp⟩
    obtain ⟨r, hr, hkey⟩ := (hmem (bucketOf j)).2 ⟨j, hj, rfl⟩
    exact ⟨r, hr, hkey ▸ hp⟩

/-- The buckets that satisfy a condition add up to the rows of the ledger in them. -/
theorem sum_buckets (h : costBreakdown ledger classes f = .ok rows) (p : Bucket → Prop)
    [DecidablePred p] : ((rows.filter fun r => p r.bucket).map CostBreakdownRow.totals).sum =
      (((joinedRows ledger classes f).filter fun j => p (bucketOf j)).map fun j =>
        Totals.ofRow j.1).sum := by
  have hperm := ((costBreakdown_perm h).filter fun x => p x.1).map Prod.snd
  rw [← sum_groups_where p (fun j : Joined => Totals.ofRow j.1)]
  have hsum := hperm.sum_eq
  simpa [List.filter_map, List.map_map, Function.comp_def] using hsum

/-- The group of a dimension in the part of the breakdown that satisfies a condition. -/
theorem mem_groupBy_where (h : costBreakdown ledger classes f = .ok rows) (p : Bucket → Prop)
    [DecidablePred p] (dim : Dim) {k : String} {t : Totals} :
    (k, t) ∈ groupBy (rows.filter fun r => p r.bucket) dim ↔
      (∃ j ∈ joinedRows ledger classes f, p (bucketOf j) ∧ dim.ofBucket (bucketOf j) = k) ∧
      t = (((joinedRows ledger classes f).filter fun j =>
        p (bucketOf j) ∧ dim.ofBucket (bucketOf j) = k).map fun j => Totals.ofRow j.1).sum := by
  have hexists := exists_bucket h fun b => p b ∧ dim.ofBucket b = k
  have hsum := sum_buckets h fun b => p b ∧ dim.ofBucket b = k
  unfold groupBy
  rw [(List.perm_insertionSort _ _).mem_iff, mem_collect, ← hexists, ← hsum]
  refine and_congr ?_ (Eq.congr rfl ?_)
  · simp only [List.mem_filter, decide_eq_true_eq, CostBreakdownRow.get]
    constructor
    · rintro ⟨r, ⟨hr, hp⟩, hkey⟩
      exact ⟨r, hr, hp, hkey⟩
    · rintro ⟨r, hr, hp, hkey⟩
      exact ⟨r, ⟨hr, hp⟩, hkey⟩
  · rw [foldl_add, List.filter_filter]
    have hfilter : (rows.filter fun r => decide (r.get dim = k) && decide (p r.bucket)) =
        rows.filter fun r => decide (p r.bucket ∧ dim.ofBucket r.bucket = k) := by
      refine List.filter_congr fun r _ => ?_
      rw [Bool.and_comm, ← Bool.decide_and]
      rfl
    rw [hfilter]
    exact zero_add _

theorem nodup_groupBy (rows : List CostBreakdownRow) (dim : Dim) :
    ((groupBy rows dim).map Prod.fst).Nodup :=
  ((List.perm_insertionSort _ _).map _).nodup_iff.2
    (Grouping.collect (fun r => CostBreakdownRow.get r dim) add ZERO rows).nodup

/-- The entries add up to the total. -/
theorem sum_groupBy (rows : List CostBreakdownRow) (dim : Dim) :
    ((groupBy rows dim).map Prod.snd).sum = total rows := by
  have hadd : ∀ rs : List CostBreakdownRow,
      rs.foldl add ZERO = (rs.map CostBreakdownRow.totals).sum :=
    fun rs => (foldl_add rs ZERO).trans (zero_add _)
  unfold groupBy total
  rw [((List.perm_insertionSort _ _).map _).sum_eq, sum_collect hadd, hadd]

/-- What a row of the ledger is called in a dimension. -/
def labelOf (classes : List TaskClassRow) (dim : Dim) (row : UsageLedgerRow) : String :=
  dim.ofBucket (bucketOf (row,
    referred (fun row : UsageLedgerRow => row.taskClassId) TaskClassRow.id classes row))

/-- An entry stands for the rows of its name. -/
def IsEntry (classes : List TaskClassRow) (rows : List UsageLedgerRow) (dim : Dim) (k : String)
    (t : Totals) : Prop :=
  (∃ row ∈ rows, labelOf classes dim row = k) ∧
    t = .ofRows (rows.filter fun row => labelOf classes dim row = k)

/-- The view of the part of the rows whose buckets satisfy a condition. -/
theorem mem_groupBy_iff (hclasses : (classes.map TaskClassRow.id).Nodup)
    (h : costBreakdown ledger classes f = .ok rows) (p : Bucket → Prop) [DecidablePred p] (dim : Dim)
    {k : String} {t : Totals} : (k, t) ∈ groupBy (rows.filter fun r => p r.bucket) dim ↔
      IsEntry classes ((ledger.filter (conds f)).filter fun row => p (bucketOf (row,
        referred (fun row : UsageLedgerRow => row.taskClassId) TaskClassRow.id classes row)))
        dim k t := by
  rw [mem_groupBy_where h, joinedRows_eq hclasses]
  generalize ledger.filter (conds f) = billed
  unfold IsEntry labelOf Totals.ofRows
  refine and_congr ?_ (Eq.congr rfl ?_)
  · constructor
    · rintro ⟨j, hj, hp, hkey⟩
      obtain ⟨row, hrow, rfl⟩ := List.mem_map.1 hj
      exact ⟨row, List.mem_filter.2 ⟨hrow, by simpa using hp⟩, hkey⟩
    · rintro ⟨row, hrow, hkey⟩
      obtain ⟨hrow, hp⟩ := List.mem_filter.1 hrow
      exact ⟨_, List.mem_map_of_mem hrow, by simpa using hp, hkey⟩
  · rw [List.filter_map, List.map_map, List.filter_filter]
    refine congrArg List.sum (congrArg _ (List.filter_congr fun row _ => ?_))
    rw [Bool.and_comm, ← Bool.decide_and]
    rfl

def Dim.spend : Dim → SpendDimension
  | .app => .app
  | .taskClass => .task_class
  | .model => .model

/-- The rows that `spendBy` groups are the rows of the ledger, with the names they have in the view. -/
theorem spend_base (hclasses : (classes.map TaskClassRow.id).Nodup) (toChar : ℕ → String)
    (rows : List UsageLedgerRow) (dim : Dim) : ∃ φ : UsageLedgerRow → Joined,
      (if dim.spend = .task_class then withClasses rows classes
        else rows.map fun row => (row, none)) = rows.map φ ∧ (∀ row, (φ row).1 = row) ∧
      ∀ row, dimensionColumn toChar dim.spend (φ row) = labelOf classes dim row := by
  cases dim with
  | app => exact ⟨fun row => (row, none), rfl, fun _ => rfl, fun _ => rfl⟩
  | model => exact ⟨fun row => (row, none), rfl, fun _ => rfl, fun _ => rfl⟩
  | taskClass => exact ⟨_, leftJoin_eq rows hclasses, fun _ => rfl, fun _ => rfl⟩

/-- The database groups the rows by one dimension as the view does. -/
theorem mem_spendBy_iff (hclasses : (classes.map TaskClassRow.id).Nodup) {toChar : ℕ → String}
    {collation : String → String → Bool} {dim : Dim} {spend : List SpendRow}
    (h : spendBy toChar collation ledger classes dim.spend f = .ok spend) {s : SpendRow} :
    s ∈ spend ↔ ∃ t, IsEntry classes (ledger.filter (conds f)) dim s.dimension t ∧
      s = .of s.dimension t := by
  obtain ⟨selected, hselected, hspend⟩ := bind_ok h
  cases hspend
  obtain ⟨φ, hbase, hfst, hlabel⟩ := spend_base hclasses toChar (ledger.filter (conds f)) dim
  have hmap := map_select (φ := id) hselected fun g s hs => spendRow_ok hs
  rw [List.map_id, hbase] at hmap
  have hgroup : ∀ k, (((ledger.filter (conds f)).map φ).filter fun j =>
      dimensionColumn toChar dim.spend j = k).map Prod.fst =
      (ledger.filter (conds f)).filter fun row => labelOf classes dim row = k := by
    intro k
    rw [List.filter_map, List.map_map]
    simp only [Function.comp_def, hlabel, hfst, List.map_id']
  rw [(List.perm_insertionSort _ _).mem_iff, hmap, List.mem_map]
  unfold IsEntry
  constructor
  · rintro ⟨g, hg, rfl⟩
    obtain ⟨⟨j, hj, hkey⟩, hrows⟩ := mem_groups.1 hg
    obtain ⟨row, hrow, rfl⟩ := List.mem_map.1 hj
    refine ⟨_, ⟨⟨row, hrow, (hlabel row).symm.trans hkey⟩, rfl⟩, ?_⟩
    rw [hrows, hgroup]
    rfl
  · rintro ⟨t, ⟨⟨row, hrow, hkey⟩, rfl⟩, hs⟩
    refine ⟨_, group_of_mem (List.mem_map_of_mem hrow) ((hlabel row).trans hkey), ?_⟩
    rw [hs]
    dsimp only
    rw [hgroup]
    rfl

theorem total_eq (hclasses : (classes.map TaskClassRow.id).Nodup)
    (h : costBreakdown ledger classes f = .ok rows) :
    total rows = .ofRows (ledger.filter (conds f)) := by
  have hsum := sum_buckets h fun _ => True
  simp only [decide_true, List.filter_true] at hsum
  unfold total Totals.ofRows
  rw [foldl_add, hsum, joinedRows_eq hclasses, List.map_map]
  exact zero_add _

theorem isEntry_iff (hclasses : (classes.map TaskClassRow.id).Nodup)
    (h : costBreakdown ledger classes f = .ok rows) (dim : Dim) (k : String) (t : Totals) :
    (k, t) ∈ groupBy rows dim ↔ IsEntry classes (ledger.filter (conds f)) dim k t := by
  have hiff := mem_groupBy_iff hclasses h (fun _ => True) dim (k := k) (t := t)
  simpa only [decide_true, List.filter_true] using hiff

/-- **The view of the costs.**  Grouping the breakdown again shows, in exact arithmetic, the rows of the
ledger: the total is what they add up to, there is one entry for each name in a dimension, with what the rows of this
name add up to, and so there is below an entry for each name in another dimension; the entries add up to
the total, and they are those that the database computes for the dimension itself. -/
theorem costs_view_faithful (hclasses : (classes.map TaskClassRow.id).Nodup)
    (h : costBreakdown ledger classes f = .ok rows) (dim : Dim) :
    let billed := ledger.filter (conds f)
    total rows = .ofRows billed ∧ ((groupBy rows dim).map Prod.snd).sum = total rows ∧
    ((groupBy rows dim).map Prod.fst).Nodup ∧
    (∀ k t, (k, t) ∈ groupBy rows dim ↔ IsEntry classes billed dim k t) ∧
    (∀ key sub k t, (k, t) ∈ subBreakdown rows dim key sub ↔
      IsEntry classes (billed.filter fun row => labelOf classes dim row = key) sub k t) ∧
    ∀ toChar collation spend, spendBy toChar collation ledger classes dim.spend f = .ok spend →
      ∀ s, s ∈ spend ↔ ∃ t, (s.dimension, t) ∈ groupBy rows dim ∧ s = .of s.dimension t := by
  refine ⟨total_eq hclasses h, sum_groupBy rows dim, nodup_groupBy rows dim,
    isEntry_iff hclasses h dim, ?_, ?_⟩
  · intro key sub k t
    exact mem_groupBy_iff hclasses h (fun b => dim.ofBucket b = key) sub
  · intro toChar collation spend hspend s
    rw [mem_spendBy_iff hclasses hspend]
    simp only [isEntry_iff hclasses h]

end

/-! ### Three requests -/

namespace Sample

def billedRow (requestId app : String) (taskClassId : Option Uuid) (modelServed clientRef : Option String)
    (costCents : Option ℤ) (ts : ℕ) : UsageLedgerRow where
  requestId := requestId
  firmId := VibeRouter.Sample.firmId
  app := app
  taskClassId := taskClassId
  userId := none
  modelRequested := none
  modelServed := modelServed
  providerId := none
  promptTokens := 100
  completionTokens := 50
  cachedReadTokens := 0
  cacheWriteTokens := 0
  costCents := costCents
  costUnknown := costCents.isNone
  costEstimated := false
  latencyMs := 10
  status := .ok
  engagementRef := none
  clientRef := clientRef
  requestHash := VibeRouter.Sample.tokenHash
  ts := ts

/-- Priced, not priced, and rejected before it had a class. -/
def ledger : List UsageLedgerRow :=
  [billedRow "r1" "vibe-tb" (some VibeRouter.Sample.taskClassId) (some "gpt") (some "c1") (some 10500000)
      1000,
    billedRow "r2" "vibe-mybooks" (some VibeRouter.Sample.taskClassId) (some "new") none none 2000,
    billedRow "r3" "vibe-tb" none none (some "c1") (some 0) 3000]

def costs : List CostBreakdownRow :=
  (costBreakdown ledger [VibeRouter.Sample.taskClass] { firmId := VibeRouter.Sample.firmId }).toOption.getD
    []

theorem costs_eq :
    costBreakdown ledger [VibeRouter.Sample.taskClass] { firmId := VibeRouter.Sample.firmId } =
      .ok costs := by
  decide +kernel

end Sample

theorem sample_costs_view : ((groupBy Sample.costs .app).map Prod.snd).sum = total Sample.costs ∧
    total Sample.costs = ⟨3, 300, 150, 0, 10500000, 1, 0⟩ := by
  obtain ⟨htotal, hsum, -⟩ := costs_view_faithful (by decide) Sample.costs_eq .app
  refine ⟨hsum, htotal.trans ?_⟩
  decide +kernel

end Aggregate
end VibeRouter
