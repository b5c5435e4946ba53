import Mathlib.Tactic.IntervalCases
import VibeRouter.Ledger.Aggregate
import VibeRouter.Ledger.Consistent

/-! # The billing feed

`billingUsage` adds up what a month's requests for the clients of a firm cost, by client, engagement, app
and task class.  The month comes as a text of six digits, which need not be a month of the calendar: a
year below 100 is one of the twentieth century, and a month that is none runs on into other years
(`periodNumber`).  Every period that is accepted is a month all the same (`inPeriod_iff`), and a request
is in the feed of the month its spend counts for.  So feeds of different months bill every request once
(`billing_exact`). -/

namespace VibeRouter
namespace Billing

open Grouping Aggregate

/-! ### Months before 1970 -/

/-- The length of the month `n` months before January 1970. -/
def lengthBefore (n : ℕ) : ℕ :=
  let m : ℤ := -n
  match (m % 12).toNat with
  | 1 => if Calendar.isLeap (1970 + m / 12).toNat then 29 else 28
  | 3 | 5 | 8 | 10 => 30
  | _ => 31

def daysBefore : ℕ → ℕ
  | 0 => 0
  | n + 1 => daysBefore n + lengthBefore (n + 1)

/-- The first millisecond of a month, counted from January 1970. -/
def monthStart : ℤ → ℤ
  | .ofNat m => (Calendar.firstDay m : ℤ) * 86400000
  | .negSucc n => -(daysBefore (n + 1) : ℤ) * 86400000

theorem monthStart_nonpos (n : ℕ) : monthStart (.negSucc n + 1) ≤ 0 := by
  cases n with
  | zero => exact le_of_eq rfl
  | succ n =>
      show -(daysBefore (n + 1) : ℤ) * 86400000 ≤ 0
      omega

/-- A time lies in the one month that is its budget period. -/
theorem inMonth_iff (m : ℤ) (ts : ℕ) :
    monthStart m ≤ ts ∧ (ts : ℤ) < monthStart (m + 1) ↔ (currentPeriod ts : ℤ) = m := by
  cases m with
  | negSucc n =>
      have hnext := monthStart_nonpos n
      constructor
      · rintro ⟨-, hlt⟩
        omega
      · intro h
        omega
  | ofNat k =>
      have hstart : monthStart (.ofNat k) = (Calendar.firstDay k : ℤ) * 86400000 := rfl
      have hnext : monthStart (.ofNat k + 1) = (Calendar.firstDay (k + 1) : ℤ) * 86400000 := rfl
      have hspec := Calendar.monthOf_spec (ts / 86400000)
      rw [hstart, hnext]
      constructor
      · rintro ⟨hle, hlt⟩
        have hmonth : Calendar.monthOf (ts / 86400000) = k :=
          Calendar.monthOf_eq (by omega) (by omega)
        unfold currentPeriod
        rw [hmonth]
        rfl
      · intro h
        have hmonth : Calendar.monthOf (ts / 86400000) = k := Int.ofNat.inj h
        rw [hmonth] at hspec
        omega

/-! ### Periods -/

/-- `/^\d{6}$/`. -/
def isPeriod (period : String) : Bool :=
  period.toList.length = 6 ∧ period.toList.all Char.isDigit

/-- `Number(period.slice(0, 4))`. -/
def yearOf (period : String) : ℕ := Nat.ofDigitChars 10 (period.toList.take 4) 0

/-- `Number(period.slice(4, 6))`. -/
def monthOf (period : String) : ℕ := Nat.ofDigitChars 10 ((period.toList.drop 4).take 2) 0

/-- The month of `Date.UTC(year, month, 1)`. -/
def utcMonth (year : ℕ) (month : ℤ) : ℤ :=
  ((if year ≤ 99 then 1900 + year else year : ℕ) - 1970 : ℤ) * 12 + month

/-- `Date.UTC(year, month, 1)`. -/
def dateUTC (year : ℕ) (month : ℤ) : ℤ := monthStart (utcMonth year month)

/-- The month that a period is. -/
def periodNumber (period : String) : ℤ := utcMonth (yearOf period) (monthOf period - 1)

theorem inPeriod_iff (period : String) (ts : ℕ) :
    dateUTC (yearOf period) (monthOf period - 1) ≤ ts ∧
      (ts : ℤ) < dateUTC (yearOf period) (monthOf period) ↔
    (currentPeriod ts : ℤ) = periodNumber period := by
  have hnext : utcMonth (yearOf period) (monthOf period) = periodNumber period + 1 := by
    unfold periodNumber utcMonth
    omega
  unfold dateUTC
  rw [hnext]
  exact inMonth_iff _ ts

/-- The text of two digits. -/
theorem ofDigitChars_month {k : ℕ} (h : k < 12) :
    ((if k + 1 < 10 then "0" else "") ++ toString (k + 1) : String).toList.length = 2 ∧
      ((if k + 1 < 10 then "0" else "") ++ toString (k + 1) : String).toList.all Char.isDigit ∧
      Nat.ofDigitChars 10 ((if k + 1 < 10 then "0" else "") ++ toString (k + 1) : String).toList 0 =
        k + 1 := by
  interval_cases k <;> decide

theorem year_digits {year : ℕ} (hlow : 1000 ≤ year) (hhigh : year < 10000) :
    (Nat.toDigits 10 year).length = 4 := by
  have hle := (Nat.length_toDigits_le_iff (b := 10) (n := year) (k := 4) (by decide)
    (by decide)).2 hhigh
  have hge := mt (Nat.length_toDigits_le_iff (b := 10) (n := year) (k := 3) (by decide)
    (by decide)).1 (by omega)
  omega

/-- The text of a budget period is accepted, and is that period. -/
theorem period_text {p : ℕ} (h : p < 8030 * 12) :
    isPeriod (Period.text p) = true ∧ periodNumber (Period.text p) = p := by
  obtain ⟨hlength, hdigit, hmonth⟩ := ofDigitChars_month (Nat.mod_lt p (by decide : 0 < 12))
  have hyear : (Nat.toDigits 10 (1970 + p / 12)).length = 4 := year_digits (by omega) (by omega)
  have hlist : (Period.text p).toList = Nat.toDigits 10 (1970 + p / 12) ++
      ((if p % 12 + 1 < 10 then "0" else "") ++ toString (p % 12 + 1) : String).toList := by
    unfold Period.text
    simp
  have htake : (Period.text p).toList.take 4 = Nat.toDigits 10 (1970 + p / 12) := by
    rw [hlist, List.take_append_of_le_length (by omega), List.take_of_length_le (by omega)]
  have hdrop : ((Period.text p).toList.drop 4).take 2 =
      ((if p % 12 + 1 < 10 then "0" else "") ++ toString (p % 12 + 1) : String).toList := by
    rw [hlist, List.drop_append_of_le_length (by omega), List.drop_of_length_le (by omega),
      List.nil_append, List.take_of_length_le (by omega)]
  constructor
  · unfold isPeriod
    simp only [decide_eq_true_eq]
    refine ⟨?_, ?_⟩
    · rw [hlist, List.length_append]
      omega
    · rw [hlist, List.all_append, hdigit, Bool.and_true, List.all_eq_true]
      intro c hc
      exact Nat.isDigit_of_mem_toDigits (by decide) (by decide) hc
  · unfold periodNumber utcMonth yearOf monthOf
    rw [htake, hdrop, hmonth, Nat.ofDigitChars_ten_toDigits, if_neg (by omega)]
    omega

/-! ### The feed -/

structure BillingItem where
  clientRef : String
  engagementRef : Option String
  app : String
  taskClass : Option String
  requests : ℕ
  promptTokens : ℚ
  completionTokens : ℚ
  costCents : ℤ
deriving DecidableEq

/-- Client, engagement, app and task class. -/
abbrev Line : Type := String × Option String × String × Option String

def lineOf (j : Joined) : Line :=
  (j.1.clientRef.getD "", j.1.engagementRef, j.1.app, j.2.map TaskClassRow.key)

/-- The rows of the feed; an empty client is no filter. -/
def billed (firmId : Uuid) (period : String) (clientRef : Option String) (row : UsageLedgerRow) :
    Bool :=
  row.firmId = firmId ∧ dateUTC (yearOf period) (monthOf period - 1) ≤ row.ts ∧
    (row.ts : ℤ) < dateUTC (yearOf period) (monthOf period) ∧ row.clientRef.isSome ∧
    ∀ client ∈ clientRef, client ≠ "" → row.clientRef = some client

def billingRow (g : Line × List Joined) : Except Thrown BillingItem := do
  let rows := g.2.map Prod.fst
  let requests ← countInt (fun _ => true) rows
  let promptTokens ← sumInt (fun row => row.promptTokens) rows
  let completionTokens ← sumInt (fun row => row.completionTokens) rows
  return {
    clientRef := g.1.1, engagementRef := g.1.2.1, app := g.1.2.2.1, taskClass := g.1.2.2.2
    requests, promptTokens, completionTokens, costCents := sumCents rows }

def billingUsage (collation : String → String → Bool) (ledger : List UsageLedgerRow)
    (classes : List TaskClassRow) (firmId : Uuid) (period : String) (clientRef : Option String) :
    Except Thrown (List BillingItem) := do
  let joined := withClasses (ledger.filter (billed firmId period clientRef)) classes
  let selected ← select billingRow (groups lineOf joined)
  return selected.insertionSort fun a b => collation a.clientRef b.clientRef

/-! ### What is billed -/

/-- Requests, tokens and cost. -/
abbrev Amounts : Type := ℕ × ℚ × ℚ × ℤ

def BillingItem.line (x : BillingItem) : Line := (x.clientRef, x.engagementRef, x.app, x.taskClass)

def BillingItem.amounts (x : BillingItem) : Amounts :=
  (x.requests, x.promptTokens, x.completionTokens, x.costCents)

/-- What a row of the ledger adds. -/
def amountsOf (row : UsageLedgerRow) : Amounts :=
  (1, row.promptTokens, row.completionTokens, row.costCents.getD 0)

theorem sum_amountsOf (rows : List UsageLedgerRow) : (rows.map amountsOf).sum =
    (rows.countP fun _ => true, (rows.map fun row => row.promptTokens).sum,
      (rows.map fun row => row.completionTokens).sum, sumCents rows) := by
  induction rows with
  | nil => rfl
  | cons row rows ih =>
      rw [List.map_cons, List.sum_cons, ih]
      simp only [amountsOf, sumCents, List.map_cons, List.sum_cons, List.countP_cons, Prod.mk_add_mk,
        if_true, Prod.mk.injEq, and_true]
      exact add_comm _ _

theorem billingRow_ok {g : Line × List Joined} {x : BillingItem} (h : billingRow g = .ok x) :
    x.line = g.1 ∧ x.amounts = (g.2.map fun j => amountsOf j.1).sum := by
  obtain ⟨requests, h₁, h⟩ := bind_ok h
  obtain ⟨promptTokens, h₂, h⟩ := bind_ok h
  obtain ⟨completionTokens, h₃, h⟩ := bind_ok h
  cases h
  refine ⟨rfl, ?_⟩
  have hmap : (g.2.map fun j => amountsOf j.1) = (g.2.map Prod.fst).map amountsOf := by
    rw [List.map_map]
    rfl
  rw [hmap, sum_amountsOf]
  simp only [BillingItem.amounts, countInt_ok h₁, sumInt_ok h₂, sumInt_ok h₃]

section
variable {collation : String → String → Bool} {ledger : List UsageLedgerRow}
  {classes : List TaskClassRow} {firmId : Uuid} {period : String} {clientRef : Option String}
  {items : List BillingItem}

/-- The line of a row of the ledger. -/
def lineOfRow (classes : List TaskClassRow) (row : UsageLedgerRow) : Line :=
  lineOf (row, referred (fun row : UsageLedgerRow => row.taskClassId) TaskClassRow.id classes row)

theorem billingUsage_perm (h : billingUsage collation ledger classes firmId period clientRef =
      .ok items) : (items.map fun x => (x.line, x.amounts)).Perm
    ((groups lineOf (withClasses (ledger.filter (billed firmId period clientRef)) classes)).map
      fun g => (g.1, (g.2.map fun j => amountsOf j.1).sum)) := by
  obtain ⟨selected, hselected, hitems⟩ := bind_ok h
  cases hitems
  refine ((List.perm_insertionSort _ _).map _).trans (List.Perm.of_eq ?_)
  refine map_select hselected fun g x hx => ?_
  obtain ⟨hline, hamounts⟩ := billingRow_ok hx
  rw [hline, hamounts]

/-- The feed adds up to the rows that are billed. -/
theorem sum_billingUsage (hclasses : (classes.map TaskClassRow.id).Nodup)
    (h : billingUsage collation ledger classes firmId period clientRef = .ok items) :
    (items.map BillingItem.amounts).sum =
      ((ledger.filter (billed firmId period clientRef)).map amountsOf).sum := by
  have hsum := ((billingUsage_perm h).map Prod.snd).sum_eq
  rw [List.map_map, List.map_map] at hsum
  refine hsum.trans ((sum_groups lineOf (fun j : Joined => amountsOf j.1) _).trans ?_)
  unfold withClasses
  rw [leftJoin_eq _ hclasses, List.map_map]
  rfl

/-- A line of the feed is what its rows add up to. -/
theorem mem_billingUsage (hclasses : (classes.map TaskClassRow.id).Nodup)
    (h : billingUsage collation ledger classes firmId period clientRef = .ok items)
    {x : BillingItem} : x ∈ items ↔
      (∃ row ∈ ledger.filter (billed firmId period clientRef), lineOfRow classes row = x.line) ∧
      x.amounts = (((ledger.filter (billed firmId period clientRef)).filter fun row =>
        lineOfRow classes row = x.line).map amountsOf).sum := by
  have hmem : x ∈ items ↔ (x.line, x.amounts) ∈ items.map fun x => (x.line, x.amounts) := by
    rw [List.mem_map]
    constructor
    · intro hx
      exact ⟨x, hx, rfl⟩
    · rintro ⟨y, hy, heq⟩
      have hxy : y = x := by
        cases x
        cases y
        simp only [BillingItem.line, BillingItem.amounts, Prod.mk.injEq] at heq
        simp only [BillingItem.mk.injEq]
        exact ⟨heq.1.1, heq.1.2.1, heq.1.2.2.1, heq.1.2.2.2, heq.2.1, heq.2.2.1, heq.2.2.2.1,
          heq.2.2.2.2⟩
      exact hxy ▸ hy
  have hbase : withClasses (ledger.filter (billed firmId period clientRef)) classes =
      (ledger.filter (billed firmId period clientRef)).map fun row => (row,
        referred (fun row : UsageLedgerRow => row.taskClassId) TaskClassRow.id classes row) :=
    leftJoin_eq _ hclasses
  rw [hmem, (billingUsage_perm h).mem_iff, hbase, List.mem_map]
  have hgroup : ∀ line, (((ledger.filter (billed firmId period clientRef)).map fun row => (row,
      referred (fun row : UsageLedgerRow => row.taskClassId) TaskClassRow.id classes row)).filter
      fun j => lineOf j = line).map (fun j => amountsOf j.1) =
      ((ledger.filter (billed firmId period clientRef)).filter fun row =>
        lineOfRow classes row = line).map amountsOf := by
    intro line
    rw [List.filter_map, List.map_map]
    rfl
  constructor
  · rintro ⟨g, hg, heq⟩
    obtain ⟨⟨j, hj, hkey⟩, hrows⟩ := mem_groups.1 hg
    obtain ⟨row, hrow, rfl⟩ := List.mem_map.1 hj
    obtain ⟨hline, hamounts⟩ := Prod.mk.inj heq
    refine ⟨⟨row, hrow, hkey.trans hline⟩, ?_⟩
    rw [← hamounts, hrows, hgroup, hline]
  · rintro ⟨⟨row, hrow, hkey⟩, hamounts⟩
    refine ⟨_, group_of_mem (List.mem_map_of_mem hrow) hkey, ?_⟩
    rw [hamounts, ← hgroup]

/-- A row is billed in the month that is its budget period. -/
theorem billed_iff {row : UsageLedgerRow} : billed firmId period clientRef row = true ↔
    row.firmId = firmId ∧ (currentPeriod row.ts : ℤ) = periodNumber period ∧
      row.clientRef.isSome ∧ ∀ client ∈ clientRef, client ≠ "" → row.clientRef = some client := by
  unfold billed
  rw [decide_eq_true_eq, ← inPeriod_iff]
  constructor
  · rintro ⟨hfirm, hstart, hend, hrest⟩
    exact ⟨hfirm, ⟨hstart, hend⟩, hrest⟩
  · rintro ⟨hfirm, ⟨hstart, hend⟩, hrest⟩
    exact ⟨hfirm, hstart, hend, hrest⟩

/-- Asking for one client gives the lines of this client. -/
theorem mem_client_feed (hclasses : (classes.map TaskClassRow.id).Nodup)
    (h : billingUsage collation ledger classes firmId period none = .ok items) {client : String}
    (hclient : client ≠ "") {lines : List BillingItem}
    (hlines : billingUsage collation ledger classes firmId period (some client) = .ok lines)
    (x : BillingItem) : x ∈ lines ↔ x ∈ items ∧ x.clientRef = client := by
  have hfirst : ∀ row, lineOfRow classes row = x.line → row.clientRef.getD "" = x.clientRef :=
    fun row hline => congrArg Prod.fst hline
  have hbilled : ∀ row, lineOfRow classes row = x.line → x.clientRef = client →
      billed firmId period (some client) row = billed firmId period none row := by
    intro row hline hx
    have hrow := hfirst row hline
    rw [Bool.eq_iff_iff, billed_iff, billed_iff]
    refine and_congr_right fun _ => and_congr_right fun _ => and_congr_right fun hsome => ?_
    simp only [Option.mem_def, Option.some.injEq, forall_eq', reduceCtorEq, false_imp_iff,
      implies_true, iff_true]
    rintro -
    obtain ⟨c, hc⟩ := Option.isSome_iff_exists.1 hsome
    rw [hc] at hrow ⊢
    rw [← hx, ← hrow]
    rfl
  have hrows : x.clientRef = client →
      ((ledger.filter (billed firmId period (some client))).filter fun row =>
        lineOfRow classes row = x.line) =
      (ledger.filter (billed firmId period none)).filter fun row =>
        lineOfRow classes row = x.line := by
    intro hx
    rw [List.filter_filter, List.filter_filter]
    refine List.filter_congr fun row _ => ?_
    by_cases hline : lineOfRow classes row = x.line
    · rw [hbilled row hline hx]
    · simp [hline]
  rw [mem_billingUsage hclasses hlines, mem_billingUsage hclasses h]
  constructor
  · rintro ⟨⟨row, hrow, hline⟩, hamounts⟩
    obtain ⟨hmem, hbill⟩ := List.mem_filter.1 hrow
    obtain ⟨hfirm, hmonth, hsome, hwhich⟩ := billed_iff.1 hbill
    have hx : x.clientRef = client := by
      rw [← hfirst row hline, hwhich client rfl hclient]
      rfl
    refine ⟨⟨⟨row, List.mem_filter.2 ⟨hmem, ?_⟩, hline⟩, ?_⟩, hx⟩
    · rw [← hbilled row hline hx]
      exact hbill
    · rw [hamounts, hrows hx]
  · rintro ⟨⟨⟨row, hrow, hline⟩, hamounts⟩, hx⟩
    obtain ⟨hmem, hbill⟩ := List.mem_filter.1 hrow
    refine ⟨⟨row, List.mem_filter.2 ⟨hmem, ?_⟩, hline⟩, ?_⟩
    · rw [hbilled row hline hx]
      exact hbill
    · rw [hamounts, hrows hx]

/-- **Every request is billed once.**  The feeds of different months add up to the requests of these
months that were for a client, the month being the one that the spend of the request counts for, and
asking for one client gives its lines of the feed. -/
theorem billing_exact (hclasses : (classes.map TaskClassRow.id).Nodup)
    {feeds : List (String × List BillingItem)}
    (hfeeds : ∀ x ∈ feeds, billingUsage collation ledger classes firmId x.1 none = .ok x.2)
    (hmonths : (feeds.map fun x => periodNumber x.1).Nodup) :
    (feeds.map fun x => (x.2.map BillingItem.amounts).sum).sum =
      ((ledger.filter fun row => row.firmId = firmId ∧ row.clientRef.isSome ∧
        (currentPeriod row.ts : ℤ) ∈ feeds.map fun x => periodNumber x.1).map amountsOf).sum ∧
    ∀ x ∈ feeds, ∀ client lines, client ≠ "" →
      billingUsage collation ledger classes firmId x.1 (some client) = .ok lines →
      ∀ item, item ∈ lines ↔ item ∈ x.2 ∧ item.clientRef = client := by
  refine ⟨?_, fun x hx client lines hclient hlines =>
    mem_client_feed hclasses (hfeeds x hx) hclient hlines⟩
  have hfeed : ∀ x ∈ feeds, (x.2.map BillingItem.amounts).sum =
      (((ledger.filter fun row => row.firmId = firmId ∧ row.clientRef.isSome ∧
        (currentPeriod row.ts : ℤ) ∈ feeds.map fun x => periodNumber x.1).filter fun row =>
          (currentPeriod row.ts : ℤ) = periodNumber x.1).map amountsOf).sum := by
    intro x hx
    rw [sum_billingUsage hclasses (hfeeds x hx), List.filter_filter]
    refine congrArg List.sum (congrArg _ (List.filter_congr fun row _ => ?_))
    rw [Bool.eq_iff_iff, billed_iff, Bool.and_eq_true, decide_eq_true_eq, decide_eq_true_eq]
    constructor
    · rintro ⟨hfirm, hmonth, hsome, -⟩
      exact ⟨hmonth, hfirm, hsome, List.mem_map.2 ⟨x, hx, hmonth.symm⟩⟩
    · rintro ⟨hmonth, hfirm, hsome, -⟩
      exact ⟨hfirm, hmonth, hsome, by simp⟩
  rw [List.map_congr_left hfeed, ← sum_fibers (fun row : UsageLedgerRow => (currentPeriod row.ts : ℤ))
    amountsOf (feeds.map fun x => periodNumber x.1).toFinset, List.sum_toFinset _ hmonths,
    List.map_map]
  · rfl
  · intro row hrow
    have hmem := (List.mem_filter.1 hrow).2
    rw [decide_eq_true_eq] at hmem
    exact List.mem_toFinset.2 hmem.2.2

end

/-- A month that is none runs on into the next year. -/
example : periodNumber "202613" = periodNumber "202701" := by decide

namespace Sample

open VibeRouter.Sample

/-- Two clients, and requests of two months. -/
def ledger : List UsageLedgerRow :=
  Aggregate.Sample.ledger ++
    [Aggregate.Sample.billedRow "r4" "vibe-tb" (some taskClassId) (some "gpt") (some "c2")
        (some 3000000) 4000,
      Aggregate.Sample.billedRow "r5" "vibe-tb" (some taskClassId) (some "gpt") (some "c1")
        (some 2000000) (31 * 86400000 + 5000)]

def feed (month : String) (client : Option String) : List BillingItem :=
  (billingUsage (fun _ _ => true) ledger [taskClass] firmId month client).toOption.getD []

theorem feeds_eq : ∀ x ∈ [("197001", none), ("197002", none), ("197001", some "c1")],
    billingUsage (fun _ _ => true) ledger [taskClass] firmId x.1 x.2 = .ok (feed x.1 x.2) := by
  decide +kernel

end Sample

theorem sample_billing_exact :
    ((Sample.feed "197001" none).map BillingItem.amounts).sum +
        ((Sample.feed "197002" none).map BillingItem.amounts).sum = (4, 400, 200, 15500000) ∧
      ∀ item, item ∈ Sample.feed "197001" (some "c1") ↔
        item ∈ Sample.feed "197001" none ∧ item.clientRef = "c1" := by
  have hjanuary := Sample.feeds_eq ("197001", none) (by decide)
  have hfebruary := Sample.feeds_eq ("197002", none) (by decide)
  have hfeeds : ∀ x ∈ [("197001", Sample.feed "197001" none), ("197002", Sample.feed "197002" none)],
      billingUsage (fun _ _ => true) Sample.ledger [VibeRouter.Sample.taskClass]
        VibeRouter.Sample.firmId x.1 none = .ok x.2 :=
    List.forall_mem_cons.2 ⟨hjanuary, List.forall_mem_singleton.2 hfebruary⟩
  obtain ⟨hsum, hclient⟩ := billing_exact (by decide) hfeeds (by decide)
  refine ⟨?_, hclient _ List.mem_cons_self "c1" _ (by decide)
    (Sample.feeds_eq ("197001", some "c1") (by decide))⟩
  simp only [List.map_cons, List.map_nil, List.sum_cons, List.sum_nil, add_zero] at hsum
  rw [hsum]
  decide +kernel

/-! ### The dashboards beside the budgets -/

section
variable {q : LedgerTables} {firmId : Uuid} {p : Period}

/-- The rows of the ledger. -/
def rowsOf (q : LedgerTables) : List UsageLedgerRow := q.entries.map Entry.toUsageLedgerRow

theorem mem_scopes {e : Entry} {x : SpendScope} (h : x ∈ e.scopes) :
    x = (.firm, e.firmId.text) ∨ x = (.app, e.firmId.text ++ ":" ++ e.app) ∨
      ∃ u, x = (.user, e.firmId.text ++ ":" ++ u) := by
  unfold Entry.scopes spendScopes at h
  rcases List.mem_append.1 h with h | h
  · rcases List.mem_cons.1 h with h | h
    · exact Or.inl h
    · exact Or.inr (Or.inl (List.mem_singleton.1 h))
  · split at h
    · next u _ =>
        split at h
        · cases h
        · exact Or.inr (Or.inr ⟨u, List.mem_singleton.1 h⟩)
    · cases h

theorem firm_scope_iff {e : Entry} :
    ((.firm, firmId.text) : SpendScope) ∈ e.scopes ↔ e.firmId = firmId := by
  constructor
  · intro h
    rcases mem_scopes h with heq | heq | ⟨u, heq⟩
    · exact (HexText.ext_text (Prod.mk.inj heq).2).symm
    · cases (Prod.mk.inj heq).1
    · cases (Prod.mk.inj heq).1
  · rintro rfl
    exact e.firm_mem_scopes

theorem app_scope_iff {e : Entry} {app : String} :
    ((.app, firmId.text ++ ":" ++ app) : SpendScope) ∈ e.scopes ↔ e.firmId = firmId ∧ e.app = app := by
  constructor
  · intro h
    rcases mem_scopes h with heq | heq | ⟨u, heq⟩
    · cases (Prod.mk.inj heq).1
    · obtain ⟨hfirm, happ⟩ := HexText.key_inj (Prod.mk.inj heq).2
      exact ⟨hfirm.symm, happ.symm⟩
    · cases (Prod.mk.inj heq).1
  · rintro ⟨rfl, rfl⟩
    exact List.mem_append_left _ (List.mem_cons_of_mem _ (List.mem_singleton.2 rfl))

/-- The recorded spend of a scope is the cost of its rows in the period. -/
theorem spent_eq (hbalanced : q.Balanced) (x : SpendScope) (mine : UsageLedgerRow → Prop)
    [DecidablePred mine] (hscope : ∀ e : Entry, x ∈ e.scopes ↔ mine e.toUsageLedgerRow) :
    q.spent x p = sumCents ((rowsOf q).filter fun row => mine row ∧ currentPeriod row.ts = p) := by
  rw [hbalanced x p]
  unfold LedgerTables.sumOf sumCents rowsOf
  rw [sum_map_filter (fun row : UsageLedgerRow => mine row ∧ currentPeriod row.ts = p), List.map_map]
  refine congrArg List.sum (List.map_congr_left fun e _ => ?_)
  unfold Entry.charge Entry.period Entry.cost
  simp only [Function.comp_apply, hscope e, eq_comm (a := p)]

theorem costCents_ofRows (rows : List UsageLedgerRow) : (Totals.ofRows rows).costCents = sumCents rows := by
  rw [Totals.ofRows_eq]

/-- What the view says an entry cost; nothing if there is none. -/
def entryCents (entries : List (String × Totals)) (key : String) : ℤ :=
  ((entries.find? fun x => x.1 = key).map fun x => x.2.costCents).getD 0

theorem entryCents_eq {classes : List TaskClassRow} {rows : List UsageLedgerRow}
    {entries : List (String × Totals)} {dim : Dim}
    (hentries : ∀ k t, (k, t) ∈ entries ↔ IsEntry classes rows dim k t) (key : String) :
    entryCents entries key = sumCents (rows.filter fun row => labelOf classes dim row = key) := by
  unfold entryCents
  cases hfind : entries.find? fun x => x.1 = key with
  | some x =>
      obtain ⟨k, t⟩ := x
      obtain ⟨-, ht⟩ := (hentries k t).1 (List.mem_of_find?_eq_some hfind)
      obtain rfl : k = key := by simpa using List.find?_some hfind
      show t.costCents = _
      rw [ht, costCents_ofRows]
  | none =>
      have hnone : rows.filter (fun row => labelOf classes dim row = key) = [] := by
        rw [List.filter_eq_nil_iff]
        intro row hrow hkey
        have hentry := (hentries key _).2 ⟨⟨row, hrow, by simpa using hkey⟩, rfl⟩
        exact List.find?_eq_none.1 hfind _ hentry (by simp)
      rw [hnone]
      rfl

/-- The rows since the start of the last month are its rows. -/
theorem start_le_iff {ts : ℕ} (hle : currentPeriod ts ≤ p) : p.start ≤ ts ↔ currentPeriod ts = p := by
  unfold Period.start currentPeriod at *
  constructor
  · intro hstart
    have hmono := Calendar.monthOf_mono (a := Calendar.firstDay p) (b := ts / 86400000) (by omega)
    rw [Calendar.monthOf_eq le_rfl (Calendar.firstDay_lt p)] at hmono
    exact le_antisymm hle hmono
  · rintro rfl
    have hspec := (Calendar.monthOf_spec (ts / 86400000)).1
    omega

/-- **The dashboards and the budgets agree.**  Where the recorded spend is the cost of the rows, the view
of the costs of a firm since the start of the current month shows, in exact arithmetic, the spend that its
budget is checked against, in total and for every app. -/
theorem costs_match_budgets (hbalanced : q.Balanced) (hlast : ∀ e ∈ q.entries, e.period ≤ p)
    {classes : List TaskClassRow} (hclasses : (classes.map TaskClassRow.id).Nodup)
    {rows : List CostBreakdownRow}
    (h : costBreakdown (rowsOf q) classes { firmId, from_ := some p.start } = .ok rows) :
    (total rows).costCents = q.spent (.firm, scopeKey .firm firmId firmId.text) p ∧
    ∀ app, entryCents (groupBy rows .app) app = q.spent (.app, scopeKey .app firmId app) p := by
  have hfilter : (rowsOf q).filter (conds { firmId, from_ := some p.start }) =
      (rowsOf q).filter fun row => row.firmId = firmId ∧ currentPeriod row.ts = p := by
    refine List.filter_congr fun row hrow => ?_
    obtain ⟨e, he, rfl⟩ := List.mem_map.1 hrow
    have hsince : p.start ≤ e.ts ↔ currentPeriod e.ts = p := start_le_iff (hlast e he)
    unfold conds
    simp [hsince]
  constructor
  · rw [total_eq hclasses h, costCents_ofRows, hfilter]
    exact (spent_eq hbalanced _ (fun row => row.firmId = firmId) fun e => firm_scope_iff).symm
  · intro app
    have hspent := spent_eq (p := p) hbalanced (.app, firmId.text ++ ":" ++ app)
      (fun row => row.firmId = firmId ∧ row.app = app) fun e => app_scope_iff
    rw [entryCents_eq (isEntry_iff hclasses h .app), hfilter, List.filter_filter]
    refine Eq.trans (congrArg sumCents (List.filter_congr fun row _ => ?_)) hspent.symm
    have hlabel : labelOf classes .app row = row.app := rfl
    rw [hlabel, ← Bool.decide_and, decide_eq_decide]
    constructor
    · rintro ⟨happ, hfirm, hperiod⟩
      exact ⟨⟨hfirm, happ⟩, hperiod⟩
    · rintro ⟨⟨hfirm, happ⟩, hperiod⟩
      exact ⟨happ, hfirm, hperiod⟩

end

namespace Sample

open VibeRouter.Sample

/-- The requests of `Aggregate.Sample.ledger`, with their spend. -/
def kept : LedgerTables :=
  let entries := Aggregate.Sample.ledger.map fun row => { row with user := none }
  { entries, spent := fun x p => (entries.map fun e => e.charge x p).sum }

def januaryCosts : List CostBreakdownRow :=
  (costBreakdown (rowsOf kept) [taskClass] { firmId, from_ := some 0 }).toOption.getD []

theorem januaryCosts_eq : costBreakdown (rowsOf kept) [taskClass] { firmId, from_ := some 0 } =
    .ok januaryCosts := by
  decide +kernel

end Sample

theorem sample_costs_match_budgets :
    entryCents (groupBy Sample.januaryCosts .app) "vibe-tb" = Sample.kept.spent
      (.app, scopeKey .app VibeRouter.Sample.firmId "vibe-tb") 0 := by
  have hlast : ∀ e ∈ Sample.kept.entries, e.period ≤ 0 := by decide +kernel
  exact (costs_match_budgets (fun _ _ => rfl) hlast (by decide) Sample.januaryCosts_eq).2 "vibe-tb"

end Billing
end VibeRouter
