import VibeRouter.Ledger.Writer
import VibeRouter.Gateway.PipelineSpecs
import VibeRouter.Db.Tables

/-! # The ledger and the recorded spend

The usage ledger and the spend of the budgets as the database keeps them.  Any statement of a write
may be refused, and has no effect then.  The row of a request and the increments of its scopes are
statements of their own, so that the spend agrees with the rows as long as no increment is refused
once the row is stored, and every increment falls into the month of its row.  A negative cost, as counts
below zero give it, is stored with the row and is not recorded as spend. -/

namespace VibeRouter

open Effects Async Code

/-- A scope that spend is recorded for, with its key. -/
abbrev SpendScope : Type := BudgetScope × String

/-- A row, with the user its request named; the ledger itself does not keep the user. -/
structure Entry extends UsageLedgerRow where
  user : Option String

namespace Entry

def scopes (e : Entry) : List SpendScope := spendScopes e.firmId e.app e.user

def cost (e : Entry) : ℤ := e.costCents.getD 0

def period (e : Entry) : Period := currentPeriod e.ts

/-- What a row adds to the spend of a scope in a period. -/
def charge (e : Entry) (x : SpendScope) (p : Period) : ℤ :=
  if x ∈ e.scopes ∧ p = e.period then e.cost else 0

theorem scopes_nodup (e : Entry) : e.scopes.Nodup := by
  unfold scopes spendScopes
  cases e.user with
  | none => simp
  | some u =>
      dsimp only
      split
      · simp
      · simp

theorem firm_mem_scopes (e : Entry) :
    ((.firm, scopeKey .firm e.firmId e.firmId.text) : SpendScope) ∈ e.scopes := by
  simp [scopes, spendScopes]

end Entry

/-- The rows of the ledger, and `budgets_state`. -/
structure LedgerTables where
  entries : List Entry := []
  spent : SpendScope → Period → ℤ := fun _ _ => 0

namespace LedgerTables

variable (t : LedgerTables)

/-- The rows of a request. -/
def rowsOf (requestId : String) : List Entry := t.entries.filter fun e => e.requestId = requestId

def insert (e : Entry) : LedgerTables := { t with entries := e :: t.entries }

/-- `spent_cents + amount`. -/
def increment (x : SpendScope) (p : Period) (amount : ℤ) : LedgerTables :=
  { t with spent := fun y p' => t.spent y p' + if y = x ∧ p' = p then amount else 0 }

/-- The cost of the rows of a scope in a period. -/
def sumOf (x : SpendScope) (p : Period) : ℤ := (t.entries.map fun e => e.charge x p).sum

/-- The request id is a key of the ledger. -/
def Unique : Prop := (t.entries.map fun e => e.requestId).Nodup

/-- The recorded spend is the cost of the rows. -/
def Balanced : Prop := ∀ x p, t.spent x p = t.sumOf x p

variable {t}

theorem rowsOf_eq_nil_iff {requestId : String} :
    t.rowsOf requestId = [] ↔ ∀ e ∈ t.entries, e.requestId ≠ requestId := by
  simp [rowsOf, List.filter_eq_nil_iff]

theorem Unique.insert {e : Entry} (h : t.Unique) (hnone : t.rowsOf e.requestId = []) :
    (t.insert e).Unique := by
  refine List.nodup_cons.2 ⟨fun hmem => ?_, h⟩
  obtain ⟨e', he', hid⟩ := List.mem_map.1 hmem
  exact rowsOf_eq_nil_iff.1 hnone e' he' hid

/-- A request that has a row has one. -/
theorem Unique.rowsOf_eq {e : Entry} (h : t.Unique) (he : e ∈ t.entries) :
    t.rowsOf e.requestId = [e] := by
  obtain ⟨entries, spent⟩ := t
  induction entries with
  | nil => cases he
  | cons e' entries ih =>
      obtain ⟨hhead, htail⟩ := List.nodup_cons.1 h
      rcases List.mem_cons.1 he with rfl | he
      · have hrest : entries.filter (fun e' => e'.requestId = e.requestId) = [] := by
          rw [List.filter_eq_nil_iff]
          intro e' he' hid
          have hid : e'.requestId = e.requestId := by simpa using hid
          exact hhead (List.mem_map.2 ⟨e', he', hid⟩)
        show (e :: entries).filter _ = [e]
        rw [List.filter_cons_of_pos (by simp), hrest]
      · have hne : e'.requestId ≠ e.requestId := fun hid =>
          hhead (List.mem_map.2 ⟨e, he, hid.symm⟩)
        show (e' :: entries).filter _ = [e]
        rw [List.filter_cons_of_neg (by simpa using hne)]
        exact ih htail he

end LedgerTables

/-! ### Calls of `write` -/

/-- A call of `write`; `ts` is the time of the database at the insertion. -/
structure WriteCall where
  ctx : PipelineCtx
  ts : ℕ

/-- `failed`: an increment was refused; `crossed`: one was in another month than its row; `negative`: a
row has a negative cost. -/
structure Written extends LedgerTables where
  failed : Bool := false
  crossed : Bool := false
  negative : Bool := false

namespace Written

/-- A row is stored. -/
def add (q : Written) (e : Entry) : Written :=
  { q with toLedgerTables := q.insert e, negative := q.negative || e.cost < 0 }

def note (w : WriteCall) (q : Written) : (e : Op) → e.Answer → Written
  | .insertUsage v, r => match r with
      | .ok true => q.add ⟨⟨v, w.ts⟩, w.ctx.envelope.metadata.userId⟩
      | _ => q
  | .incrementBudget scope ref p amount, r => match r with
      | .ok _ => { q with
          toLedgerTables := q.increment (scope, ref) p amount
          crossed := q.crossed || p ≠ currentPeriod w.ts }
      | .error _ => { q with failed := true }
  | _, _ => q

/-- A row is inserted unless there is one with its request id. -/
def Answers (q : Written) : (e : Op) → e.Answer → Prop
  | .insertUsage v, r => ∀ b, r = .ok b → b = decide (q.rowsOf v.requestId = [])
  | _, _ => True

/-- The database during a call. -/
def env (w : WriteCall) : Env Op Op.Answer Written where
  allows q e r := e.Lawful r ∧ q.Answers e r
  next := note w

/-- Calls, one after the other, with their outcomes. -/
inductive Writes : Written → List (WriteCall × Except Thrown Unit) → Written → Prop
  | nil (q : Written) : Writes q [] q
  | cons {q q₁ q₂ : Written} {w : WriteCall} {r : Except Thrown Unit} {u : Unit}
      {ws : List (WriteCall × Except Thrown Unit)} :
      Prog.Run (env w) (DbLedger.writeCtx w.ctx u) q (.ret (r, u)) q₁ → Writes q₁ ws q₂ →
      Writes q ((w, r) :: ws) q₂

/-! ### Increments -/

/-- What became of the increments of `scopes`. -/
structure Spent (w : WriteCall) (p : Period) (amount : ℤ) (scopes : List SpendScope)
    (r : Except Thrown Unit) (q q' : Written) : Prop where
  entries : q'.entries = q.entries
  all : r = .ok () → (∀ x p', q'.spent x p' =
      q.spent x p' + if x ∈ scopes ∧ p' = p then amount else 0) ∧
    q'.failed = q.failed ∧ q'.crossed = (q.crossed || decide (scopes ≠ [] ∧ p ≠ currentPeriod w.ts))
  some : (∃ e, r = .error e) → q'.failed = true ∧
    ∃ x ∈ scopes, ∀ p', q'.spent x p' = q.spent x p'
  crossed : q.crossed = true → q'.crossed = true
  negative : q'.negative = q.negative

section
variable {S : Type} {s : S} {w : WriteCall} {q q' : Written} {p : Period} {amount : ℤ}
  {scopes : List SpendScope} {r : Except Thrown Unit}

theorem Spent.none (w : WriteCall) (p : Period) (amount : ℤ) (q : Written) :
    Spent w p amount [] (.ok ()) q q where
  entries := rfl
  all _ := ⟨by simp, rfl, by simp⟩
  some h := by
    obtain ⟨e, h⟩ := h
    cases h
  crossed h := h
  negative := rfl

theorem Spent.refused (e : Thrown) (x : SpendScope) :
    Spent w p amount (x :: scopes) (.error e) q { q with failed := true } where
  entries := rfl
  all h := by cases h
  some _ := ⟨rfl, x, List.mem_cons_self .., fun _ => rfl⟩
  crossed h := h
  negative := rfl

/-- One more increment before the others. -/
theorem Spent.cons {x : SpendScope} (hx : x ∉ scopes)
    (h : Spent w p amount scopes r { q with
      toLedgerTables := q.increment x p amount
      crossed := q.crossed || p ≠ currentPeriod w.ts } q') :
    Spent w p amount (x :: scopes) r q q' where
  entries := h.entries
  all hr := by
    obtain ⟨hspent, hfailed, hcrossed⟩ := h.all hr
    refine ⟨fun y p' => ?_, hfailed, ?_⟩
    · rw [hspent y p']
      show q.spent y p' + _ + _ = _
      by_cases hy : y = x
      · subst hy
        simp [hx]
      · simp [hy]
    · rw [hcrossed]
      simp only [ne_eq, Bool.or_assoc]
      congr 1
      by_cases hp : p = currentPeriod w.ts
      · simp [hp]
      · simp [hp]
  some hr := by
    obtain ⟨hfailed, y, hy, hspent⟩ := h.some hr
    refine ⟨hfailed, y, List.mem_cons_of_mem _ hy, fun p' => ?_⟩
    have hne : y ≠ x := fun heq => hx (heq ▸ hy)
    rw [hspent p']
    show q.spent y p' + _ = _
    simp [hne]
  crossed hc := h.crossed (by simp [hc])
  negative := h.negative

theorem incrementAll_spent (hnodup : scopes.Nodup) :
    (incrementAll p amount scopes).wp (env w) (fun _ _ => True)
      (fun r s' q' => s' = s ∧ Spent w p amount scopes r q q') s q := by
  induction scopes generalizing q with
  | nil => exact ⟨rfl, .none w p amount q⟩
  | cons x scopes ih =>
      obtain ⟨hx, hnodup⟩ := List.nodup_cons.1 hnodup
      simp only [incrementAll, wp_bind, wp_await, wp_op]
      refine ⟨trivial, fun r hr => ?_⟩
      cases r with
      | error e => exact ⟨trivial, .refused e x⟩
      | ok u =>
          refine wp_mono (ih hnodup) ?_
          intro r s' q' h
          exact ⟨h.1, h.2.cons hx⟩

/-- The increments of the row `e`: none for a row that costs nothing, or less. -/
def Charged (w : WriteCall) (e : Entry) (r : Except Thrown Unit) (q q' : Written) : Prop :=
  ∃ p, Spent w p e.cost (if e.cost ≤ 0 then [] else e.scopes) r (q.add e) q'

theorem Charged.nothing {e : Entry} (w : WriteCall) (hcost : e.cost ≤ 0) (q : Written) :
    Charged w e (.ok ()) q (q.add e) := by
  refine ⟨0, ?_⟩
  rw [if_pos hcost]
  exact .none w 0 _ _

theorem recordSpend_charged (e : Entry) :
    (recordSpend e.firmId e.app e.user e.cost).wp (env w) (fun _ _ => True)
      (fun r s' q' => s' = s ∧ Charged w e r q q') s (q.add e) := by
  unfold recordSpend
  split
  · next hcost => exact ⟨rfl, .nothing w hcost q⟩
  · next hcost =>
      simp only [wp_bind, wp_dateNow]
      refine ⟨trivial, fun now _ => ?_⟩
      refine wp_mono (incrementAll_spent e.scopes_nodup) ?_
      intro r s' q' h
      refine ⟨h.1, currentPeriod now, ?_⟩
      rw [if_neg hcost]
      exact h.2

/-! ### One call -/

/-- What a call of `write` does: nothing, or it adds a row that is not there yet. -/
inductive Wrote (w : WriteCall) (r : Except Thrown Unit) (q q' : Written) : Prop
  | unchanged : q' = q →
      (r = .ok () → w.ctx.auth.isSome = true → q.rowsOf w.ctx.requestId ≠ []) → Wrote w r q q'
  | added (e : Entry) : e.requestId = w.ctx.requestId → e.ts = w.ts →
      q.rowsOf e.requestId = [] → Charged w e r q q' → Wrote w r q q'

theorem insertRow_wrote (auth : AuthContext) (pricing : Option ModelPricingRow) :
    (DbLedger.insertRow w.ctx auth pricing).wp (env w) (fun _ _ => True)
      (fun r _ q' => Wrote w r q q') s q := by
  simp only [DbLedger.insertRow, wp_bind, wp_await, wp_dateNow, wp_op]
  refine ⟨trivial, fun now _ => ⟨trivial, fun r hr => ?_⟩⟩
  cases r with
  | error e => exact .unchanged rfl fun h => by cases h
  | ok inserted =>
      have hinserted := hr.2 inserted rfl
      cases inserted with
      | false =>
          refine .unchanged rfl fun _ _ hrows => ?_
          exact Bool.noConfusion (hinserted.trans (decide_eq_true hrows))
      | true =>
          have hnone : q.rowsOf w.ctx.requestId = [] := of_decide_eq_true hinserted.symm
          let e : Entry :=
            ⟨⟨DbLedger.values w.ctx auth (DbLedger.costOf w.ctx pricing) now, w.ts⟩,
              w.ctx.envelope.metadata.userId⟩
          dsimp only
          split
          · next cents heq hcents =>
              have hcost : e.cost = cents := congrArg (Option.getD · 0) hcents
              rw [← hcost]
              split
              · refine wp_mono (recordSpend_charged e) ?_
                intro r s' q' h
                exact .added e rfl rfl hnone h.2
              · next hpos => exact .added e rfl rfl hnone (.nothing w (not_lt.1 hpos) q)
          · next hcents =>
              refine .added e rfl rfl hnone (.nothing w (le_of_eq ?_) q)
              cases hcost : (DbLedger.costOf w.ctx pricing).costCents with
              | some cents => exact absurd hcost (hcents cents rfl)
              | none => exact congrArg (Option.getD · 0) hcost

theorem note_aside {e : Op} (w : WriteCall) (q : Written) (r : e.Answer) (h : e.part ≠ .ledger) :
    note w q e r = q := by
  cases e with
  | insertUsage v => exact absurd rfl h
  | incrementBudget scope ref p amount => exact absurd rfl h
  | _ => rfl

theorem write_wrote :
    (DbLedger.writeCtx w.ctx).wp (env w) (fun _ _ => True) (fun r _ q' => Wrote w r q q') s q := by
  unfold DbLedger.writeCtx
  split
  · next hauth =>
      refine .unchanged rfl fun _ h => ?_
      rw [hauth] at h
      cases h
  · next auth hauth =>
      simp only [wp_bind]
      refine (DbLedger.pricingOf_uses w.ctx).wp (J := (· = q)) (fun _ _ _ hr => hr.1) rfl ?_ ?_
      · intro q' e hq he
        refine ⟨trivial, fun r _ => ?_⟩
        have haside : e.part ≠ .ledger := by
          intro hpart
          have hmem := he.1
          rw [hpart] at hmem
          simp at hmem
        exact (note_aside w q' r haside).trans hq
      · intro r s' q' _ hq
        subst hq
        cases r with
        | error e => exact .unchanged rfl fun h => by cases h
        | ok pricing => exact insertRow_wrote auth pricing

/-! ### Sequences of calls -/

theorem Charged.entries {e : Entry} (h : Charged w e r q q') : q'.entries = e :: q.entries := by
  obtain ⟨p, hspent⟩ := h
  exact hspent.entries

/-- No increment was refused or in another month, and no row has a negative cost. -/
def Smooth (q : Written) : Prop := q.failed = false ∧ q.crossed = false ∧ q.negative = false

/-- What was not smooth stays so. -/
theorem Charged.smooth {e : Entry} (h : Charged w e r q q') (hq' : q'.Smooth) : q.Smooth := by
  obtain ⟨p, hspent⟩ := h
  obtain ⟨hfailed, hcrossed, hnegative⟩ := hq'
  refine ⟨?_, ?_, ?_⟩
  · cases r with
    | error thrown =>
        rw [(hspent.some ⟨thrown, rfl⟩).1] at hfailed
        cases hfailed
    | ok u => exact (hspent.all rfl).2.1.symm.trans hfailed
  · by_contra hc
    have hbefore : q.crossed = true := by simpa using hc
    rw [hspent.crossed hbefore] at hcrossed
    cases hcrossed
  · rw [hspent.negative] at hnegative
    exact (Bool.or_eq_false_iff.1 hnegative).1

section
variable {e : Entry}

/-- The cost of the rows after the row `e` is added. -/
theorem Charged.sumOf_eq (h : Charged w e r q q') (hq : q.Balanced) (x : SpendScope) (p' : Period) :
    q'.sumOf x p' = e.charge x p' + q.spent x p' := by
  rw [hq x p']
  show (q'.entries.map fun e => e.charge x p').sum = _
  rw [h.entries]
  rfl

/-- A scope of the row whose spend in its period is as before is out of balance. -/
theorem Charged.unbalanced (h : Charged w e r q q') (hq : q.Balanced) (hcost : e.cost ≠ 0)
    {x : SpendScope} (hx : x ∈ e.scopes) (hsame : q'.spent x e.period = q.spent x e.period) :
    ¬q'.Balanced := by
  intro hb
  have hcharge : e.charge x e.period = e.cost := if_pos ⟨hx, rfl⟩
  have hlost := hb x e.period
  rw [h.sumOf_eq hq, hcharge, hsame] at hlost
  omega

/-- A balanced database stays so exactly if no increment was refused or in another month, and the row has
no negative cost. -/
theorem Charged.balanced_iff (h : Charged w e r q q') (hts : e.ts = w.ts) (hq : q.Balanced)
    (hsmooth : q.Smooth) : q'.Balanced ↔ q'.Smooth := by
  have hsum := h.sumOf_eq hq
  have hunbalanced := @Charged.unbalanced _ _ _ _ _ h hq
  obtain ⟨p, hspent⟩ := h
  obtain ⟨hfailed, hcrossed, hnegative⟩ := hsmooth
  replace hnegative : q'.negative = decide (e.cost < 0) := by
    rw [hspent.negative]
    show (q.negative || _) = _
    rw [hnegative, Bool.false_or]
  cases r with
  | error thrown =>
      -- the increment of one scope is missing
      obtain ⟨hfail, x, hx, hsame⟩ := hspent.some ⟨thrown, rfl⟩
      refine iff_of_false ?_ fun ⟨hnot, _, _⟩ => ?_
      · have hcost : ¬e.cost ≤ 0 := by
          intro hle
          rw [if_pos hle] at hx
          cases hx
        rw [if_neg hcost] at hx
        exact hunbalanced (by omega) hx (hsame _)
      · rw [hfail] at hnot
        cases hnot
  | ok u =>
      obtain ⟨hall, hfail, hcross⟩ := hspent.all rfl
      replace hfail : q'.failed = false := hfail.trans hfailed
      by_cases hle : e.cost ≤ 0
      · -- there is no increment
        rw [if_pos hle] at hall hcross
        replace hcross : q'.crossed = false := by
          rw [hcross]
          simpa [add] using hcrossed
        have hsame : ∀ x p', q'.spent x p' = q.spent x p' := by
          intro x p'
          rw [hall x p']
          simp [add, LedgerTables.insert]
        by_cases hcost : e.cost = 0
        · have hnot : q'.negative = false := by simp [hnegative, hcost]
          refine iff_of_true (fun x p' => ?_) ⟨hfail, hcross, hnot⟩
          have hcharge : e.charge x p' = 0 := by
            unfold Entry.charge
            split
            · exact hcost
            · rfl
          rw [hsame, hsum x p', hcharge, zero_add]
        · refine iff_of_false (hunbalanced hcost e.firm_mem_scopes (hsame _ _)) fun ⟨_, _, hnot⟩ => ?_
          rw [hnegative, decide_eq_false_iff_not] at hnot
          omega
      · rw [if_neg hle] at hall hcross
        have hne : e.scopes ≠ [] := List.ne_nil_of_mem e.firm_mem_scopes
        have hcross' : q'.crossed = decide (p ≠ e.period) := by
          rw [hcross]
          show (q.crossed || _) = _
          rw [hcrossed, Bool.false_or, Entry.period, hts]
          simp [hne]
        have hnot : q'.negative = false := by
          rw [hnegative, decide_eq_false_iff_not]
          omega
        by_cases hp : p = e.period
        · refine iff_of_true (fun x p' => ?_) ⟨hfail, by simp [hcross', hp], hnot⟩
          rw [hall, hsum, hp, add_comm]
          rfl
        · refine iff_of_false (hunbalanced (by omega) e.firm_mem_scopes ?_) fun ⟨_, hc, _⟩ => ?_
          · rw [hall, if_neg fun h => hp h.2.symm, add_zero]
            rfl
          · rw [hcross', decide_eq_false_iff_not, not_not] at hc
            exact hp hc

end

/-- What holds between calls. -/
structure Kept (q : Written) : Prop where
  unique : q.Unique
  balanced : q.Smooth → q.Balanced

theorem Wrote.kept (h : Wrote w r q q') (hq : Kept q) : Kept q' := by
  cases h with
  | unchanged heq _ =>
      subst heq
      exact hq
  | added e hid hts hnone hcharged =>
      refine ⟨?_, fun hsmooth => ?_⟩
      · have hunique := hq.unique.insert hnone
        unfold LedgerTables.Unique
        rw [hcharged.entries]
        exact hunique
      · have hbefore := hcharged.smooth hsmooth
        exact (hcharged.balanced_iff hts (hq.balanced hbefore) hbefore).2 hsmooth

/-- No call removes a row. -/
theorem Wrote.subset (h : Wrote w r q q') : ∀ e ∈ q.entries, e ∈ q'.entries := by
  intro e he
  cases h with
  | unchanged heq _ => exact heq ▸ he
  | added e' _ _ _ hcharged =>
      rw [hcharged.entries]
      exact List.mem_cons_of_mem _ he

/-- A call that reports success leaves a row. -/
theorem Wrote.row (h : Wrote w (.ok ()) q q') (hauth : w.ctx.auth.isSome = true) :
    ∃ e ∈ q'.entries, e.requestId = w.ctx.requestId := by
  cases h with
  | unchanged heq hrow =>
      subst heq
      have hne := hrow rfl hauth
      rw [Ne, LedgerTables.rowsOf_eq_nil_iff] at hne
      push Not at hne
      exact hne
  | added e hid _ _ hcharged =>
      refine ⟨e, ?_, hid⟩
      rw [hcharged.entries]
      exact List.mem_cons_self ..

end

theorem Writes.kept {q q' : Written} {ws : List (WriteCall × Except Thrown Unit)}
    (h : Writes q ws q') (hq : Kept q) : Kept q' ∧ (∀ e ∈ q.entries, e ∈ q'.entries) ∧
      ∀ w, (w, .ok ()) ∈ ws → w.ctx.auth.isSome = true →
        ∃ e ∈ q'.entries, e.requestId = w.ctx.requestId := by
  induction h with
  | nil q =>
      refine ⟨hq, fun _ he => he, fun w hw => ?_⟩
      cases hw
  | @cons q q₁ q₂ w r u ws hrun _ ih =>
      have hwp := write_wrote (s := u) (w := w) (q := q)
      have hwrote := Prog.post_of_run hwp hrun
      replace hwrote : Wrote w r q q₁ := hwrote
      obtain ⟨hkept, hsubset, hrows⟩ := ih (hwrote.kept hq)
      refine ⟨hkept, fun e he => hsubset e (hwrote.subset e he), fun w' hw' hauth => ?_⟩
      rcases List.mem_cons.1 hw' with heq | hw'
      · cases heq
        obtain ⟨e, he, hid⟩ := hwrote.row hauth
        exact ⟨e, hsubset e he, hid⟩
      · exact hrows w' hw' hauth

end Written

/-- **Ledger and spend agree.**  Whatever statements are refused: a request one of whose writes has
reported success has exactly one row, and while no increment has been refused after its row was
stored, nor was in another month than its row, and no row was stored with a negative cost, the recorded
spend of every scope in every period is the cost of its rows. -/
theorem ledger_consistent {t : LedgerTables} (hunique : t.Unique) (hbalanced : t.Balanced)
    {ws : List (WriteCall × Except Thrown Unit)} {q : Written}
    (hrun : Written.Writes { toLedgerTables := t } ws q) :
    (∀ w, (w, .ok ()) ∈ ws → w.ctx.auth.isSome = true →
      ∃ e, q.rowsOf w.ctx.requestId = [e]) ∧
    (q.failed = false → q.crossed = false → q.negative = false → q.Balanced) := by
  obtain ⟨hkept, -, hrows⟩ := hrun.kept ⟨hunique, fun _ => hbalanced⟩
  refine ⟨fun w hw hauth => ?_, fun hf hc hn => hkept.balanced ⟨hf, hc, hn⟩⟩
  obtain ⟨e, he, hid⟩ := hrows w hw hauth
  exact ⟨e, hid ▸ hkept.unique.rowsOf_eq he⟩

/-! ### Sample writes -/

namespace Sample

/-- A request that was answered by the cloud model. -/
def billed : PipelineCtx :=
  letI := platform
  { newPipelineCtx "r1" 0 (request "hello") with
    auth := some auth
    taskClass := some taskClass
    route := some
      { provider := cloudProvider, model := cloudModel, adapter := ⟨.anthropic⟩,
        executeCtx := { providerId := cloudProviderId, model := "claude-sonnet",
                        baseUrl := "https://api.anthropic.com" } }
    response := some
      { message := { content := js "hi" }, finishReason := .stop, usage := ⟨3, 1, 0, 0, false⟩,
        served := ⟨"claude-sonnet", cloudProviderId, 5⟩ } }

/-- The prices of the cloud model. -/
def cloudPrices : ModelPricingRow := ⟨cloudModelId, 0, some 3000000, some 15000000, none, none⟩

/-- A database that refuses the increments of `refused`. -/
def ledgerAnswer (refused : List BudgetScope) (q : Written) : (e : Op) → e.Answer
  | .pricingAt _ _ => .ok (some cloudPrices)
  | .insertUsage v => .ok (decide (q.rowsOf v.requestId = []))
  | .incrementBudget scope _ _ _ =>
      if scope ∈ refused then .error (.error "connection lost") else .ok ()
  | e => e.calm

def callWrite (refused : List BudgetScope) (w : WriteCall) (q : Written) :
    (Except Thrown Unit × Unit) × Written :=
  (DbLedger.writeCtx w.ctx).eval
    (fun q e => (ledgerAnswer refused q e, Written.note w q e (ledgerAnswer refused q e))) () q

theorem callWrite_run (refused : List BudgetScope) (w : WriteCall) (q : Written) :
    Prog.Run (Written.env w) (DbLedger.writeCtx w.ctx ()) q
      (.ret ((callWrite refused w q).1.1, ())) (callWrite refused w q).2 := by
  refine Prog.run_eval (fun q e => ⟨?_, rfl⟩) _ _
  have hlaw := Op.lawful_calm e
  cases e with
  | insertUsage v =>
      refine ⟨trivial, fun b hb => ?_⟩
      cases hb
      rfl
  | pricingAt m t => exact ⟨trivial, trivial⟩
  | incrementBudget scope ref p amount => exact ⟨trivial, trivial⟩
  | _ => exact ⟨hlaw, trivial⟩

/-- The write of the request, and the one that follows its failure. -/
abbrev firstCall : WriteCall := ⟨billed, 0⟩
abbrev rewrite : WriteCall :=
  ⟨{ billed with error := some { code := .unknown, message := "connection lost" } }, 0⟩

/-- The database after the write, with all increments done or with that of the app refused. -/
abbrev stored (refused : List BudgetScope) := callWrite refused firstCall {}

theorem stored_ok : ((stored []).1.1.isOk && !(stored []).2.failed && !(stored []).2.crossed &&
    !(stored []).2.negative) = true := by
  decide +kernel

theorem ledger_consistent_stored :
    (∃ e, (stored []).2.rowsOf "r1" = [e]) ∧ (stored []).2.Balanced := by
  have hok := stored_ok
  simp only [Bool.and_eq_true, Bool.not_eq_true'] at hok
  obtain ⟨⟨⟨hsuccess, hfailed⟩, hcrossed⟩, hnegative⟩ := hok
  obtain ⟨u, hu⟩ : ∃ u, (stored []).1.1 = .ok u := by
    cases hr : (stored []).1.1 with
    | error e =>
        rw [hr] at hsuccess
        cases hsuccess
    | ok u => exact ⟨u, rfl⟩
  have hunique : ({} : LedgerTables).Unique := List.nodup_nil
  have hbalanced : ({} : LedgerTables).Balanced := fun _ _ => rfl
  have hrun := Written.Writes.cons (callWrite_run [] firstCall {}) (.nil _)
  rw [hu] at hrun
  obtain ⟨hrow, hkeeps⟩ := ledger_consistent hunique hbalanced hrun
  exact ⟨hrow firstCall (List.mem_singleton_self _) rfl, hkeeps hfailed hcrossed hnegative⟩

/-- The spend of the app, and the cost of its rows, after the rewrite. -/
def appSpend : ℤ × ℤ × Bool :=
  let after := callWrite [] rewrite (stored [.app]).2
  let app : SpendScope := (.app, scopeKey .app firmId "vibe-tb")
  (after.2.spent app 0, after.2.sumOf app 0, after.1.1.isOk)

theorem appSpend_eq : appSpend = (0, 2400, true) := by decide +kernel

end Sample

/-- An increment is lost for good: the rewrite reports success, and finds the row there. -/
theorem refused_increment_lost : ∃ ws q, Written.Writes {} ws q ∧
    (∃ w, (w, .ok ()) ∈ ws ∧ w.ctx.requestId = "r1") ∧ ¬q.Balanced := by
  have hvalues := Sample.appSpend_eq
  simp only [Sample.appSpend, Prod.mk.injEq] at hvalues
  obtain ⟨hspent, hsum, hsuccess⟩ := hvalues
  have hfirst := Sample.callWrite_run [.app] Sample.firstCall {}
  have hsecond := Sample.callWrite_run [] Sample.rewrite (Sample.stored [.app]).2
  refine ⟨_, _, .cons hfirst (.cons hsecond (.nil _)), ?_, fun hb => ?_⟩
  · refine ⟨Sample.rewrite, ?_, rfl⟩
    cases hr : (Sample.callWrite [] Sample.rewrite (Sample.stored [.app]).2).1.1 with
    | error e =>
        rw [hr] at hsuccess
        cases hsuccess
    | ok u => exact List.mem_cons_of_mem _ (List.mem_singleton_self _)
  · have happ := hb (.app, scopeKey .app Sample.firmId "vibe-tb") 0
    rw [hspent, hsum] at happ
    cases happ

end VibeRouter
