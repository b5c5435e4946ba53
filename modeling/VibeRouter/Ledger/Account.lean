import VibeRouter.Resilience.Attempts

/-! # The account of a request

Surroundings of one request that keep its account: the rows of the ledger, what the client was
told, and what came of the attempts.  The database accepts every write; a lookup of a price may
still be refused. -/

namespace VibeRouter

open Effects Async Code

/-- `rows`: the usage ledger; `refused`: the last lookup of a price was refused; `told`: the error
the client was told last; `head`: the head of a stream was written; `gone`: the client's signal was
last seen aborted. -/
structure Account where
  rows : List UsageLedgerValues := []
  refused : Bool := false
  told : Option RouterError := none
  head : Bool := false
  gone : Bool := false
  fate : Fate := {}

namespace Account

/-- The rows of a request. -/
def rowsOf (q : Account) (requestId : String) : List UsageLedgerValues :=
  q.rows.filter fun row => row.requestId = requestId

/-- What an operation adds, but for the attempts. -/
def note (q : Account) : (e : Op) → e.Answer → Account
  | .insertUsage v, r => match r with
      | .ok true => { q with rows := v :: q.rows }
      | _ => q
  | .pricingCacheGet _, _ => { q with refused := false }
  | .pricingAt _ _, r => { q with refused := !r.isOk }
  | .sendError e, _ => { q with told := some e }
  | .writeError e, _ => { q with told := some e }
  | .writeHead _ _, _ => { q with head := true }
  | .clientAborted, r => { q with gone := r }
  | _, _ => q

def after (q : Account) (e : Op) (r : e.Answer) : Account :=
  { q.note e r with fate := q.fate.note e r }

/-- The database accepts every write: a row is added unless there is one with its request id.  The
signal of a client that is gone stays aborted, and so does the signal of the attempts. -/
def Answers (q : Account) : (e : Op) → e.Answer → Prop
  | .insertUsage v, r => r = .ok (decide (q.rowsOf v.requestId = []))
  | .incrementBudget _ _ _ _, r => r = .ok ()
  | .clientAborted, r => q.gone = true → r = true
  | .signalAborted, r => q.gone = true → r = true
  | _, _ => True

def env : Env Op Op.Answer Account where
  allows q e r := e.Lawful r ∧ q.Answers e r
  next := after

/-- What a request does to its account. -/
abbrev Books {α : Type} (o : Stage α) (post : Except Thrown α → PipelineCtx → Account → Prop)
    (s : PipelineCtx) (q : Account) : Prop :=
  o.wp env (fun _ _ => True) post s q

/-! ### Code beside the account -/

/-- The books of an account: all but the attempts and the client's signal. -/
structure SameBooks (q q' : Account) : Prop where
  rows : q'.rows = q.rows
  refused : q'.refused = q.refused
  told : q'.told = q.told
  head : q'.head = q.head

theorem SameBooks.refl (q : Account) : SameBooks q q := ⟨rfl, rfl, rfl, rfl⟩

theorem SameBooks.trans {q q' q'' : Account} (h : SameBooks q q') (h' : SameBooks q' q'') :
    SameBooks q q'' :=
  ⟨h'.rows.trans h.rows, h'.refused.trans h.refused, h'.told.trans h.told, h'.head.trans h.head⟩

/-- The parts that have a book. -/
def bookParts : List Op.Part := [.ledger, .prices, .client]

theorem after_sameBooks {e : Op} (q : Account) (r : e.Answer) (h : e.part ∉ bookParts) :
    SameBooks q (q.after e r) := by
  cases e with
  | insertUsage v => exact absurd (by simp [Op.part, bookParts]) h
  | pricingCacheGet m => exact absurd (by simp [Op.part, bookParts]) h
  | pricingAt m t => exact absurd (by simp [Op.part, bookParts]) h
  | sendError e => exact absurd (by simp [Op.part, bookParts]) h
  | writeError e => exact absurd (by simp [Op.part, bookParts]) h
  | writeHead i ws => exact absurd (by simp [Op.part, bookParts]) h
  | _ => exact ⟨rfl, rfl, rfl, rfl⟩

/-- The parts that may change an account. -/
def accountParts : List Op.Part := [.ledger, .prices, .client, .signal, .adapter, .breaker, .health]

theorem after_same {e : Op} (q : Account) (r : e.Answer) (h : e.part ∉ accountParts) :
    q.after e r = q := by
  cases e with
  | insertUsage v => exact absurd (by simp [Op.part, accountParts]) h
  | pricingCacheGet m => exact absurd (by simp [Op.part, accountParts]) h
  | pricingAt m t => exact absurd (by simp [Op.part, accountParts]) h
  | sendError e => exact absurd (by simp [Op.part, accountParts]) h
  | writeError e => exact absurd (by simp [Op.part, accountParts]) h
  | writeHead i ws => exact absurd (by simp [Op.part, accountParts]) h
  | clientAborted => exact absurd (by simp [Op.part, accountParts]) h
  | openStream c route env => exact absurd (by simp [Op.part, accountParts]) h
  | pull => exact absurd (by simp [Op.part, accountParts]) h
  | closeStream => exact absurd (by simp [Op.part, accountParts]) h
  | breakerRecord p ok => exact absurd (by simp [Op.part, accountParts]) h
  | recordHealth route firmId ok => exact absurd (by simp [Op.part, accountParts]) h
  | _ => rfl

section
variable {α : Type} {o : Stage α} {ps : List Op.Part} {post : Except Thrown α → PipelineCtx → Prop}
  {s : PipelineCtx} {q : Account}

/-- Code beside the books. -/
theorem books_aside (h : Uses (fun e r => e.Lawful r) ps o s post)
    (hps : ∀ p ∈ bookParts, p ∉ ps) : Books o (fun r s' q' => post r s' ∧ SameBooks q q') s q := by
  refine h.wp (J := SameBooks q) (fun q e r hr => hr.1) (SameBooks.refl q) ?_
    fun _ _ _ hpost hq => ⟨hpost, hq⟩
  intro q' e hq he
  refine ⟨trivial, fun r _ => hq.trans (after_sameBooks q' r fun hbook => ?_)⟩
  exact hps _ hbook he.1

/-- Code that leaves the account as it is. -/
theorem books_quiet (h : Uses (fun e r => e.Lawful r) ps o s post)
    (hps : ∀ p ∈ accountParts, p ∉ ps) : Books o (fun r s' q' => post r s' ∧ q' = q) s q := by
  refine h.wp (J := (· = q)) (fun q e r hr => hr.1) rfl ?_ fun _ _ _ hpost hq => ⟨hpost, hq⟩
  intro q' e hq he
  refine ⟨trivial, fun r _ => (after_same q' r fun hpart => ?_).trans hq⟩
  exact hps _ hpart he.1

end

/-! ### A ledger write -/

/-- The write of a row looks its price up. -/
def looksUp (c : PipelineCtx) : Bool := c.route.isSome && DbLedger.billable c

section
variable {s : PipelineCtx} {q : Account}

theorem pricingFor_books (modelId : Uuid) (ts : ℕ) :
    Books (DbLedger.pricingFor modelId ts) (fun r s' q' => s' = s ∧
      ((∃ row, r = .ok row) ∧ q' = { q with refused := false } ∨
        (∃ e, r = .error e) ∧ q' = { q with refused := true })) s q := by
  simp only [DbLedger.pricingFor, Books, wp_bind, wp_op]
  refine ⟨trivial, fun hit _ => ?_⟩
  refine wp_mono (books_quiet (PolicyEngine.fresh_uses hit) (by decide)) ?_
  rintro _ s' q' ⟨⟨rfl, o, rfl, -⟩, rfl⟩
  cases o with
  | some row => exact ⟨rfl, .inl ⟨⟨row, rfl⟩, rfl⟩⟩
  | none =>
      simp only [wp_bind, wp_await, wp_op]
      refine ⟨trivial, fun r _ => ?_⟩
      cases r with
      | error e => exact ⟨trivial, .inr ⟨⟨e, rfl⟩, rfl⟩⟩
      | ok row =>
          simp only [wp_dateNow]
          exact ⟨trivial, fun now _ => ⟨trivial, fun _ _ => ⟨rfl, .inl ⟨⟨row, rfl⟩, rfl⟩⟩⟩⟩

theorem pricingOf_books (c : PipelineCtx) :
    Books (DbLedger.pricingOf c) (fun r s' q' => s' = s ∧
      ((∃ row, r = .ok row) ∧ q' = { q with refused := q.refused && !looksUp c } ∨
        (∃ e, r = .error e) ∧ looksUp c = true ∧ q' = { q with refused := true })) s q := by
  have hsame : ∀ b, b = false → q = { q with refused := q.refused && !b } := by
    rintro b rfl
    rw [Bool.not_false, Bool.and_true]
  unfold DbLedger.pricingOf
  split
  · next route hroute =>
      split
      · next hbillable =>
          have hlooks : looksUp c = true := by
            rw [looksUp, hroute, hbillable]
            rfl
          refine wp_mono (pricingFor_books route.model.id c.startedAt) ?_
          rintro r s' q' ⟨rfl, ⟨hr, rfl⟩ | ⟨hr, rfl⟩⟩
          · refine ⟨rfl, .inl ⟨hr, ?_⟩⟩
            rw [hlooks, Bool.not_true, Bool.and_false]
          · exact ⟨rfl, .inr ⟨hr, hlooks, rfl⟩⟩
      · next hbillable =>
          have hlooks : looksUp c = false := by
            rw [looksUp, Bool.eq_false_iff.2 hbillable, Bool.and_false]
          exact ⟨rfl, .inl ⟨⟨none, rfl⟩, hsame _ hlooks⟩⟩
  · next hroute =>
      have hlooks : looksUp c = false := by
        rw [looksUp, hroute]
        rfl
      exact ⟨rfl, .inl ⟨⟨none, rfl⟩, hsame _ hlooks⟩⟩

theorem incrementAll_books (period : Period) (amount : ℤ) (scopes : List (BudgetScope × String)) :
    Books (incrementAll period amount scopes) (fun r s' q' => r = .ok () ∧ s' = s ∧ q' = q) s q := by
  induction scopes with
  | nil => exact ⟨rfl, rfl, rfl⟩
  | cons scope scopes ih =>
      simp only [incrementAll, Books, wp_bind, wp_await, wp_op]
      refine ⟨trivial, fun r hr => ?_⟩
      obtain rfl : r = .ok () := hr.2
      exact ih

theorem recordSpend_books (firmId : Uuid) (app : String) (userId : Option String) (cost : ℤ) :
    Books (recordSpend firmId app userId cost) (fun r s' q' => r = .ok () ∧ s' = s ∧ q' = q)
      s q := by
  unfold recordSpend
  split
  · exact ⟨rfl, rfl, rfl⟩
  · simp only [Books, wp_bind, wp_dateNow]
    exact ⟨trivial, fun now _ => incrementAll_books _ _ _⟩

/-- The row of a request is added when it has none. -/
theorem insertRow_books (c : PipelineCtx) (auth : AuthContext) (pricing : Option ModelPricingRow)
    (hnone : q.rowsOf c.requestId = []) :
    Books (DbLedger.insertRow c auth pricing) (fun r s' q' => r = .ok () ∧ s' = s ∧
      ∃ v : UsageLedgerValues, v.requestId = c.requestId ∧ v.status = statusFor c ∧
        q' = { q with rows := v :: q.rows }) s q := by
  simp only [DbLedger.insertRow, Books, wp_bind, wp_await, wp_dateNow, wp_op]
  refine ⟨trivial, fun now _ => ⟨trivial, fun r hr => ?_⟩⟩
  obtain rfl : r = .ok true := by
    have hinsert : r = .ok (decide (q.rowsOf c.requestId = [])) := hr.2
    rw [hinsert, hnone]
    rfl
  have hadded : ∃ v : UsageLedgerValues, v.requestId = c.requestId ∧ v.status = statusFor c ∧
      q.after (.insertUsage (DbLedger.values c auth (DbLedger.costOf c pricing) now)) (.ok true) =
        { q with rows := v :: q.rows } := ⟨_, rfl, rfl, rfl⟩
  dsimp only
  split
  · split
    · refine wp_mono (recordSpend_books _ _ _ _) ?_
      rintro r s' q' ⟨rfl, rfl, rfl⟩
      exact ⟨rfl, rfl, hadded⟩
    · exact ⟨rfl, rfl, hadded⟩
  · exact ⟨rfl, rfl, hadded⟩

/-- A write of an authenticated request that has no row adds it, unless its price is refused. -/
theorem write_books (hauth : s.auth.isSome = true) (hnone : q.rowsOf s.requestId = []) :
    Books DbLedger.write (fun r s' q' => s' = s ∧
      ((r = .ok () ∧ ∃ v : UsageLedgerValues, v.requestId = s.requestId ∧ v.status = statusFor s ∧
          q' = { q with rows := v :: q.rows, refused := q.refused && !looksUp s }) ∨
        (∃ e, r = .error e) ∧ looksUp s = true ∧ q' = { q with refused := true })) s q := by
  obtain ⟨auth, hauth⟩ := Option.isSome_iff_exists.1 hauth
  simp only [DbLedger.write, DbLedger.writeCtx, Books, wp_bind, wp_read, hauth]
  refine wp_mono (pricingOf_books s) ?_
  rintro r s' q' ⟨rfl, ⟨⟨row, rfl⟩, rfl⟩ | ⟨⟨e, rfl⟩, hlooks, rfl⟩⟩
  · refine wp_mono (insertRow_books s' auth row hnone) ?_
    rintro r s'' q'' ⟨rfl, rfl, v, hid, hstatus, rfl⟩
    exact ⟨rfl, .inl ⟨rfl, v, hid, hstatus, rfl⟩⟩
  · exact ⟨rfl, .inr ⟨⟨e, rfl⟩, hlooks, rfl⟩⟩

/-! ### The row of a request -/

/-- A request is booked: it has exactly one row, with the status of how it ended, unless the price
of its row was refused. -/
structure Booked (c : PipelineCtx) (q : Account) : Prop where
  row : q.refused = false → ∃ v, q.rowsOf c.requestId = [v] ∧ v.status = statusFor c
  none : q.refused = true → q.rowsOf c.requestId = []

theorem Booked.congr {c : PipelineCtx} {q q' : Account} (h : Booked c q) (hrows : q'.rows = q.rows)
    (hrefused : q'.refused = q.refused) : Booked c q' := by
  refine ⟨fun hr => ?_, fun hr => ?_⟩
  · rw [rowsOf, hrows]
    exact h.row (hrefused.symm.trans hr)
  · rw [rowsOf, hrows]
    exact h.none (hrefused.symm.trans hr)

/-- The account before the row of a request is written. -/
structure Unbooked (c : PipelineCtx) (q : Account) : Prop where
  rows : q.rowsOf c.requestId = []
  refused : q.refused = true → looksUp c = true

/-- A write books a request, or fails. -/
theorem write_booked (hauth : s.auth.isSome = true) (h : Unbooked s q) :
    Books DbLedger.write (fun r s' q' => s' = s ∧ q'.told = q.told ∧ q'.head = q.head ∧
      q'.gone = q.gone ∧ q'.fate = q.fate ∧ Booked s q' ∧
      (r = .ok () ∨ (∃ e, r = .error e) ∧ Unbooked s q')) s q := by
  refine wp_mono (write_books hauth h.rows) ?_
  rintro r s' q' ⟨rfl, ⟨rfl, v, hid, hstatus, rfl⟩ | ⟨hr, hlooks, rfl⟩⟩
  · refine ⟨rfl, rfl, rfl, rfl, rfl, ⟨fun _ => ⟨v, ?_, hstatus⟩, fun hr => ?_⟩, .inl rfl⟩
    · have hrest : q.rows.filter (fun row => row.requestId = s'.requestId) = [] := h.rows
      show (v :: q.rows).filter _ = [v]
      rw [List.filter_cons_of_pos (by simpa using hid), hrest]
    · -- a lookup that is not made was not refused
      replace hr : (q.refused && !looksUp s') = true := hr
      rw [Bool.and_eq_true, Bool.not_eq_true'] at hr
      rw [h.refused hr.1] at hr
      exact Bool.noConfusion hr.2
  · exact ⟨rfl, rfl, rfl, rfl, rfl, ⟨fun hf => Bool.noConfusion hf, fun _ => h.rows⟩,
      .inr ⟨hr, h.rows, fun _ => hlooks⟩⟩

theorem writeLogged_booked (hauth : s.auth.isSome = true) (h : Unbooked s q) :
    Books writeLogged (fun r s' q' => r = .ok () ∧ s' = s ∧ q'.told = q.told ∧ q'.head = q.head ∧
      q'.gone = q.gone ∧ q'.fate = q.fate ∧ Booked s q') s q := by
  simp only [writeLogged, Books, wp_bind, wp_outcome]
  refine wp_mono (write_booked hauth h) ?_
  rintro r s' q' ⟨rfl, htold, hhead, hgone, hfate, hbooked, -⟩
  exact ⟨rfl, rfl, htold, hhead, hgone, hfate, hbooked⟩

end

end Account

end VibeRouter
