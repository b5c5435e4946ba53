import VibeRouter.Gateway.Routes
import VibeRouter.Resilience.ExecutorSpecs

/-! # What the runner does

The ledger, the terminal audit and the primed stream: which parts of the surroundings they use,
and what they make of the context. -/

namespace VibeRouter

open Effects Async Code

variable {L : (e : Op) → e.Answer → Prop} {A : Op → Prop}

/-! ### The ledger -/

section
variable {S : Type} {s : S}

theorem incrementAll_uses (period : Period) {amount : ℤ} (hamount : 0 < amount)
    (scopes : List (BudgetScope × String)) :
    Uses L [.ledger] (incrementAll period amount scopes : Async S Unit) s fun _ s' => s' = s := by
  induction scopes with
  | nil => rfl
  | cons scope scopes ih =>
      obtain ⟨scope, ref⟩ := scope
      simp only [incrementAll, meets_bind, meets_await, meets_op]
      refine ⟨⟨by simp [Op.part], hamount⟩, fun r _ => ?_⟩
      cases r with
      | error e => trivial
      | ok _ => exact ih

theorem recordSpend_uses (firmId : Uuid) (app : String) (userId : Option String) (cost : ℤ) :
    Uses L [.clock, .ledger] (recordSpend firmId app userId cost : Async S Unit) s
      fun _ s' => s' = s := by
  unfold recordSpend
  split
  · rfl
  · next hcost =>
    simp only [meets_bind, meets_dateNow]
    refine ⟨by simp [Op.Within, Op.part, Op.WellKeyed], fun now _ => ?_⟩
    exact (incrementAll_uses _ (not_le.1 hcost) _).weaken (Op.Within.widen (by simp))

namespace DbLedger

theorem pricingFor_uses (modelId : Uuid) (ts : ℕ) :
    Uses L [.clock, .prices] (pricingFor modelId ts : Async S (Option ModelPricingRow)) s
      fun _ s' => s' = s := by
  simp only [pricingFor, meets_bind, meets_op]
  refine ⟨by simp [Op.Within, Op.part, Op.WellKeyed], fun hit _ => ?_⟩
  refine (PolicyEngine.fresh_uses hit).call (by simp) ?_
  rintro _ s' ⟨rfl, o, rfl, -⟩
  cases o with
  | some row => rfl
  | none =>
      simp only [meets_bind, meets_await, meets_op]
      refine ⟨by simp [Op.Within, Op.part, Op.WellKeyed], fun r _ => ?_⟩
      cases r <;> simp [Op.Within, Op.part, Op.WellKeyed]

theorem pricingOf_uses (c : PipelineCtx) :
    Uses L [.clock, .prices] (pricingOf c : Async S (Option ModelPricingRow)) s
      fun _ s' => s' = s := by
  unfold pricingOf
  split
  · split
    · exact pricingFor_uses _ _
    · rfl
  · rfl

theorem insertRow_uses (c : PipelineCtx) (auth : AuthContext) (pricing : Option ModelPricingRow) :
    Uses L [.clock, .ledger] (insertRow c auth pricing : Async S Unit) s fun _ s' => s' = s := by
  simp only [insertRow, meets_bind, meets_await, meets_op, meets_dateNow]
  refine ⟨by simp [Op.Within, Op.part, Op.WellKeyed], fun now _ => ?_⟩
  refine ⟨by simp [Op.Within, Op.part, Op.WellKeyed], fun r _ => ?_⟩
  rcases r with e | inserted
  · trivial
  · dsimp only
    split
    · split
      · exact recordSpend_uses _ _ _ _
      · rfl
    · rfl

theorem writeCtx_uses (c : PipelineCtx) :
    Uses L [.clock, .prices, .ledger] (writeCtx c : Async S Unit) s fun _ s' => s' = s := by
  unfold writeCtx
  split
  · rfl
  · simp only [meets_bind]
    refine (pricingOf_uses c).call (by simp) ?_
    rintro (e | pricing) s' rfl
    · rfl
    · exact (insertRow_uses _ _ _).weaken (Op.Within.widen (by simp))

theorem write_uses {s : PipelineCtx} :
    Uses L [.clock, .prices, .ledger] write s fun _ s' => s' = s :=
  writeCtx_uses s

end DbLedger

end

variable {s : PipelineCtx}

theorem writeLogged_uses :
    Uses L [.clock, .prices, .ledger] writeLogged s fun r s' => r = .ok () ∧ s' = s := by
  simp only [writeLogged, meets_bind, meets_outcome]
  exact DbLedger.write_uses.mono fun _ _ h => ⟨rfl, h⟩

/-! ### The end of a request -/

theorem emitTerminalAudit_uses :
    Uses L [.audit] emitTerminalAudit s fun r s' => r = .ok () ∧ s' = s := by
  simp only [emitTerminalAudit, meets_bind, meets_ctx]
  split <;> simp [Op.Within, Op.part, Op.WellKeyed]

/-! ### Before the adapter is called -/

theorem serveCached_uses (cacheKey : Option String) :
    Uses L [.clock, .responses] (serveCached cacheKey) s fun r s' =>
      r = .ok true ∨ r = .ok false ∧ s' = s := by
  unfold serveCached
  split
  · exact .inr ⟨rfl, rfl⟩
  · simp only [meets_bind, meets_op]
    refine ⟨by simp [Op.Within, Op.part, Op.WellKeyed], fun hit _ => ?_⟩
    split
    · exact .inr ⟨rfl, rfl⟩
    · simp only [meets_bind, meets_dateNow]
      exact ⟨by simp [Op.Within, Op.part, Op.WellKeyed], fun now _ => .inl rfl⟩

theorem unrouted_uses {α : Type} :
    Uses L [] (unrouted : Stage α) s fun r _ => ∀ a, r ≠ .ok a := by
  simp only [unrouted, meets_bind, meets_ctx]
  split
  · simp
  · simp [orderingViolation]

/-! ### The primed stream -/

/-- What a primed stream still does, and how it ends. -/
theorem primeStream_meets {g : Generator Unit} {post : Except Abrupt Unit → PipelineCtx → Prop}
    (h : g.Meets (GenOp.laws L Yielded) (GenOp.within A) s post) :
    (primeStream g).Meets L A s fun r _ => ∀ stream, r = .ok stream →
      stream.GenMeets L A fun end_ => post end_.1 end_.2 := by
  have hg : (g s).GenMeets L A fun end_ => post end_.1 end_.2 := h
  show ((g s).next.bind _).wp _ _ _ ()
  rw [Prog.wp_bind]
  refine Prog.wp_mono hg.next ?_
  rintro (⟨r, s'⟩ | ⟨y, k⟩) _ hs
  · rcases r with (e | _) | _
    · exact fun stream h => by cases h
    · rintro stream ⟨⟩
      exact hs
    · rintro stream ⟨⟩
      exact hs
  · rintro stream ⟨⟩
    exact hs

/-! ### The relay -/

/-- The parts the relay of a stream uses besides those of the stream itself. -/
def relayParts : List Op.Part := [.clock, .signal, .health, .prices, .ledger, .audit, .client]

theorem afterLoop_uses (ended : Except Thrown Unit) :
    Uses L [.signal, .client] (afterLoop ended) s fun r s' =>
      r = .ok () ∧ s' = { s with error := match ended with
        | .ok () => s.error
        | .error e => some (toRouterError e) } := by
  cases ended with
  | ok _ =>
      simp only [afterLoop, meets_bind, meets_op]
      refine ⟨by simp [Op.Within, Op.part, Op.WellKeyed], fun aborted _ => ?_⟩
      split <;> simp [Op.Within, Op.part, Op.WellKeyed]
  | error e => simp [afterLoop, Op.Within, Op.part, Op.WellKeyed]

theorem relayLoop_meets (hA : ∀ e, e.Within relayParts → A e)
    {post : Except Abrupt Unit × PipelineCtx → Prop} (requestId model : String)
    {stream : ResponseStream} (h : stream.GenMeets L A post) :
    (relayLoop requestId model stream).Meets L A s fun r s' =>
      ∃ end_ t, post end_ ∧ s' = end_.2 ∧ r = .ok (match end_.1 with
        | .error (.thrown e) => .error e
        | _ => .ok (), t) := by
  have hA' : ∀ e : Op, e.part = .signal ∨ e.part = .client → e.WellKeyed → A e := by
    intro e he hk
    refine hA e ⟨?_, hk⟩
    rcases he with he | he <;> rw [he] <;> decide
  show ((stream.consume _ _).bind _).wp _ _ _ ()
  rw [Prog.wp_bind]
  refine Prog.wp_mono (h.consume (J := fun _ => True) trivial ?_) ?_
  · intro y t _
    refine ⟨hA' _ (.inl rfl) trivial, fun aborted _ => ?_⟩
    cases aborted with
    | true => trivial
    | false => exact ⟨hA' _ (.inr rfl) trivial, fun _ _ => trivial⟩
  · rintro ⟨⟨r, c⟩, t⟩ _ ⟨hp, -⟩
    exact ⟨(r, c), t, hp, rfl, rfl⟩

variable [Platform]

/-- A streamed response changes the response only. -/
theorem streamed_eq (c : PipelineCtx) (t : RelayState) (model : String) (now : ℕ) :
    ∃ response, c.streamed t model now = { c with response } := by
  unfold PipelineCtx.streamed
  split <;> exact ⟨_, rfl⟩

theorem noteEnd_uses (model : String) (t : RelayState) :
    Uses L [.clock, .signal, .health] (noteEnd model t) s fun r s' =>
      r = .ok () ∧ ∃ now error, s' = { s.streamed t model now with error } ∧
        (error = s.error ∨ s.error = none ∧ error = some clientAbortedError) := by
  simp only [noteEnd, meets_bind, meets_dateNow, meets_assign, meets_op]
  refine ⟨by simp [Op.Within, Op.part, Op.WellKeyed], fun now _ => ?_⟩
  refine ⟨by simp [Op.Within, Op.part, Op.WellKeyed], fun aborted _ => ?_⟩
  obtain ⟨response, hs⟩ := streamed_eq s t model now
  split
  · refine ⟨rfl, now, _, rfl, ?_⟩
    rw [hs]
    cases herr : s.error with
    | none => exact .inr ⟨rfl, by simp⟩
    | some e => exact .inl (by simp)
  · have hkeep : ∀ s', s' = s.streamed t model now → (∃ now error,
        s' = { s.streamed t model now with error } ∧
          (error = s.error ∨ s.error = none ∧ error = some clientAbortedError)) := by
      rintro _ rfl
      exact ⟨now, s.error, by rw [hs], .inl rfl⟩
    simp only [meets_bind, meets_ctx]
    split
    · split
      · next hauth =>
          refine (recordHealth_uses _ _).call (by simp) ?_
          rintro r s' ⟨rfl, hr⟩
          exact ⟨hr hauth, hkeep _ rfl⟩
      · exact ⟨rfl, hkeep _ rfl⟩
    · exact ⟨rfl, hkeep _ rfl⟩

theorem finishRelay_uses (model : String) (t : RelayState) :
    Uses L relayParts (finishRelay model t) s fun _ _ => True := by
  simp only [finishRelay, meets_bind]
  refine (noteEnd_uses model t).call (by simp [relayParts]) ?_
  rintro _ s' ⟨rfl, -⟩
  refine writeLogged_uses.call (by simp [relayParts]) ?_
  rintro _ s' ⟨rfl, rfl⟩
  refine emitTerminalAudit_uses.call (by simp [relayParts]) ?_
  rintro _ s' ⟨rfl, rfl⟩
  simp [Op.Within, Op.part, Op.WellKeyed, relayParts]

theorem relay_meets (hA : ∀ e, e.Within relayParts → A e)
    {post : Except Abrupt Unit × PipelineCtx → Prop} {stream : ResponseStream}
    (h : stream.GenMeets L A post) : (relay stream).Meets L A s fun _ _ => True := by
  simp only [relay, meets_bind, meets_ctx, meets_op]
  refine ⟨hA _ (by simp [Op.Within, Op.part, Op.WellKeyed, relayParts]), fun _ _ => ?_⟩
  refine (relayLoop_meets hA _ _ h).mono ?_
  rintro _ _ ⟨end_, t, -, rfl, rfl⟩
  refine ((afterLoop_uses _).weaken fun e he => hA e (he.widen (by decide))).mono ?_
  rintro _ _ ⟨rfl, rfl⟩
  exact (finishRelay_uses _ t).weaken hA

end VibeRouter
