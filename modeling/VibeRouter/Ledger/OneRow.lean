import VibeRouter.Ledger.Account
import VibeRouter.Db.Tables

/-! # One row a request

The handler of a request, from the arrival of the request to the end of the reply, with its
account.  A request that does not stream is booked by the pipeline, a stream by its relay, and a
request that fails where it fails; the row carries the status of the error the client was told, or
that of an abort the relay has noticed. -/

namespace VibeRouter

open Effects Async Code

namespace Account

variable {s c : PipelineCtx} {q : Account}

/-! ### Primed streams -/

/-- What is asked of the operations and the chunks of the stream of the request `c`. -/
def StreamOk (c : PipelineCtx) (q : Attempts) (e : GenOp Op Yielded) : Prop :=
  Attempts.Ok c q e ∧ ∃ _ : Unit, GenOp.within (Op.Within adaptParts) e

/-- How the stream of the request `c` ends. -/
def StreamEnds (c : PipelineCtx) (end_ : Except Abrupt Unit × PipelineCtx) (q : Attempts) : Prop :=
  SameRequest c end_.2 ∧ Attempts.Ends end_.1 q

/-- The stream of the request `c`, run to its first chunk. -/
def Primed (c : PipelineCtx) (stream : ResponseStream) (q : Account) : Prop :=
  ∃ q₁ : Attempts, stream.wp Attempts.env (StreamOk c) (StreamEnds c) q₁ ∧ q₁.toFate = q.fate ∧
    q₁.yielded = true

/-- The attempts of a stream in the account of its request. -/
theorem attempts_follow {q₀ : Account} (b : Bool) :
    Prog.Follows env (fun _ _ => True) Attempts.env (StreamOk c) fun q q₁ =>
      SameBooks q₀ q ∧ q₁.toFate = q.fate ∧ q₁.yielded = b := by
  intro q q₁ e hq hok
  obtain ⟨hbooks, hfate, hyielded⟩ := hq
  obtain ⟨-, -, hwithin⟩ := hok
  refine ⟨trivial, fun r hr => ⟨hr.1, ?_, ?_, hyielded⟩⟩
  · refine hbooks.trans (after_sameBooks q r fun hpart => ?_)
    have haside : ∀ p ∈ bookParts, p ∉ adaptParts := by decide
    exact haside _ hpart hwithin.1
  · show q₁.toFate.note e r = q.fate.note e r
    rw [hfate]

/-- What a generator is known to do about its attempts, and about the parts it uses. -/
theorem streamOk_of {g : Generator Unit} {q₁ : Attempts}
    (hstreams : Attempts.Streams c g (fun r s' q' => SameRequest c s' ∧ Attempts.Ends r q') s q₁)
    (huses : StreamUses (fun e r => e.Lawful r) adaptParts g s fun _ _ => True) :
    (g s).wp Attempts.env (StreamOk c) (StreamEnds c) q₁ := by
  refine Prog.wp_mono (Prog.wp_and (fun _ _ e r hr => ?_) hstreams huses) fun _ _ h => h.1
  cases e with
  | op e => exact hr
  | yield y => trivial

theorem primeStream_books {g : Generator Unit} {q₁ : Attempts}
    (hstreams : Attempts.Streams c g (fun r s' q' => SameRequest c s' ∧ Attempts.Ends r q') s q₁)
    (huses : StreamUses (fun e r => e.Lawful r) adaptParts g s fun _ _ => True)
    (hfate : q₁.toFate = q.fate) (hyielded : q₁.yielded = false) :
    Books (primeStream g) (fun r s' q' => SameRequest c s' ∧ SameBooks q q' ∧
      ∀ stream, r = .ok stream → Primed c stream q') s q := by
  have hboth := streamOk_of hstreams huses
  show ((g s).next.bind _).wp _ _ _ q
  rw [Prog.wp_bind]
  refine Prog.wp_mono ((attempts_follow false).next hboth ⟨SameBooks.refl q, hfate, hyielded⟩) ?_
  rintro suspended q' ⟨q₂, hrest, hbooks, hfate', -⟩
  obtain ⟨r, c'⟩ | ⟨y, k⟩ := suspended
  · obtain ⟨hc', hends⟩ := hrest
    obtain (e | _) | _ := r
    · exact ⟨hc', hbooks, by simp⟩
    · refine ⟨hc', hbooks, ?_⟩
      rintro _ ⟨⟩
      exact ⟨{ q₂ with yielded := true }, ⟨hc', hends⟩, hfate', rfl⟩
    · refine ⟨hc', hbooks, ?_⟩
      rintro _ ⟨⟩
      exact ⟨{ q₂ with yielded := true }, ⟨hc', hends⟩, hfate', rfl⟩
  · refine ⟨hrest.1.1, hbooks, ?_⟩
    rintro _ ⟨⟩
    exact ⟨{ q₂ with yielded := true }, ⟨hrest.1, hrest.2⟩, hfate', rfl⟩

/-! ### adapt -/

section
variable [Platform] (deps : PipelineDeps)

theorem stream_of_keyFor {auth : AuthContext}
    (h : (s.route.bind (keyFor deps auth s)).isSome = true) : s.envelope.stream = false := by
  obtain ⟨key, hkey⟩ := Option.isSome_iff_exists.1 h
  obtain ⟨route, -, hroute⟩ := Option.bind_eq_some_iff.1 hkey
  unfold keyFor at hroute
  split at hroute
  · cases hroute
  · next heligible =>
      rw [Bool.not_eq_true, Bool.not_eq_false', cacheEligible, Bool.and_eq_true, Bool.and_eq_true,
        Bool.not_eq_true'] at heligible
      exact heligible.1.1

/-- What `stageAdapt` returns: a response, or a primed stream. -/
def Adapted (c : PipelineCtx) (r : Except Thrown (Option ResponseStream)) (s : PipelineCtx)
    (q : Account) : Prop :=
  match r with
  | .error _ => True
  | .ok none => s.envelope.stream = false ∧ s.response.isSome = true
  | .ok (some stream) => s.envelope.stream = true ∧ Primed c stream q

theorem stageAdapt_books (hfate : q.fate = {}) :
    Books (stageAdapt deps) (fun r s' q' => SameRequest s s' ∧ SameBooks q q' ∧ Adapted s r s' q')
      s q := by
  have hL : ∀ (e : Op) (r : e.Answer), e.Lawful r → e.Lawful r := fun _ _ => id
  have haside : ∀ p ∈ bookParts, p ∉ adaptParts := by decide
  simp only [stageAdapt, Books, wp_bind]
  refine wp_mono (books_quiet requireAuth_uses (by decide)) ?_
  rintro (e | auth) s₁ q₁ ⟨⟨rfl, -⟩, rfl⟩
  · exact ⟨SameRequest.refl s₁, SameBooks.refl q₁, trivial⟩
  simp only [wp_ctx]
  split
  · refine wp_mono (books_aside unrouted_same haside) ?_
    rintro r s' q' ⟨⟨rfl, hr⟩, hbooks⟩
    refine ⟨SameRequest.refl s', hbooks, ?_⟩
    cases r with
    | error e => trivial
    | ok a => exact absurd rfl (hr a)
  rw [wp_bind]
  refine wp_mono (books_quiet (serveCached_same _) (by decide)) ?_
  rintro r s' q' ⟨⟨hs, ⟨rfl, hkey, hresponse⟩ | ⟨rfl, rfl⟩⟩, rfl⟩
  · have hstream : s'.envelope.stream = false := hs.stream.trans (stream_of_keyFor deps hkey)
    exact ⟨hs, SameBooks.refl q', hstream, hresponse⟩
  dsimp only
  rw [if_neg Bool.false_ne_true]
  cases deps.resilience with
  | some cfg =>
      dsimp only
      split
      · next hstream =>
          rw [wp_bind]
          have hgen := Attempts.executeResilientStream_streams cfg deps (c := s') (q := {})
            (SameRequest.refl s') rfl (by simp) (fun _ _ => rfl)
          have huses := (executeResilientStream_adapts (s := s') deps hL cfg).mono
            fun _ _ _ => trivial
          refine wp_mono (primeStream_books hgen huses hfate.symm rfl) ?_
          rintro (e | stream) s'' q'' ⟨hs'', hbooks, hprimed⟩
          · exact ⟨hs'', hbooks, trivial⟩
          · exact ⟨hs'', hbooks, hs''.stream.trans hstream, hprimed stream rfl⟩
      · next hstream =>
          rw [wp_bind]
          refine wp_mono (books_aside (adaptResilient_same deps hL cfg auth _) haside) ?_
          rintro (e | _) s'' q'' ⟨⟨hs'', hresponse⟩, hbooks⟩
          · exact ⟨hs'', hbooks, trivial⟩
          · exact ⟨hs'', hbooks, hs''.stream.trans (Bool.eq_false_iff.2 hstream), hresponse rfl⟩
  | none =>
      dsimp only
      cases s'.route with
      | none =>
          refine wp_mono (books_aside unrouted_same haside) ?_
          rintro r s'' q'' ⟨⟨rfl, hr⟩, hbooks⟩
          refine ⟨SameRequest.refl s'', hbooks, ?_⟩
          cases r with
          | error e => trivial
          | ok a => exact absurd rfl (hr a)
      | some route =>
          dsimp only
          split
          · next hstream =>
              have hgen := Attempts.adapterStream_streams (s := s') (c := s') (q := ⟨{}, true⟩) route
                (SameRequest.refl s') rfl
              have huses := (adapterStream_uses (s := s') (L := fun e r => e.Lawful r) route).mono
                fun _ _ _ => trivial
              have hboth := streamOk_of hgen huses
              exact ⟨SameRequest.refl s', SameBooks.refl q', hstream, _, hboth, hfate.symm, rfl⟩
          · next hstream =>
              rw [wp_bind]
              refine wp_mono (books_aside (adaptDirect_same route _) haside) ?_
              rintro (e | _) s'' q'' ⟨⟨hs'', hresponse⟩, hbooks⟩
              · exact ⟨hs'', hbooks, trivial⟩
              · exact ⟨hs'', hbooks, hs''.stream.trans (Bool.eq_false_iff.2 hstream), hresponse rfl⟩

/-! ### The runner -/

/-- The account of a request that has just arrived. -/
structure Opening (c : PipelineCtx) (q : Account) : Prop where
  auth : c.auth = none
  error : c.error = none
  rows : q.rowsOf c.requestId = []
  refused : q.refused = false
  told : q.told = none
  head : q.head = false
  fate : q.fate = {}

/-- The account of a request that has been authenticated and has no row yet. -/
structure Pending (c : PipelineCtx) (q : Account) : Prop where
  auth : c.auth.isSome = true
  error : c.error = none
  rows : q.rowsOf c.requestId = []
  refused : q.refused = false
  told : q.told = none
  head : q.head = false

omit [Platform] in
theorem Pending.unbooked (h : Pending c q) : Unbooked c q where
  rows := h.rows
  refused hr := by
    rw [h.refused] at hr
    cases hr

omit [Platform] in
/-- Authentication opens the account. -/
theorem Opening.pending {c' : PipelineCtx} {q' : Account} (h : Opening c q) {auth : AuthContext}
    (hs : SameRequest (c.withAuth auth) c') (hbooks : SameBooks q q') : Pending c' q' where
  auth := by rw [hs.auth]; rfl
  error := hs.error.trans h.error
  rows := by
    rw [hs.requestId]
    show q'.rows.filter _ = []
    rw [hbooks.rows]
    exact h.rows
  refused := hbooks.refused.trans h.refused
  told := hbooks.told.trans h.told
  head := hbooks.head.trans h.head

theorem serveStages_books (h : Opening s q) (bearerToken : Option String) :
    Books (serveStages deps bearerToken) (fun r s' q' => s'.requestId = s.requestId ∧
      ((s'.auth = none ∧ (∀ a, r ≠ .ok a) ∧ q'.told = none ∧ q'.head = false) ∨
        Pending s' q' ∧ ∃ c, SameRequest c s' ∧ Adapted c r s' q')) s q := by
  have hroute := routeStages_same (s := s) (L := fun e r => e.Lawful r) deps (fun _ _ => id)
    bearerToken
  rw [serveStages_eq]
  simp only [Books, wp_bind]
  refine wp_mono (books_quiet hroute (by decide)) ?_
  rintro r s₁ q₁ ⟨⟨rfl, hr⟩ | ⟨auth, hs⟩, rfl⟩
  · cases r with
    | error e => exact ⟨rfl, .inl ⟨h.auth, by simp, h.told, h.head⟩⟩
    | ok _ => exact absurd rfl hr
  · have hpending : Pending s₁ q₁ := h.pending hs (SameBooks.refl q₁)
    cases r with
    | error e => exact ⟨hs.requestId, .inr ⟨hpending, s₁, SameRequest.refl s₁, trivial⟩⟩
    | ok _ =>
        refine wp_mono (stageAdapt_books deps h.fate) ?_
        rintro r s₂ q₂ ⟨hs₂, hbooks, hadapted⟩
        exact ⟨(hs.trans hs₂).requestId, .inr ⟨h.pending (hs.trans hs₂) hbooks, s₁, hs₂, hadapted⟩⟩

/-- How the pipeline ends.  A request that fails is booked with its error, and one that has its
response is booked without; a stream is still to be relayed. -/
def Ran (r : Except Thrown (Option ResponseStream)) (s : PipelineCtx) (q : Account) : Prop :=
  match r with
  | .error err => q.told = none ∧ q.head = false ∧ (s.auth.isSome = true → Booked s q) ∧
      ∃ rerr, err = .router rerr ∧ s.error = some rerr
  | .ok none => q.told = none ∧ q.head = false ∧ Booked s q ∧ s.error = none ∧
      s.envelope.stream = false ∧ s.response.isSome = true
  | .ok (some stream) => Pending s q ∧ s.envelope.stream = true ∧
      ∃ c, SameRequest c s ∧ Primed c stream q

/-- The `catch` block of the pipeline. -/
def caught (err : Thrown) : Stage (Option ResponseStream) := do
  let rerr := toRouterError err
  assign fun c => { c with error := some rerr }
  writeLogged
  emitTerminalAudit
  throw (.router rerr)

theorem runPipeline_eq (bearerToken : Option String) :
    runPipeline deps bearerToken = (stages deps bearerToken).handle caught := rfl

omit [Platform] in
theorem caught_books (err : Thrown)
    (h : s.auth = none ∨ s.auth.isSome = true ∧ Unbooked s q) (htold : q.told = none)
    (hhead : q.head = false) :
    Books (caught err) (fun r s' q' => s'.requestId = s.requestId ∧ Ran r s' q') s q := by
  simp only [caught, Books, wp_bind, wp_assign]
  obtain hauth | ⟨hauth, hunbooked⟩ := h
  · have hskip : Books writeLogged (fun r s' q' => r = .ok () ∧
        s' = { s with error := some (toRouterError err) } ∧ q' = q)
        { s with error := some (toRouterError err) } q := by
      simp only [writeLogged, DbLedger.write, DbLedger.writeCtx, Books, wp_bind, wp_outcome, wp_read,
        hauth]
      exact ⟨rfl, rfl, rfl⟩
    refine wp_mono hskip ?_
    rintro _ s' q' ⟨rfl, rfl, rfl⟩
    refine wp_mono (books_quiet emitTerminalAudit_uses (by decide)) ?_
    rintro _ s'' q'' ⟨⟨rfl, rfl⟩, rfl⟩
    refine ⟨rfl, htold, hhead, fun hsome => ?_, _, rfl, rfl⟩
    have hnone : s.auth.isSome = true := hsome
    rw [hauth] at hnone
    cases hnone
  · have hunbooked' : Unbooked { s with error := some (toRouterError err) } q :=
      ⟨hunbooked.rows, hunbooked.refused⟩
    refine wp_mono (writeLogged_booked hauth hunbooked') ?_
    rintro _ s' q' ⟨rfl, rfl, htold', hhead', -, -, hbooked⟩
    refine wp_mono (books_quiet emitTerminalAudit_uses (by decide)) ?_
    rintro _ s'' q'' ⟨⟨rfl, rfl⟩, rfl⟩
    exact ⟨rfl, htold'.trans htold, hhead'.trans hhead, fun _ => hbooked, _, rfl, rfl⟩

theorem runPipeline_books (h : Opening s q) (bearerToken : Option String) :
    Books (runPipeline deps bearerToken) (fun r s' q' => s'.requestId = s.requestId ∧ Ran r s' q')
      s q := by
  rw [runPipeline_eq, stages_eq]
  simp only [Books, wp_handle, wp_bind]
  refine wp_mono (serveStages_books deps h bearerToken) ?_
  rintro r s₁ q₁ ⟨hid, ⟨hauth, hr, htold, hhead⟩ | ⟨hpending, c, hs, hadapted⟩⟩
  · cases r with
    | error e =>
        refine wp_mono (caught_books e (.inl hauth) htold hhead) ?_
        exact fun r s' q' hran => ⟨hran.1.trans hid, hran.2⟩
    | ok a => exact absurd rfl (hr a)
  · obtain e | _ | stream := r
    · refine wp_mono (caught_books e (.inr ⟨hpending.auth, hpending.unbooked⟩) hpending.told
        hpending.head) ?_
      exact fun r s' q' hran => ⟨hran.1.trans hid, hran.2⟩
    · obtain ⟨hstream, hresponse⟩ := hadapted
      simp only [wp_ctx, hstream, Bool.false_eq_true, if_false, wp_bind]
      refine wp_mono (write_booked hpending.auth hpending.unbooked) ?_
      rintro r s₂ q₂ ⟨rfl, htold, hhead, -, -, hbooked, rfl | ⟨⟨e, rfl⟩, hunbooked⟩⟩
      · refine wp_mono (books_quiet emitTerminalAudit_uses (by decide)) ?_
        rintro _ s₃ q₃ ⟨⟨rfl, rfl⟩, rfl⟩
        exact ⟨hid, htold.trans hpending.told, hhead.trans hpending.head, hbooked, hpending.error,
          hstream, hresponse⟩
      · refine wp_mono (caught_books e (.inr ⟨hpending.auth, hunbooked⟩)
          (htold.trans hpending.told) (hhead.trans hpending.head)) ?_
        exact fun r s' q' hran => ⟨hran.1.trans hid, hran.2⟩
    · obtain ⟨hstream, hprimed⟩ := hadapted
      simp only [wp_ctx, hstream, if_true]
      exact ⟨hid, hpending, hstream, c, hs, hprimed⟩

end

/-! ### The relay -/

theorem Primed.congr {stream : ResponseStream} {q' : Account} (h : Primed c stream q)
    (hfate : q'.fate = q.fate) : Primed c stream q' := by
  obtain ⟨q₁, hstream, hq₁, hyielded⟩ := h
  exact ⟨q₁, hstream, hq₁.trans hfate.symm, hyielded⟩

/-- The loop of the relay ends with an exception only when the adapter's stream has rejected. -/
theorem relayLoop_books {stream : ResponseStream} (h : Primed c stream q)
    (requestId model : String) :
    Books (relayLoop requestId model stream) (fun r s' q' => ∃ ended t, r = .ok (ended, t) ∧
      SameRequest c s' ∧ SameBooks q q' ∧ match ended with
        | .ok () => q'.fate.Clean
        | .error _ => q'.fate.rejected = true) s q := by
  obtain ⟨q₁, hstream, hfate, hyielded⟩ := h
  show ((stream.consume _ _).bind _).wp _ _ _ q
  rw [Prog.wp_bind]
  refine Prog.wp_mono ((attempts_follow true).consume ?_ ?_ hstream
    ⟨SameBooks.refl q, hfate, hyielded⟩ ({} : RelayState)) ?_
  · intro q' q₂ y r hq'
    exact ⟨trivial, hq'.1, hq'.2.1, rfl⟩
  · intro y t q' q₂ hq' _
    refine ⟨trivial, fun aborted _ => ?_⟩
    have hstep := hq'.1.trans (after_sameBooks (e := .clientAborted) q' aborted (by decide))
    cases aborted with
    | true => exact ⟨hstep, hq'.2⟩
    | false => exact ⟨trivial, fun _ _ => ⟨hstep, hq'.2⟩⟩
  · rintro ⟨⟨r, c'⟩, t⟩ q' ⟨q₂, ⟨hc', hends⟩, hbooks, hfate', hyielded'⟩
    obtain (e | _) | _ := r
    · refine ⟨.error e, t, rfl, hc', hbooks, ?_⟩
      obtain hrejected | hnot := hends
      · exact (congrArg Fate.rejected hfate').symm.trans hrejected
      · rw [hyielded'] at hnot
        cases hnot
    · refine ⟨.ok (), t, rfl, hc', hbooks, ?_⟩
      have hclean : q₂.toFate.Clean := hends
      rwa [hfate'] at hclean
    · refine ⟨.ok (), t, rfl, hc', hbooks, ?_⟩
      have hclean : q₂.toFate.Clean := hends
      rwa [hfate'] at hclean

/-- The error the client is told is the error of the context. -/
theorem afterLoop_books (ended : Except Thrown Unit) (htold : q.told = s.error) :
    Books (afterLoop ended) (fun r s' q' => r = .ok () ∧ (∃ error, s' = { s with error }) ∧
      q'.told = s'.error ∧ q'.rows = q.rows ∧ q'.refused = q.refused ∧ q'.head = q.head ∧
      q'.fate = q.fate ∧ (ended = .ok () → s'.error = s.error)) s q := by
  cases ended with
  | ok _ =>
      simp only [afterLoop, Books, wp_bind, wp_op]
      refine ⟨trivial, fun aborted _ => ?_⟩
      split
      · exact ⟨rfl, ⟨s.error, rfl⟩, htold, rfl, rfl, rfl, rfl, fun _ => rfl⟩
      · exact ⟨trivial, fun _ _ => ⟨rfl, ⟨s.error, rfl⟩, htold, rfl, rfl, rfl, rfl, fun _ => rfl⟩⟩
  | error e =>
      simp only [afterLoop, Books, wp_bind, wp_op, wp_assign]
      refine ⟨trivial, fun _ _ => ⟨trivial, fun _ _ => ?_⟩⟩
      exact ⟨trivial, ⟨some (toRouterError e), rfl⟩, rfl, rfl, rfl, rfl, rfl, by simp⟩

section
variable [Platform] (deps : PipelineDeps)

/-- The abort of the client becomes the error of a stream that has no error of its own. -/
theorem noteEnd_books (hauth : s.auth.isSome = true) (model : String) (t : RelayState) :
    Books (noteEnd model t) (fun r s' q' => r = .ok () ∧ SameBooks q q' ∧
      (∃ response error, s' = { s with response, error }) ∧
      (s'.error = s.error ∨
        s.error = none ∧ s'.error = some clientAbortedError ∧ q'.gone = true) ∧
      (q'.gone = true → q'.fate = q.fate ∧ (s.error = none → s'.error = some clientAbortedError)))
      s q := by
  simp only [noteEnd, Books, wp_bind, wp_dateNow, wp_assign, wp_op]
  refine ⟨trivial, fun now _ => ⟨trivial, fun aborted _ => ?_⟩⟩
  obtain ⟨response, hstreamed⟩ := streamed_eq s t model now
  rw [hstreamed]
  cases aborted with
  | true =>
      rw [if_pos rfl]
      refine ⟨rfl, ⟨rfl, rfl, rfl, rfl⟩, ⟨response, _, rfl⟩, ?_, fun _ => ⟨rfl, fun hnone => ?_⟩⟩
      · cases herr : s.error with
        | none => exact .inr ⟨rfl, rfl, rfl⟩
        | some e => exact .inl rfl
      · show s.error.or (some clientAbortedError) = _
        rw [hnone]
        rfl
  | false =>
      rw [if_neg Bool.false_ne_true]
      simp only [wp_bind, wp_ctx]
      have hend : ∀ q' : Account, SameBooks q q' → q'.gone = false →
          ((.ok () : Except Thrown Unit) = .ok () ∧ SameBooks q q' ∧
            (∃ response' error, ({ s with response } : PipelineCtx) =
              { s with response := response', error }) ∧
            (s.error = s.error ∨
              s.error = none ∧ s.error = some clientAbortedError ∧ q'.gone = true) ∧
            (q'.gone = true → q'.fate = q.fate ∧
              (s.error = none → s.error = some clientAbortedError))) := by
        intro q' hbooks hgone
        refine ⟨rfl, hbooks, ⟨response, s.error, rfl⟩, .inl rfl, fun ht => ?_⟩
        rw [hgone] at ht
        cases ht
      have hhealth : ∀ route, Books (recordHealth route s.error.isNone) (fun r s' q' => r = .ok () ∧
          s' = { s with response } ∧ SameBooks q q' ∧ q'.gone = false) { s with response }
          (q.after .clientAborted false) := by
        intro route
        obtain ⟨auth, hauth⟩ := Option.isSome_iff_exists.1 hauth
        simp only [recordHealth, Books, wp_bind, wp_ctx, hauth, wp_op]
        exact ⟨trivial, fun _ _ => ⟨trivial, trivial, ⟨rfl, rfl, rfl, rfl⟩, rfl⟩⟩
      split
      · rw [if_pos hauth]
        refine wp_mono (hhealth _) ?_
        rintro _ s' q' ⟨rfl, rfl, hbooks, hgone⟩
        exact hend q' hbooks hgone
      · exact hend (q.after .clientAborted false) ⟨rfl, rfl, rfl, rfl⟩ rfl

/-- The account of a request that has ended.  Its row carries the error the client was told, or
that of an abort the relay has noticed. -/
structure Settled (c : PipelineCtx) (q : Account) : Prop where
  booked : Booked c q
  told : q.told = c.error ∨
    q.told = none ∧ c.error = some clientAbortedError ∧ q.head = true ∧ q.gone = true
  aborted : q.head = true → q.gone = true → q.told = none → c.error = some clientAbortedError
  whole : q.head = true → q.gone = true → q.fate.opened = 1 → q.fate.rejected = false →
    q.told = none ∧ q.fate.failed = false

omit [Platform] in
/-- A request whose stream has not begun is told its error. -/
theorem Settled.unopened (hbooked : Booked c q) (htold : q.told = c.error) (hhead : q.head = false) :
    Settled c q where
  booked := hbooked
  told := .inl htold
  aborted h := by
    rw [hhead] at h
    cases h
  whole h := by
    rw [hhead] at h
    cases h

theorem relay_books {stream : ResponseStream} (h : Pending s q) (hs : SameRequest c s)
    (hprimed : Primed c stream q) :
    Books (relay stream) (fun r s' q' => r = .ok () ∧ s'.requestId = s.requestId ∧ Settled s' q')
      s q := by
  simp only [relay, Books, wp_bind, wp_ctx, wp_op]
  refine ⟨trivial, fun u _ => ?_⟩
  have hprimed' : Primed c stream (q.after (.writeHead s.requestId s.budgetWarnings) u) :=
    hprimed.congr rfl
  refine wp_mono (relayLoop_books hprimed' _ _) ?_
  rintro _ s₁ q₁ ⟨ended, t, rfl, hs₁, hbooks₁, hended⟩
  have hsame : SameRequest s s₁ := hs.symm.trans hs₁
  have herror₁ : s₁.error = none := hsame.error.trans h.error
  have htold₁ : q₁.told = none := hbooks₁.told.trans h.told
  refine wp_mono (afterLoop_books ended (htold₁.trans herror₁.symm)) ?_
  rintro _ s₂ q₂ ⟨rfl, ⟨error, hs₂⟩, htold₂, hrows₂, hrefused₂, hhead₂, hfate₂, hended₂⟩
  have hauth₂ : s₂.auth.isSome = true := by
    rw [hs₂, hsame.auth]
    exact h.auth
  simp only [finishRelay, wp_bind]
  refine wp_mono (noteEnd_books hauth₂ _ t) ?_
  rintro _ s₃ q₃ ⟨rfl, hbooks₃, ⟨response, error', hs₃⟩, herror₃, hgone₃⟩
  have hauth₃ : s₃.auth.isSome = true := by
    rw [hs₃]
    exact hauth₂
  have hid : s₃.requestId = s.requestId := by
    rw [hs₃, hs₂]
    exact hsame.requestId
  have hunbooked : Unbooked s₃ q₃ := by
    have hrows : q₃.rows = q.rows := hbooks₃.rows.trans (hrows₂.trans hbooks₁.rows)
    have hrefused : q₃.refused = false :=
      hbooks₃.refused.trans (hrefused₂.trans (hbooks₁.refused.trans h.refused))
    refine ⟨?_, fun hr => ?_⟩
    · rw [hid, rowsOf, hrows]
      exact h.rows
    · rw [hrefused] at hr
      cases hr
  refine wp_mono (writeLogged_booked hauth₃ hunbooked) ?_
  rintro _ s₄ q₄ ⟨rfl, rfl, htold₄, hhead₄, hgone₄, hfate₄, hbooked⟩
  refine wp_mono (books_quiet emitTerminalAudit_uses (by decide)) ?_
  rintro _ s₅ q₅ ⟨⟨rfl, rfl⟩, rfl⟩
  have htold : q₅.told = s₂.error := htold₄.trans (hbooks₃.told.trans htold₂)
  have hhead : q₅.head = true :=
    hhead₄.trans (hbooks₃.head.trans (hhead₂.trans hbooks₁.head))
  refine ⟨trivial, fun _ _ => ⟨rfl, hid, hbooked.congr rfl rfl, ?_, ?_, ?_⟩⟩
  · obtain hsame₃ | ⟨hnone, haborted, hgone⟩ := herror₃
    · exact .inl (htold.trans hsame₃.symm)
    · exact .inr ⟨htold.trans hnone, haborted, hhead, hgone₄.trans hgone⟩
  · intro _ hgone hnone
    exact (hgone₃ (hgone₄.symm.trans hgone)).2 (htold.symm.trans hnone)
  · intro _ hgone hopened hrejected
    obtain ⟨hfate₃, -⟩ := hgone₃ (hgone₄.symm.trans hgone)
    have hfate : q₅.fate = q₁.fate := hfate₄.trans (hfate₃.trans hfate₂)
    cases ended with
    | error e =>
        have hbroken : q₅.fate.rejected = true := (congrArg Fate.rejected hfate).trans hended
        have hwhole : q₅.fate.rejected = false := hrejected
        rw [hbroken] at hwhole
        cases hwhole
    | ok _ =>
        have hclean : q₅.fate.Clean := by
          rw [hfate]
          exact hended
        exact ⟨htold.trans ((hended₂ rfl).trans herror₁), hclean hopened hrejected⟩

/-! ### The handler -/

theorem chatCompletions_books (h : Opening s q) (bearerToken : Option String) :
    Books (chatCompletions deps bearerToken) (fun _ s' q' => s'.requestId = s.requestId ∧
      (s'.auth.isSome = true → Settled s' q')) s q := by
  simp only [chatCompletions, Books, wp_handle, wp_bind]
  refine wp_mono (runPipeline_books deps h bearerToken) ?_
  rintro r s₁ q₁ ⟨hid, hran⟩
  obtain err | _ | stream := r
  · obtain ⟨-, hhead, hbooked, rerr, rfl, herr⟩ := hran
    exact ⟨trivial, fun _ _ => ⟨hid, fun hauth =>
      .unopened ((hbooked hauth).congr rfl rfl) herr.symm hhead⟩⟩
  · obtain ⟨htold, hhead, hbooked, herr, hstream, hresponse⟩ := hran
    obtain ⟨response, hres⟩ := Option.isSome_iff_exists.1 hresponse
    simp only [respond, wp_bind, wp_ctx, hstream, Bool.not_false, if_true, hres]
    exact ⟨trivial, fun _ _ => ⟨hid, fun _ =>
      .unopened (hbooked.congr rfl rfl) (htold.trans herr.symm) hhead⟩⟩
  · obtain ⟨hpending, hstream, c, hs, hprimed⟩ := hran
    simp only [respond, wp_bind, wp_ctx, hstream, Bool.not_true, Bool.false_eq_true, if_false]
    refine wp_mono (relay_books hpending hs hprimed) ?_
    rintro _ s₂ q₂ ⟨rfl, hid₂, hsettled⟩
    exact ⟨hid₂.trans hid, fun _ => hsettled⟩

end

end Account

/-! ### Whole requests -/

section
variable [Platform] {deps : PipelineDeps} {bearerToken : Option String} {requestId : String}
  {startedAt : ℕ} {envelope : AIRequest} {rows : List UsageLedgerValues} {gone : Bool}
  {r : Except Thrown Unit} {c : PipelineCtx} {q : Account}

/-- How the account of a request ends. -/
theorem settled_of_run (hfresh : ∀ row ∈ rows, row.requestId ≠ requestId)
    (hrun : Prog.Run Account.env
      (chatCompletions deps bearerToken (newPipelineCtx requestId startedAt envelope))
      { rows, gone } (.ret (r, c)) q) (hauth : c.auth.isSome = true) :
    c.requestId = requestId ∧ Account.Settled c q := by
  have hrows : ({ rows, gone } : Account).rowsOf requestId = [] := by
    rw [Account.rowsOf, List.filter_eq_nil_iff]
    intro row hrow
    rw [decide_eq_true_iff]
    exact hfresh row hrow
  have hopening : Account.Opening (newPipelineCtx requestId startedAt envelope) { rows, gone } :=
    ⟨rfl, rfl, hrows, rfl, rfl, rfl, rfl⟩
  obtain ⟨hid, hsettled⟩ :=
    Prog.post_of_run (Account.chatCompletions_books deps hopening bearerToken) hrun
  exact ⟨hid, hsettled hauth⟩

/-- **One row a request.**  A request that has been authenticated leaves exactly one row, with the
status of how it has ended, if and only if the last lookup of a price for its row was not refused.
How it has ended is what the client was told, or an abort of the client. -/
theorem one_row_per_request (hfresh : ∀ row ∈ rows, row.requestId ≠ requestId)
    (hrun : Prog.Run Account.env
      (chatCompletions deps bearerToken (newPipelineCtx requestId startedAt envelope))
      { rows, gone } (.ret (r, c)) q) (hauth : c.auth.isSome = true) :
    ((∃ row, q.rowsOf requestId = [row] ∧ row.status = statusFor c) ↔ q.refused = false) ∧
      (q.told = c.error ∨ q.told = none ∧ c.error = some clientAbortedError) := by
  obtain ⟨rfl, hsettled⟩ := settled_of_run hfresh hrun hauth
  refine ⟨⟨fun hrow => ?_, hsettled.booked.row⟩,
    hsettled.told.imp_right fun h => ⟨h.1, h.2.1⟩⟩
  obtain ⟨row, hrow, -⟩ := hrow
  cases hrefused : q.refused with
  | false => rfl
  | true =>
      rw [hsettled.booked.none hrefused] at hrow
      cases hrow

/-- An error that reads like the abort of the client. -/
def LikeAbort (e : RouterError) : Prop := e.code = .unknown ∧ e.message = "client aborted"

omit [Platform] in
theorem statusFor_eq_client_abort {c : PipelineCtx} :
    statusFor c = .client_abort ↔ ∃ e, c.error = some e ∧ LikeAbort e := by
  unfold statusFor LikeAbort
  cases c.error with
  | none => simp
  | some e => cases hcode : e.code <;> simp [hcode]

/-- **Aborts that are recorded as aborts.**  When the head of the stream has been written, the
stream is the first that was opened and has not rejected, and the relay finds the client gone when
it ends, then the row says so and no failure was recorded.  And a row says so exactly if the price
was not refused and either that is how the stream ended, without an error that the client was told,
or the client was told an error that reads like its abort. -/
theorem abort_recorded (hfresh : ∀ row ∈ rows, row.requestId ≠ requestId)
    (hrun : Prog.Run Account.env
      (chatCompletions deps bearerToken (newPipelineCtx requestId startedAt envelope))
      { rows, gone } (.ret (r, c)) q) (hauth : c.auth.isSome = true) :
    (q.refused = false → q.gone = true → q.head = true → q.fate.opened = 1 →
      q.fate.rejected = false →
      (∃ row, q.rowsOf requestId = [row] ∧ row.status = .client_abort) ∧ q.fate.failed = false) ∧
    ((∃ row, q.rowsOf requestId = [row] ∧ row.status = .client_abort) ↔ q.refused = false ∧
      (q.head = true ∧ q.gone = true ∧ q.told = none ∨ ∃ e, q.told = some e ∧ LikeAbort e)) := by
  obtain ⟨rfl, hsettled⟩ := settled_of_run hfresh hrun hauth
  have hrow : ∀ e, c.error = some e → LikeAbort e → q.refused = false →
      ∃ row, q.rowsOf c.requestId = [row] ∧ row.status = .client_abort := by
    intro e herror hlike hpriced
    obtain ⟨row, hrow, hstatus⟩ := hsettled.booked.row hpriced
    exact ⟨row, hrow, hstatus.trans (statusFor_eq_client_abort.2 ⟨e, herror, hlike⟩)⟩
  refine ⟨fun hpriced hgone hhead hopened hwhole => ?_, ?_, ?_⟩
  · obtain ⟨htold, hfailed⟩ := hsettled.whole hhead hgone hopened hwhole
    exact ⟨hrow _ (hsettled.aborted hhead hgone htold) ⟨rfl, rfl⟩ hpriced, hfailed⟩
  · rintro ⟨row, hone, habort⟩
    cases hpriced : q.refused with
    | true =>
        rw [hsettled.booked.none hpriced] at hone
        cases hone
    | false =>
        refine ⟨rfl, ?_⟩
        obtain ⟨row', hone', hstatus⟩ := hsettled.booked.row hpriced
        obtain rfl : row' = row := List.singleton_inj.1 (hone'.symm.trans hone)
        obtain ⟨e, herror, hlike⟩ := statusFor_eq_client_abort.1 (hstatus.symm.trans habort)
        obtain htold | ⟨htold, -, hhead, hgone⟩ := hsettled.told
        · exact .inr ⟨e, htold.trans herror, hlike⟩
        · exact .inl ⟨hhead, hgone, htold⟩
  · rintro ⟨hpriced, ⟨hhead, hgone, htold⟩ | ⟨e, htold, hlike⟩⟩
    · exact hrow _ (hsettled.aborted hhead hgone htold) ⟨rfl, rfl⟩ hpriced
    · obtain hsame | ⟨hnone, -⟩ := hsettled.told
      · exact hrow e (hsame.symm.trans htold) hlike hpriced
      · rw [hnone] at htold
        cases htold

end

/-! ### Sample accounts -/

namespace Sample

/-- A provider's answer to the sample request. -/
def shortAnswer : AIResponse :=
  { message := { content := js "hi" }, finishReason := .stop, usage := ⟨3, 1, 0, 0, false⟩,
    served := ⟨"claude-sonnet", cloudProviderId, 5⟩ }

/-- The tables, with providers that answer.  `priced`: prices can be looked up; `leaves`: when the
client leaves. -/
def accountAnswer (priced : Bool) (leaves : Account → Bool) (q : Account) : (e : Op) → e.Answer
  | .insertUsage v => .ok (decide (q.rowsOf v.requestId = []))
  | .pricingAt _ _ => if priced then .ok none else .error (.error "connection lost")
  | .execute _ _ _ => .ok shortAnswer
  | .openStream _ _ _ => [.text_delta (js "hi"), .finish .stop none]
  | .clientAborted => q.gone || leaves q
  | .signalAborted => q.gone
  | e => tables.answer e

/-- The sample request, from its arrival to the end of its reply. -/
def accountOf (priced : Bool) (leaves : Account → Bool) (stream gone : Bool) :
    (Except Thrown Unit × PipelineCtx) × Account :=
  letI := platform
  (chatCompletions deps (some token)
      (newPipelineCtx "r1" 0 { request "hello" with stream })).eval
    (fun q e => (accountAnswer priced leaves q e, q.after e (accountAnswer priced leaves q e)))
    { gone }

theorem accountOf_run (priced : Bool) (leaves : Account → Bool) (stream gone : Bool) :
    letI := platform
    Prog.Run Account.env (chatCompletions deps (some token)
        (newPipelineCtx "r1" 0 { request "hello" with stream })) { gone }
      (.ret (accountOf priced leaves stream gone).1) (accountOf priced leaves stream gone).2 := by
  let := platform
  refine Prog.run_eval (fun q e => ⟨?_, rfl⟩) _ _
  have hlaw := tables.lawful_answer e
  cases e with
  | insertUsage v => exact ⟨trivial, rfl⟩
  | pricingAt m t => exact ⟨trivial, trivial⟩
  | execute c route env => exact ⟨trivial, trivial⟩
  | openStream c route env => exact ⟨trivial, trivial⟩
  | clientAborted =>
      refine ⟨trivial, fun hgone => ?_⟩
      show (q.gone || leaves q) = true
      rw [hgone]
      rfl
  | signalAborted => exact ⟨trivial, fun hgone => hgone⟩
  | incrementBudget scope ref period amount => exact ⟨trivial, rfl⟩
  | _ => exact ⟨hlaw, trivial⟩

/-- Did the request pass the authentication, with the last lookup of a price done? -/
def served (a : (Except Thrown Unit × PipelineCtx) × Account) : Bool :=
  a.1.2.auth.isSome && !a.2.refused

/-- The account of the request that is answered, and of the one whose client leaves a stream. -/
abbrev answered := accountOf true (fun _ => false) false false
abbrev left := accountOf true (fun q => q.head) true false

theorem answered_served : served answered = true := by decide +kernel

theorem left_served : (served left && left.2.gone && left.2.head &&
    decide (left.2.fate.opened = 1) && !left.2.fate.rejected) = true := by decide +kernel

theorem answered_one_row :
    ∃ row, answered.2.rowsOf "r1" = [row] ∧ row.status = statusFor answered.1.2 := by
  let := platform
  obtain ⟨hauth, hpriced⟩ := (Bool.and_eq_true_iff ..).1 answered_served
  have hfresh : ∀ row ∈ ([] : List UsageLedgerValues), row.requestId ≠ "r1" := by simp
  have hrun := accountOf_run true (fun _ => false) false false
  exact (one_row_per_request hfresh hrun hauth).1.2 (by simpa using hpriced)

theorem left_abort_recorded :
    (∃ row, left.2.rowsOf "r1" = [row] ∧ row.status = .client_abort) ∧
      left.2.fate.failed = false := by
  let := platform
  have hleft := left_served
  simp only [served, Bool.and_eq_true, Bool.not_eq_true', decide_eq_true_eq] at hleft
  obtain ⟨⟨⟨⟨⟨hauth, hpriced⟩, hgone⟩, hhead⟩, hopened⟩, hwhole⟩ := hleft
  have hfresh : ∀ row ∈ ([] : List UsageLedgerValues), row.requestId ≠ "r1" := by simp
  have hrun := accountOf_run true (fun q => q.head) true false
  exact (abort_recorded hfresh hrun hauth).1 hpriced hgone hhead hopened hwhole

/-- A request that is answered while no price can be looked up. -/
abbrev unpriced := accountOf false (fun _ => false) false false

/-- A request whose client has gone before it is answered. -/
abbrev deserted := accountOf true (fun _ => false) false true

theorem unpriced_no_row :
    unpriced.1.2.auth.isSome = true ∧ ¬∃ row, unpriced.2.rowsOf "r1" = [row] := by
  have hnone : (unpriced.1.2.auth.isSome && (unpriced.2.rowsOf "r1").isEmpty) = true := by
    decide +kernel
  obtain ⟨hauth, hrows⟩ := (Bool.and_eq_true_iff ..).1 hnone
  refine ⟨hauth, ?_⟩
  rintro ⟨row, hrow⟩
  rw [hrow] at hrows
  cases hrows

theorem deserted_not_client_abort : deserted.1.2.auth.isSome = true ∧ deserted.2.gone = true ∧
    (deserted.2.rowsOf "r1").map (fun row => row.status) = [.provider_error] := by
  have hrow : (deserted.1.2.auth.isSome && deserted.2.gone &&
      decide ((deserted.2.rowsOf "r1").map (fun row => row.status) = [.provider_error])) = true := by
    decide
  simp only [Bool.and_eq_true, decide_eq_true_eq] at hrow
  exact ⟨hrow.1.1, hrow.1.2, hrow.2⟩

end Sample

end VibeRouter
