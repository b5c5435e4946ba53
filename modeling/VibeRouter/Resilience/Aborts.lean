import VibeRouter.Resilience.Repeated
import VibeRouter.Resilience.Probe
import VibeRouter.Resilience.WatchedRuns

/-! # Streams, time and aborts

What holds of every run of an executor, whatever its client, its timers, its adapters and its
consumer do: the consumer gets the beginning of one stream (`stream_never_splices`), the total
timeout is reported as such unless a hop met it (`total_timeout_reported`), and the calls of a
request are aborted with it unless a hop was opened too late (`calls_aborted`). -/

namespace VibeRouter

open Effects Async Code

/-! ### Calls and signals -/

namespace Signals

/-- A call in flight is aborted with its request. -/
def Covered (s : Signals) : Prop :=
  s.reason.isSome = true → ∀ h, s.hop = some h → h.reason.isSome = true

/-- The open hop listens to the composite signal. -/
def Listens (s : Signals) : Prop := ∀ h, s.hop = some h → h.linked = true

theorem Linked.covered {s : Signals} (h : s.Linked) (hl : s.Listens) : s.Covered :=
  fun hreason hop hhop => h hop hhop (hl hop hhop) hreason

theorem Listens.abort {s : Signals} (h : s.Listens) (why : AbortReason) : (s.abort why).Listens := by
  unfold Signals.abort
  split
  · exact h
  · intro hop hhop
    obtain ⟨hop', hhop', rfl⟩ := Option.map_eq_some_iff.1 hhop
    rw [if_pos (h hop' hhop')]
    exact h hop' hhop'

theorem kept_listens : Kept Listens := by
  intro s event h
  cases event with
  | clientAborts =>
      simp only [occur]
      split
      · exact Listens.abort (s := { s with client := true }) h .client
      · exact h
  | totalFires =>
      simp only [occur]
      split
      · exact Listens.abort (s := { s with armed := false, fired := true }) h .timeout
      · exact h
  | idleFires =>
      intro hop hhop
      obtain ⟨hop', hhop', rfl⟩ := Option.map_eq_some_iff.1 hhop
      have hl := h hop' hhop'
      split <;> exact hl

end Signals

namespace Watched

/-- The signal an adapter call runs under: the composite signal itself, or the hop's. -/
def callSignal (q : Watched) : Op → Option AbortReason
  | .execute _ _ _ => q.signals.reason
  | .openStream _ _ _ | .pull | .closeStream => q.signals.hop.bind HopSignal.reason
  | _ => none

/-- Hops are linked to the composite signal, but for those opened too late. -/
structure Sound (q : Watched) : Prop where
  linked : q.signals.Linked
  listens : q.unlinked = false → q.signals.Listens

theorem Sound.perform {s : Signals} (h : s.Listens) (e : Op) (he : e ≠ .openHop) :
    (s.perform e).Listens := by
  cases e with
  | openHop => exact absurd rfl he
  | openSignal ms => exact fun hop hhop => by cases hhop
  | closeHop => exact fun hop hhop => by cases hhop
  | armIdle ms =>
      intro hop hhop
      obtain ⟨hop', hhop', rfl⟩ := Option.map_eq_some_iff.1 hhop
      exact h hop' hhop'
  | _ => exact h

theorem note_unlinked {q : Watched} {e : Op} (r : e.Answer) (he : e ≠ .openHop) :
    (q.note e r).unlinked = q.unlinked := by
  cases e with
  | openHop => exact absurd rfl he
  | shedAcquire p => cases r <;> rfl
  | _ => rfl

theorem Sound.after {q : Watched} (h : q.Sound) (e : GenOp Op Yielded)
    (r : GenOp.Answer Op.Answer Yielded e) : (q.after e r).Sound := by
  cases e with
  | yield y =>
      exact ⟨Signals.kept_linked.foldl h.linked _, fun hu => Signals.kept_listens.foldl (h.listens hu) _⟩
  | op e =>
      refine ⟨(Signals.kept_linked.during h.linked e).perform e, fun hu => ?_⟩
      by_cases he : e = .openHop
      · subst he
        rintro hop ⟨⟩
        replace hu : (q.unlinked || q.signals.reason.isSome) = false := hu
        rw [Bool.or_eq_false_iff] at hu
        show q.signals.reason.isNone = true
        cases hr : q.signals.reason with
        | none => rfl
        | some why =>
            rw [hr] at hu
            cases hu.2
      · have hu' : q.unlinked = false := (note_unlinked r he).symm.trans hu
        exact Sound.perform (Signals.kept_listens.during (h.listens hu') e) e he

theorem sound_start (script : ℕ → List SignalEvent) (client : Bool) :
    (start script client).Sound :=
  ⟨fun _ hhop => by (cases hhop), fun _ _ hhop => by cases hhop⟩

theorem sound_of_run {fails : Thrown → Prop} {α : Type} {script : ℕ → List SignalEvent}
    {client : Bool} {p p' : GenProg Op Op.Answer Yielded α} {q : Watched}
    (h : Prog.Run (env fails) p (start script client) p' q) : q.Sound :=
  h.preserves (fun _ e r hq _ => hq.after e r) (sound_start script client)

end Watched

section
variable [Platform] {deps : PipelineDeps} {cfg : ResilienceConfig} {c : PipelineCtx}
  {script : ℕ → List SignalEvent} {client : Bool} {q : Watched}

/-! ### Streams -/

/-- **Streaming never splices two hops.**  At every point of every run the consumer has been given
the beginning of the stream that was opened last, a hop and its stream are only opened when nothing
has been given yet, and a stream that completes was given whole, by the hop that `ctx.route` names. -/
theorem stream_never_splices
    {p' : GenProg Op Op.Answer Yielded (Except Abrupt Unit × PipelineCtx)}
    (hrun : Prog.Run (Watched.env fun _ => True) (executeResilientStream deps cfg c)
      (.start script client) p' q) :
    q.Unspliced ∧
      (∀ k, p' = .call (.op .openHop) k → q.out = []) ∧
      (∀ c' route env k, p' = .call (.op (.openStream c' route env)) k → q.out = []) ∧
      ∀ c', p' = .ret (.ok (), c') → ∃ route all, q.source = some (route, all) ∧ q.out = all ∧
        c'.route = some route := by
  have h := Watched.executeResilientStream_streams cfg (s := c) deps (fun _ => True)
    (Watched.at_start script client) rfl
  refine ⟨?_, ?_, ?_, ?_⟩
  · cases p' with
    | ret a => exact (Prog.post_of_run h hrun).2.1
    | call e k => exact (Prog.ok_of_run h hrun).1
  · rintro k rfl
    exact (Prog.ok_of_run h hrun).2.1
  · rintro c' route env k rfl
    exact (Prog.ok_of_run h hrun).2.1
  · rintro c' rfl
    exact (Prog.post_of_run h hrun).2.2

/-! ### The total timeout -/

/-- **The total timeout is reported.**  Without streaming, a request that fails when its total timer
has fired fails with the total timeout.  A stream that fails so before any output does exactly if
no hop has ended without output when the timer had fired, but for adapters that imitate that
error. -/
theorem total_timeout_reported (fails : Thrown → Prop) :
    (∀ err c', Prog.Run (Watched.env fails).onOps (executeResilient deps cfg c)
        (.start script client) (.ret (.error err, c')) q →
      q.signals.fired = true → (toRouterError err).isTotalTimeout = true) ∧
    ∀ err c', Prog.Run (Watched.env fails) (executeResilientStream deps cfg c)
        (.start script client) (.ret (.error (.thrown err), c')) q →
      q.out = [] → q.signals.fired = true →
      (q.overrun = false → (toRouterError err).isTotalTimeout = true) ∧
        ((∀ e, fails e → (toRouterError e).isTotalTimeout = false) →
          (toRouterError err).isTotalTimeout = true → q.overrun = false) := by
  constructor
  · intro err c' hrun
    have h := Watched.executeResilient_does cfg (s := c) deps fails
      (Watched.at_start script client) rfl
    exact (Prog.post_of_run h hrun).2 err rfl
  · intro err c' hrun hout hfired
    have h := Watched.executeResilientStream_streams cfg (s := c) deps fails
      (Watched.at_start script client) rfl
    have hends := (Prog.post_of_run h hrun).2.2
    obtain ⟨hreported, hown⟩ := hends.timeout err rfl hout hfired
    refine ⟨hreported, fun hfails herr => ?_⟩
    cases hover : q.overrun with
    | false => rfl
    | true =>
        have hnot := hown hover hfails
        rw [herr] at hnot
        cases hnot

/-! ### The calls and the slots of a request -/

/-- What an execution may do in any surroundings it may do under watch. -/
theorem Execution.watched {p : GenProg Op Op.Answer Yielded Unit} (h : Execution deps cfg c p)
    (script : ℕ → List SignalEvent) (client : Bool) :
    p.wp (Watched.env fun _ => True) Watched.Ok (fun _ q => q.slot = none)
      (.start script client) := by
  cases h with
  | resilient =>
      rw [Prog.wp_bind, Prog.wp_embed]
      exact Prog.wp_mono (Watched.executeResilient_does cfg deps _
        (Watched.at_start script client) rfl)
        fun r q h => h.1
  | stream =>
      rw [Prog.wp_bind]
      exact Prog.wp_mono (Watched.executeResilientStream_streams cfg deps _
        (Watched.at_start script client) rfl) fun r q h => h.1

/-- **No call outlives its request.**  In a run in which no hop is opened when the signal of the
request is aborted already, every call that is made or in flight is aborted with the request,
whatever happens next.  In every run a request takes one slot at a time and gives it back once. -/
theorem calls_aborted {p p' : GenProg Op Op.Answer Yielded Unit} (hp : Execution deps cfg c p)
    (hrun : Prog.Run (Watched.env fun _ => True) p (.start script client) p' q) :
    (q.unlinked = false → (∀ events : List SignalEvent, (events.foldl Signals.occur q.signals).Covered) ∧
      ∀ e k, p' = .call (.op e) k → e.part = .adapter → q.signals.reason.isSome = true →
        (q.callSignal e).isSome = true) ∧
      (∀ i k, p' = .call (.op (.shedAcquire i)) k → q.slot = none) ∧
      (∀ i k, p' = .call (.op (.shedRelease i)) k → q.slot = some i) ∧
      (p' = .ret () → q.slot = none) := by
  have h := hp.watched script client
  have hsound := Watched.sound_of_run hrun
  refine ⟨fun hu => ⟨fun events => ?_, ?_⟩, ?_, ?_, ?_⟩
  · exact (Signals.kept_linked.foldl hsound.linked events).covered
      (Signals.kept_listens.foldl (hsound.listens hu) events)
  · rintro e k rfl hpart hreason
    have hok := (Prog.ok_of_run h hrun).2
    have hcovered := hsound.linked.covered (hsound.listens hu) hreason
    have hhop : q.signals.hop.isSome = true → (q.signals.hop.bind HopSignal.reason).isSome = true := by
      intro hsome
      obtain ⟨hop, hhop⟩ := Option.isSome_iff_exists.1 hsome
      rw [hhop]
      exact hcovered hop hhop
    cases e with
    | execute c' route env => exact hreason
    | openStream c' route env => exact hhop hok.2
    | pull => exact hhop hok
    | closeStream => exact hhop hok
    | _ => cases hpart
  · rintro i k rfl
    exact (Prog.ok_of_run h hrun).2
  · rintro i k rfl
    exact (Prog.ok_of_run h hrun).2
  · rintro rfl
    have hslot := Prog.post_of_run h hrun
    exact hslot

end

/-! ### Runs -/

namespace Sample

/-- The database answers from the tables, the flags say what the signals are, and the stream of
every adapter delivers `chunks` unless it `rejects`. -/
def watchedAnswer (chunks : List StreamChunk) (rejects : Watched → Option Thrown) (q : Watched) :
    (e : GenOp Op Yielded) → GenOp.Answer Op.Answer Yielded e
  | .op .signalAborted => q.signals.reason.isSome
  | .op .timedOut => q.signals.fired
  | .op .clientAborted => q.signals.client
  | .op .idleFired => (q.signals.hop.map HopSignal.idleFired).getD false
  | .op (.sleep ms) => (q.during (.sleep ms)).reason.isNone
  | .op (.shedAcquire p) => q.signals.reason.isSome || (q.during (.shedAcquire p)).reason.isNone
  | .op (.openStream _ _ _) => chunks
  | .op .pull => match rejects q with
      | none => .ok ()
      | some err => .error err
  | .op .closeStream => .ok ()
  | .op e => tables.answer e
  | .yield _ => .next

def watch (chunks : List StreamChunk) (rejects : Watched → Option Thrown) (q : Watched)
    (e : GenOp Op Yielded) : GenOp.Answer Op.Answer Yielded e × Watched :=
  (watchedAnswer chunks rejects q e, q.after e (watchedAnswer chunks rejects q e))

theorem watch_allowed {fails : Thrown → Prop} {chunks : List StreamChunk}
    {rejects : Watched → Option Thrown} (h : ∀ q err, rejects q = some err → fails err) (q : Watched)
    (e : GenOp Op Yielded) : (Watched.env fails).allows q e (watch chunks rejects q e).1 ∧
      (Watched.env fails).next q e (watch chunks rejects q e).1 = (watch chunks rejects q e).2 := by
  refine ⟨?_, rfl⟩
  cases e with
  | yield y => trivial
  | op e =>
      have hlaw := tables.lawful_answer e
      cases e with
      | signalAborted => exact ⟨rfl, trivial⟩
      | timedOut => exact ⟨rfl, trivial⟩
      | clientAborted => exact ⟨rfl, trivial⟩
      | idleFired => exact ⟨rfl, trivial⟩
      | sleep ms => exact ⟨rfl, trivial⟩
      | shedAcquire p =>
          refine ⟨fun hr hreason => ?_, trivial⟩
          simp only [watch, watchedAnswer, hreason] at hr
          simpa using hr
      | pull =>
          refine ⟨trivial, fun err herr => ?_⟩
          simp only [watch, watchedAnswer] at herr
          split at herr
          · cases herr
          · next e' he' =>
              cases herr
              exact h q _ he'
      | closeStream => exact ⟨trivial, fun err herr => by cases herr⟩
      | _ => exact ⟨hlaw, trivial⟩

/-- One chunk of output. -/
def hi : List StreamChunk := [.text_delta (js "hi")]

/-- The stream of the second hop. -/
def helloStream : List StreamChunk := [.text_delta (js "hel"), .text_delta (js "lo")]

/-- The first hop is overloaded, before it has sent any content; the fallback streams. -/
def recoveredStream : GenProg Op Op.Answer Yielded (Except Abrupt Unit × PipelineCtx) × Watched :=
  letI := platform
  Prog.advance (watch helloStream fun q => if q.tick = 11 then
      some (.router { code := .provider_unavailable, message := "overloaded" }) else none)
    60 (executeResilientStream deps chainConfig (chainCtx [localModelId]))
    (.start (fun _ => []) false)

/-- The total timer fires during the first `pull`; the adapter reports it as an unknown error. -/
def lateStream : GenProg Op Op.Answer Yielded (Except Abrupt Unit × PipelineCtx) × Watched :=
  letI := platform
  Prog.advance (watch hi fun q => if q.tick = 11 then
      some (.router { code := .unknown, message := "total timeout" }) else none)
    30 (executeResilientStream deps chainConfig (chainCtx []))
    (.start (fun n => if n = 11 then [.totalFires] else []) false)

/-- Some steps of a stream whose client goes away at one of them. -/
def abandonedStream (gone steps : ℕ) : GenProg Op Op.Answer Yielded Unit × Watched :=
  letI := platform
  Prog.advance (watch hi fun _ => none) steps
    ((executeResilientStream deps chainConfig (chainCtx [])).bind fun _ => .ret ())
    (.start (fun n => if n = gone then [.clientAborts] else []) false)

/-- The exception a generator has ended with. -/
def thrownBy : GenProg Op Op.Answer Yielded (Except Abrupt Unit × PipelineCtx) → Option Thrown
  | .ret (.error (.thrown err), _) => some err
  | _ => none

theorem eq_of_thrownBy {p : GenProg Op Op.Answer Yielded (Except Abrupt Unit × PipelineCtx)}
    {err : Thrown} (h : thrownBy p = some err) : ∃ c, p = .ret (.error (.thrown err), c) := by
  unfold thrownBy at h
  split at h
  · cases h
    exact ⟨_, rfl⟩
  · cases h

/-- Has a generator completed without an exception? -/
def endedWell : GenProg Op Op.Answer Yielded (Except Abrupt Unit × PipelineCtx) → Bool
  | .ret (.ok (), _) => true
  | _ => false

theorem eq_of_endedWell {p : GenProg Op Op.Answer Yielded (Except Abrupt Unit × PipelineCtx)}
    (h : endedWell p = true) : ∃ c, p = .ret (.ok (), c) := by
  unfold endedWell at h
  split at h
  · exact ⟨_, rfl⟩
  · cases h

theorem recoveredStream_ends : endedWell recoveredStream.1 = true ∧
    recoveredStream.2.out = helloStream ∧
      recoveredStream.2.source.map (fun source => source.1.model.id) = some localModelId := by
  decide +kernel

theorem lateStream_thrown : (thrownBy lateStream.1).map (fun err =>
    (toRouterError err).isTotalTimeout) = some false := by decide +kernel

theorem lateStream_signals : lateStream.2.out = [] ∧ lateStream.2.signals.reason = some .timeout ∧
    lateStream.2.signals.fired = true ∧ lateStream.2.overrun = true := by decide +kernel

theorem abandonedStream_signals :
    (abandonedStream 3 11).2.signals.reason = some .client ∧
      (abandonedStream 3 11).2.signals.hop = some { linked := false } := by decide

theorem recoveredStream_run :
    letI := platform
    Prog.Run (Watched.env fun _ => True)
      (executeResilientStream deps chainConfig (chainCtx [localModelId])) (.start (fun _ => []) false)
      recoveredStream.1 recoveredStream.2 := by
  let := platform
  exact Prog.run_advance (watch_allowed fun _ _ _ => trivial) 60 _ _

theorem lateStream_run (fails : Thrown → Prop)
    (h : fails (.router { code := .unknown, message := "total timeout" })) :
    letI := platform
    Prog.Run (Watched.env fails) (executeResilientStream deps chainConfig (chainCtx []))
      (.start (fun n => if n = 11 then [.totalFires] else []) false) lateStream.1 lateStream.2 := by
  let := platform
  refine Prog.run_advance (watch_allowed ?_) 30 _ _
  intro q err herr
  split at herr
  · cases herr
    exact h
  · cases herr

theorem abandonedStream_run (gone steps : ℕ) :
    letI := platform
    Prog.Run (Watched.env fun _ => True)
      ((executeResilientStream deps chainConfig (chainCtx [])).bind fun _ => .ret ())
      (.start (fun n => if n = gone then [.clientAborts] else []) false)
      (abandonedStream gone steps).1 (abandonedStream gone steps).2 := by
  let := platform
  exact Prog.run_advance (watch_allowed fun _ _ _ => trivial) steps _ _

end Sample

theorem sample_never_splices : Sample.recoveredStream.2.Unspliced ∧
    ∃ c' route, Sample.recoveredStream.1 = .ret (.ok (), c') ∧
      Sample.recoveredStream.2.source = some (route, Sample.helloStream) ∧
      Sample.recoveredStream.2.out = Sample.helloStream ∧ c'.route = some route ∧
        route.model.id = Sample.localModelId := by
  let := Sample.platform
  have h := stream_never_splices Sample.recoveredStream_run
  obtain ⟨hended, hout, hmodel⟩ := Sample.recoveredStream_ends
  obtain ⟨c', hret⟩ := Sample.eq_of_endedWell hended
  obtain ⟨route, all, hsource, hall, hroute⟩ := h.2.2.2 c' hret
  obtain rfl : all = Sample.helloStream := hall.symm.trans hout
  rw [hsource] at hmodel
  exact ⟨h.1, c', route, hret, hsource, hall, hroute, Option.some.inj hmodel⟩

theorem sample_total_timeout : ∀ err c', Sample.lateStream.1 = .ret (.error (.thrown err), c') →
    (toRouterError err).isTotalTimeout = false := by
  let := Sample.platform
  intro err c' hend
  have hrun := Sample.lateStream_run (fun e => (toRouterError e).isTotalTimeout = false) (by decide)
  rw [hend] at hrun
  obtain ⟨hout, -, hfired, hover⟩ := Sample.lateStream_signals
  have h := ((total_timeout_reported _).2 err c' hrun hout hfired).2 fun e he => he
  cases htimeout : (toRouterError err).isTotalTimeout with
  | false => rfl
  | true =>
      rw [h htimeout] at hover
      cases hover

/-- The error of an adapter hides the total timeout of a stream. -/
theorem late_stream_unreported :
    letI := Sample.platform
    ¬∀ (script : ℕ → List SignalEvent) (client : Bool) (c c' : PipelineCtx) (err : Thrown)
        (q : Watched),
      Prog.Run (Watched.env fun _ => True) (executeResilientStream Sample.deps Sample.chainConfig c)
          (.start script client) (.ret (.error (.thrown err), c')) q →
        q.out = [] → q.signals.reason = some .timeout → (toRouterError err).isTotalTimeout = true := by
  let := Sample.platform
  intro h
  obtain ⟨err, herr, hnot⟩ := Option.map_eq_some_iff.1 Sample.lateStream_thrown
  obtain ⟨c', hend⟩ := Sample.eq_of_thrownBy herr
  have hrun := Sample.lateStream_run (fun _ => True) trivial
  rw [hend] at hrun
  obtain ⟨hout, hreason, -⟩ := Sample.lateStream_signals
  have := h _ _ _ c' err _ hrun hout hreason
  rw [hnot] at this
  cases this

theorem sample_calls_aborted :
    ((Sample.abandonedStream 11 12).2.signals.occur .clientAborts).Covered := by
  let := Sample.platform
  have hlinked : (Sample.abandonedStream 11 12).2.unlinked = false := by decide +kernel
  exact ((calls_aborted (.stream _) (Sample.abandonedStream_run 11 12)).1 hlinked).1
    [.clientAborts]

/-- The call of a hop that was opened too late outlives its request. -/
theorem late_hop_unaborted :
    letI := Sample.platform
    ¬∀ (script : ℕ → List SignalEvent) (client : Bool) (c : PipelineCtx)
        (p p' : GenProg Op Op.Answer Yielded Unit) (q : Watched),
      Execution Sample.deps Sample.chainConfig c p →
        Prog.Run (Watched.env fun _ => True) p (.start script client) p' q → q.signals.Covered := by
  let := Sample.platform
  intro h
  have hcovered := h _ _ _ _ _ _ (.stream _) (Sample.abandonedStream_run 3 11)
  obtain ⟨hreason, hhop⟩ := Sample.abandonedStream_signals
  have := hcovered (by rw [hreason]; rfl) _ hhop
  cases this

end VibeRouter
