import VibeRouter.Resilience.Signals

/-! # Executions under watch

A request in one of the executors, under its signals, with what has been observed of it: the
slot of the semaphore it has, the stream it opened last, what its consumer has been given, and
two flags about hops that meet the abort of the signal.

The specifications of both executors in these surroundings carry the results of this module:
the chunks of two hops are never mixed, each slot is given back once, and what is thrown when
the total timer has fired. -/

namespace VibeRouter

open Effects Async Code

/-- The error of the total timeout. -/
def RouterError.isTotalTimeout (e : RouterError) : Bool :=
  e.code = .provider_unavailable && e.detailText "reason" = some "total_timeout"

/-- A request under watch.  `unlinked`: a hop was opened when the signal was aborted already.
`overrun`: a hop ended without output when the total timer had fired. -/
structure Watched extends World where
  slot : Option Uuid := none
  source : Option (RouteDecision × List StreamChunk) := none
  out : List StreamChunk := []
  unlinked : Bool := false
  overrun : Bool := false

namespace Watched

/-- What an operation adds to the observations. -/
def note (q : Watched) : (e : Op) → e.Answer → Watched
  | .shedAcquire p, granted => if granted then { q with slot := some p } else q
  | .shedRelease _, _ => { q with slot := none }
  | .openHop, _ => { q with unlinked := q.unlinked || q.signals.reason.isSome }
  | .openStream _ route _, chunks => { q with source := some (route, chunks) }
  | .closeHop, _ => { q with overrun := q.overrun || q.signals.fired && q.out.isEmpty }
  | _, _ => q

/-- What the stream of an adapter rejects with. -/
def Rejects (fails : Thrown → Prop) : (e : Op) → e.Answer → Prop
  | .pull, r => ∀ err, r = .error err → fails err
  | .closeStream, r => ∀ err, r = .error err → fails err
  | _, _ => True

def after (q : Watched) : (e : GenOp Op Yielded) → GenOp.Answer Op.Answer Yielded e → Watched
  | .op e, r => { q.note e r with toWorld := q.toWorld.next e }
  | .yield y, _ => { q with toWorld := q.toWorld.pause, out := q.out ++ [y.1] }

/-- The surroundings of a request, with any consumer.  The streams of the adapters reject with
exceptions in `fails`. -/
def env (fails : Thrown → Prop) :
    Env (GenOp Op Yielded) (GenOp.Answer Op.Answer Yielded) Watched where
  allows q e r := match e, r with
    | .op e, r => q.toWorld.Allows e r ∧ Rejects fails e r
    | .yield _, _ => True
  next := after

/-- What the consumer has been given is the beginning of the stream that was opened last. -/
def Unspliced (q : Watched) : Prop :=
  match q.source with
  | none => q.out = []
  | some (_, chunks) => q.out <+: chunks

/-- What a request may do.  It takes one slot at a time and gives it back; it opens no hop and no
stream once something was relayed; and it reads a stream only through an open hop. -/
def Ok (q : Watched) (e : GenOp Op Yielded) : Prop :=
  q.Unspliced ∧ match e with
    | .op (.shedAcquire _) => q.slot = none
    | .op (.shedRelease p) => q.slot = some p
    | .op .openHop => q.out = [] ∧ q.slot.isSome = true
    | .op (.openStream _ _ _) => q.out = [] ∧ q.signals.hop.isSome = true
    | .op .pull | .op .closeStream => q.signals.hop.isSome = true
    | .op (.execute _ _ _) => q.slot.isSome = true
    | _ => True

/-! ### Where an execution is -/

/-- The slot a request has, whether a hop is open, the stream opened last and what was relayed of
it; no hop has been overrun so far. -/
structure At (slot : Option Uuid) (hop : Bool) (source : Option (RouteDecision × List StreamChunk))
    (out : List StreamChunk) (q : Watched) : Prop where
  slot : q.slot = slot
  hop : q.signals.hop.isSome = hop
  source : q.source = source
  out : q.out = out
  timed : q.signals.Timed
  overrun : q.overrun = false
  unspliced : q.Unspliced

section
variable {slot : Option Uuid} {hop : Bool} {source : Option (RouteDecision × List StreamChunk)}
  {out : List StreamChunk} {q : Watched}

/-- Whatever the client and the timers do, the execution stays where it is. -/
theorem At.later (h : At slot hop source out q) (n : ℕ) {signals : Signals}
    (ht : signals.Timed) (hhop : signals.hop.isSome = hop) :
    At slot hop source out { q with tick := n, signals := signals } where
  slot := h.slot
  hop := hhop
  source := h.source
  out := h.out
  timed := ht
  overrun := h.overrun
  unspliced := h.unspliced

/-- An operation that is no move. -/
theorem At.stay (h : At slot hop source out q) {e : Op} (r : e.Answer) (hnote : q.note e r = q)
    (hhop : ∀ s : Signals, (s.perform e).hop.isSome = s.hop.isSome) :
    At slot hop source out (q.after (.op e) r) := by
  show At slot hop source out { q.note e r with toWorld := q.toWorld.next e }
  rw [hnote]
  refine h.later (q.tick + 1) ((Signals.kept_timed.during h.timed e).perform e) ?_
  rw [hhop]
  exact (Signals.kept_hop hop).during h.hop e

/-- The parts of the surroundings in which nothing is a move. -/
def Aside (ps : List Op.Part) : Prop := ∀ p ∈ ps, p ≠ .signal ∧ p ≠ .shed ∧ p ≠ .adapter

instance (ps : List Op.Part) : Decidable (Aside ps) :=
  inferInstanceAs (Decidable (∀ p ∈ ps, _))

theorem note_of_aside {e : Op} (r : e.Answer) (hs : e.part ≠ .signal) (hd : e.part ≠ .shed)
    (ha : e.part ≠ .adapter) : q.note e r = q := by
  cases e with
  | shedAcquire p => exact absurd rfl hd
  | shedRelease p => exact absurd rfl hd
  | openHop => exact absurd rfl hs
  | closeHop => exact absurd rfl hs
  | openStream c route env => exact absurd rfl ha
  | _ => rfl

theorem perform_of_aside {e : Op} (hs : e.part ≠ .signal) (s : Signals) : s.perform e = s := by
  cases e with
  | openSignal ms => exact absurd rfl hs
  | clearTotalTimeout => exact absurd rfl hs
  | disposeSignal => exact absurd rfl hs
  | openHop => exact absurd rfl hs
  | armIdle ms => exact absurd rfl hs
  | closeHop => exact absurd rfl hs
  | _ => rfl

theorem ok_of_aside {e : Op} (hq : q.Unspliced) (hs : e.part ≠ .signal) (hd : e.part ≠ .shed)
    (ha : e.part ≠ .adapter) : q.Ok (.op e) := by
  refine ⟨hq, ?_⟩
  cases e with
  | shedAcquire p => exact absurd rfl hd
  | shedRelease p => exact absurd rfl hd
  | openHop => exact absurd rfl hs
  | openStream c route env => exact absurd rfl ha
  | pull => exact absurd rfl ha
  | closeStream => exact absurd rfl ha
  | execute c route env => exact absurd rfl ha
  | _ => trivial

end

/-! ### Code and generators under watch -/

section
variable {α S : Type} {s : S} {q : Watched} {fails : Thrown → Prop} {slot : Option Uuid} {hop : Bool}
  {source : Option (RouteDecision × List StreamChunk)} {out : List StreamChunk}

/-- Code without `yield` under watch. -/
abbrev Does (fails : Thrown → Prop) (c : Async S α) (post : Except Thrown α → S → Watched → Prop) (s : S) (q : Watched) :
    Prop :=
  c.wp (env fails).onOps (fun q e => q.Ok (.op e)) post s q

/-- A generator under watch, with any consumer. -/
abbrev Streams (fails : Thrown → Prop) (g : Generator α)
    (post : Except Abrupt α → PipelineCtx → Watched → Prop)
    (s : PipelineCtx) (q : Watched) : Prop :=
  g.wp (env fails) Ok post s q

/-- Code that makes no move. -/
theorem does_of_uses {c : Async S α} {ps : List Op.Part} {post : Except Thrown α → S → Prop}
    (h : Uses Op.Lawful ps c s post) (hps : Aside ps) (hq : At slot hop source out q) :
    Does fails c (fun r s' q' => post r s' ∧ At slot hop source out q') s q := by
  refine h.wp (J := At slot hop source out) (fun q e r hr => hr.1.lawful) hq ?_
    fun _ _ _ hpost hq' => ⟨hpost, hq'⟩
  intro q' e hq' he
  obtain ⟨hs, hd, ha⟩ := hps e.part he.1
  refine ⟨ok_of_aside hq'.unspliced hs hd ha, fun r _ => hq'.stay r (note_of_aside r hs hd ha) ?_⟩
  exact fun s => by rw [perform_of_aside hs]

/-- The parts whose operations are answered at once. -/
def AtOnce (ps : List Op.Part) : Prop := ps ⊆ [.clock, .audit, .breaker, .health]

instance (ps : List Op.Part) : Decidable (AtOnce ps) :=
  inferInstanceAs (Decidable (ps ⊆ _))

theorem awaits_of_atOnce {e : Op} (h : e.part ∈ [Op.Part.clock, .audit, .breaker, .health]) :
    e.awaits = false := by
  cases e <;> first | rfl | simp [Op.part] at h

/-- Code that makes no move and waits for nothing: no signal changes meanwhile. -/
theorem does_at_once {c : Async S α} {ps : List Op.Part} {post : Except Thrown α → S → Prop}
    (h : Uses Op.Lawful ps c s post) (hps : AtOnce ps) (hq : At slot hop source out q) :
    Does fails c (fun r s' q' => post r s' ∧ At slot hop source out q' ∧ q'.signals = q.signals) s q := by
  refine h.wp (J := fun q' => At slot hop source out q' ∧ q'.signals = q.signals)
    (fun q e r hr => hr.1.lawful) ⟨hq, rfl⟩ ?_ fun _ _ _ hpost hq' => ⟨hpost, hq'⟩
  rintro q' e ⟨hq', hsame⟩ he
  have hpart : e.part ∈ [Op.Part.clock, .audit, .breaker, .health] := hps he.1
  have hs : e.part ≠ .signal := fun heq => by simp [heq] at hpart
  have hd : e.part ≠ .shed := fun heq => by simp [heq] at hpart
  have ha : e.part ≠ .adapter := fun heq => by simp [heq] at hpart
  refine ⟨ok_of_aside hq'.unspliced hs hd ha, fun r _ => ⟨hq'.stay r (note_of_aside r hs hd ha) ?_, ?_⟩⟩
  · exact fun s => by rw [perform_of_aside hs]
  · show (q'.toWorld.during e).perform e = q.signals
    rw [perform_of_aside hs, World.during, awaits_of_atOnce hpart, ← hsame]
    rfl

end

section
variable {α : Type} {s : PipelineCtx} {q : Watched} {fails : Thrown → Prop}

theorem streams_inGenerator (c : Stage α) {post : Except Abrupt α → PipelineCtx → Watched → Prop} :
    Streams fails (inGenerator c) post s q ↔ Does fails c (fun r => post (r.mapError .thrown)) s q :=
  wp_embed _ c

theorem streams_inGenerator_op (e : Op)
    {post : Except Abrupt e.Answer → PipelineCtx → Watched → Prop} :
    @Code.wp _ _ PipelineCtx Abrupt Watched (no_index e.Answer) (env fails) Ok (inGenerator (op e)) post s q ↔
      q.Ok (.op e) ∧ ∀ r, q.toWorld.Allows e r ∧ Rejects fails e r →
        post (.ok r) s (q.after (.op e) r) := Iff.rfl

end

/-! ### The relay of a stream -/

/-- An exception that is not the total timeout, unless an adapter rejects with that. -/
def Own (fails : Thrown → Prop) (err : Thrown) : Prop :=
  (∀ e, fails e → (toRouterError e).isTotalTimeout = false) →
    (toRouterError err).isTotalTimeout = false

section
variable {s : PipelineCtx} {q : Watched} {fails : Thrown → Prop} {p : Uuid}
  {route : RouteDecision} {all out : List StreamChunk}

/-- How `yield` ends: resumed, resumed with the exception of the adapter's stream, or returned. -/
def Resumes (fails : Thrown → Prop) (r : Except Abrupt (Option Thrown)) : Prop :=
  match r with
  | .ok none => True
  | .ok (some err) => Own fails err
  | .error e => e = .returned

theorem At.yield (h : At (some p) true (some (route, all)) out q) {chunk : StreamChunk}
    {c : PipelineCtx} (hpre : out ++ [chunk] <+: all) (r : Resume) :
    At (some p) true (some (route, all)) (out ++ [chunk]) (q.after (.yield (chunk, c)) r) where
  slot := h.slot
  hop := (Signals.kept_hop true).foldl h.hop _
  source := h.source
  out := congrArg (· ++ [chunk]) h.out
  timed := Signals.kept_timed.foldl h.timed _
  overrun := h.overrun
  unspliced := by
    unfold Unspliced
    show (match q.source with | none => q.out ++ [chunk] = [] | some (_, chunks) => q.out ++ [chunk] <+: chunks)
    rw [h.source, h.out]
    exact hpre

theorem yieldChunk_streams (h : At (some p) true (some (route, all)) out q) {chunk : StreamChunk}
    (hpre : out ++ [chunk] <+: all) :
    Streams fails (yieldChunk chunk) (fun r s' q' => s' = s ∧ Resumes fails r ∧
      At (some p) true (some (route, all)) (out ++ [chunk]) q') s q := by
  simp only [yieldChunk, Streams, wp_bind, wp_read, wp_perform]
  refine ⟨⟨h.unspliced, trivial⟩, fun resumed _ => ?_⟩
  have hat := h.yield (c := s) hpre resumed
  cases resumed with
  | next => exact ⟨rfl, trivial, hat⟩
  | return_ =>
      simp only [wp_bind, streams_inGenerator_op]
      refine ⟨⟨hat.unspliced, hat.hop⟩, fun r hr => ?_⟩
      have hclosed := hat.stay (e := .closeStream) r rfl fun _ => rfl
      cases r with
      | ok _ => exact ⟨rfl, rfl, hclosed⟩
      | error err => exact ⟨rfl, fun hf => hf err (hr.2 err rfl), hclosed⟩

theorem yieldAll_streams (chunks : List StreamChunk)
    (h : At (some p) true (some (route, all)) out q) (hpre : out ++ chunks <+: all) :
    Streams fails (yieldAll chunks) (fun r s' q' => s' = s ∧ Resumes fails r ∧
      ∃ n ≤ chunks.length, At (some p) true (some (route, all)) (out ++ chunks.take n) q' ∧
        (chunks ≠ [] → 0 < n) ∧ (r = .ok none → n = chunks.length)) s q := by
  induction chunks generalizing out q with
  | nil =>
      refine ⟨rfl, trivial, 0, le_rfl, ?_, fun h => absurd rfl h, fun _ => rfl⟩
      rwa [List.take_nil, List.append_nil]
  | cons chunk chunks ih =>
      have hsplit : out ++ chunk :: chunks = out ++ [chunk] ++ chunks := by simp
      rw [hsplit] at hpre
      have hpre' : out ++ [chunk] <+: all := (List.prefix_append _ _).trans hpre
      simp only [yieldAll, Streams, wp_bind]
      refine wp_mono (yieldChunk_streams h hpre') ?_
      rintro (e | _ | e) s' q' ⟨rfl, hr, hat⟩
      · refine ⟨rfl, hr, 1, by simp, ?_, fun _ => one_pos, by simp⟩
        simpa using hat
      · refine wp_mono (ih hat hpre) ?_
        rintro r s'' q'' ⟨rfl, hr', n, hn, hat', -, hall⟩
        refine ⟨rfl, hr', n + 1, ?_, ?_, fun _ => Nat.succ_pos n, fun h => ?_⟩
        · rw [List.length_cons]
          omega
        · rw [List.take_succ_cons]
          simpa using hat'
        · rw [List.length_cons, hall h]
      · refine ⟨rfl, hr, 1, by simp, ?_, fun _ => one_pos, by simp⟩
        simpa using hat

theorem commit_streams (seen : Bool) (h : At (some p) true (some (route, all)) out q) :
    Streams fails (commit seen) (fun r s' q' => s' = s ∧ r = .ok () ∧
      At (some p) true (some (route, all)) out q') s q := by
  unfold commit
  split
  · exact ⟨rfl, rfl, h⟩
  · rw [Streams, streams_inGenerator_op]
    exact ⟨⟨h.unspliced, trivial⟩, fun r _ => ⟨rfl, rfl, h.stay r rfl fun _ => rfl⟩⟩

/-- What is relayed while content has or has not been seen. -/
def Seen (seen : Bool) (out : List StreamChunk) : Prop :=
  (seen = false → out = []) ∧ (seen = true → out ≠ [])

/-- How the relay of a stream ends. -/
def Relayed (fails : Thrown → Prop) (all out : List StreamChunk) (r : Except Abrupt HopEnd) : Prop :=
  match r with
  | .ok (.finished seen) => Seen seen out ∧ (seen = true → out = all)
  | .ok (.failed err seen) => Seen seen out ∧ Own fails err
  | .error e => e = .returned

variable (cfg : ResilienceConfig)

/-- The relay delivers the chunks in order.  What has been read is relayed, or held back as long as
content has not been seen. -/
theorem relayStream_streams (chunks : List StreamChunk) (seen : Bool) (pending : List StreamChunk)
    (h : At (some p) true (some (route, all)) out q) (hall : all = out ++ pending ++ chunks)
    (hseen : Seen seen out) (hheld : seen = true → pending = []) :
    Streams fails (relayStream cfg chunks seen pending) (fun r s' q' => s' = s ∧
      ∃ out', At (some p) true (some (route, all)) out' q' ∧ Relayed fails all out' r) s q := by
  induction chunks generalizing seen pending out q with
  | nil =>
      simp only [relayStream, Streams, wp_bind, streams_inGenerator_op]
      refine ⟨⟨h.unspliced, h.hop⟩, fun r hr => ?_⟩
      have hat := h.stay (e := .pull) r rfl fun _ => rfl
      cases r with
      | ok _ =>
          refine ⟨rfl, out, hat, hseen, fun hs => ?_⟩
          rw [hall, hheld hs]
          simp
      | error err => exact ⟨rfl, out, hat, hseen, fun hf => hf err (hr.2 err rfl)⟩
  | cons chunk rest ih =>
      simp only [relayStream, Streams, wp_bind, streams_inGenerator_op]
      refine ⟨⟨h.unspliced, h.hop⟩, fun r hr => ?_⟩
      have hat := h.stay (e := .pull) r rfl fun _ => rfl
      cases r with
      | error err => exact ⟨rfl, out, hat, hseen, fun hf => hf err (hr.2 err rfl)⟩
      | ok _ =>
          simp only [wp_bind, streams_inGenerator_op]
          refine ⟨⟨hat.unspliced, trivial⟩, fun r _ => ?_⟩
          have harmed := hat.stay (e := .armIdle cfg.streamIdleTimeoutMs) r rfl fun s => by
            simp [Signals.perform]
          have hsplit : all = out ++ (pending ++ [chunk]) ++ rest := by
            rw [hall]
            simp
          split
          · next hhold =>
              have hns : seen = false := by
                cases seen with
                | false => rfl
                | true => simp at hhold
              exact ih false (pending ++ [chunk]) harmed hsplit (hns ▸ hseen) (by simp)
          · rw [wp_bind]
            refine wp_mono (commit_streams seen harmed) ?_
            rintro _ s' q' ⟨rfl, rfl, hat'⟩
            dsimp only
            rw [wp_bind]
            refine wp_mono (yieldAll_streams (pending ++ [chunk]) hat' ?_) ?_
            · rw [hsplit]
              exact List.prefix_append _ _
            rintro (e | _ | e) s'' q'' ⟨rfl, hr', n, hn, hat'', hpos, hfull⟩
            · exact ⟨rfl, _, hat'', hr'⟩
            · rw [hfull rfl, List.take_length] at hat''
              refine ih true [] hat'' (by rw [hsplit]; simp) ⟨(by simp), fun _ => by simp⟩ fun _ => rfl
            · refine ⟨rfl, _, hat'', ⟨(by simp), fun _ hnil => ?_⟩, hr'⟩
              have hn : 0 < n := hpos (by simp)
              rw [List.append_eq_nil_iff, List.take_eq_nil_iff] at hnil
              obtain h | h := hnil.2
              · omega
              · simp at h

end

end Watched

end VibeRouter
