import VibeRouter.Db.Tables
import VibeRouter.Resilience.Repeated

/-! # Turns of the candidates of a stream

A run of the streaming executor as a sequence of turns: every candidate's turn begins with the
check of the signal outside of a hop.  A turn ends without output, or is the last one.  The idle
timer is armed by frames without content too, and a hop it ends is not replaced. -/

namespace VibeRouter

open Effects Async Code

/-- The candidates of a request. -/
def candidateIds [Platform] (c : PipelineCtx) : List Uuid :=
  match c.effective with
  | some effective => match candidateModels effective c.envelope with
    | .ok ids => ids
    | .error _ => []
  | none => []

/-- What has been observed of an execution.  `rest`: what its current stream would still deliver;
`content`: a stream has delivered content; `relayed`: the consumer was given something;
`aborted`: the signal was seen aborted; `stalled`: the idle timer was seen to have fired when
nothing had been relayed. -/
structure Turns where
  turn : ℕ := 0
  inHop : Bool := false
  rest : List StreamChunk := []
  content : Bool := false
  relayed : Bool := false
  aborted : Bool := false
  stalled : Bool := false

namespace Turns

/-- What an operation adds to the observations. -/
def after (q : Turns) : (e : GenOp Op Yielded) → GenOp.Answer Op.Answer Yielded e → Turns
  | .op .signalAborted, r =>
      { q with turn := if q.inHop then q.turn else q.turn + 1, aborted := q.aborted || r }
  | .op .openHop, _ => { q with inHop := true }
  | .op .closeHop, _ => { q with inHop := false }
  | .op (.openStream _ _ _), chunks => { q with rest := chunks }
  | .op .pull, r => match r, q.rest with
      | .ok (), chunk :: rest => { q with rest, content := q.content || chunk.isContent }
      | _, _ => q
  | .op .idleFired, r => { q with stalled := q.stalled || r && !q.relayed }
  | .op _, _ => q
  | .yield _, _ => { q with relayed := true }

/-- Surroundings that may answer anything the database can. -/
def env : Env (GenOp Op Yielded) (GenOp.Answer Op.Answer Yielded) Turns where
  allows _ e r := match e, r with
    | .op e, r => e.Lawful r
    | .yield _, _ => True
  next := after

/-- A hop is only opened when no stream has delivered content. -/
def Ok (q : Turns) : GenOp Op Yielded → Prop
  | .op .openHop => q.content = false ∧ q.relayed = false
  | _ => True

section
variable {α S : Type} {s : S} {q : Turns}

/-- Code without `yield`. -/
abbrev Does (c : Async S α) (post : Except Thrown α → S → Turns → Prop) (s : S) (q : Turns) : Prop :=
  c.wp env.onOps (fun q e => q.Ok (.op e)) post s q

/-- A generator, with any consumer. -/
abbrev Streams (g : Generator α) (post : Except Abrupt α → PipelineCtx → Turns → Prop)
    (s : PipelineCtx) (q : Turns) : Prop :=
  g.wp env Ok post s q

/-- The parts of the surroundings in which nothing is observed. -/
def Aside (ps : List Op.Part) : Prop := .signal ∉ ps ∧ .adapter ∉ ps

instance (ps : List Op.Part) : Decidable (Aside ps) := inferInstanceAs (Decidable (_ ∧ _))

theorem after_of_aside {e : Op} (r : e.Answer) (hs : e.part ≠ .signal) (ha : e.part ≠ .adapter) :
    q.after (.op e) r = q := by
  cases e with
  | signalAborted => exact absurd rfl hs
  | openHop => exact absurd rfl hs
  | closeHop => exact absurd rfl hs
  | idleFired => exact absurd rfl hs
  | openStream c route env => exact absurd rfl ha
  | pull => exact absurd rfl ha
  | _ => rfl

theorem ok_of_aside {e : Op} (hs : e.part ≠ .signal) : q.Ok (.op e) := by
  cases e with
  | openHop => exact absurd rfl hs
  | _ => trivial

/-- Code in which nothing is observed. -/
theorem does_of_uses {c : Async S α} {ps : List Op.Part} {post : Except Thrown α → S → Prop}
    (h : Uses Op.Lawful ps c s post) (hps : Aside ps) :
    Does c (fun r s' q' => post r s' ∧ q' = q) s q := by
  refine h.wp (J := (· = q)) (fun q e r hr => hr) rfl ?_ fun _ _ _ hpost hq => ⟨hpost, hq⟩
  rintro q' e rfl he
  have hs : e.part ≠ .signal := fun heq => hps.1 (heq ▸ he.1)
  have ha : e.part ≠ .adapter := fun heq => hps.2 (heq ▸ he.1)
  exact ⟨ok_of_aside hs, fun r _ => after_of_aside r hs ha⟩

end

section
variable {α : Type} {s : PipelineCtx} {q : Turns}

theorem streams_inGenerator (c : Stage α) {post : Except Abrupt α → PipelineCtx → Turns → Prop} :
    Streams (inGenerator c) post s q ↔ Does c (fun r => post (r.mapError .thrown)) s q :=
  wp_embed _ c

theorem streams_inGenerator_op (e : Op)
    {post : Except Abrupt e.Answer → PipelineCtx → Turns → Prop} :
    @Code.wp _ _ PipelineCtx Abrupt Turns (no_index e.Answer) env Ok (inGenerator (op e)) post s q ↔
      q.Ok (.op e) ∧ ∀ r, e.Lawful r → post (.ok r) s (q.after (.op e) r) := Iff.rfl

end

/-! ### The relay of a stream -/

/-- Where an execution is in the turn `n`.  `seen`: a stream has delivered content, and the consumer
was given something. -/
structure At (n : ℕ) (hop seen : Bool) (q : Turns) : Prop where
  turn : q.turn = n
  inHop : q.inHop = hop
  content : q.content = seen
  relayed : q.relayed = seen

variable {s : PipelineCtx} {q : Turns} {n : ℕ} {seen : Bool}

theorem yieldChunk_streams (chunk : StreamChunk) (ht : q.turn = n) (hh : q.inHop = true)
    (hc : q.content = true) :
    Streams (yieldChunk chunk) (fun r s' q' => s' = s ∧ At n true true q' ∧ q'.rest = q.rest ∧
      ∀ e, r = .error e → e = .returned) s q := by
  simp only [yieldChunk, Streams, wp_bind, wp_read, wp_perform]
  refine ⟨trivial, fun resumed _ => ?_⟩
  have hat : At n true true (q.after (.yield (chunk, s)) resumed) := ⟨ht, hh, hc, rfl⟩
  cases resumed with
  | next => exact ⟨rfl, hat, rfl, by simp⟩
  | return_ =>
      simp only [wp_bind, streams_inGenerator_op]
      refine ⟨trivial, fun r _ => ?_⟩
      cases r with
      | ok _ => exact ⟨rfl, hat, rfl, by rintro _ ⟨⟩; rfl⟩
      | error err => exact ⟨rfl, hat, rfl, by simp⟩

theorem yieldAll_streams (chunks : List StreamChunk) (hne : chunks ≠ []) (ht : q.turn = n)
    (hh : q.inHop = true) (hc : q.content = true) :
    Streams (yieldAll chunks) (fun r s' q' => s' = s ∧ At n true true q' ∧ q'.rest = q.rest ∧
      ∀ e, r = .error e → e = .returned) s q := by
  induction chunks generalizing q with
  | nil => exact absurd rfl hne
  | cons chunk chunks ih =>
      simp only [yieldAll, Streams, wp_bind]
      refine wp_mono (yieldChunk_streams chunk ht hh hc) ?_
      rintro (e | _ | e) s' q' ⟨rfl, hat, hrest, hr⟩
      · exact ⟨rfl, hat, hrest, hr⟩
      · cases chunks with
        | nil => exact ⟨rfl, hat, hrest, by simp⟩
        | cons chunk' chunks =>
            refine wp_mono (ih (by simp) hat.turn hat.inHop hat.content) ?_
            rintro r s'' q'' ⟨rfl, hat', hrest', hr'⟩
            exact ⟨rfl, hat', hrest'.trans hrest, hr'⟩
      · exact ⟨rfl, hat, hrest, by simp⟩

theorem commit_streams (seen : Bool) :
    Streams (commit seen) (fun r s' q' => r = .ok () ∧ s' = s ∧ q' = q) s q := by
  unfold commit
  split
  · exact ⟨rfl, rfl, rfl⟩
  · exact ⟨trivial, fun _ _ => ⟨rfl, rfl, rfl⟩⟩

/-- How the relay of a stream ends. -/
def Relayed (n : ℕ) (r : Except Abrupt HopEnd) (q : Turns) : Prop :=
  match r with
  | .ok (.finished seen) | .ok (.failed _ seen) => At n true seen q
  | .error e => e = .returned ∧ At n true true q

variable (cfg : ResilienceConfig)

/-- Content is relayed as soon as there is some. -/
theorem relayStream_streams (chunks pending : List StreamChunk) (h : At n true seen q)
    (hrest : q.rest = chunks) :
    Streams (relayStream cfg chunks seen pending) (fun r s' q' => s' = s ∧ Relayed n r q') s q := by
  induction chunks generalizing seen pending q with
  | nil =>
      simp only [relayStream, Streams, wp_bind, streams_inGenerator_op]
      refine ⟨trivial, fun r _ => ?_⟩
      have hsame : q.after (.op .pull) r = q := by
        cases r <;> simp only [after, hrest]
      cases r with
      | ok _ =>
          refine ⟨rfl, ?_⟩
          rw [hsame]
          exact h
      | error err =>
          refine ⟨rfl, ?_⟩
          rw [hsame]
          exact h
  | cons chunk rest ih =>
      simp only [relayStream, Streams, wp_bind, streams_inGenerator_op]
      refine ⟨trivial, fun r _ => ?_⟩
      cases r with
      | error err => exact ⟨rfl, h⟩
      | ok _ =>
          simp only [wp_bind, streams_inGenerator_op]
          refine ⟨trivial, fun r _ => ?_⟩
          have hpulled : q.after (.op .pull) (.ok ()) =
              { q with rest, content := q.content || chunk.isContent } := by
            simp only [after, hrest]
          rw [hpulled]
          split
          · next hhold =>
              simp only [Bool.and_eq_true, Bool.not_eq_true'] at hhold
              obtain ⟨rfl, hcontent⟩ := hhold
              refine ih (pending ++ [chunk]) ⟨h.turn, h.inHop, ?_, h.relayed⟩ rfl
              show (q.content || chunk.isContent) = false
              rw [h.content, hcontent]
              rfl
          · next hhold =>
              have hcontent : (q.content || chunk.isContent) = true := by
                rw [h.content]
                cases seen <;> simp_all
              rw [wp_bind]
              refine wp_mono (commit_streams seen) ?_
              rintro _ s' q' ⟨rfl, rfl, rfl⟩
              dsimp only
              rw [wp_bind]
              refine wp_mono (yieldAll_streams (pending ++ [chunk]) (by simp) h.turn h.inHop
                hcontent) ?_
              rintro (e | _ | e) s'' q'' ⟨rfl, hat, hrest', hr⟩
              · exact ⟨rfl, hr e rfl, hat⟩
              · exact ih [] hat hrest'
              · exact ⟨rfl, hat⟩

/-! ### A hop -/

variable {route : RouteDecision}

theorem streamTry_streams (lastErr : Option RouterError) (previousModel : String)
    (h : At n true false q) :
    Streams (streamTry cfg route lastErr previousModel) (fun r s' q' =>
      s' = { s with route := some route } ∧ Relayed n r q' ∧ r ≠ .ok (.finished false)) s q := by
  simp only [streamTry, Streams, wp_bind]
  rw [← Streams, streams_inGenerator]
  refine wp_mono (does_of_uses (enterHop_uses route lastErr previousModel) (by decide)) ?_
  rintro _ s' q₁ ⟨⟨rfl, rfl⟩, rfl⟩
  dsimp only [Except.mapError]
  simp only [wp_read, streams_inGenerator_op]
  refine ⟨trivial, fun all _ => ?_⟩
  refine wp_mono (relayStream_streams cfg all []
    (show At n true false _ from ⟨h.turn, h.inHop, h.content, h.relayed⟩) rfl) ?_
  rintro (e | ⟨_ | _⟩ | ⟨err, seen⟩) s' q₂ ⟨rfl, hr⟩
  · exact ⟨rfl, hr, by simp⟩
  · exact ⟨rfl, hr, by simp⟩
  · dsimp only
    rw [wp_bind, streams_inGenerator_op]
    exact ⟨trivial, fun r _ => ⟨rfl, hr, by simp⟩⟩
  · exact ⟨rfl, hr, by simp⟩

/-- An exception is no surprise: something was relayed, or the signal was aborted, or a hop had
stalled. -/
def Excused (q : Turns) : Prop := q.relayed = true ∨ q.aborted = true ∨ q.stalled = true

/-- The `catch` block of a hop. -/
theorem streamCatch_does {err : Thrown} (h : At n true seen q) (hauth : s.auth.isSome = true) :
    Does (streamCatch route err seen) (fun r s' q' => s' = s ∧ match r with
      | .ok _ => At n true false q'
      | .error _ => Excused q') s q := by
  simp only [streamCatch, Does, wp_bind, wp_op]
  refine ⟨trivial, fun idleFired _ => ⟨trivial, fun aborted _ => ?_⟩⟩
  refine wp_mono (does_of_uses (noteFailure_ok route (aborted || idleFired) hauth) (by decide)) ?_
  rintro _ s' q₁ ⟨⟨rfl, rfl⟩, rfl⟩
  dsimp only
  refine wp_mono (does_of_uses (auditIfInvalid_uses route _) (by decide)) ?_
  rintro _ s' q₂ ⟨⟨rfl, rfl⟩, rfl⟩
  dsimp only
  split
  · next hthrow =>
      refine ⟨rfl, ?_⟩
      cases seen with
      | true => exact .inl h.relayed
      | false =>
          cases aborted with
          | true => exact .inr (.inl (Bool.or_true q.aborted))
          | false =>
              cases idleFired with
              | true =>
                  refine .inr (.inr ?_)
                  show (q.stalled || true && !q.relayed) = true
                  rw [h.relayed]
                  simp
              | false => simp at hthrow
  · next hgo =>
      simp only [Bool.or_eq_true, not_or, Bool.not_eq_true] at hgo
      obtain ⟨⟨rfl, -⟩, -⟩ := hgo
      refine ⟨rfl, ?_, h.inHop, h.content, h.relayed⟩
      show (if q.inHop = true then q.turn else q.turn + 1) = n
      rw [if_pos h.inHop]
      exact h.turn

/-- One hop. -/
theorem streamHop_streams (lastErr : Option RouterError) (previousModel : String)
    (h : At n false false q) (hauth : s.auth.isSome = true) :
    Streams (streamHop cfg route lastErr previousModel) (fun r s' q' =>
      s' = { s with route := some route } ∧ match r with
        | .ok none => q'.turn = n ∧ q'.content = true
        | .ok (some _) => At n false false q'
        | .error e => e = .returned ∨ Excused q') s q := by
  simp only [streamHop, Streams, wp_bind, streams_inGenerator_op]
  refine ⟨⟨h.content, h.relayed⟩, fun _ _ => ?_⟩
  refine wp_finally (fun r s' q' => s' = { s with route := some route } ∧ match r with
    | .ok none => q'.turn = n ∧ q'.content = true
    | .ok (some _) => At n true false q'
    | .error e => e = .returned ∨ Excused q') ?_ ?_
  · rw [wp_bind]
    refine wp_mono (streamTry_streams cfg lastErr previousModel
      ⟨h.turn, rfl, h.content, h.relayed⟩) ?_
    rintro (e | ⟨_ | _⟩ | ⟨err, seen⟩) s' q₁ ⟨rfl, hr, hseen⟩
    · exact ⟨rfl, .inl hr.1⟩
    · exact absurd rfl hseen
    · exact ⟨rfl, hr.turn, hr.content⟩
    · dsimp only
      rw [wp_bind, ← Streams, streams_inGenerator]
      refine wp_mono (streamCatch_does hr hauth) ?_
      rintro (e | rerr) s' q₂ ⟨rfl, hcaught⟩
      · exact ⟨rfl, .inr hcaught⟩
      · exact ⟨rfl, hcaught⟩
  · rintro r s' q' ⟨rfl, hr⟩
    rw [← Streams, streams_inGenerator]
    simp only [Does, wp_bind, wp_op]
    refine ⟨trivial, fun _ _ => ⟨trivial, fun _ _ => ⟨rfl, trivial, ?_⟩⟩⟩
    obtain e | _ | rerr := r
    · exact hr
    · exact hr
    · exact ⟨hr.turn, rfl, hr.content, hr.relayed⟩

/-! ### Whole executions -/

variable [Platform] (deps : PipelineDeps)

/-- Admission is no part of a turn that is observed. -/
theorem admitHop_does (model : ModelRow) (lastErr : Option RouterError) (previousModel : String) :
    Does (admitHop deps false model lastErr previousModel) (fun r s' q' => q' = q ∧
      s'.auth = s.auth ∧ (∃ a, r = .ok a) ∧
        ∀ route, r = .ok (.admitted route) → route.model = model) s q := by
  simp only [admitHop, Does, wp_bind, wp_outcome]
  refine wp_mono (does_of_uses (routeForModel_uses deps (fun _ _ => id) model) (by decide)) ?_
  rintro (e | route) s₁ q₁ ⟨⟨⟨b, hs⟩, hroute⟩, rfl⟩
  · simp only [Bool.false_eq_true, if_false, wp_pure]
    exact ⟨trivial, by rw [hs], ⟨_, rfl⟩, by simp⟩
  · have hauth : s₁.auth = s.auth := by rw [hs]
    simp only [wp_bind, wp_op]
    refine ⟨trivial, fun allowed _ => ?_⟩
    split
    · rw [wp_bind]
      refine wp_mono (does_of_uses (auditAs_uses _ _) (by decide)) ?_
      rintro _ s' q₂ ⟨⟨rfl, rfl⟩, rfl⟩
      exact ⟨rfl, hauth, ⟨_, rfl⟩, by simp⟩
    · simp only [wp_bind, wp_op]
      refine ⟨trivial, fun granted _ => ?_⟩
      split
      · exact ⟨rfl, hauth, ⟨_, rfl⟩, by simp⟩
      · refine ⟨rfl, hauth, ⟨_, rfl⟩, ?_⟩
        rintro _ ⟨⟩
        exact (hroute route rfl).1.model_eq

/-- The candidate whose turn it is has served. -/
def Served (ids : List Uuid) (c : PipelineCtx) (q : Turns) : Prop :=
  q.content = true ∧ ∃ route i, c.route = some route ∧ q.turn = i + 1 ∧ ids[i]? = some route.model.id

/-- The loop gives every candidate its turn until one has served. -/
theorem streamLoop_streams (effective : EffectivePolicy) (done ids : List Uuid)
    (lastErr : Option RouterError) (previousModel : String) (h : At done.length false false q)
    (hauth : s.auth.isSome = true) :
    Streams (streamLoop deps cfg effective ids lastErr previousModel) (fun r s' q' => match r with
      | .ok none => Served (done ++ ids) s' q'
      | .ok (some _) => q'.aborted = true ∨ q'.turn = (done ++ ids).length
      | .error e => e = .returned ∨ Excused q') s q := by
  induction ids generalizing s q done lastErr previousModel with
  | nil => exact .inr (h.turn.trans (by rw [List.append_nil]))
  | cons id ids ih =>
      have hsplit : done ++ id :: ids = done ++ [id] ++ ids := by simp
      simp only [streamLoop, Streams, wp_bind, streams_inGenerator_op]
      refine ⟨trivial, fun aborted _ => ?_⟩
      have h₁ : At (done ++ [id]).length false false (q.after (.op .signalAborted) aborted) := by
        refine ⟨?_, h.inHop, h.content, h.relayed⟩
        show (if q.inHop = true then q.turn else q.turn + 1) = _
        rw [h.inHop, h.turn, List.length_append]
        rfl
      split
      · next haborted =>
          refine .inl ?_
          show (q.aborted || aborted) = true
          rw [haborted, Bool.or_true]
      · rw [hsplit]
        split
        · exact ih _ _ _ h₁ hauth
        · next model hmodel =>
            rw [wp_bind, ← Streams, streams_inGenerator]
            refine wp_mono (admitHop_does deps model lastErr previousModel) ?_
            rintro _ s' q₂ ⟨rfl, hauth', ⟨a, rfl⟩, hroute⟩
            rw [← hauth'] at hauth
            cases a with
            | skipped rerr => exact ih _ _ _ h₁ hauth
            | admitted route =>
                dsimp only [Except.mapError]
                rw [wp_bind]
                refine wp_mono (streamHop_streams cfg lastErr previousModel h₁ hauth) ?_
                rintro (e | _ | rerr) s'' q₃ ⟨rfl, h₃⟩
                · exact h₃
                · refine ⟨h₃.2, route, done.length, rfl, ?_, ?_⟩
                  · rw [h₃.1, List.length_append]
                    rfl
                  · rw [hroute route rfl, ← effective.modelsById.keyed id model hmodel]
                    simp
                · exact ih _ _ _ h₃ hauth

omit [Platform] in
theorem requireEffective_does :
    Does requireEffective (fun r s' q' => s' = s ∧ q' = q ∧ match r with
      | .ok effective => s.effective = some effective
      | .error _ => s.effective = none) s q := by
  simp only [requireEffective, Does, wp_bind, wp_ctx]
  split
  · next effective heff => exact ⟨rfl, rfl, heff⟩
  · next heff => exact ⟨rfl, rfl, heff⟩

theorem executeResilientStream_streams (h : At 0 false false q) (hauth : s.auth.isSome = true) :
    Streams (executeResilientStream deps cfg) (fun r s' q' => match r with
      | .ok () => Served (candidateIds s) s' q'
      | .error e => e = .returned ∨ Excused q' ∨ q'.turn = (candidateIds s).length) s q := by
  simp only [executeResilientStream, Streams, wp_bind]
  rw [← Streams, streams_inGenerator]
  refine wp_mono requireEffective_does ?_
  rintro (e | effective) s' q₁ ⟨rfl, rfl, heff⟩
  · refine .inr (.inr ?_)
    replace heff : s'.effective = none := heff
    unfold candidateIds
    rw [heff]
    exact h.turn
  dsimp only [Except.mapError]
  replace heff : s'.effective = some effective := heff
  have hids : candidateIds s' = match candidateModels effective s'.envelope with
      | .ok ids => ids
      | .error _ => [] := by
    unfold candidateIds
    rw [heff]
  rw [streams_inGenerator_op]
  refine ⟨trivial, fun _ _ => ?_⟩
  refine wp_finally (fun r s'' q' => match r with
    | .ok () => Served (candidateIds s') s'' q'
    | .error e => e = .returned ∨ Excused q' ∨ q'.turn = (candidateIds s').length) ?_ ?_
  · rw [wp_bind, ← Streams, streams_inGenerator]
    simp only [Does, wp_bind, wp_ctx, wp_ofExcept]
    cases hcandidates : candidateModels effective s'.envelope with
    | error e =>
        rw [hcandidates] at hids
        refine .inr (.inr ?_)
        rw [hids]
        exact h.turn
    | ok ids =>
        rw [hcandidates] at hids
        replace hids : candidateIds s' = ids := hids
        rw [hids]
        refine wp_mono (streamLoop_streams cfg deps effective [] ids none "" h hauth) ?_
        rintro (e | _ | lastErr) s'' q₃ h₃
        · exact h₃.imp id .inl
        · exact h₃
        · dsimp only
          rw [wp_bind, streams_inGenerator_op]
          refine ⟨trivial, fun timedOut _ => ?_⟩
          have hended : Excused q₃ ∨ q₃.turn = ids.length :=
            h₃.imp (fun haborted => .inr (.inl haborted)) id
          cases timedOut <;> exact .inr hended
  · intro r s'' q' hr
    exact ⟨trivial, fun _ _ => ⟨rfl, hr⟩⟩

end Turns

/-- **Pre-content failures fall back.**  In a run in which no hop stalls before its first output, a
hop is only opened when no candidate before it has produced content, the stream that completes is
that of the candidate whose turn it is, and an exception before any output, of a request that is
not aborted, is thrown when every candidate has had its turn. -/
theorem streams_fall_back [Platform] {deps : PipelineDeps} {cfg : ResilienceConfig} {c : PipelineCtx}
    (hauth : c.auth.isSome = true)
    {p' : GenProg Op Op.Answer Yielded (Except Abrupt Unit × PipelineCtx)} {q : Turns}
    (hrun : Prog.Run Turns.env (executeResilientStream deps cfg c) {} p' q)
    (hstalled : q.stalled = false) :
    (∀ k, p' = .call (.op .openHop) k → q.content = false) ∧
      (∀ c', p' = .ret (.ok (), c') → Turns.Served (candidateIds c) c' q) ∧
      ∀ err c', p' = .ret (.error (.thrown err), c') → q.relayed = false → q.aborted = false →
        q.turn = (candidateIds c).length := by
  have h := Turns.executeResilientStream_streams (s := c) cfg deps
    (q := {}) ⟨rfl, rfl, rfl, rfl⟩ hauth
  refine ⟨?_, ?_, ?_⟩
  · rintro k rfl
    exact (Prog.ok_of_run h hrun).1
  · rintro c' rfl
    have hserved := Prog.post_of_run h hrun
    exact hserved
  · rintro err c' rfl hrelayed haborted
    obtain hreturned | hexcused | hturn := Prog.post_of_run h hrun
    · cases hreturned
    · obtain hr | ha | hs := hexcused
      · rw [hrelayed] at hr
        cases hr
      · rw [haborted] at ha
        cases ha
      · rw [hstalled] at hs
        cases hs
    · exact hturn

/-! ### A stall -/

namespace Sample

/-- The cloud provider only reports its usage; then its stream ends, or stalls. -/
def turnsAnswer (stalls : Bool) (q : Turns) :
    (e : GenOp Op Yielded) → GenOp.Answer Op.Answer Yielded e
  | .op (.openStream _ route _) =>
      if route.provider.id = cloudProviderId then [.finish .stop none] else [.text_delta (js "hi")]
  | .op .pull =>
      if stalls && decide (q.turn = 1) && q.rest.isEmpty then .error (.error "aborted") else .ok ()
  | .op .idleFired => stalls && decide (q.turn = 1)
  | .op e => tables.answer e
  | .yield _ => .next

/-- A stream over two candidates. -/
def turnsRun (stalls : Bool) :
    GenProg Op Op.Answer Yielded (Except Abrupt Unit × PipelineCtx) × Turns :=
  letI := platform
  Prog.advance (fun q e => (turnsAnswer stalls q e, q.after e (turnsAnswer stalls q e))) 60
    (executeResilientStream deps chainConfig (chainCtx [localModelId])) {}

theorem turnsRun_run (stalls : Bool) :
    letI := platform
    Prog.Run Turns.env (executeResilientStream deps chainConfig (chainCtx [localModelId])) {}
      (turnsRun stalls).1 (turnsRun stalls).2 := by
  let := platform
  refine Prog.run_advance (fun q e => ⟨?_, rfl⟩) 60 _ _
  cases e with
  | yield y => trivial
  | op e =>
      have hlaw := tables.lawful_answer e
      cases e with
      | openStream c route env => trivial
      | pull => trivial
      | idleFired => trivial
      | _ => exact hlaw

/-- The exception of a generator that has thrown. -/
def hasThrown : GenProg Op Op.Answer Yielded (Except Abrupt Unit × PipelineCtx) → Bool
  | .ret (.error (.thrown _), _) => true
  | _ => false

theorem eq_of_hasThrown {p : GenProg Op Op.Answer Yielded (Except Abrupt Unit × PipelineCtx)}
    (h : hasThrown p = true) : ∃ err c, p = .ret (.error (.thrown err), c) := by
  unfold hasThrown at h
  split at h
  · exact ⟨_, _, rfl⟩
  · cases h

/-- The context of a generator that has completed. -/
def completedWith : GenProg Op Op.Answer Yielded (Except Abrupt Unit × PipelineCtx) →
    Option PipelineCtx
  | .ret (.ok (), c) => some c
  | _ => none

theorem eq_of_completedWith
    {p : GenProg Op Op.Answer Yielded (Except Abrupt Unit × PipelineCtx)} {c : PipelineCtx}
    (h : completedWith p = some c) : p = .ret (.ok (), c) := by
  unfold completedWith at h
  split at h
  · cases h
    rfl
  · cases h

theorem turnsRun_stalled : hasThrown (turnsRun true).1 = true ∧ (turnsRun true).2.relayed = false ∧
    (turnsRun true).2.aborted = false ∧ (turnsRun true).2.turn = 1 := by
  decide +kernel

theorem turnsRun_candidates :
    letI := platform
    (candidateIds (chainCtx [localModelId])).length = 2 := by
  decide

end Sample

theorem sample_streams_fall_back :
    letI := Sample.platform
    ∃ c', Sample.completedWith (Sample.turnsRun false).1 = some c' ∧
      Turns.Served (candidateIds (Sample.chainCtx [Sample.localModelId])) c'
        (Sample.turnsRun false).2 := by
  let := Sample.platform
  have hcompleted : (Sample.completedWith (Sample.turnsRun false).1).isSome = true := by
    decide +kernel
  have hstalled : (Sample.turnsRun false).2.stalled = false := by decide +kernel
  obtain ⟨c', hc⟩ := Option.isSome_iff_exists.1 hcompleted
  refine ⟨c', hc, ?_⟩
  exact (streams_fall_back rfl (Sample.turnsRun_run false) hstalled).2.1 c'
    (Sample.eq_of_completedWith hc)

/-- A hop that stalls before any output is not replaced. -/
theorem stalled_hop_not_replaced :
    letI := Sample.platform
    ¬∀ (c c' : PipelineCtx) (err : Thrown) (q : Turns), c.auth.isSome = true →
      Prog.Run Turns.env (executeResilientStream Sample.deps Sample.chainConfig c) {}
          (.ret (.error (.thrown err), c')) q →
        q.relayed = false → q.aborted = false → q.turn = (candidateIds c).length := by
  let := Sample.platform
  intro h
  obtain ⟨hthrown, hrelayed, haborted, hturn⟩ := Sample.turnsRun_stalled
  obtain ⟨err, c', hend⟩ := Sample.eq_of_hasThrown hthrown
  have hrun := Sample.turnsRun_run true
  rw [hend] at hrun
  have := h _ c' err _ rfl hrun hrelayed haborted
  rw [hturn, Sample.turnsRun_candidates] at this
  cases this

end VibeRouter
