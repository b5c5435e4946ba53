import VibeRouter.Gateway.Lasting

/-! # Attempts of a streamed request

What the streams opened for a request come to.  A failure is recorded for a provider when a hop
fails before anything was relayed, and another stream is then opened or the request fails; once a
chunk has been relayed, only a rejection of the adapter's stream ends the generator with an
exception. -/

namespace VibeRouter

open Effects Async Code

/-- What has come of the attempts of a request.  `opened`: how many streams were opened;
`rejected`: the stream of an adapter has rejected; `failed`: a failure was recorded for a provider,
by the breaker or by the health monitor. -/
structure Fate where
  opened : ℕ := 0
  rejected : Bool := false
  failed : Bool := false
deriving DecidableEq

namespace Fate

/-- What an operation adds. -/
def note (f : Fate) : (e : Op) → e.Answer → Fate
  | .openStream _ _ _, _ => { f with opened := f.opened + 1 }
  | .pull, r => { f with rejected := f.rejected || !r.isOk }
  | .closeStream, r => { f with rejected := f.rejected || !r.isOk }
  | .breakerRecord _ ok, _ => { f with failed := f.failed || !ok }
  | .recordHealth _ _ ok, _ => { f with failed := f.failed || !ok }
  | _, _ => f

/-- One stream that does not reject leaves no failure behind. -/
def Clean (f : Fate) : Prop := f.opened = 1 → f.rejected = false → f.failed = false

/-- The parts whose operations are no attempt. -/
theorem note_of_aside {e : Op} (f : Fate) (r : e.Answer) (ha : e.part ≠ .adapter)
    (hb : e.part ≠ .breaker) (hh : e.part ≠ .health) : f.note e r = f := by
  cases e with
  | openStream c route env => exact absurd rfl ha
  | pull => exact absurd rfl ha
  | closeStream => exact absurd rfl ha
  | breakerRecord p ok => exact absurd rfl hb
  | recordHealth route firmId ok => exact absurd rfl hh
  | _ => rfl

/-- Only adapters open streams, and only their streams reject. -/
theorem note_keeps {e : Op} (f : Fate) (r : e.Answer) (ha : e.part ≠ .adapter) :
    (f.note e r).opened = f.opened ∧ (f.note e r).rejected = f.rejected := by
  cases e with
  | openStream c route env => exact absurd rfl ha
  | pull => exact absurd rfl ha
  | closeStream => exact absurd rfl ha
  | _ => exact ⟨rfl, rfl⟩

end Fate

/-- The attempts of a streamed request; `yielded`: its consumer was given a chunk. -/
structure Attempts extends Fate where
  yielded : Bool := false

namespace Attempts

def after (q : Attempts) : (e : GenOp Op Yielded) → GenOp.Answer Op.Answer Yielded e → Attempts
  | .op e, r => { q with toFate := q.toFate.note e r }
  | .yield _, _ => { q with yielded := true }

/-- The surroundings of the stream of a request, with any consumer. -/
def env : Env (GenOp Op Yielded) (GenOp.Answer Op.Answer Yielded) Attempts where
  allows _ e r := match e, r with
    | .op e, r => e.Lawful r
    | .yield _, _ => True
  next := after

/-- The consumer sees the context of the same request as `c`. -/
def Ok (c : PipelineCtx) (_ : Attempts) : GenOp Op Yielded → Prop
  | .op _ => True
  | .yield y => SameRequest c y.2

section
variable {α S : Type} {s : S} {q : Attempts} {c : PipelineCtx}

/-- Code without `yield`. -/
abbrev Does (o : Async S α) (post : Except Thrown α → S → Attempts → Prop) (s : S) (q : Attempts) :
    Prop :=
  o.wp env.onOps (fun _ _ => True) post s q

/-- A generator, with any consumer. -/
abbrev Streams (c : PipelineCtx) (g : Generator α)
    (post : Except Abrupt α → PipelineCtx → Attempts → Prop) (s : PipelineCtx) (q : Attempts) :
    Prop :=
  g.wp env (Ok c) post s q

/-- Code that makes no attempt. -/
theorem does_of_uses {L : (e : Op) → e.Answer → Prop} {ps : List Op.Part} {o : Async S α}
    {post : Except Thrown α → S → Prop} (h : Uses L ps o s post)
    (hL : ∀ e r, e.Lawful r → L e r)
    (hps : .adapter ∉ ps ∧ .breaker ∉ ps ∧ .health ∉ ps) :
    Does o (fun r s' q' => post r s' ∧ q' = q) s q := by
  refine h.wp (J := (· = q)) (fun q e r hr => hL e r hr) rfl ?_ fun _ _ _ hpost hq => ⟨hpost, hq⟩
  intro q' e hq he
  obtain ⟨ha, hb, hh⟩ := hps
  refine ⟨trivial, fun r _ => ?_⟩
  have hkeep := Fate.note_of_aside q'.toFate r (fun heq => ha (heq ▸ he.1))
    (fun heq => hb (heq ▸ he.1)) (fun heq => hh (heq ▸ he.1))
  show ({ q' with toFate := q'.toFate.note e r } : Attempts) = q
  rw [hkeep]
  exact hq

/-- Code that calls no adapter. -/
theorem does_keeping {ps : List Op.Part} {o : Async S α} {post : Except Thrown α → S → Prop}
    (h : Uses (fun e r => e.Lawful r) ps o s post) (hps : .adapter ∉ ps) :
    Does o (fun r s' q' => post r s' ∧ q'.opened = q.opened ∧ q'.rejected = q.rejected ∧
      q'.yielded = q.yielded) s q := by
  refine h.wp (J := fun q' => q'.opened = q.opened ∧ q'.rejected = q.rejected ∧
    q'.yielded = q.yielded) (fun q e r hr => hr) ⟨rfl, rfl, rfl⟩ ?_
    fun _ _ _ hpost hq => ⟨hpost, hq⟩
  intro q' e hq he
  refine ⟨trivial, fun r _ => ?_⟩
  obtain ⟨hopened, hrejected⟩ := Fate.note_keeps q'.toFate r fun heq => hps (heq ▸ he.1)
  exact ⟨hopened.trans hq.1, hrejected.trans hq.2.1, hq.2.2⟩

theorem streams_inGenerator {s : PipelineCtx} (o : Stage α)
    {post : Except Abrupt α → PipelineCtx → Attempts → Prop} :
    Streams c (inGenerator o) post s q ↔ Does o (fun r => post (r.mapError .thrown)) s q :=
  wp_embed _ o

theorem streams_inGenerator_op {s : PipelineCtx} (e : Op)
    {post : Except Abrupt e.Answer → PipelineCtx → Attempts → Prop} :
    @Code.wp _ _ PipelineCtx Abrupt Attempts (no_index e.Answer) env (Ok c) (inGenerator (op e))
        post s q ↔
      True ∧ ∀ r, e.Lawful r → post (.ok r) s (q.after (.op e) r) := Iff.rfl

end

/-! ### The relay of a stream -/

/-- No stream was opened and no failure recorded since `q`. -/
structure Since (q q' : Attempts) : Prop where
  opened : q'.opened = q.opened
  failed : q'.failed = q.failed

theorem Since.trans {q q' q'' : Attempts} (h : Since q q') (h' : Since q' q'') : Since q q'' :=
  ⟨h'.opened.trans h.opened, h'.failed.trans h.failed⟩

variable {c s : PipelineCtx} {q : Attempts}

theorem yieldChunk_streams (chunk : StreamChunk) (hs : SameRequest c s) :
    Streams c (yieldChunk chunk) (fun r s' q' => s' = s ∧ Since q q' ∧ match r with
      | .ok none => True
      | .ok (some _) => q'.rejected = true
      | .error e => e = .returned) s q := by
  simp only [yieldChunk, Streams, wp_bind, wp_read, wp_perform]
  refine ⟨hs, fun resumed _ => ?_⟩
  cases resumed with
  | next => exact ⟨rfl, ⟨rfl, rfl⟩, trivial⟩
  | return_ =>
      simp only [wp_bind, streams_inGenerator_op]
      refine ⟨trivial, fun r _ => ?_⟩
      cases r with
      | ok _ => exact ⟨rfl, ⟨rfl, rfl⟩, rfl⟩
      | error err => exact ⟨rfl, ⟨rfl, rfl⟩, Bool.or_true q.rejected⟩

theorem yieldAll_streams (chunks : List StreamChunk) (hs : SameRequest c s) :
    Streams c (yieldAll chunks) (fun r s' q' => s' = s ∧ Since q q' ∧ match r with
      | .ok none => True
      | .ok (some _) => q'.rejected = true
      | .error e => e = .returned) s q := by
  induction chunks generalizing q with
  | nil => exact ⟨rfl, ⟨rfl, rfl⟩, trivial⟩
  | cons chunk chunks ih =>
      simp only [yieldAll, Streams, wp_bind]
      refine wp_mono (yieldChunk_streams chunk hs) ?_
      rintro (e | _ | e) s' q' ⟨rfl, hsince, hr⟩
      · exact ⟨rfl, hsince, hr⟩
      · refine wp_mono (ih (q := q')) ?_
        rintro r s'' q'' ⟨rfl, hsince', hr'⟩
        exact ⟨rfl, hsince.trans hsince', hr'⟩
      · exact ⟨rfl, hsince, hr⟩

theorem commit_streams (seen : Bool) :
    Streams c (commit seen) (fun r s' q' => r = .ok () ∧ s' = s ∧ q' = q) s q := by
  unfold commit
  split
  · exact ⟨rfl, rfl, rfl⟩
  · exact ⟨trivial, fun _ _ => ⟨rfl, rfl, rfl⟩⟩

variable (cfg : ResilienceConfig)

/-- A stream is relayed until it ends or rejects; without content nothing is relayed. -/
theorem relayStream_streams (chunks pending : List StreamChunk) (seen : Bool)
    (hs : SameRequest c s) :
    Streams c (relayStream cfg chunks seen pending) (fun r s' q' => s' = s ∧ Since q q' ∧
      match r with
      | .ok (.finished seen') => seen' = false → seen = false ∧ q'.yielded = q.yielded
      | .ok (.failed _ seen') =>
          q'.rejected = true ∧ (seen' = false → seen = false ∧ q'.yielded = q.yielded)
      | .error e => e = .returned) s q := by
  induction chunks generalizing seen pending q with
  | nil =>
      simp only [relayStream, Streams, wp_bind, streams_inGenerator_op]
      refine ⟨trivial, fun r _ => ?_⟩
      cases r with
      | ok _ => exact ⟨rfl, ⟨rfl, rfl⟩, fun h => ⟨h, rfl⟩⟩
      | error err => exact ⟨rfl, ⟨rfl, rfl⟩, Bool.or_true q.rejected, fun h => ⟨h, rfl⟩⟩
  | cons chunk rest ih =>
      simp only [relayStream, Streams, wp_bind, streams_inGenerator_op]
      refine ⟨trivial, fun r _ => ?_⟩
      cases r with
      | error err => exact ⟨rfl, ⟨rfl, rfl⟩, Bool.or_true q.rejected, fun h => ⟨h, rfl⟩⟩
      | ok _ =>
          simp only [wp_bind, streams_inGenerator_op]
          refine ⟨trivial, fun r _ => ?_⟩
          split
          · next hhold =>
              rw [Bool.and_eq_true, Bool.not_eq_true'] at hhold
              refine wp_mono (ih (pending ++ [chunk]) false) ?_
              rintro (e | ⟨seen'⟩ | ⟨err, seen'⟩) s' q' ⟨rfl, hsince, hr⟩
              · exact ⟨rfl, ⟨hsince.opened, hsince.failed⟩, hr⟩
              · exact ⟨rfl, ⟨hsince.opened, hsince.failed⟩, fun h => ⟨hhold.1, (hr h).2⟩⟩
              · exact ⟨rfl, ⟨hsince.opened, hsince.failed⟩, hr.1, fun h => ⟨hhold.1, (hr.2 h).2⟩⟩
          · rw [wp_bind]
            refine wp_mono (commit_streams seen) ?_
            rintro _ s' q' ⟨rfl, rfl, rfl⟩
            dsimp only
            rw [wp_bind]
            refine wp_mono (yieldAll_streams (pending ++ [chunk]) hs) ?_
            rintro (e | _ | e) s'' q'' ⟨rfl, hsince, hr⟩
            · exact ⟨rfl, ⟨hsince.opened, hsince.failed⟩, hr⟩
            · -- from here on content has been seen
              refine wp_mono (ih [] true (q := q'')) ?_
              have hpulled : Since q q'' := ⟨hsince.opened, hsince.failed⟩
              rintro (e | ⟨seen'⟩ | ⟨err, seen'⟩) s' q' ⟨rfl, hsince', hr'⟩
              · exact ⟨rfl, hpulled.trans hsince', hr'⟩
              · exact ⟨rfl, hpulled.trans hsince', fun h => Bool.noConfusion (hr' h).1⟩
              · exact ⟨rfl, hpulled.trans hsince', hr'.1, fun h => Bool.noConfusion (hr'.2 h).1⟩
            · exact ⟨rfl, ⟨hsince.opened, hsince.failed⟩, hr, fun h => Bool.noConfusion h⟩

/-! ### A hop -/

variable {route : RouteDecision}

theorem streamTry_streams (lastErr : Option RouterError) (previousModel : String)
    (hs : SameRequest c s) :
    Streams c (streamTry cfg route lastErr previousModel) (fun r s' q' =>
      s' = { s with route := some route } ∧ q'.opened = q.opened + 1 ∧ q'.failed = q.failed ∧
      match r with
      | .ok (.finished _) => True
      | .ok (.failed _ seen) =>
          (seen = true → q'.rejected = true) ∧ (seen = false → q'.yielded = q.yielded)
      | .error e => e = .returned) s q := by
  simp only [streamTry, Streams, wp_bind]
  rw [← Streams, streams_inGenerator]
  refine wp_mono (does_of_uses (enterHop_uses route lastErr previousModel) (fun _ _ => id)
    (by decide)) ?_
  rintro _ s' q₁ ⟨⟨rfl, rfl⟩, rfl⟩
  dsimp only [Except.mapError]
  simp only [wp_read, streams_inGenerator_op]
  refine ⟨trivial, fun all _ => ?_⟩
  have hs' : SameRequest c { s with route := some route } :=
    hs.rerouted s.cloudBlockAudited (some route)
  refine wp_mono (relayStream_streams cfg all [] false hs') ?_
  rintro (e | ⟨_ | _⟩ | ⟨err, seen⟩) s' q₂ ⟨rfl, hsince, hr⟩
  · exact ⟨rfl, hsince.opened, hsince.failed, hr⟩
  · exact ⟨rfl, hsince.opened, hsince.failed, fun h => Bool.noConfusion h, fun _ => (hr rfl).2⟩
  · dsimp only
    rw [wp_bind, streams_inGenerator_op]
    refine ⟨trivial, fun r _ => ⟨rfl, hsince.opened, ?_, trivial⟩⟩
    exact (Bool.or_false q₂.failed).trans hsince.failed
  · exact ⟨rfl, hsince.opened, hsince.failed, fun _ => hr.1, fun h => (hr.2 h).2⟩

/-- The `catch` block of a hop. -/
theorem streamCatch_does (err : Thrown) (seen : Bool) :
    Does (streamCatch route err seen) (fun r s' q' => s' = s ∧ q'.opened = q.opened ∧
      q'.rejected = q.rejected ∧ q'.yielded = q.yielded ∧ ∀ e, r = .ok e → seen = false) s q := by
  have hcaught : Uses (fun e r => e.Lawful r) [.signal, .breaker, .health, .audit]
      (streamCatch route err seen) s fun r s' => s' = s ∧ ∀ e, r = .ok e → seen = false := by
    simp only [streamCatch, meets_bind, meets_op]
    refine ⟨by simp [Op.Within, Op.part, Op.WellKeyed], fun idleFired _ => ?_⟩
    refine ⟨by simp [Op.Within, Op.part, Op.WellKeyed], fun aborted _ => ?_⟩
    refine (noteFailure_uses route _).call (by simp) ?_
    rintro (e | _) s' rfl
    · exact ⟨rfl, by simp⟩
    · refine (auditIfInvalid_uses route _).call (by simp) ?_
      rintro _ s' ⟨rfl, rfl⟩
      dsimp only
      split
      · exact ⟨rfl, by simp⟩
      · next hgo =>
          rw [Bool.or_eq_true, Bool.or_eq_true, not_or, not_or] at hgo
          exact ⟨rfl, fun _ _ => Bool.eq_false_iff.2 hgo.1.1⟩
  refine wp_mono (does_keeping hcaught (by decide)) ?_
  rintro r s' q' ⟨⟨rfl, hseen⟩, hopened, hrejected, hyielded⟩
  exact ⟨rfl, hopened, hrejected, hyielded, hseen⟩

/-- One hop: one more stream was opened, and unless the next hop is tried or an exception ends
the generator, no failure was recorded. -/
theorem streamHop_streams (lastErr : Option RouterError) (previousModel : String)
    (hs : SameRequest c s) :
    Streams c (streamHop cfg route lastErr previousModel) (fun r s' q' =>
      s' = { s with route := some route } ∧ q'.opened = q.opened + 1 ∧ match r with
        | .ok none => q'.failed = q.failed
        | .ok (some _) => q'.yielded = q.yielded
        | .error .returned => q'.failed = q.failed
        | .error (.thrown _) => q'.rejected = true ∨ q'.yielded = q.yielded) s q := by
  simp only [streamHop, Streams, wp_bind, streams_inGenerator_op]
  refine ⟨trivial, fun _ _ => ?_⟩
  refine wp_finally (fun r s' q' =>
      s' = { s with route := some route } ∧ q'.opened = q.opened + 1 ∧ match r with
        | .ok none => q'.failed = q.failed
        | .ok (some _) => q'.yielded = q.yielded
        | .error .returned => q'.failed = q.failed
        | .error (.thrown _) => q'.rejected = true ∨ q'.yielded = q.yielded) ?_ ?_
  · rw [wp_bind]
    refine wp_mono (streamTry_streams cfg lastErr previousModel hs) ?_
    rintro (e | ⟨seen⟩ | ⟨err, seen⟩) s' q₁ ⟨rfl, hopened, hfailed, hr⟩
    · obtain rfl : e = .returned := hr
      exact ⟨rfl, hopened, hfailed⟩
    · exact ⟨rfl, hopened, hfailed⟩
    · dsimp only
      rw [wp_bind, ← Streams, streams_inGenerator]
      refine wp_mono (streamCatch_does err seen) ?_
      rintro (e | rerr) s' q₂ ⟨rfl, hopened', hrejected, hyielded, hseen⟩
      · refine ⟨rfl, hopened'.trans hopened, ?_⟩
        cases seen with
        | true => exact .inl (hrejected.trans (hr.1 rfl))
        | false => exact .inr (hyielded.trans (hr.2 rfl))
      · exact ⟨rfl, hopened'.trans hopened, hyielded.trans (hr.2 (hseen _ rfl))⟩
  · rintro r s' q' ⟨rfl, hr⟩
    rw [← Streams, streams_inGenerator]
    simp only [Does, wp_bind, wp_op]
    exact ⟨trivial, fun _ _ => ⟨trivial, fun _ _ => ⟨rfl, trivial, hr⟩⟩⟩

/-! ### Whole streams -/

/-- How the stream of a request ends.  An exception after the first chunk is that of a stream that
has rejected; a stream that ends otherwise has left no failure behind if it was the first. -/
def Ends (r : Except Abrupt Unit) (q : Attempts) : Prop :=
  match r with
  | .error (.thrown _) => q.rejected = true ∨ q.yielded = false
  | _ => q.Clean

variable [Platform] (deps : PipelineDeps)

/-- Admission is no attempt. -/
theorem admitHop_does (model : ModelRow) (lastErr : Option RouterError) (previousModel : String) :
    Does (admitHop deps false model lastErr previousModel) (fun _ s' q' => q' = q ∧
      ∃ b, s' = { s with cloudBlockAudited := b }) s q := by
  simp only [admitHop, Does, wp_bind, wp_outcome]
  refine wp_mono (does_of_uses (routeForModel_uses deps (fun _ _ => id) model) (fun _ _ => id)
    (by decide)) ?_
  rintro (e | route) s₁ q₁ ⟨⟨hs, -⟩, rfl⟩
  · simp only [Bool.false_eq_true, if_false, wp_pure]
    exact ⟨trivial, hs⟩
  · simp only [wp_bind, wp_op]
    refine ⟨trivial, fun allowed _ => ?_⟩
    split
    · rw [wp_bind]
      refine wp_mono (does_of_uses (auditAs_uses _ _) (fun _ _ => id) (by decide)) ?_
      rintro _ s' q₂ ⟨⟨rfl, rfl⟩, rfl⟩
      exact ⟨rfl, hs⟩
    · simp only [wp_bind, wp_op]
      refine ⟨trivial, fun granted _ => ?_⟩
      split
      · exact ⟨rfl, hs⟩
      · exact ⟨rfl, hs⟩

/-- The loop over the candidates, from where nothing has been relayed. -/
theorem streamLoop_streams (effective : EffectivePolicy) (ids : List Uuid)
    (lastErr : Option RouterError) (previousModel : String) (hs : SameRequest c s)
    (hyielded : q.yielded = false) (hfailed : q.failed = true → 0 < q.opened) :
    Streams c (streamLoop deps cfg effective ids lastErr previousModel) (fun r s' q' =>
      SameRequest c s' ∧ match r with
        | .ok none => q'.Clean
        | .ok (some _) => q'.yielded = false
        | .error .returned => q'.Clean
        | .error (.thrown _) => q'.rejected = true ∨ q'.yielded = false) s q := by
  induction ids generalizing s q lastErr previousModel with
  | nil => exact ⟨hs, hyielded⟩
  | cons id ids ih =>
      simp only [streamLoop, Streams, wp_bind, streams_inGenerator_op]
      refine ⟨trivial, fun aborted _ => ?_⟩
      split
      · exact ⟨hs, hyielded⟩
      · split
        · exact ih _ _ hs hyielded hfailed
        · next m hm =>
            rw [wp_bind, ← Streams, streams_inGenerator]
            refine wp_mono (admitHop_does deps m lastErr previousModel) ?_
            rintro r s₁ q₁ ⟨rfl, b, rfl⟩
            have hs₁ : SameRequest c { s with cloudBlockAudited := b } := hs.rerouted b s.route
            obtain e | ⟨route⟩ | rerr := r
            · exact ⟨hs₁, .inr hyielded⟩
            · dsimp only [Except.mapError]
              rw [wp_bind]
              refine wp_mono (streamHop_streams cfg lastErr previousModel hs₁) ?_
              -- a failure before this hop was that of a stream opened before it
              have hclean : ∀ q' : Attempts, q'.opened = q.opened + 1 → q'.failed = q.failed →
                  q'.Clean := by
                intro q' hopened hsame hone _
                have hnone : ¬0 < q.opened := by omega
                rw [hsame]
                exact Bool.eq_false_iff.2 fun hf => hnone (hfailed hf)
              rintro r s' q' ⟨rfl, hopened, hr⟩
              have hs' : SameRequest c { s with cloudBlockAudited := b, route := some route } :=
                hs.rerouted b (some route)
              obtain (e | _) | _ | rerr := r
              · refine ⟨hs', hr.imp_right fun h => h.trans hyielded⟩
              · exact ⟨hs', hclean q' hopened hr⟩
              · exact ⟨hs', hclean q' hopened hr⟩
              · have hopened' : 0 < q'.opened := by
                  rw [hopened]
                  omega
                exact ih _ _ hs' (hr.trans hyielded) fun _ => hopened'
            · exact ih _ _ hs₁ hyielded hfailed

theorem executeResilientStream_streams (hs : SameRequest c s) (hyielded : q.yielded = false)
    (hfailed : q.failed = true → 0 < q.opened) (hclean : q.Clean) :
    Streams c (executeResilientStream deps cfg) (fun r s' q' => SameRequest c s' ∧ Ends r q')
      s q := by
  simp only [executeResilientStream, Streams, wp_bind]
  rw [← Streams, streams_inGenerator]
  refine wp_mono (does_of_uses requireEffective_uses (fun _ _ => id) (by decide)) ?_
  rintro (e | effective) s' q' ⟨⟨rfl, heff⟩, rfl⟩
  · exact ⟨hs, .inr hyielded⟩
  dsimp only [Except.mapError]
  simp only [streams_inGenerator_op]
  refine ⟨trivial, fun _ _ => ?_⟩
  refine wp_finally (fun r s' q' => SameRequest c s' ∧ Ends r q') ?_ ?_
  · rw [wp_bind, ← Streams, streams_inGenerator]
    simp only [Does, wp_bind, wp_ctx, wp_ofExcept]
    cases candidateModels effective s'.envelope with
    | error e => exact ⟨hs, .inr hyielded⟩
    | ok ids =>
        dsimp only [Except.mapError]
        refine wp_mono (streamLoop_streams cfg deps effective ids none "" hs hyielded hfailed) ?_
        rintro ((e | _) | _ | lastErr) s'' q'' ⟨hs'', hr⟩
        · exact ⟨hs'', hr⟩
        · exact ⟨hs'', hr⟩
        · exact ⟨hs'', hr⟩
        · simp only [wp_bind, streams_inGenerator_op]
          refine ⟨trivial, fun timedOut _ => ?_⟩
          split
          · exact ⟨hs'', .inr hr⟩
          · exact ⟨hs'', .inr hr⟩
  · intro r s'' q'' h
    exact ⟨trivial, fun _ _ => ⟨rfl, h⟩⟩

/-! ### Streams without resilience -/

omit [Platform] in
theorem adapterRelay_streams (chunks : List StreamChunk) (hs : SameRequest c s)
    (hfailed : q.failed = false) :
    Streams c (adapterRelay chunks) (fun r s' q' => SameRequest c s' ∧ Ends r q') s q := by
  induction chunks generalizing q with
  | nil =>
      simp only [adapterRelay, Streams, wp_bind, streams_inGenerator_op]
      refine ⟨trivial, fun r _ => ?_⟩
      cases r with
      | ok _ => exact ⟨hs, fun _ _ => hfailed⟩
      | error err => exact ⟨hs, .inl (Bool.or_true q.rejected)⟩
  | cons chunk rest ih =>
      simp only [adapterRelay, Streams, wp_bind, streams_inGenerator_op]
      refine ⟨trivial, fun r _ => ?_⟩
      cases r with
      | error err => exact ⟨hs, .inl (Bool.or_true q.rejected)⟩
      | ok _ =>
          rw [wp_bind]
          refine wp_mono (yieldChunk_streams chunk hs) ?_
          rintro (e | _ | e) s' q' ⟨rfl, hsince, hr⟩
          · obtain rfl : e = .returned := hr
            exact ⟨hs, fun _ _ => hsince.failed.trans hfailed⟩
          · exact ih (hsince.failed.trans hfailed)
          · exact ⟨hs, .inl hr⟩

omit [Platform] in
theorem adapterStream_streams (route : RouteDecision) (hs : SameRequest c s)
    (hfailed : q.failed = false) :
    Streams c (adapterStream route) (fun r s' q' => SameRequest c s' ∧ Ends r q') s q := by
  simp only [adapterStream, Streams, wp_bind, wp_read, streams_inGenerator_op]
  exact ⟨trivial, fun chunks _ => adapterRelay_streams chunks hs hfailed⟩

end Attempts

end VibeRouter
