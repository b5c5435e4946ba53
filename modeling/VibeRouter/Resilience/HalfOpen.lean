import VibeRouter.Db.Tables
import VibeRouter.Lib.Pool
import VibeRouter.Resilience.Probe
import VibeRouter.Resilience.Repeated

/-! # Who decides a half-open circuit

The outcome of a hop is recorded without the identity of its request, so a half-open circuit
takes the first outcome that comes for the decision of its probe.  `Circuit` keeps, next to the
breaker, which request has which hop in flight, which request is the probe of a provider, and
every outcome that was recorded while a circuit was half open.

A hop that was admitted while the circuit was closed can decide it (`straggler_closes_circuit`).
When the circuit only becomes half open with no other hop of the provider in flight, its probe
alone does (`probe_decides`). -/

namespace VibeRouter

open Effects

namespace Window

/-- A request is admitted, or nothing changes. -/
theorem allow_refused (opts : BreakerOptions) (w : Window) (now : ℕ) :
    (w.allow opts now).1 = true ∨ ((w.allow opts now).1 = false ∧ (w.allow opts now).2 = w) := by
  unfold allow
  split
  · exact .inl rfl
  · split
    · exact .inl rfl
    · exact .inr ⟨rfl, rfl⟩
  · split
    · exact .inl rfl
    · exact .inr ⟨rfl, rfl⟩

/-- An outcome leaves no circuit half open. -/
theorem record_not_half_open (opts : BreakerOptions) (w : Window) (ok : Bool) (now : ℕ) :
    (w.record opts ok now).state ≠ .half_open := by
  have hprune : ∀ w' : Window, (prune opts w' now).state = w'.state := fun _ => rfl
  unfold record
  dsimp only
  split
  · split <;> simp
  · next hs =>
      split
      · simp
      · rw [hs]
        simp
  · next hs =>
      rw [hs]
      simp

end Window

/-- An outcome that was recorded while the circuit was half open: whose it was, and the probe. -/
structure Decision where
  provider : Uuid
  request : ℕ
  probe : Option ℕ
deriving DecidableEq

/-- The breaker, and as ghosts: the probe of each provider, the hops in flight with their
requests, the decisions, and whether a probe was ever admitted beside another hop of its
provider. -/
structure Circuit where
  breaker : CircuitBreaker
  probe : Uuid → Option ℕ := fun _ => none
  hops : List (ℕ × Uuid) := []
  decisions : List Decision := []
  crowded : Bool := false

namespace Circuit

def new (options : BreakerOptions) : Circuit := { breaker := .new options }

/-- The state of the circuit of `p`. -/
def state (σ : Circuit) (p : Uuid) : BreakerState := (σ.breaker.window p).state

/-- Another request has a hop of the provider in flight. -/
def beside (σ : Circuit) (i : ℕ) (p : Uuid) : Bool := σ.hops.any fun h => h.1 ≠ i ∧ h.2 = p

/-- `breaker.allow(p)` for the request `i`. -/
def allow (σ : Circuit) (i : ℕ) (p : Uuid) (now : ℕ) : Bool × Circuit :=
  let r := σ.breaker.allow p now
  let probe : Bool := r.1 ∧ (r.2.window p).state = .half_open
  (r.1,
    { σ with
      breaker := r.2
      probe := if probe then Function.update σ.probe p (some i) else σ.probe
      hops := if r.1 then (i, p) :: σ.hops else σ.hops
      crowded := σ.crowded || probe && σ.beside i p })

/-- `breaker.record(p, ok)` for the request `i`. -/
def record (σ : Circuit) (i : ℕ) (p : Uuid) (ok : Bool) (now : ℕ) : Circuit :=
  { σ with
    breaker := σ.breaker.record p ok now
    decisions := if σ.state p = .half_open then σ.decisions ++ [⟨p, i, σ.probe p⟩]
      else σ.decisions }

/-- The hop of the request `i` ends. -/
def leave (σ : Circuit) (i : ℕ) : Circuit := { σ with hops := σ.hops.filter fun h => h.1 ≠ i }

section
variable (σ : Circuit) (i : ℕ) (p : Uuid) (ok : Bool) (now : ℕ)

theorem window_allow : (σ.allow i p now).2.breaker.window p =
    ((σ.breaker.window p).allow σ.breaker.options now).2 := by
  simp [allow, CircuitBreaker.allow]

theorem window_allow_of_ne {p' : Uuid} (h : p' ≠ p) :
    (σ.allow i p now).2.breaker.window p' = σ.breaker.window p' :=
  CircuitBreaker.window_put_of_ne _ _ h

/-- The request `i` becomes the probe of `p`. -/
def probes : Bool := (σ.allow i p now).1 ∧ (σ.allow i p now).2.state p = .half_open

theorem hops_allow : (σ.allow i p now).2.hops =
    if (σ.allow i p now).1 then (i, p) :: σ.hops else σ.hops := rfl

theorem probe_allow : (σ.allow i p now).2.probe =
    if σ.probes i p now then Function.update σ.probe p (some i) else σ.probe := rfl

theorem crowded_allow : (σ.allow i p now).2.crowded =
    (σ.crowded || σ.probes i p now && σ.beside i p) := rfl

theorem mem_of_beside_eq_false (h : σ.beside i p = false) {j : ℕ} (hj : (j, p) ∈ σ.hops) : j = i := by
  unfold beside at h
  rw [List.any_eq_false] at h
  have := h (j, p) hj
  simpa using this

theorem window_record : (σ.record i p ok now).breaker.window p =
    (σ.breaker.window p).record σ.breaker.options ok now := by
  simp [record, CircuitBreaker.record]

theorem window_record_of_ne {p' : Uuid} (h : p' ≠ p) :
    (σ.record i p ok now).breaker.window p' = σ.breaker.window p' :=
  CircuitBreaker.window_put_of_ne _ _ h

end

end Circuit

/-! ### The requests -/

/-- What the operation of a request does to the circuits. -/
inductive Circuit.Moves (i : ℕ) (σ : Circuit) : (e : Op) → e.Answer → Circuit → Prop
  | allow (p : Uuid) (now : ℕ) :
      Moves i σ (.breakerAllow p) (σ.allow i p now).1 (σ.allow i p now).2
  | record (p : Uuid) (ok : Bool) (now : ℕ) :
      Moves i σ (.breakerRecord p ok) () (σ.record i p ok now)
  | refused (p : Uuid) : Moves i σ (.shedAcquire p) false (σ.leave i)
  | granted (p : Uuid) : Moves i σ (.shedAcquire p) true σ
  | release (p : Uuid) : Moves i σ (.shedRelease p) () (σ.leave i)
  | other {e : Op} (r : e.Answer) (hb : e.part ≠ .breaker) (hs : e.part ≠ .shed) :
      Moves i σ e r σ

/-- Requests that share the circuits. -/
def deciding [Platform] (deps : PipelineDeps) (cfg : ResilienceConfig) :
    System ℕ (GenOp Op Yielded) (GenOp.Answer Op.Answer Yielded) Unit Circuit (Option Hop) where
  env := Hop.env.withYield Yielded
  handler i σ _ e r σ' := match e, r with
    | .op e, r => σ.Moves i e r σ'
    | .yield _, _ => σ' = σ
  start _ _ p q := (∃ c, Execution deps cfg c p) ∧ q = none
  drift _ _ := False

/-! ### The invariant -/

/-- The ghost follows the hops in flight.  As long as no probe was admitted beside another hop, a
half-open circuit has only the hop of its probe in flight, and the probes have made the
decisions. -/
structure Decided (σ : Circuit) (L : ℕ → Option (Option Hop)) : Prop where
  hops : ∀ i p, (i, p) ∈ σ.hops ↔ ∃ b, L i = some (some ⟨p, b⟩)
  half : σ.crowded = false → ∀ p, σ.state p = .half_open →
    ∀ i, (i, p) ∈ σ.hops → σ.probe p = some i
  decisions : σ.crowded = false → ∀ d ∈ σ.decisions, d.probe = some d.request

namespace Decided

variable {σ : Circuit} {L : ℕ → Option (Option Hop)} {i : ℕ} {q : Option Hop}

/-- A request whose hop stays in flight. -/
theorem stay (q' : Option Hop) (h : Decided σ L) (hi : L i = some q)
    (hq : q'.map Hop.provider = q.map Hop.provider) :
    Decided σ (Function.update L i (some q')) := by
  refine ⟨fun j p => ?_, h.half, h.decisions⟩
  by_cases hj : j = i
  · subst hj
    rw [h.hops, hi, Function.update_self]
    have hat : ∀ q : Option Hop, (∃ b, some q = some (some ⟨p, b⟩)) ↔
        q.map Hop.provider = some p := by
      intro q
      cases q with
      | none => simp
      | some hop => cases hop; simp
    rw [hat, hat, hq]
  · rw [h.hops, Function.update_of_ne hj]

/-- A request without a hop in flight. -/
theorem idle (h : Decided σ L) (hi : L i = some none) (p : Uuid) : (i, p) ∉ σ.hops := by
  rw [h.hops, hi]
  rintro ⟨b, hb⟩
  cases hb

theorem hops_allow {p : Uuid} {now : ℕ} (h : Decided σ L) (hi : L i = some none) (j : ℕ)
    (p' : Uuid) : (j, p') ∈ (σ.allow i p now).2.hops ↔ ∃ b, Function.update L i
      (some (Hop.next none (.breakerAllow p) (σ.allow i p now).1)) j = some (some ⟨p', b⟩) := by
  rw [σ.hops_allow]
  cases (σ.allow i p now).1 with
  | true =>
      show (j, p') ∈ (i, p) :: σ.hops ↔
        ∃ b, Function.update L i (some (some ⟨p, false⟩)) j = some (some ⟨p', b⟩)
      by_cases hj : j = i
      · subst hj
        rw [Function.update_self, List.mem_cons, or_iff_left (h.idle hi p')]
        simp [eq_comm]
      · rw [Function.update_of_ne hj, ← h.hops, List.mem_cons, or_iff_right]
        intro heq
        exact hj (Prod.mk.inj heq).1
  | false =>
      show (j, p') ∈ σ.hops ↔ ∃ b, Function.update L i (some none) j = some (some ⟨p', b⟩)
      rw [← hi, Function.update_eq_self]
      exact h.hops j p'

theorem allow {p : Uuid} {now : ℕ} (h : Decided σ L) (hi : L i = some none) :
    Decided (σ.allow i p now).2
      (Function.update L i (some (Hop.next none (.breakerAllow p) (σ.allow i p now).1))) := by
  have hcalm : (σ.allow i p now).2.crowded = false →
      σ.crowded = false ∧ (σ.probes i p now = true → σ.beside i p = false) := by
    intro hc
    rw [σ.crowded_allow, Bool.or_eq_false_iff] at hc
    refine ⟨hc.1, fun hprobe => ?_⟩
    simpa [hprobe] using hc.2
  refine ⟨h.hops_allow hi, fun hc p' hs j hj => ?_, fun hc => h.decisions (hcalm hc).1⟩
  obtain ⟨hc', halone⟩ := hcalm hc
  rw [σ.hops_allow] at hj
  rw [σ.probe_allow]
  by_cases hp : p' = p
  · subst hp
    have hwindow := Window.allow_refused σ.breaker.options (σ.breaker.window p') now
    rw [← σ.window_allow i] at hwindow
    rcases hwindow with hadm | ⟨hadm, heq⟩
    · replace hadm : (σ.allow i p' now).1 = true := hadm
      have hprobe : σ.probes i p' now = true := decide_eq_true ⟨hadm, hs⟩
      rw [if_pos hprobe, Function.update_self]
      rw [if_pos hadm, List.mem_cons] at hj
      rcases hj with heq | hj
      · rw [(Prod.mk.inj heq).1]
      · rw [σ.mem_of_beside_eq_false i p' (halone hprobe) hj]
    · replace hadm : (σ.allow i p' now).1 = false := hadm
      have hprobe : ¬σ.probes i p' now = true := by simp [Circuit.probes, hadm]
      rw [Circuit.state, heq] at hs
      rw [if_neg (by simp [hadm])] at hj
      rw [if_neg hprobe]
      exact h.half hc' p' hs j hj
  · rw [Circuit.state, σ.window_allow_of_ne i p now hp] at hs
    have hj' : (j, p') ∈ σ.hops := by
      split at hj
      · rcases List.mem_cons.1 hj with heq | hj
        · exact absurd (Prod.mk.inj heq).2 hp
        · exact hj
      · exact hj
    have hold := h.half hc' p' hs j hj'
    split
    · rwa [Function.update_of_ne hp]
    · exact hold

theorem record {p : Uuid} {b ok : Bool} {now : ℕ} (h : Decided σ L)
    (hi : L i = some (some ⟨p, b⟩)) : Decided (σ.record i p ok now)
      (Function.update L i (some (some ⟨p, true⟩))) := by
  have hself : (i, p) ∈ σ.hops := (h.hops i p).2 ⟨b, hi⟩
  have hstay := h.stay (some ⟨p, true⟩) hi rfl
  refine ⟨hstay.hops, fun hc p' hs => ?_, fun hc d hd => ?_⟩
  · by_cases hp : p' = p
    · subst hp
      rw [Circuit.state, σ.window_record] at hs
      exact absurd hs (Window.record_not_half_open _ _ _ _)
    · rw [Circuit.state, σ.window_record_of_ne i p ok now hp] at hs
      exact h.half hc p' hs
  · unfold Circuit.record at hd
    dsimp only at hd
    split at hd
    · next hs =>
        rcases List.mem_append.1 hd with hd | hd
        · exact h.decisions hc d hd
        · rw [List.mem_singleton.1 hd]
          exact h.half hc p hs i hself
    · exact h.decisions hc d hd

/-- A request whose hop ends, or is refused. -/
theorem leave (h : Decided σ L) : Decided (σ.leave i) (Function.update L i (some none)) := by
  refine ⟨fun j p => ?_, fun hc p hs j hj => ?_, h.decisions⟩
  · unfold Circuit.leave
    rw [List.mem_filter, decide_eq_true_eq, h.hops]
    by_cases hj : j = i
    · subst hj
      simp
    · simp [hj]
  · exact h.half hc p hs j (List.mem_of_mem_filter hj)

end Decided

theorem Hop.provider_settle (q : Option Hop) :
    (q.map Hop.settle).map Hop.provider = q.map Hop.provider := by
  cases q <;> rfl

section
variable [Platform] {deps : PipelineDeps} {cfg : ResilienceConfig}

theorem deciding_preserves : System.Preserves (deciding deps cfg)
    (fun _ _ _ => True) (okOps Hop.Ok Yielded) (fun _ q => q = none) Decided where
  start_wp := by
    rintro i σ p q ⟨⟨c, h⟩, rfl⟩
    exact System.wp_view h.wp
  spawn := by
    rintro i σ L p q h hi ⟨-, rfl⟩
    refine ⟨fun j p => ?_, h.half, h.decisions⟩
    by_cases hj : j = i
    · subst hj
      rw [h.hops, hi, Function.update_self]
      simp
    · rw [h.hops, Function.update_of_ne hj]
  rely _ _ _ _ _ _ _ _ _ _ _ := trivial
  act := by
    intro i σ L q e r σ' h hi hok _ hh
    cases e with
    | yield y =>
        obtain rfl : σ' = σ := hh
        exact h.stay _ hi rfl
    | op e =>
        replace hh : σ.Moves i e r σ' := hh
        cases hh with
        | allow p now =>
            obtain rfl : q = none := hok
            exact h.allow hi
        | record p ok now =>
            obtain ⟨b, rfl⟩ := hok
            exact h.record hi
        | refused p => exact h.leave
        | granted p => exact h.stay _ hi rfl
        | release p => exact h.leave
        | other r hb hs =>
            rcases Hop.next_of_other (q := q) r hb hs with heq | heq
            · exact h.stay _ hi (congrArg _ heq)
            · exact h.stay _ hi ((congrArg _ heq).trans (Hop.provider_settle q))
  drift _ _ _ _ h := h.elim

/-- The request `i` has a hop of the provider `p` in flight. -/
def HopAt
    (P : Pool ℕ (GenOp Op Yielded) (GenOp.Answer Op.Answer Yielded) Unit Circuit (Option Hop))
    (i : ℕ) (p : Uuid) : Prop :=
  ∃ b, P.locals i = some (some ⟨p, b⟩)

/-- **Only the probe decides.**  In every run in which no probe is admitted beside another hop of
its provider, every outcome recorded while a circuit is half open is the probe's, and a half-open
circuit has one hop in flight at most. -/
theorem probe_decides {options : BreakerOptions}
    {P : Pool ℕ (GenOp Op Yielded) (GenOp.Answer Op.Answer Yielded) Unit Circuit (Option Hop)}
    (hP : (deciding deps cfg).Reachable (.new options) P) (hcrowd : P.shared.crowded = false) :
    (∀ d ∈ P.shared.decisions, d.probe = some d.request) ∧
      ∀ p, P.shared.state p = .half_open → ∀ i j, HopAt P i p → HopAt P j p → i = j := by
  have h0 : Decided (.new options) fun _ => none :=
    ⟨fun i p => by simp [Circuit.new], fun _ p hs => (by cases hs),
      fun _ d hd => absurd hd List.not_mem_nil⟩
  have hD : Decided P.shared P.locals := (System.invariant deciding_preserves h0 hP).1
  refine ⟨hD.decisions hcrowd, fun p hs i j hi hj => ?_⟩
  have hprobe : ∀ k, HopAt P k p → P.shared.probe p = some k := fun k hk =>
    hD.half hcrowd p hs k ((hD.hops k p).2 hk)
  exact Option.some.inj ((hprobe i hi).symm.trans (hprobe j hj))

end

/-! ### A straggler -/

namespace Sample

/-- The first request is answered late, the others fail.  The last one arrives when the circuit
has been open for its time. -/
def stragglerTime (i : ℕ) : ℕ := if i = 0 ∨ i = 5 then 30000 else 0

def stragglerAnswer (i : ℕ) (σ : Circuit) (_ : Option Hop) :
    (e : GenOp Op Yielded) → GenOp.Answer Op.Answer Yielded e × Circuit
  | .op (.breakerAllow p) => σ.allow i p (stragglerTime i)
  | .op (.breakerRecord p ok) => ((), σ.record i p ok (stragglerTime i))
  | .op (.shedAcquire _) => (true, σ)
  | .op (.shedRelease _) => ((), σ.leave i)
  | .op (.execute _ route _) =>
      (if i = 0 then .ok (hello route)
        else .error (.router { code := .provider_unavailable, message := "upstream 503" }), σ)
  | .op e => (tables.answer e, σ)
  | .yield _ => (.next, σ)

theorem stragglerAnswer_sound [Platform] (cfg : ResilienceConfig) :
    System.Sound (deciding deps cfg) stragglerAnswer := by
  intro i σ q e
  cases e with
  | yield y => exact ⟨trivial, rfl⟩
  | op e =>
      have h := tables.lawful_answer e
      cases e with
      | breakerAllow p => exact ⟨trivial, .allow p _⟩
      | breakerRecord p ok => exact ⟨trivial, .record p ok _⟩
      | shedAcquire p => exact ⟨trivial, .granted p⟩
      | shedRelease p => exact ⟨trivial, .release p⟩
      | _ => exact ⟨h, .other _ (by simp [Op.part]) (by simp [Op.part])⟩

/-- What a schedule of six requests makes of the circuits. -/
def circuitPool (schedule : List (Action ℕ (GenOp Op Yielded) (GenOp.Answer Op.Answer Yielded) Unit
    Circuit (Option Hop))) :
    Pool ℕ (GenOp Op Yielded) (GenOp.Answer Op.Answer Yielded) Unit Circuit (Option Hop) :=
  (System.initial (.new {})).exec (Hop.env.withYield Yielded).next stragglerAnswer
    ([.spawn 0 probeRequest none, .spawn 1 probeRequest none, .spawn 2 probeRequest none,
      .spawn 3 probeRequest none, .spawn 4 probeRequest none, .spawn 5 probeRequest none] ++
      schedule)

/-- A schedule in which requests only take steps. -/
def OnlyRuns (schedule : List (Action ℕ (GenOp Op Yielded) (GenOp.Answer Op.Answer Yielded) Unit
    Circuit (Option Hop))) : Prop :=
  ∀ a ∈ schedule, ∃ i n, a = .run i n

theorem circuitPool_reachable {schedule : List (Action ℕ (GenOp Op Yielded)
      (GenOp.Answer Op.Answer Yielded) Unit Circuit (Option Hop))} (h : OnlyRuns schedule) :
    letI := platform
    (deciding deps probeConfig).Reachable (.new {}) (circuitPool schedule) := by
  let := platform
  have hstart : ∀ i σ, (deciding deps probeConfig).start i σ probeRequest none :=
    fun _ _ => ⟨⟨_, .resilient _⟩, rfl⟩
  have hruns : ∀ P : Pool ℕ (GenOp Op Yielded) (GenOp.Answer Op.Answer Yielded) Unit Circuit
      (Option Hop), P.Permits (deciding deps probeConfig) stragglerAnswer schedule := by
    intro P
    induction schedule generalizing P with
    | nil => trivial
    | cons a as ih =>
        obtain ⟨i, n, rfl⟩ := h a List.mem_cons_self
        exact ih (fun a' ha' => h a' (List.mem_cons_of_mem _ ha')) _
  exact System.reachable_exec (stragglerAnswer_sound probeConfig) .refl ⟨rfl, hstart _ _, rfl,
    hstart _ _, rfl, hstart _ _, rfl, hstart _ _, rfl, hstart _ _, rfl, hstart _ _, hruns _⟩

/-- Four requests open the circuit, one after the other, and the last one is its probe. -/
def probeRuns : List (Action ℕ (GenOp Op Yielded) (GenOp.Answer Op.Answer Yielded) Unit Circuit
    (Option Hop)) :=
  [.run 1 100, .run 2 100, .run 3 100, .run 4 100, .run 5 100]

/-- The first request is admitted before the circuit opens, and answered while the probe is in
flight. -/
def stragglerRuns : List (Action ℕ (GenOp Op Yielded) (GenOp.Answer Op.Answer Yielded) Unit Circuit
    (Option Hop)) :=
  [.run 0 9, .run 1 100, .run 2 100, .run 3 100, .run 4 100, .run 5 9, .run 0 100]

theorem probeRuns_onlyRuns : OnlyRuns probeRuns := by
  simp [OnlyRuns, probeRuns]

theorem stragglerRuns_onlyRuns : OnlyRuns stragglerRuns := by
  simp [OnlyRuns, stragglerRuns]

end Sample

theorem sample_probe_decides :
    (∀ d ∈ (Sample.circuitPool Sample.probeRuns).shared.decisions, d.probe = some d.request) ∧
      ∀ p, (Sample.circuitPool Sample.probeRuns).shared.state p = .half_open → ∀ i j,
        HopAt (Sample.circuitPool Sample.probeRuns) i p →
          HopAt (Sample.circuitPool Sample.probeRuns) j p → i = j := by
  let := Sample.platform
  have hcrowd : (Sample.circuitPool Sample.probeRuns).shared.crowded = false := by decide +kernel
  exact probe_decides (Sample.circuitPool_reachable Sample.probeRuns_onlyRuns) hcrowd

/-- The outcome of the first request closes the circuit of another's probe. -/
theorem straggler_closes_circuit :
    letI := Sample.platform
    ¬∀ (P : Pool ℕ (GenOp Op Yielded) (GenOp.Answer Op.Answer Yielded) Unit Circuit (Option Hop)),
      (deciding Sample.deps Sample.probeConfig).Reachable (.new {}) P →
        ∀ d ∈ P.shared.decisions, d.probe = some d.request := by
  let := Sample.platform
  intro h
  have hdecided : (⟨Sample.cloudProviderId, 0, some 5⟩ : Decision) ∈
      (Sample.circuitPool Sample.stragglerRuns).shared.decisions := by decide +kernel
  have := h _ (Sample.circuitPool_reachable Sample.stragglerRuns_onlyRuns) _ hdecided
  cases this

end VibeRouter
