import Mathlib.Algebra.Order.Floor.Ring
import Mathlib.Data.List.Chain
import Mathlib.Data.List.Induction
import Mathlib.Data.Rat.Floor
import VibeRouter.Db.Schema
import VibeRouter.Lib.JsMap

/-! # The health of providers

The monitor keeps the last outcomes of each provider, and a status that it derives from them.  A change of
the status is stored in the row of the provider and then audited, one change of a provider after the
other, while outcomes keep coming and other providers' changes are stored.

`statusOf` says what the status is after the outcomes heard since the start, and `changes` how it got
there.  Over every run (`health_in_order`) the monitor has this status, what is stored and what is audited
follow the changes in their order, and once all is stored the row has the status of the monitor. -/

namespace VibeRouter

/-- `providers.status`. -/
inductive HealthStatus
  | unknown | healthy | degraded | down
deriving DecidableEq

namespace HealthMonitor

/-! ### The monitor -/

/-- The outcomes, newest last. -/
structure Window where
  outcomes : List Bool := []
  status : HealthStatus := .unknown

def WINDOW_SIZE : ℕ := 50
def MIN_SAMPLES : ℕ := 10
def DOWN_THRESHOLD : ℚ := 1 / 2
def DEGRADED_THRESHOLD : ℚ := 1 / 5

def failures (outcomes : List Bool) : ℕ := outcomes.countP fun ok => !ok

def computeStatus (w : Window) : HealthStatus :=
  if w.outcomes.length < MIN_SAMPLES then w.status
  else
    let rate : ℚ := failures w.outcomes / w.outcomes.length
    if DOWN_THRESHOLD ≤ rate then .down
    else if DEGRADED_THRESHOLD ≤ rate then .degraded
    else .healthy

/-- A change of a status that is to be persisted. -/
structure Persist where
  firmId : Uuid
  providerLabel : String
  from_ : HealthStatus
  to_ : HealthStatus

/-- `provider_health_changed`. -/
structure HealthAudit where
  providerId : Uuid
  firmId : Uuid
  provider : String
  from_ : HealthStatus
  to_ : HealthStatus
  errorRate : ℚ
  samples : ℕ

/-- How far the first of the outstanding changes is: the update is under way, with the failures that were
counted before it, or the entry is being written. -/
inductive Phase
  | queued
  | updating (failures : ℕ)
  | auditing (entry : HealthAudit)

/-- `Number(x.toFixed(3))`.  Of the quotients of numbers up to 50 only odd multiples of 1/16 lie between two
texts, and a double holds these as they are. -/
def toFixed3 (x : ℚ) : ℚ := (⌊x * 1000 + 1 / 2⌋ : ℤ) / 1000

/-- The window and the persist chain of a provider, and the status in its row. -/
structure Watched where
  window : Window := {}
  chain : List Persist := []
  phase : Phase := .queued
  status : HealthStatus

/-- `outcomes.push(ok)`, then `shift()` if there are too many. -/
def push (outcomes : List Bool) (ok : Bool) : List Bool :=
  let pushed := outcomes ++ [ok]
  if WINDOW_SIZE < pushed.length then pushed.drop 1 else pushed

def record (v : Watched) (firmId : Uuid) (providerLabel : String) (ok : Bool) : Watched :=
  let pushed : Window := { v.window with outcomes := push v.window.outcomes ok }
  let status := computeStatus pushed
  if status ≠ pushed.status then
    { v with
      window := { pushed with status }
      chain := v.chain ++ [⟨firmId, providerLabel, pushed.status, status⟩] }
  else { v with window := pushed }

/-- What can happen: an outcome is recorded, the first outstanding change of a provider goes on, or a test of
the provider stores its own result. -/
inductive Event
  | record (providerId firmId : Uuid) (providerLabel : String) (ok : Bool)
  | start (providerId : Uuid)
  | updated (providerId : Uuid) (ok : Bool)
  | audited (providerId : Uuid) (ok : Bool)
  | tested (providerId : Uuid) (ok : Bool)
deriving DecidableEq

def Event.provider : Event → Uuid
  | .record p _ _ _ => p
  | .start p => p
  | .updated p _ => p
  | .audited p _ => p
  | .tested p _ => p

/-- `persist` counts the failures and sends the update. -/
def start (v : Watched) : Option Watched :=
  match v.chain, v.phase with
  | _ :: _, .queued => some { v with phase := .updating (failures v.window.outcomes) }
  | _, _ => none

/-- The update has been made and the entry is sent, or the update has failed and ends `persist`. -/
def updated (providerId : Uuid) (v : Watched) (ok : Bool) : Option Watched :=
  match v.chain, v.phase with
  | job :: rest, .updating failures =>
      if ok then
        some { v with
          status := job.to_
          phase := .auditing
            { providerId, firmId := job.firmId, provider := job.providerLabel, from_ := job.from_
              to_ := job.to_, errorRate := toFixed3 (failures / v.window.outcomes.length)
              samples := v.window.outcomes.length } }
      else some { v with chain := rest, phase := .queued }
  | _, _ => none

/-- The entry is written, or not; `persist` has ended. -/
def audited (v : Watched) (ok : Bool) : Option (Watched × List HealthAudit) :=
  match v.chain, v.phase with
  | _ :: rest, .auditing entry =>
      some ({ v with chain := rest, phase := .queued }, if ok then [entry] else [])
  | _, _ => none

/-- `result.ok ? 'healthy' : 'down'`. -/
def testStatus (ok : Bool) : HealthStatus := if ok then .healthy else .down

/-- What an event makes of its provider, and what it adds to the audit log. -/
def Watched.step (v : Watched) : Event → Option (Watched × List HealthAudit)
  | .record _ firmId providerLabel ok => some (HealthMonitor.record v firmId providerLabel ok, [])
  | .start _ => (HealthMonitor.start v).map fun v' => (v', [])
  | .updated p ok => (HealthMonitor.updated p v ok).map fun v' => (v', [])
  | .audited _ ok => HealthMonitor.audited v ok
  | .tested _ ok => some ({ v with status := testStatus ok }, [])

/-- All providers, and the audit log. -/
structure World where
  watched : Uuid → Watched
  audit : List HealthAudit

def step (w : World) (e : Event) : Option World :=
  ((w.watched e.provider).step e).map fun (v, entries) =>
    { watched := Function.update w.watched e.provider v, audit := w.audit ++ entries }

/-- A monitor that has just started. -/
def World.fresh (status : Uuid → HealthStatus) : World where
  watched p := { status := status p }
  audit := []

/-- The runs of a monitor, with what has happened.  The log is what is written since the start. -/
inductive Run (w₀ : World) : List Event → World → Prop
  | start : Run w₀ [] w₀
  | step {es : List Event} {w w' : World} {e : Event} :
      Run w₀ es w → step w e = some w' → Run w₀ (es ++ [e]) w'

/-! ### What the outcomes say -/

/-- The status after these outcomes. -/
def statusOf (heard : List Bool) : HealthStatus :=
  if heard.length < MIN_SAMPLES then .unknown
  else computeStatus { outcomes := heard.drop (heard.length - WINDOW_SIZE) }

/-- The changes of the status while these outcomes came. -/
def changes (heard : List Bool) : List (HealthStatus × HealthStatus) :=
  ((List.range heard.length).map fun n => (statusOf (heard.take n), statusOf (heard.take (n + 1)))).filter
    fun c => c.1 ≠ c.2

theorem changes_snoc (heard : List Bool) (ok : Bool) : changes (heard ++ [ok]) =
    changes heard ++ if statusOf heard ≠ statusOf (heard ++ [ok]) then
      [(statusOf heard, statusOf (heard ++ [ok]))] else [] := by
  have hold : ((List.range heard.length).map fun n =>
      (statusOf ((heard ++ [ok]).take n), statusOf ((heard ++ [ok]).take (n + 1)))) =
      (List.range heard.length).map fun n =>
        (statusOf (heard.take n), statusOf (heard.take (n + 1))) := by
    refine List.map_congr_left fun n hn => ?_
    have hlt := List.mem_range.1 hn
    rw [List.take_append_of_le_length (by omega), List.take_append_of_le_length (by omega)]
  unfold changes
  rw [List.length_append, List.length_singleton, List.range_succ, List.map_append, List.filter_append,
    hold]
  simp [List.take_of_length_le, List.filter_cons]

/-- A change starts where the one before has ended, and the last ends in the status. -/
theorem changes_chain (heard : List Bool) :
    ((.unknown, .unknown) :: changes heard).IsChain (fun a b => a.2 = b.1) ∧
      ∀ c ∈ ((.unknown, .unknown) :: changes heard).getLast?, c.2 = statusOf heard := by
  induction heard using List.reverseRecOn with
  | nil => exact ⟨.singleton _, by rintro _ ⟨⟩; rfl⟩
  | append_singleton heard ok ih =>
      obtain ⟨hchain, hlast⟩ := ih
      rw [changes_snoc]
      split
      · next hne =>
          rw [← List.cons_append]
          refine ⟨List.isChain_append.2 ⟨hchain, .singleton _, ?_⟩, ?_⟩
          · rintro x hx y ⟨⟩
            exact hlast x hx
          · rw [List.getLast?_concat]
            rintro _ ⟨⟩
            rfl
      · next heq =>
          rw [List.append_nil]
          refine ⟨hchain, fun c hc => ?_⟩
          rw [hlast c hc]
          exact not_not.1 heq

/-- The last outcomes. -/
def latest (heard : List Bool) : List Bool := heard.drop (heard.length - WINDOW_SIZE)

theorem length_latest (heard : List Bool) : (latest heard).length = min heard.length WINDOW_SIZE := by
  unfold latest
  rw [List.length_drop]
  omega

theorem push_latest (heard : List Bool) (ok : Bool) :
    push (latest heard) ok = latest (heard ++ [ok]) := by
  have hlength := length_latest heard
  have hsize : WINDOW_SIZE = 50 := rfl
  unfold push
  dsimp only
  rw [List.length_append, List.length_singleton, hlength]
  unfold latest
  rw [List.length_append, List.length_singleton]
  split
  · next hfull =>
      rw [← List.drop_append_of_le_length (by omega), List.drop_drop]
      congr 1
      omega
  · next hfree =>
      rw [← List.drop_append_of_le_length (by omega)]
      congr 1
      omega

/-- The window keeps enough to compute the status. -/
theorem computeStatus_latest (heard : List Bool) (ok : Bool) :
    computeStatus { outcomes := latest (heard ++ [ok]), status := statusOf heard } =
      statusOf (heard ++ [ok]) := by
  have hlength := length_latest (heard ++ [ok])
  have hsize : WINDOW_SIZE = 50 := rfl
  have hmin : MIN_SAMPLES = 10 := rfl
  rw [List.length_append, List.length_singleton] at hlength
  by_cases hfew : heard.length + 1 < MIN_SAMPLES
  · have hwindow : (latest (heard ++ [ok])).length < MIN_SAMPLES := by omega
    have hold : heard.length < MIN_SAMPLES := by omega
    unfold computeStatus statusOf
    rw [if_pos hwindow, if_pos hold, List.length_append, List.length_singleton, if_pos hfew]
  · have hwindow : ¬(latest (heard ++ [ok])).length < MIN_SAMPLES := by omega
    unfold statusOf
    rw [List.length_append, List.length_singleton, if_neg hfew]
    unfold computeStatus
    rw [if_neg hwindow]
    unfold latest at hwindow ⊢
    rw [List.length_append, List.length_singleton] at hwindow ⊢
    rw [if_neg hwindow]

/-- With few outcomes there is no change. -/
theorem changes_few (heard : List Bool) (h : heard.length < MIN_SAMPLES) : changes heard = [] := by
  induction heard using List.reverseRecOn with
  | nil => rfl
  | append_singleton heard ok ih =>
      rw [List.length_append, List.length_singleton] at h
      have hsame : statusOf heard = statusOf (heard ++ [ok]) := by
        unfold statusOf
        rw [List.length_append, List.length_singleton, if_pos h, if_pos (by omega)]
      rw [changes_snoc, ih (by omega), if_neg (not_not.2 hsame)]
      rfl

/-! ### One provider -/

/-- The outcomes of a provider that were recorded. -/
def heard (p : Uuid) (es : List Event) : List Bool :=
  es.filterMap fun
    | .record p' _ _ ok => if p' = p then some ok else none
    | _ => none

/-- The tests of a provider. -/
def tests (p : Uuid) (es : List Event) : List Bool :=
  es.filterMap fun
    | .tested p' ok => if p' = p then some ok else none
    | _ => none

/-- The entries of a provider. -/
def entriesOf (p : Uuid) (audit : List HealthAudit) : List HealthAudit :=
  audit.filter fun a => a.providerId = p

def Persist.change (job : Persist) : HealthStatus × HealthStatus := (job.from_, job.to_)

def HealthAudit.change (a : HealthAudit) : HealthStatus × HealthStatus := (a.from_, a.to_)

/-- A change that has been dealt with: was it stored, and was it audited? -/
structure Done where
  change : HealthStatus × HealthStatus
  stored : Bool
  audited : Bool

/-- What stored a status in the row. -/
inductive Store
  | change (to_ : HealthStatus)
  | test (ok : Bool)

def Store.status : Store → HealthStatus
  | .change to_ => to_
  | .test ok => testStatus ok

def Store.ofChange : Store → Option HealthStatus
  | .change to_ => some to_
  | .test _ => none

def Store.ofTest : Store → Option Bool
  | .change _ => none
  | .test ok => some ok

/-- The change that is stored and not audited yet. -/
def storing (v : Watched) : List HealthStatus :=
  match v.phase, v.chain with
  | .auditing _, job :: _ => [job.to_]
  | _, _ => []

/-- What the entries say of the outcomes: a share, of as many as the monitor looks at. -/
def HealthAudit.Sound (p : Uuid) (a : HealthAudit) : Prop :=
  a.providerId = p ∧ 0 ≤ a.errorRate ∧ a.errorRate ≤ 1 ∧ MIN_SAMPLES ≤ a.samples ∧ a.samples ≤ WINDOW_SIZE

/-- What the first outstanding change has computed so far. -/
def PhaseSound (p : Uuid) (v : Watched) : Prop :=
  match v.phase with
  | .queued => True
  | .updating failures => v.chain ≠ [] ∧ failures ≤ v.window.outcomes.length
  | .auditing entry =>
      (∃ job rest, v.chain = job :: rest ∧ entry.change = job.change) ∧ entry.Sound p

/-- What a run says of a provider, when `done` are the changes that have been dealt with and `stores` is what
was stored in its row. -/
structure Tracks (p : Uuid) (initial : HealthStatus) (es : List Event) (v : Watched)
    (entries : List HealthAudit) (done : List Done) (stores : List Store) : Prop where
  window : v.window = ⟨latest (heard p es), statusOf (heard p es)⟩
  changes : done.map Done.change ++ v.chain.map Persist.change = changes (heard p es)
  status : v.status = (stores.getLast?.map Store.status).getD initial
  stored : stores.filterMap Store.ofChange =
    (done.filter Done.stored).map (fun d => d.change.2) ++ storing v
  tested : stores.filterMap Store.ofTest = tests p es
  audited : entries.map HealthAudit.change = (done.filter Done.audited).map Done.change
  inOrder : ∀ d ∈ done, d.audited = true → d.stored = true
  unstored : ∀ d ∈ done, d.stored = false → .updated p false ∈ es
  unaudited : ∀ d ∈ done, d.stored = true → d.audited = false → .audited p false ∈ es
  phase : PhaseSound p v
  sound : ∀ a ∈ entries, a.Sound p

theorem heard_append (p : Uuid) (es es' : List Event) : heard p (es ++ es') = heard p es ++ heard p es' :=
  List.filterMap_append ..

theorem tests_append (p : Uuid) (es es' : List Event) : tests p (es ++ es') = tests p es ++ tests p es' :=
  List.filterMap_append ..

theorem failures_le (outcomes : List Bool) : failures outcomes ≤ outcomes.length :=
  List.countP_le_length

theorem toFixed3_share {a b : ℕ} (h : a ≤ b) : 0 ≤ toFixed3 (a / b) ∧ toFixed3 (a / b) ≤ 1 := by
  have hfrac : (a : ℚ) / b ≤ 1 := div_le_one_of_le₀ (by exact_mod_cast h) (by positivity)
  have hpos : (0 : ℚ) ≤ a / b := by positivity
  have hlow : (0 : ℤ) ≤ ⌊(a : ℚ) / b * 1000 + 1 / 2⌋ := Int.floor_nonneg.2 (by positivity)
  have hhigh : ⌊(a : ℚ) / b * 1000 + 1 / 2⌋ ≤ 1000 := by
    apply Int.lt_add_one_iff.1
    rw [Int.floor_lt]
    push_cast
    linarith
  unfold toFixed3
  refine ⟨div_nonneg (by exact_mod_cast hlow) (by norm_num), ?_⟩
  rw [div_le_one (by norm_num)]
  exact_mod_cast hhigh

section Steps
variable {p : Uuid} {initial : HealthStatus} {es : List Event} {v : Watched} {entries : List HealthAudit}
  {done : List Done} {stores : List Store}

/-- An outcome may add a change.  What the changes before have come to is as it was. -/
theorem Tracks.record (h : Tracks p initial es v entries done stores) (firmId : Uuid)
    (providerLabel : String) (ok : Bool) :
    Tracks p initial (es ++ [.record p firmId providerLabel ok])
      (HealthMonitor.record v firmId providerLabel ok) entries done stores := by
  have hheard : heard p (es ++ [.record p firmId providerLabel ok]) = heard p es ++ [ok] := by
    rw [heard_append]
    simp [heard]
  have htests : tests p (es ++ [.record p firmId providerLabel ok]) = tests p es := by
    rw [tests_append]
    simp [tests]
  have hwindow : push v.window.outcomes ok = latest (heard p es ++ [ok]) := by
    rw [h.window, push_latest]
  have hcomputed : computeStatus { v.window with outcomes := push v.window.outcomes ok } =
      statusOf (heard p es ++ [ok]) := by
    rw [hwindow, h.window, computeStatus_latest]
  have hsamples : v.window.outcomes.length ≤ (push v.window.outcomes ok).length := by
    rw [hwindow, h.window, length_latest, length_latest, List.length_append, List.length_singleton]
    omega
  have hold : v.window.status = statusOf (heard p es) := by rw [h.window]
  -- one of two: the chain grows at its end, or it stays
  have hrecord : (HealthMonitor.record v firmId providerLabel ok).window =
        ⟨latest (heard p es ++ [ok]), statusOf (heard p es ++ [ok])⟩ ∧
      (∃ more, (HealthMonitor.record v firmId providerLabel ok).chain = v.chain ++ more ∧
        more.map Persist.change = if statusOf (heard p es) ≠ statusOf (heard p es ++ [ok]) then
          [(statusOf (heard p es), statusOf (heard p es ++ [ok]))] else []) ∧
      (HealthMonitor.record v firmId providerLabel ok).phase = v.phase ∧
      (HealthMonitor.record v firmId providerLabel ok).status = v.status := by
    unfold HealthMonitor.record
    dsimp only
    rw [hcomputed, hold, hwindow]
    split
    · next hne => exact ⟨rfl, ⟨_, rfl, by rw [if_pos hne.symm]; rfl⟩, rfl, rfl⟩
    · next heq =>
        rw [not_not] at heq
        refine ⟨by rw [heq], ⟨[], (List.append_nil _).symm, ?_⟩, rfl, rfl⟩
        rw [if_neg (not_not.2 heq.symm)]
        rfl
  obtain ⟨hnewWindow, ⟨more, hchain, hmore⟩, hphase, hstatus⟩ := hrecord
  have hstoring : storing (HealthMonitor.record v firmId providerLabel ok) = storing v := by
    have hphaseSound := h.phase
    unfold PhaseSound at hphaseSound
    unfold storing
    rw [hphase, hchain]
    cases hcase : v.phase with
    | queued => rfl
    | updating failures => rfl
    | auditing entry =>
        rw [hcase] at hphaseSound
        obtain ⟨⟨job, rest, hv, -⟩, -⟩ := hphaseSound
        rw [hv]
        rfl
  refine ⟨?_, ?_, ?_, ?_, ?_, h.audited, h.inOrder, ?_, ?_, ?_, h.sound⟩
  · rw [hheard]
    exact hnewWindow
  · rw [hheard, changes_snoc, ← h.changes, hchain, List.map_append, hmore, List.append_assoc]
  · rw [hstatus]
    exact h.status
  · rw [hstoring]
    exact h.stored
  · rw [htests]
    exact h.tested
  · exact fun d hd hstored => List.mem_append_left _ (h.unstored d hd hstored)
  · exact fun d hd hstored haudited => List.mem_append_left _ (h.unaudited d hd hstored haudited)
  · have hphaseSound := h.phase
    unfold PhaseSound at hphaseSound ⊢
    rw [hphase, hchain, hnewWindow]
    cases hcase : v.phase with
    | queued => trivial
    | updating failures =>
        rw [hcase] at hphaseSound
        rw [hwindow] at hsamples
        exact ⟨fun hnil => hphaseSound.1 (List.append_eq_nil_iff.1 hnil).1, hphaseSound.2.trans hsamples⟩
    | auditing entry =>
        rw [hcase] at hphaseSound
        obtain ⟨⟨job, rest, hv, hchange⟩, hsound⟩ := hphaseSound
        exact ⟨⟨job, rest ++ more, by rw [hv]; rfl, hchange⟩, hsound⟩

/-- Outcomes and tests are as before, and so is what was said of the past. -/
theorem Tracks.later (h : Tracks p initial es v entries done stores) {e : Event}
    (hheard : heard p [e] = []) (htests : tests p [e] = []) :
    Tracks p initial (es ++ [e]) v entries done stores := by
  have hold : heard p (es ++ [e]) = heard p es := by rw [heard_append, hheard, List.append_nil]
  refine ⟨?_, ?_, h.status, h.stored, ?_, h.audited, h.inOrder, ?_, ?_, h.phase, h.sound⟩
  · rw [hold]
    exact h.window
  · rw [hold]
    exact h.changes
  · rw [tests_append, htests, List.append_nil]
    exact h.tested
  · exact fun d hd hstored => List.mem_append_left _ (h.unstored d hd hstored)
  · exact fun d hd hstored haudited => List.mem_append_left _ (h.unaudited d hd hstored haudited)

theorem Tracks.start (h : Tracks p initial es v entries done stores) {v' : Watched}
    (hstart : HealthMonitor.start v = some v') :
    Tracks p initial (es ++ [.start p]) v' entries done stores := by
  unfold HealthMonitor.start at hstart
  split at hstart
  · next job rest hchain hphase =>
      cases hstart
      have hlater := h.later (e := .start p) (by simp [heard]) (by simp [tests])
      have hstoring : storing { v with phase := .updating (failures v.window.outcomes) } = storing v := by
        unfold storing
        rw [hphase]
      exact { hlater with
        stored := by
          rw [hstoring]
          exact hlater.stored
        phase := ⟨by rw [hchain]; exact List.cons_ne_nil _ _, failures_le _⟩ }
  · cases hstart

/-- While there is a change, there are enough outcomes. -/
theorem Tracks.enough (h : Tracks p initial es v entries done stores) (hchain : v.chain ≠ []) :
    MIN_SAMPLES ≤ v.window.outcomes.length := by
  have hsize : WINDOW_SIZE = 50 := rfl
  have hmin : MIN_SAMPLES = 10 := rfl
  by_contra hfew
  rw [h.window, length_latest] at hfew
  have hnone := changes_few (heard p es) (by omega)
  rw [← h.changes, List.append_eq_nil_iff] at hnone
  exact hchain (List.map_eq_nil_iff.1 hnone.2)

theorem Tracks.updated (h : Tracks p initial es v entries done stores) {v' : Watched} {ok : Bool}
    (hupdated : HealthMonitor.updated p v ok = some v') :
    ∃ done' stores', Tracks p initial (es ++ [.updated p ok]) v' entries done' stores' := by
  have hlater := h.later (e := .updated p ok) (by simp [heard]) (by simp [tests])
  unfold HealthMonitor.updated at hupdated
  split at hupdated
  · next job rest failures hchain hphase =>
      have hidle : storing v = [] := by
        unfold storing
        rw [hphase]
      have hstored := hlater.stored
      rw [hidle, List.append_nil] at hstored
      cases ok with
      | true =>
          cases hupdated
          refine ⟨done, stores ++ [.change job.to_], { hlater with
            status := by rw [List.getLast?_concat]; rfl
            stored := ?_, tested := ?_, phase := ?_ }⟩
          · rw [List.filterMap_append, hstored]
            unfold storing
            rw [hchain]
            rfl
          · rw [List.filterMap_append, hlater.tested]
            simp [Store.ofTest]
          · have hsize : WINDOW_SIZE = 50 := rfl
            have hmin : MIN_SAMPLES = 10 := rfl
            have hphaseSound := h.phase
            unfold PhaseSound at hphaseSound ⊢
            rw [hphase] at hphaseSound
            have hshare := toFixed3_share hphaseSound.2
            have henough := h.enough hphaseSound.1
            refine ⟨⟨job, rest, hchain, rfl⟩, rfl, hshare.1, hshare.2, henough, ?_⟩
            dsimp only
            rw [h.window, length_latest]
            omega
      | false =>
          cases hupdated
          refine ⟨done ++ [⟨job.change, false, false⟩], stores, { hlater with
            changes := ?_, stored := ?_, audited := ?_, inOrder := ?_, unstored := ?_, unaudited := ?_
            phase := trivial }⟩
          · rw [List.map_append, List.append_assoc, ← hlater.changes, hchain]
            rfl
          · rw [hstored, List.filter_append]
            simp [storing]
          · rw [hlater.audited, List.filter_append]
            simp
          · intro d hd hauditedD
            rcases List.mem_append.1 hd with hd | hd
            · exact hlater.inOrder d hd hauditedD
            · cases List.mem_singleton.1 hd
              cases hauditedD
          · intro d hd hstoredD
            rcases List.mem_append.1 hd with hd | hd
            · exact hlater.unstored d hd hstoredD
            · simp
          · intro d hd hstoredD hauditedD
            rcases List.mem_append.1 hd with hd | hd
            · exact hlater.unaudited d hd hstoredD hauditedD
            · cases List.mem_singleton.1 hd
              cases hstoredD
  · cases hupdated

theorem Tracks.audit (h : Tracks p initial es v entries done stores) {v' : Watched} {ok : Bool}
    {more : List HealthAudit} (haudited : HealthMonitor.audited v ok = some (v', more)) :
    entriesOf p more = more ∧
      ∃ done', Tracks p initial (es ++ [.audited p ok]) v' (entries ++ more) done' stores := by
  have hlater := h.later (e := .audited p ok) (by simp [heard]) (by simp [tests])
  unfold HealthMonitor.audited at haudited
  split at haudited
  · next job rest entry hchain hphase =>
      have hphaseSound := h.phase
      unfold PhaseSound at hphaseSound
      rw [hphase] at hphaseSound
      obtain ⟨⟨job', rest', hchain', hchange⟩, hsound⟩ := hphaseSound
      obtain ⟨rfl, rfl⟩ : job' = job ∧ rest' = rest := by
        rw [hchain] at hchain'
        simpa [eq_comm] using hchain'
      have hstoring : storing v = [job'.to_] := by
        unfold storing
        rw [hphase, hchain]
      have hown : entriesOf p [entry] = [entry] := by
        simp [entriesOf, hsound.1]
      cases haudited
      refine ⟨?_, done ++ [⟨job'.change, true, ok⟩], { hlater with
        changes := ?_, stored := ?_, audited := ?_, inOrder := ?_, unstored := ?_, unaudited := ?_
        phase := trivial, sound := ?_ }⟩
      · split
        · exact hown
        · rfl
      · rw [List.map_append, List.append_assoc, ← hlater.changes, hchain]
        rfl
      · rw [hlater.stored, hstoring, List.filter_append, List.map_append, List.append_assoc]
        rfl
      · rw [List.map_append, hlater.audited, List.filter_append, List.map_append]
        cases ok with
        | true => simp [hchange]
        | false => simp
      · intro d hd hauditedD
        rcases List.mem_append.1 hd with hd | hd
        · exact hlater.inOrder d hd hauditedD
        · rw [List.mem_singleton.1 hd]
      · intro d hd hstoredD
        rcases List.mem_append.1 hd with hd | hd
        · exact hlater.unstored d hd hstoredD
        · cases List.mem_singleton.1 hd
          cases hstoredD
      · intro d hd hstoredD hauditedD
        rcases List.mem_append.1 hd with hd | hd
        · exact hlater.unaudited d hd hstoredD hauditedD
        · cases List.mem_singleton.1 hd
          cases hauditedD
          simp
      · intro a ha
        rcases List.mem_append.1 ha with ha | ha
        · exact hlater.sound a ha
        · split at ha
          · rw [List.mem_singleton.1 ha]
            exact hsound
          · cases ha
  · cases haudited

theorem Tracks.test (h : Tracks p initial es v entries done stores) (ok : Bool) :
    Tracks p initial (es ++ [.tested p ok]) { v with status := testStatus ok } entries done
      (stores ++ [.test ok]) := by
  have hheard : heard p (es ++ [.tested p ok]) = heard p es := by
    rw [heard_append]
    simp [heard]
  refine ⟨?_, ?_, ?_, ?_, ?_, h.audited, h.inOrder, ?_, ?_, h.phase, h.sound⟩
  · rw [hheard]
    exact h.window
  · rw [hheard]
    exact h.changes
  · rw [List.getLast?_concat]
    rfl
  · rw [List.filterMap_append, h.stored]
    simp [Store.ofChange, storing]
  · rw [List.filterMap_append, h.tested, tests_append]
    simp [Store.ofTest, tests]
  · exact fun d hd hstored => List.mem_append_left _ (h.unstored d hd hstored)
  · exact fun d hd hstored haudited => List.mem_append_left _ (h.unaudited d hd hstored haudited)

/-- Outcomes of another provider change nothing. -/
theorem Tracks.other (h : Tracks p initial es v entries done stores) {e : Event} (hother : e.provider ≠ p) :
    Tracks p initial (es ++ [e]) v entries done stores := by
  apply h.later
  · cases e <;> simp_all [heard, Event.provider]
  · cases e <;> simp_all [tests, Event.provider]

/-- What an event of the provider makes of it. -/
theorem Tracks.step (h : Tracks p initial es v entries done stores) {e : Event} (hown : e.provider = p)
    {v' : Watched} {more : List HealthAudit} (hstep : v.step e = some (v', more)) :
    entriesOf p more = more ∧
      ∃ done' stores', Tracks p initial (es ++ [e]) v' (entries ++ more) done' stores' := by
  cases e with
  | record p' firmId providerLabel ok =>
      cases hown
      cases hstep
      refine ⟨rfl, done, stores, ?_⟩
      rw [List.append_nil]
      exact h.record firmId providerLabel ok
  | start p' =>
      cases hown
      obtain ⟨v'', hstart, heq⟩ := Option.map_eq_some_iff.1 hstep
      cases heq
      refine ⟨rfl, done, stores, ?_⟩
      rw [List.append_nil]
      exact h.start hstart
  | updated p' ok =>
      cases hown
      obtain ⟨v'', hupdated, heq⟩ := Option.map_eq_some_iff.1 hstep
      cases heq
      obtain ⟨done', stores', h'⟩ := h.updated hupdated
      refine ⟨rfl, done', stores', ?_⟩
      rw [List.append_nil]
      exact h'
  | audited p' ok =>
      cases hown
      obtain ⟨hmore, done', h'⟩ := h.audit hstep
      exact ⟨hmore, done', stores, h'⟩
  | tested p' ok =>
      cases hown
      cases hstep
      refine ⟨rfl, done, stores ++ [.test ok], ?_⟩
      rw [List.append_nil]
      exact h.test ok

end Steps

/-! ### All providers -/

theorem tracks_fresh (p : Uuid) (status : Uuid → HealthStatus) :
    Tracks p (status p) [] ((World.fresh status).watched p) [] [] [] := by
  refine ⟨rfl, rfl, rfl, rfl, rfl, rfl, ?_, ?_, ?_, trivial, ?_⟩ <;> simp

theorem entriesOf_append (p : Uuid) (a b : List HealthAudit) :
    entriesOf p (a ++ b) = entriesOf p a ++ entriesOf p b :=
  List.filter_append ..

theorem entriesOf_other {p q : Uuid} {more : List HealthAudit} (hown : entriesOf q more = more)
    (hne : q ≠ p) : entriesOf p more = [] := by
  unfold entriesOf at hown ⊢
  rw [List.filter_eq_self] at hown
  rw [List.filter_eq_nil_iff]
  intro a ha hp
  exact hne ((of_decide_eq_true (hown a ha)).symm.trans (of_decide_eq_true hp))

theorem Run.tracks {status : Uuid → HealthStatus} {es : List Event} {w : World}
    (hrun : Run (World.fresh status) es w) (p : Uuid) :
    ∃ done stores, Tracks p (status p) es (w.watched p) (entriesOf p w.audit) done stores := by
  induction hrun generalizing p with
  | start => exact ⟨[], [], tracks_fresh p status⟩
  | @step es w w' e hrun hstep ih =>
      obtain ⟨⟨v, more⟩, hv, rfl⟩ := Option.map_eq_some_iff.1 hstep
      obtain ⟨done, stores, htracks⟩ := ih e.provider
      obtain ⟨hown, done', stores', hnext⟩ := htracks.step rfl hv
      dsimp only
      rw [entriesOf_append]
      by_cases hp : p = e.provider
      · subst hp
        rw [Function.update_self, hown]
        exact ⟨done', stores', hnext⟩
      · obtain ⟨done, stores, hkept⟩ := ih p
        rw [Function.update_of_ne hp, entriesOf_other hown (Ne.symm hp), List.append_nil]
        exact ⟨done, stores, hkept.other (Ne.symm hp)⟩

/-! ### What is stored -/

/-- The row has what was stored last: results of tests, and changes of the status between them. -/
def Holds (initial row : HealthStatus) (tests : List Bool) (changed : List HealthStatus) : Prop :=
  ∃ stores : List Store, row = (stores.getLast?.map Store.status).getD initial ∧
    stores.filterMap Store.ofTest = tests ∧ stores.filterMap Store.ofChange = changed

theorem map_status_untested (stores : List Store) (h : stores.filterMap Store.ofTest = []) :
    stores.map Store.status = stores.filterMap Store.ofChange := by
  induction stores with
  | nil => rfl
  | cons store stores ih =>
      cases store with
      | change to_ =>
          have hrest : stores.filterMap Store.ofTest = [] := by simpa [Store.ofTest] using h
          simp [Store.ofChange, Store.status, ih hrest]
      | test ok => simp [Store.ofTest] at h

/-- Where nothing was tested, the row has the last change. -/
theorem Holds.untested {initial row : HealthStatus} {changed : List HealthStatus}
    (h : Holds initial row [] changed) : row = changed.getLast?.getD initial := by
  obtain ⟨stores, hrow, htests, hchanged⟩ := h
  rw [hrow, ← hchanged, ← map_status_untested stores htests, List.getLast?_map]

/-- The last change has led to the status. -/
theorem getLast_changes (heard : List Bool) (initial : HealthStatus) :
    ((changes heard).map Prod.snd).getLast?.getD initial =
      if changes heard = [] then initial else statusOf heard := by
  obtain ⟨-, hlast⟩ := changes_chain heard
  cases hcase : changes heard with
  | nil => rfl
  | cons c cs =>
      rw [hcase, List.getLast?_cons_cons, List.getLast?_eq_some_getLast (List.cons_ne_nil c cs)] at hlast
      rw [if_neg (List.cons_ne_nil c cs), List.getLast?_map,
        List.getLast?_eq_some_getLast (List.cons_ne_nil c cs)]
      exact hlast _ rfl

section Stored
variable {p : Uuid} {initial : HealthStatus} {es : List Event} {v : Watched} {entries : List HealthAudit}
  {done : List Done} {stores : List Store}

/-- What is being audited is the first outstanding change. -/
theorem storing_eq (h : PhaseSound p v) :
    ∃ cs : List (HealthStatus × HealthStatus), storing v = cs.map Prod.snd ∧
      cs.Sublist (v.chain.map Persist.change) := by
  unfold PhaseSound at h
  unfold storing
  cases hphase : v.phase with
  | queued => exact ⟨[], rfl, List.nil_sublist _⟩
  | updating failures => exact ⟨[], rfl, List.nil_sublist _⟩
  | auditing entry =>
      rw [hphase] at h
      obtain ⟨⟨job, rest, hchain, -⟩, -⟩ := h
      rw [hchain]
      exact ⟨[job.change], rfl, (List.nil_sublist _).cons_cons _⟩

/-- What was audited was stored. -/
theorem Tracks.audited_stored (h : Tracks p initial es v entries done stores) :
    (entries.map HealthAudit.change).Sublist ((done.filter Done.stored).map Done.change) := by
  have hfilter : done.filter Done.audited = (done.filter Done.stored).filter Done.audited := by
    rw [List.filter_filter]
    refine List.filter_congr fun d hd => ?_
    cases haudited : d.audited with
    | false => rfl
    | true => rw [h.inOrder d hd haudited]; rfl
  rw [h.audited, hfilter]
  exact (List.filter_sublist ..).map _

theorem Tracks.holds (h : Tracks p initial es v entries done stores) :
    ∃ stored : List (HealthStatus × HealthStatus), stored.Sublist (HealthMonitor.changes (heard p es)) ∧
      (entries.map HealthAudit.change).Sublist stored ∧
      Holds initial v.status (tests p es) (stored.map Prod.snd) := by
  obtain ⟨cs, hstoring, hcs⟩ := storing_eq h.phase
  refine ⟨(done.filter Done.stored).map Done.change ++ cs, ?_, ?_, stores, h.status, h.tested, ?_⟩
  · rw [← h.changes]
    exact ((List.filter_sublist ..).map _).append hcs
  · exact h.audited_stored.trans (List.sublist_append_left _ _)
  · rw [h.stored, hstoring, List.map_append, List.map_map]
    rfl

/-- Where no update has failed and nothing is outstanding, all changes are stored. -/
theorem Tracks.settled (h : Tracks p initial es v entries done stores) (hflushed : v.chain = [])
    (hupdates : .updated p false ∉ es) :
    Holds initial v.status (tests p es) ((HealthMonitor.changes (heard p es)).map Prod.snd) ∧
      (.audited p false ∉ es → entries.map HealthAudit.change = HealthMonitor.changes (heard p es)) := by
  have hstored : ∀ d ∈ done, d.stored = true := by
    intro d hd
    by_contra hnot
    exact hupdates (h.unstored d hd (by simpa using hnot))
  have hall : done.map Done.change = HealthMonitor.changes (heard p es) := by
    rw [← h.changes, hflushed, List.map_nil, List.append_nil]
  have hidle : storing v = [] := by
    unfold storing
    rw [hflushed]
    cases v.phase <;> rfl
  refine ⟨⟨stores, h.status, h.tested, ?_⟩, fun haudits => ?_⟩
  · rw [h.stored, hidle, List.append_nil, List.filter_eq_self.2 hstored, ← hall, List.map_map]
    rfl
  · have haudited : ∀ d ∈ done, d.audited = true := by
      intro d hd
      by_contra hnot
      exact haudits (h.unaudited d hd (hstored d hd) (by simpa using hnot))
    rw [h.audited, List.filter_eq_self.2 haudited, hall]

end Stored

/-- **Changes land in order.**  In every run, with the outcomes of all providers and the updates and entries
of their changes in any order: the monitor has the status of the outcomes heard, what was stored are
changes of this status in their order, between them the results of tests, and what was audited are
changes that were stored, in their order.  Once all changes of a provider are dealt with and no update has
failed, all are stored, and audited if no entry has failed; and if it was not tested either, the row
has the status of the monitor as soon as this has changed. -/
theorem health_in_order {status : Uuid → HealthStatus} {es : List Event} {w : World}
    (hrun : Run (World.fresh status) es w) (p : Uuid) :
    (w.watched p).window.status = statusOf (heard p es) ∧
    (∃ stored : List (HealthStatus × HealthStatus), stored.Sublist (changes (heard p es)) ∧
      ((entriesOf p w.audit).map HealthAudit.change).Sublist stored ∧
      Holds (status p) (w.watched p).status (tests p es) (stored.map Prod.snd)) ∧
    (∀ a ∈ entriesOf p w.audit, a.Sound p) ∧
    ((w.watched p).chain = [] → .updated p false ∉ es →
      Holds (status p) (w.watched p).status (tests p es) ((changes (heard p es)).map Prod.snd) ∧
      (.audited p false ∉ es → (entriesOf p w.audit).map HealthAudit.change = changes (heard p es)) ∧
      (tests p es = [] → (w.watched p).status =
        if changes (heard p es) = [] then status p else statusOf (heard p es))) := by
  obtain ⟨done, stores, htracks⟩ := hrun.tracks p
  refine ⟨by rw [htracks.window], htracks.holds, htracks.sound, fun hflushed hupdates => ?_⟩
  obtain ⟨hholds, haudits⟩ := htracks.settled hflushed hupdates
  refine ⟨hholds, haudits, fun huntested => ?_⟩
  rw [huntested] at hholds
  rw [hholds.untested, getLast_changes]

/-! ### A provider that recovers while its failure is stored -/

namespace Sample

def recovering : Uuid := ⟨"c0ffee01", by decide⟩

/-- Ten failures; while they are stored, eleven outcomes are good. -/
def recovery : List Event :=
  List.replicate 10 (.record recovering recovering "p" false) ++ [.start recovering] ++
    List.replicate 11 (.record recovering recovering "p" true) ++
    [.updated recovering true, .audited recovering true, .start recovering, .updated recovering true,
      .audited recovering true]

end Sample

theorem run_of_foldlM {w₀ w w' : World} {es es' : List Event} (hrun : Run w₀ es' w)
    (h : es.foldlM step w = some w') : Run w₀ (es' ++ es) w' := by
  induction es generalizing es' w with
  | nil =>
      cases h
      rw [List.append_nil]
      exact hrun
  | cons e es ih =>
      obtain ⟨w₁, hstep, hrest⟩ := Option.bind_eq_some_iff.1 h
      rw [← List.singleton_append, ← List.append_assoc]
      exact ih (hrun.step hstep) hrest

open HealthMonitor.Sample in
theorem sample_health_in_order : ∃ w, Run (World.fresh fun _ => .unknown) recovery w ∧
    (w.watched recovering).status = .degraded ∧
    (entriesOf recovering w.audit).map HealthAudit.change =
      [(.unknown, .down), (.down, .degraded)] := by
  have hflushed : ((recovery.foldlM step (World.fresh fun _ => .unknown)).map
      fun w => (w.watched recovering).chain.length) = some 0 := by decide +kernel
  obtain ⟨w, hw, hchain⟩ := Option.map_eq_some_iff.1 hflushed
  have hrun := run_of_foldlM (.start : Run (World.fresh fun _ => .unknown) [] _) hw
  rw [List.nil_append] at hrun
  obtain ⟨-, -, -, hsettled⟩ := health_in_order hrun recovering
  obtain ⟨-, haudits, hstatus⟩ := hsettled (List.length_eq_zero_iff.1 hchain) (by decide +kernel)
  refine ⟨w, hrun, ?_, ?_⟩
  · rw [hstatus (by decide +kernel)]
    decide +kernel
  · rw [haudits (by decide +kernel)]
    decide +kernel

end HealthMonitor
end VibeRouter
