import VibeRouter.AdminApi.Settings
import VibeRouter.Lib.Pool
import Mathlib.Data.List.Permutation

/-! # Lost updates of settings

Requests to the routes of the settings, interleaved statement by statement over the table of
firms.  An update writes what it has read, merged with its body; what others have written in
between is not in it.

`settings_kept_iff`: after two updates of different keys both changes are stored, and every other
key is as it was, exactly when each of the two has found the keys it does not set as it had read
them, and no other key was stored as `null`. -/

namespace VibeRouter

open Effects ReadWrite

namespace Settings

variable {ι : Type} [DecidableEq ι]

/-! ### Interleaved requests -/

/-- A write: its request, the firm, and the settings that the request had read and those that it
found. -/
structure Update (ι : Type) where
  author : ι
  firmId : Uuid
  read : SettingsObject
  found : SettingsObject

/-- The table, and what has been written so far, the newest first. -/
structure Shared (ι : Type) where
  firms : List FirmRecord
  updates : List (Update ι)

/-- What a request has done. -/
structure Progress where
  request : Request
  session : Option SessionData := none
  read : Option (Uuid × SettingsObject) := none
  /-- Whether the update has succeeded, once it is answered. -/
  updated : Option Bool := none

namespace Progress

def next (q : Progress) : (e : SettingsOp) → e.Answer → Progress
  | .getSession _, session => { q with session }
  | .findFirm id, .ok firm => { q with read := some (id, settingsOf firm) }
  | .updateFirm _ _, answer => { q with updated := some answer.isOk }
  | _, _ => q

end Progress

namespace Shared

variable (s : Shared ι) (i : ι) (q : Progress)

/-- The request `i` updates a row. -/
def sets (id : Uuid) (settings : SettingsObject) : Shared ι where
  firms := Rows.update FirmRecord.id id (fun firm => { firm with settings }) s.firms
  updates :=
    { author := i
      firmId := id
      read := (q.read.map Prod.snd).getD JsMap.empty
      found := settingsOf (Rows.find FirmRecord.id id s.firms) } :: s.updates

/-- The answers to an operation, and the state after.  A statement may be rejected; an update may
be rejected after it has been carried out. -/
def Handles : (e : SettingsOp) → e.Answer → Shared ι → Prop
  | .findFirm id, answer, s' => s' = s ∧
      ∀ firm, answer = .ok firm → firm = Rows.find FirmRecord.id id s.firms
  | .updateFirm id settings, answer, s' =>
      s' = s.sets i q id settings ∨ (∃ e, answer = .error e) ∧ s' = s
  | _, _, s' => s' = s

end Shared

abbrev SettingsPool (ι : Type) : Type :=
  Pool ι SettingsOp SettingsOp.Answer (Except Thrown Reply × Unit) (Shared ι) Progress

/-- The requests, each by its name, in any order of their operations. -/
def interleaved (requests : ι → Request) :
    System ι SettingsOp SettingsOp.Answer (Except Thrown Reply × Unit) (Shared ι) Progress where
  env := { allows := fun _ _ _ => True, next := Progress.next }
  handler i s q e r s' := s.Handles i q e r s'
  start i _ p q := p = (requests i).run () ∧ q = { request := requests i }
  drift _ _ := False

def opening (firms : List FirmRecord) : Shared ι := ⟨firms, []⟩

/-- The keys that an update sets. -/
def dataOf (req : Request) : SettingsObject := (settingsSchema req.body).toOption.getD JsMap.empty

/-- A setting; one that is `null` is not set. -/
def setting (settings : SettingsObject) (k : JsString) : Option Json :=
  (settings.get k).filter fun v => !v.isNull

/-- The keys that the update does not set are as its request had read them. -/
def Update.Undisturbed (requests : ι → Request) (u : Update ι) : Prop :=
  ∀ k, (dataOf (requests u.author)).get k = none → setting u.read k = setting u.found k

/-- The request `i` has returned, as an update of a firm that sets `data`. -/
structure Returned (requests : ι → Request) (P : SettingsPool ι) (i : ι) (firmId : Uuid)
    (data : SettingsObject) : Prop where
  body : settingsSchema (requests i).body = .ok data
  reply : ∃ merged q session, P.thread i = some (.ret (.ok (.updated merged), ()), q) ∧
    q.session = some session ∧ session.firmId = firmId

/-- Both changes are stored, and every other key is as it was. -/
structure Kept (before data₁ data₂ after : SettingsObject) : Prop where
  first : ∀ k v, data₁.get k = some v → after.get k = if v.isNull then none else some v
  second : ∀ k v, data₂.get k = some v → after.get k = if v.isNull then none else some v
  others : ∀ k, data₁.get k = none → data₂.get k = none → after.get k = before.get k

/-! ### What a request does -/

variable {requests : ι → Request} {firms : List FirmRecord}

/-- What a request has made sure of before it performs an operation. -/
def Prepared (q : Progress) : SettingsOp → Prop
  | .findFirm _ => q.updated = none
  | .updateFirm id settings => q.updated = none ∧ ∃ read, q.read = some (id, read) ∧
      settings = merge read (dataOf q.request)
  | _ => True

def Rely (_ : Progress) (e : SettingsOp) (_ : e.Answer) : Prop := True

/-- An update that returns has succeeded, on the firm of its session. -/
def Succeeds (r : Except Thrown Reply × Unit) (q : Progress) : Prop :=
  ∀ merged, r.1 = .ok (.updated merged) → q.updated = some true ∧
    ∃ session read, q.session = some session ∧ q.read = some (session.firmId, read)

/-- The surroundings of one request. -/
abbrev view (requests : ι → Request) : Env SettingsOp SettingsOp.Answer Progress :=
  (interleaved requests).view Rely

variable {q : Progress} {u : Unit}

omit [DecidableEq ι] in
theorem getSettings_prepared {session : SessionData} (hq : q.updated = none) :
    (getSettings session).wp (view requests) Prepared (fun r _ => Succeeds (r, ())) u q := by
  unfold getSettings
  simp only [op, await, Code.wp_bind, Code.wp_perform, Code.wp_ofExcept]
  refine ⟨hq, fun firm _ => ?_⟩
  cases firm with
  | error e => rintro merged ⟨⟩
  | ok firm => rintro merged ⟨⟩

omit [DecidableEq ι] in
theorem putSettings_prepared {req : Request} {session : SessionData} (hreq : q.request = req)
    (hsession : q.session = some session) (hq : q.updated = none) :
    (putSettings req session).wp (view requests) Prepared (fun r _ => Succeeds (r, ())) u q := by
  unfold putSettings
  cases hbody : settingsSchema req.body with
  | error issue => rintro merged ⟨⟩
  | ok data =>
      have hdata : data = dataOf q.request := by
        unfold dataOf
        rw [hreq, hbody]
        rfl
      simp only [op, await, Code.wp_bind, Code.wp_perform, Code.wp_ofExcept]
      refine ⟨hq, fun firm _ => ?_⟩
      cases firm with
      | error e => rintro merged ⟨⟩
      | ok firm =>
          refine ⟨⟨hq, settingsOf firm, rfl, by rw [hdata]; rfl⟩, fun answer _ => ?_⟩
          cases answer with
          | error e => rintro merged ⟨⟩
          | ok _ =>
              refine ⟨trivial, fun _ _ => ⟨trivial, fun _ _ => ?_⟩⟩
              rintro merged -
              exact ⟨rfl, session, settingsOf firm, hsession, rfl⟩

omit [DecidableEq ι] in
/-- A request meets `Prepared` from its start. -/
theorem run_prepared (req : Request) :
    (req.run).wp (view requests) Prepared (fun r _ => Succeeds (r, ())) u { request := req } := by
  unfold Request.run requireAdmin
  simp only [op, Code.wp_bind, Code.wp_perform]
  refine ⟨trivial, fun answer _ => ?_⟩
  cases hsession : answer.filter fun session => session.role = .admin with
  | none => rintro merged ⟨⟩
  | some session =>
      have hanswer : answer = some session := (Option.filter_eq_some_iff.1 hsession).1
      dsimp only
      split
      · rintro merged ⟨⟩
      · cases req.method with
        | get => exact getSettings_prepared rfl
        | put => exact putSettings_prepared rfl hanswer rfl

/-! ### The writes of a firm -/

/-- The write of the row by its keys. -/
def Update.write (requests : ι → Request) (u : Update ι) : Write (JsString → Option Json) where
  read := u.read.get
  found := u.found.get
  change := patch (fun v => !v.isNull) (dataOf (requests u.author)).get

/-- The writes of the row of a firm, the newest first. -/
def Shared.writes (s : Shared ι) (requests : ι → Request) (id : Uuid) :
    List (Write (JsString → Option Json)) :=
  (s.updates.filter fun u => u.firmId = id).map (Update.write requests)

omit [DecidableEq ι] in
theorem undisturbed_iff {u : Update ι} :
    u.Undisturbed requests ↔ (u.write requests).Fresh := by
  have hchange : (u.write requests).change =
      patch (fun v => !v.isNull) (dataOf (requests u.author)).get := rfl
  rw [fresh_iff hchange]
  rfl

/-- What holds between the tables and the requests: the settings of a firm are a cell that the
requests have read and written back. -/
structure Sound (requests : ι → Request) (firms : List FirmRecord) (s : Shared ι)
    (L : ι → Option Progress) : Prop where
  request : ∀ i q, L i = some q → q.request = requests i
  read : ∀ i q id settings, L i = some q → q.read = some (id, settings) →
    ∀ firm, Rows.find FirmRecord.id id firms = some firm →
      Had firm.settings.get (s.writes requests id) settings.get
  author : ∀ u ∈ s.updates, ∃ q, L u.author = some q ∧ q.updated ≠ none ∧
    q.read = some (u.firmId, u.read)
  written : ∀ i q, L i = some q → q.updated = some true → ∃ u ∈ s.updates, u.author = i
  once : (s.updates.map Update.author).Nodup
  stored : ∀ id firm, Rows.find FirmRecord.id id firms = some firm →
    History firm.settings.get (s.writes requests id) ∧
      ∃ now, Rows.find FirmRecord.id id s.firms = some now ∧
        now.settings.get = cell firm.settings.get (s.writes requests id)

variable {s : Shared ι} {L : ι → Option Progress} {i : ι} {q' : Progress}

omit [DecidableEq ι] in
theorem Sound.not_author (h : Sound requests firms s L) (hi : L i = some q)
    (hq : q.updated = none) : ∀ u ∈ s.updates, u.author ≠ i := by
  rintro u hu rfl
  obtain ⟨q', hq', hupdated, -⟩ := h.author u hu
  rw [hi] at hq'
  cases hq'
  exact hupdated hq

/-- A request makes progress and the table stays as it is. -/
theorem Sound.progress (h : Sound requests firms s L) (hrequest : q'.request = requests i)
    (hread : ∀ id settings, q'.read = some (id, settings) →
      ∀ firm, Rows.find FirmRecord.id id firms = some firm →
        Had firm.settings.get (s.writes requests id) settings.get)
    (hauthor : ∀ u ∈ s.updates, u.author = i → q'.updated ≠ none ∧
      q'.read = some (u.firmId, u.read))
    (hwritten : q'.updated = some true → ∃ u ∈ s.updates, u.author = i) :
    Sound requests firms s (Function.update L i (some q')) where
  request := by
    intro j q hj
    by_cases hji : j = i
    · subst hji
      rw [Function.update_self] at hj
      cases hj
      exact hrequest
    · rw [Function.update_of_ne hji] at hj
      exact h.request j q hj
  read := by
    intro j q id settings hj
    by_cases hji : j = i
    · subst hji
      rw [Function.update_self] at hj
      cases hj
      exact hread id settings
    · rw [Function.update_of_ne hji] at hj
      exact h.read j q id settings hj
  author := by
    intro u hu
    by_cases hui : u.author = i
    · refine ⟨q', ?_, hauthor u hu hui⟩
      rw [hui, Function.update_self]
    · rw [Function.update_of_ne hui]
      exact h.author u hu
  written := by
    intro j q hj hupdated
    by_cases hji : j = i
    · subst hji
      rw [Function.update_self] at hj
      cases hj
      exact hwritten hupdated
    · rw [Function.update_of_ne hji] at hj
      exact h.written j q hj hupdated
  once := h.once
  stored := h.stored

/-- What a request keeps when it has read and written nothing. -/
theorem Sound.idle (h : Sound requests firms s L) (hi : L i = some q)
    (hrequest : q'.request = q.request) (hread : q'.read = q.read)
    (hupdated : q'.updated = q.updated) :
    Sound requests firms s (Function.update L i (some q')) := by
  apply h.progress
  · rw [hrequest, h.request i q hi]
  · intro id settings hsettings
    rw [hread] at hsettings
    exact h.read i q id settings hi hsettings
  · intro u hu hui
    obtain ⟨q₀, hq₀, hu'⟩ := h.author u hu
    rw [hui, hi] at hq₀
    cases hq₀
    rw [hupdated, hread]
    exact hu'
  · rw [hupdated]
    exact h.written i q hi

/-- The settings read are those stored. -/
theorem Sound.find (h : Sound requests firms s L) (hi : L i = some q) (hq : q.updated = none)
    (id : Uuid) :
    Sound requests firms s (Function.update L i
      (some { q with read := some (id, settingsOf (Rows.find FirmRecord.id id s.firms)) })) := by
  apply h.progress
  · exact h.request i q hi
  · rintro id' settings hread firm hfirm
    cases hread
    obtain ⟨-, now, hnow, hcell⟩ := h.stored id firm hfirm
    rw [hnow]
    show Had _ _ now.settings.get
    rw [hcell]
    exact had_cell _ _
  · intro u hu hui
    exact absurd hui (h.not_author hi hq u hu)
  · intro hupdated
    rw [hq] at hupdated
    cases hupdated

omit [DecidableEq ι] in
theorem writes_sets (id id' : Uuid) (settings : SettingsObject) :
    (s.sets i q id settings).writes requests id' =
      if id = id' then Update.write requests
        ⟨i, id, (q.read.map Prod.snd).getD JsMap.empty,
          settingsOf (Rows.find FirmRecord.id id s.firms)⟩ :: s.writes requests id'
      else s.writes requests id' := by
  unfold Shared.writes Shared.sets
  by_cases hid : id = id'
  · rw [if_pos hid, List.filter_cons_of_pos (by simpa using hid), List.map_cons]
  · rw [if_neg hid, List.filter_cons_of_neg (by simpa using hid)]

/-- An update writes what it has read with its keys set. -/
theorem Sound.sets {id : Uuid} {settings : SettingsObject} (h : Sound requests firms s L)
    (hi : L i = some q) (hprepared : Prepared q (.updateFirm id settings)) (ok : Bool) :
    Sound requests firms (s.sets i q id settings)
      (Function.update L i (some { q with updated := some ok })) := by
  obtain ⟨hq, read, hread, rfl⟩ := hprepared
  have hhad : ∀ id' first settings, Had first (s.writes requests id') settings →
      Had first ((s.sets i q id (merge read (dataOf q.request))).writes requests id') settings := by
    intro id' first settings hhad
    rw [writes_sets]
    split
    · exact hhad.cons
    · exact hhad
  constructor
  · intro j q₀ hj
    by_cases hji : j = i
    · subst hji
      rw [Function.update_self] at hj
      cases hj
      exact h.request j q hi
    · rw [Function.update_of_ne hji] at hj
      exact h.request j q₀ hj
  · intro j q₀ id' settings hj hsettings firm hfirm
    apply hhad id'
    by_cases hji : j = i
    · subst hji
      rw [Function.update_self] at hj
      cases hj
      exact h.read j q id' settings hi hsettings firm hfirm
    · rw [Function.update_of_ne hji] at hj
      exact h.read j q₀ id' settings hj hsettings firm hfirm
  · intro u hu
    rcases List.mem_cons.1 hu with rfl | hu
    · refine ⟨_, Function.update_self .., Option.some_ne_none ok, ?_⟩
      show q.read = some (id, (q.read.map Prod.snd).getD JsMap.empty)
      rw [hread]
      rfl
    · rw [Function.update_of_ne (h.not_author hi hq u hu)]
      exact h.author u hu
  · intro j q₀ hj hupdated
    by_cases hji : j = i
    · exact ⟨_, List.mem_cons_self .., hji.symm⟩
    · rw [Function.update_of_ne hji] at hj
      obtain ⟨u, hu, huj⟩ := h.written j q₀ hj hupdated
      exact ⟨u, List.mem_cons_of_mem _ hu, huj⟩
  · refine List.nodup_cons.2 ⟨?_, h.once⟩
    intro hmem
    obtain ⟨u, hu, hui⟩ := List.mem_map.1 hmem
    exact h.not_author hi hq u hu hui
  · intro id' firm hfirm
    obtain ⟨hhistory, now, hnow, hcell⟩ := h.stored id' firm hfirm
    have hfind : Rows.find FirmRecord.id id' (s.sets i q id (merge read (dataOf q.request))).firms =
        some (if now.id = id then { now with settings := merge read (dataOf q.request) } else now) := by
      show Rows.find FirmRecord.id id' (Rows.update ..) = _
      rw [Rows.find_update (by intro row; rfl), hnow]
      rfl
    rw [hfind, writes_sets]
    have hnowId : now.id = id' := (Rows.mem_of_find hnow).2
    by_cases hid : id = id'
    · subst hid
      rw [if_pos rfl, if_pos hnowId]
      refine ⟨hhistory.cons ?_ ?_, _, rfl, ?_⟩
      · show (settingsOf (Rows.find FirmRecord.id id s.firms)).get = _
        rw [hnow]
        exact hcell
      · show Had _ _ ((q.read.map Prod.snd).getD JsMap.empty).get
        rw [hread]
        exact h.read i q id read hi hread firm hfirm
      · show (merge read (dataOf q.request)).get = patch _ (dataOf (requests i)).get
          ((q.read.map Prod.snd).getD JsMap.empty).get
        rw [hread, merge_get, h.request i q hi]
        rfl
    · rw [if_neg hid, if_neg fun heq => hid (heq.symm.trans hnowId)]
      exact ⟨hhistory, now, rfl, hcell⟩

theorem sound_act {e : SettingsOp} {r : e.Answer} {s' : Shared ι} (h : Sound requests firms s L)
    (hi : L i = some q) (hprepared : Prepared q e) (hhandles : s.Handles i q e r s') :
    Sound requests firms s' (Function.update L i (some (q.next e r))) := by
  cases e with
  | findFirm id =>
      obtain ⟨rfl, hanswer⟩ := hhandles
      cases r with
      | error e => exact h.idle hi rfl rfl rfl
      | ok firm =>
          rw [hanswer firm rfl]
          exact h.find hi hprepared id
  | updateFirm id settings =>
      obtain rfl | ⟨⟨e, rfl⟩, rfl⟩ := hhandles
      · exact h.sets hi hprepared _
      · apply h.progress
        · exact h.request i q hi
        · intro id' read hread
          exact h.read i q id' read hi hread
        · intro u hu hui
          exact absurd hui (h.not_author hi hprepared.1 u hu)
        · rintro ⟨⟩
  | getSession cookie =>
      cases hhandles
      exact h.idle hi rfl rfl rfl
  | invalidate firmId =>
      cases hhandles
      exact h.idle hi rfl rfl rfl
  | audit entry =>
      cases hhandles
      exact h.idle hi rfl rfl rfl

theorem interleaved_preserves :
    System.Preserves (interleaved requests) Rely Prepared Succeeds (Sound requests firms) where
  start_wp := by
    rintro i s p q ⟨rfl, rfl⟩
    exact run_prepared (requests i)
  spawn := by
    rintro i s p q L h hnone ⟨rfl, rfl⟩
    apply h.progress
    · rfl
    · rintro id settings ⟨⟩
    · rintro u hu rfl
      obtain ⟨q, hq, -⟩ := h.author u hu
      rw [hnone] at hq
      cases hq
    · rintro ⟨⟩
  rely := fun _ _ _ _ _ _ _ _ _ _ _ => trivial
  act := fun i s L q e r s' h hi hprepared _ hhandles => sound_act h hi hprepared hhandles
  drift := fun s s' L _ hdrift => hdrift.elim

/-! ### Two updates -/

variable {P : SettingsPool ι} {firmId : Uuid} {firm : FirmRecord} {a b : ι}
  {data data₁ data₂ before after : SettingsObject}

theorem kept_iff :
    Kept before data₁ data₂ after ↔
      Both (fun v => !v.isNull) data₁.get data₂.get before.get after.get := by
  have hnull : ∀ v : Json, (if v.isNull then none else some v) =
      (some v).filter fun v => !v.isNull := by
    intro v
    cases hv : v.isNull <;> simp [Option.filter, hv]
  constructor
  · rintro ⟨hfirst, hsecond, hothers⟩
    simp only [hnull] at hfirst hsecond
    exact ⟨hfirst, hsecond, hothers⟩
  · rintro ⟨hfirst, hsecond, hothers⟩
    refine ⟨fun k v hk => ?_, fun k v hk => ?_, hothers⟩
    · rw [hnull, hfirst k v hk]
    · rw [hnull, hsecond k v hk]

theorem Kept.symm (h : Kept before data₁ data₂ after) : Kept before data₂ data₁ after :=
  ⟨h.second, h.first, fun k h₂ h₁ => h.others k h₁ h₂⟩

/-- A key that is stored is not stored as `null`. -/
theorem filter_eq_iff {v : Option Json} : (v.filter fun v => !v.isNull) = v ↔ v ≠ some .null := by
  cases v with
  | none => simp
  | some v => cases v <;> simp [Option.filter, Json.isNull]

theorem sound (hP : (interleaved requests).Reachable (opening firms) P) :
    Sound requests firms P.shared P.locals ∧
      ∀ i p q, P.thread i = some (p, q) → p.wp (view requests) Prepared Succeeds q := by
  apply System.invariant interleaved_preserves _ hP
  constructor
  · rintro i q ⟨⟩
  · rintro i q id settings ⟨⟩
  · intro u hu
    cases hu
  · rintro i q ⟨⟩
  · exact List.nodup_nil
  · intro id firm hfirm
    exact ⟨.nil, firm, hfirm, rfl⟩

/-- An update that has returned has written the settings of its firm. -/
theorem exists_update (hP : (interleaved requests).Reachable (opening firms) P)
    (ha : Returned requests P a firmId data) :
    ∃ u ∈ P.shared.updates, u.author = a ∧ u.firmId = firmId ∧ dataOf (requests u.author) = data := by
  obtain ⟨hsound, hwp⟩ := sound hP
  obtain ⟨merged, q, session, hthread, hsession, hfirm⟩ := ha.reply
  obtain ⟨hupdated, session', read, hsession', hread⟩ := hwp a _ q hthread merged rfl
  have hlocal : P.locals a = some q := by
    unfold Pool.locals
    rw [hthread]
    rfl
  obtain ⟨u, hu, hua⟩ := hsound.written a q hlocal hupdated
  obtain ⟨q', hq', -, hread'⟩ := hsound.author u hu
  rw [hua, hlocal] at hq'
  cases hq'
  rw [hsession] at hsession'
  cases hsession'
  rw [hread] at hread'
  refine ⟨u, hu, hua, ?_, ?_⟩
  · rw [← hfirm]
    exact (congrArg Prod.fst (Option.some.inj hread')).symm
  · unfold dataOf
    rw [hua, ha.body]
    rfl

/-- The writes of the firm are those of the two updates. -/
theorem updates_eq (hP : (interleaved requests).Reachable (opening firms) P) (hab : a ≠ b)
    (ha : Returned requests P a firmId data₁) (hb : Returned requests P b firmId data₂)
    (halone : ∀ u ∈ P.shared.updates, u.firmId = firmId → u.author = a ∨ u.author = b) :
    ∃ u v, dataOf (requests u.author) = data₁ ∧ dataOf (requests v.author) = data₂ ∧
      ((P.shared.updates.filter fun u => u.firmId = firmId) = [u, v] ∨
        (P.shared.updates.filter fun u => u.firmId = firmId) = [v, u]) := by
  obtain ⟨u, hu, hua, hufirm, hdata₁⟩ := exists_update hP ha
  obtain ⟨v, hv, hvb, hvfirm, hdata₂⟩ := exists_update hP hb
  refine ⟨u, v, hdata₁, hdata₂, ?_⟩
  have honce := (sound hP).1.once
  have hone : ∀ w ∈ P.shared.updates, ∀ w' ∈ P.shared.updates, w.author = w'.author → w = w' :=
    fun w hw w' hw' heq => List.inj_on_of_nodup_map honce hw hw' heq
  rw [← List.perm_pair]
  have hne : u ≠ v := by
    rintro rfl
    exact hab (hua.symm.trans hvb)
  have hnodup : (P.shared.updates.filter fun u => u.firmId = firmId).Nodup :=
    (List.Nodup.of_map _ honce).filter _
  rw [List.perm_ext_iff_of_nodup hnodup (by simp [hne])]
  intro w
  rw [List.mem_filter, List.mem_cons, List.mem_singleton, decide_eq_true_eq]
  constructor
  · rintro ⟨hw, hwfirm⟩
    obtain hwa | hwb := halone w hw hwfirm
    · exact Or.inl (hone w hw u hu (hwa.trans hua.symm))
    · exact Or.inr (hone w hw v hv (hwb.trans hvb.symm))
  · rintro (rfl | rfl)
    · exact ⟨hu, hufirm⟩
    · exact ⟨hv, hvfirm⟩

/-- What the two updates leave, when `v` wrote before `u`. -/
theorem kept_iff_of_updates (hP : (interleaved requests).Reachable (opening firms) P)
    (hfirm : Rows.find FirmRecord.id firmId firms = some firm)
    (hdisjoint : ∀ k, data₁.get k = none ∨ data₂.get k = none) {u v : Update ι}
    (hdata₁ : dataOf (requests v.author) = data₁) (hdata₂ : dataOf (requests u.author) = data₂)
    (hupdates : (P.shared.updates.filter fun u => u.firmId = firmId) = [u, v]) :
    (∃ after, Rows.find FirmRecord.id firmId P.shared.firms = some after ∧
      Kept firm.settings data₁ data₂ after.settings) ↔
    (∀ k, data₁.get k = none → data₂.get k = none → firm.settings.get k ≠ some .null) ∧
      ∀ w ∈ P.shared.updates, w.firmId = firmId → w.Undisturbed requests := by
  obtain ⟨hhistory, now, hnow, hcell⟩ := (sound hP).1.stored firmId firm hfirm
  have hwrites : P.shared.writes requests firmId = [u.write requests, v.write requests] := by
    unfold Shared.writes
    rw [hupdates]
    rfl
  rw [hwrites] at hhistory hcell
  have hundisturbed : (∀ w ∈ P.shared.updates, w.firmId = firmId → w.Undisturbed requests) ↔
      ∀ w ∈ [u.write requests, v.write requests], w.Fresh := by
    rw [← hwrites]
    unfold Shared.writes
    simp only [List.forall_mem_map, List.mem_filter, decide_eq_true_eq, and_imp, undisturbed_iff]
  have hboth : (∃ after, Rows.find FirmRecord.id firmId P.shared.firms = some after ∧
      Kept firm.settings data₁ data₂ after.settings) ↔
      Both (fun v => !v.isNull) data₁.get data₂.get firm.settings.get
        (cell firm.settings.get [u.write requests, v.write requests]) := by
    rw [hnow, ← hcell]
    simp only [Option.some.injEq, exists_eq_left', kept_iff]
  rw [hboth, hundisturbed, hhistory.both_iff (by rw [← hdata₁]; rfl) (by rw [← hdata₂]; rfl) hdisjoint]
  simp only [filter_eq_iff]

/-- As long as no update is disturbed, the settings are what the updates make of them one after the
other. -/
theorem settings_atomic (hP : (interleaved requests).Reachable (opening firms) P)
    (hfirm : Rows.find FirmRecord.id firmId firms = some firm)
    (hundisturbed : ∀ u ∈ P.shared.updates, u.firmId = firmId → u.Undisturbed requests) :
    ∃ now, Rows.find FirmRecord.id firmId P.shared.firms = some now ∧
      now.settings.get = atomic firm.settings.get (P.shared.writes requests firmId) := by
  obtain ⟨hhistory, now, hnow, hcell⟩ := (sound hP).1.stored firmId firm hfirm
  refine ⟨now, hnow, hcell.trans (hhistory.cell_eq_atomic ?_)⟩
  intro w hw
  obtain ⟨u, hu, rfl⟩ := List.mem_map.1 hw
  rw [List.mem_filter, decide_eq_true_eq] at hu
  exact undisturbed_iff.1 (hundisturbed u hu.1 hu.2)

/-- Updates store no `null`. -/
theorem settings_not_null (hP : (interleaved requests).Reachable (opening firms) P)
    (hfirm : Rows.find FirmRecord.id firmId firms = some firm)
    (hbefore : ∀ k, firm.settings.get k ≠ some .null) :
    ∃ now, Rows.find FirmRecord.id firmId P.shared.firms = some now ∧
      ∀ k, now.settings.get k ≠ some .null := by
  obtain ⟨-, now, hnow, hcell⟩ := (sound hP).1.stored firmId firm hfirm
  refine ⟨now, hnow, fun k => ?_⟩
  rw [hcell]
  unfold Shared.writes
  cases P.shared.updates.filter fun u => u.firmId = firmId with
  | nil => exact hbefore k
  | cons u us =>
      apply filter_eq_iff.1
      exact filter_again _ _

/-- **No update of settings is lost.** Two updates of one firm that set different keys have
returned: both changes are stored, and every other key is as it was, exactly when each of the two
found the keys it does not set as it had read them, and no other key was stored as `null`. -/
theorem settings_kept_iff (hP : (interleaved requests).Reachable (opening firms) P)
    (hfirm : Rows.find FirmRecord.id firmId firms = some firm) (hab : a ≠ b)
    (ha : Returned requests P a firmId data₁) (hb : Returned requests P b firmId data₂)
    (hdisjoint : ∀ k, data₁.get k = none ∨ data₂.get k = none)
    (halone : ∀ u ∈ P.shared.updates, u.firmId = firmId → u.author = a ∨ u.author = b) :
    (∃ after, Rows.find FirmRecord.id firmId P.shared.firms = some after ∧
      Kept firm.settings data₁ data₂ after.settings) ↔
    (∀ k, data₁.get k = none → data₂.get k = none → firm.settings.get k ≠ some .null) ∧
      ∀ u ∈ P.shared.updates, u.firmId = firmId → u.Undisturbed requests := by
  obtain ⟨u, v, hdata₁, hdata₂, hupdates | hupdates⟩ := updates_eq hP hab ha hb halone
  · have hsymm : ∀ after, Kept firm.settings data₁ data₂ after ↔ Kept firm.settings data₂ data₁ after :=
      fun after => ⟨Kept.symm, Kept.symm⟩
    simp only [hsymm]
    rw [kept_iff_of_updates hP hfirm (fun k => (hdisjoint k).symm) hdata₂ hdata₁ hupdates]
    refine and_congr_left fun _ => forall_congr' fun k => ?_
    exact ⟨fun h h₁ h₂ => h h₂ h₁, fun h h₂ h₁ => h h₁ h₂⟩
  · exact kept_iff_of_updates hP hfirm hdisjoint hdata₁ hdata₂ hupdates

/-! ### A change of the budget and a switch of the scrubber mode -/

namespace Sample

def officeId : Uuid := ⟨"00000000-0000-4000-8000-0000000000b1", by decide⟩
def partnerId : Uuid := ⟨"00000000-0000-4000-8000-0000000000b2", by decide⟩

def office : FirmRecord where
  id := officeId
  name := js "Office"
  settings := JsMap.ofList [(js "scrubber_mode", .str (js "redact"))]

def partnerSession : SessionData where
  userId := partnerId
  firmId := officeId
  email := js "p@b.co"
  role := .admin
  expiresAt := 0

def budgetData : List (JsString × Json) :=
  [(js "budgets", .obj [(js "firm_monthly_cents", .num 5000)])]

def modeData : List (JsString × Json) := [(js "scrubber_mode", .str (js "block"))]

/-- The request 0 changes the budget, the others switch the scrubber mode. -/
def changes (i : ℕ) : Request where
  method := .put
  cookie := none
  vibeAdmin := some (js "1")
  body := some (.obj (if i = 0 then budgetData else modeData))

/-- A service that answers every request. -/
def answer (i : ℕ) (s : Shared ℕ) (q : Progress) : (e : SettingsOp) → e.Answer × Shared ℕ
  | .getSession _ => (some partnerSession, s)
  | .findFirm id => (.ok (Rows.find FirmRecord.id id s.firms), s)
  | .updateFirm id settings => (.ok (), s.sets i q id settings)
  | .invalidate _ => ((), s)
  | .audit _ => ((), s)

theorem answer_sound : System.Sound (interleaved changes) answer := by
  intro i s q e
  refine ⟨trivial, ?_⟩
  cases e with
  | findFirm id => exact ⟨rfl, fun firm hfirm => (Except.ok.inj hfirm).symm⟩
  | updateFirm id settings => exact Or.inl rfl
  | _ => rfl

abbrev Schedule : Type :=
  List (Action ℕ SettingsOp SettingsOp.Answer (Except Thrown Reply × Unit) (Shared ℕ) Progress)

def opens : Schedule :=
  [.spawn 0 ((changes 0).run ()) { request := changes 0 },
    .spawn 1 ((changes 1).run ()) { request := changes 1 }]

/-- Both updates read before one of them writes. -/
def overlapping : Schedule := opens ++ [.run 0 2, .run 1 5, .run 0 3]

/-- One update after the other. -/
def inTurn : Schedule := opens ++ [.run 0 5, .run 1 5]

def outcome (schedule : Schedule) : SettingsPool ℕ :=
  (System.initial (opening [office]) : Pool ..).exec Progress.next answer schedule

def modeStored (schedule : Schedule) : Option JsString :=
  (Rows.find FirmRecord.id officeId (outcome schedule).shared.firms).bind fun firm =>
    (firm.settings.get (js "scrubber_mode")).bind Json.asString

theorem reachable_outcome {schedule : Schedule}
    (h : (System.initial (opening [office]) : SettingsPool ℕ).Permits (interleaved changes) answer
      schedule) : (interleaved changes).Reachable (opening [office]) (outcome schedule) :=
  System.reachable_exec answer_sound .refl h

theorem inTurn_permitted : (System.initial (opening [office]) : SettingsPool ℕ).Permits
    (interleaved changes) answer inTurn :=
  ⟨rfl, ⟨rfl, rfl⟩, rfl, ⟨rfl, rfl⟩, trivial⟩

theorem overlapping_permitted : (System.initial (opening [office]) : SettingsPool ℕ).Permits
    (interleaved changes) answer overlapping :=
  ⟨rfl, ⟨rfl, rfl⟩, rfl, ⟨rfl, rfl⟩, trivial⟩

theorem budget_body : settingsSchema (changes 0).body = .ok (JsMap.ofList budgetData) := rfl

theorem mode_body : settingsSchema (changes 1).body = .ok (JsMap.ofList modeData) := rfl

/-- The keys of the two updates are different. -/
theorem data_disjoint (k : JsString) :
    (JsMap.ofList budgetData).get k = none ∨ (JsMap.ofList modeData).get k = none := by
  cases hbudget : (JsMap.ofList budgetData).get k with
  | none => exact Or.inl rfl
  | some v =>
      have hmem := JsMap.mem_of_get_ofList hbudget
      obtain ⟨rfl, -⟩ := Prod.mk.inj (List.mem_singleton.1 hmem)
      exact Or.inr (by decide)

/-- No setting of the office is stored as `null`. -/
theorem office_not_null (k : JsString) : office.settings.get k ≠ some .null := by
  intro hnull
  have hmem := List.mem_singleton.1 (JsMap.mem_of_get_ofList hnull)
  cases (Prod.mk.inj hmem).2

/-- The two updates, one after the other. -/
theorem inTurn_updates : (outcome inTurn).shared.updates =
    [⟨1, officeId, merge office.settings (JsMap.ofList budgetData),
        merge office.settings (JsMap.ofList budgetData)⟩,
      ⟨0, officeId, office.settings, office.settings⟩] := rfl

/-- Both changes are there when one update follows the other. -/
theorem inTurn_kept : ∃ after,
    Rows.find FirmRecord.id officeId (outcome inTurn).shared.firms = some after ∧
      Kept office.settings (JsMap.ofList budgetData) (JsMap.ofList modeData) after.settings := by
  have hreach := reachable_outcome inTurn_permitted
  have hbudget : Returned changes (outcome inTurn) 0 officeId (JsMap.ofList budgetData) :=
    ⟨budget_body, _, _, _, rfl, rfl, rfl⟩
  have hmode : Returned changes (outcome inTurn) 1 officeId (JsMap.ofList modeData) :=
    ⟨mode_body, _, _, _, rfl, rfl, rfl⟩
  have halone : ∀ u ∈ (outcome inTurn).shared.updates,
      u.firmId = officeId → u.author = 0 ∨ u.author = 1 := by
    rw [inTurn_updates]
    simp
  apply (settings_kept_iff hreach rfl (by decide) hbudget hmode data_disjoint halone).2
  refine ⟨fun k _ _ => office_not_null k, ?_⟩
  rw [inTurn_updates]
  simp [Update.Undisturbed]

/-- **The switch of the mode is undone.** -/
theorem budget_undoes_mode : ∃ P, (interleaved changes).Reachable (opening [office]) P ∧
    Returned changes P 0 officeId (JsMap.ofList budgetData) ∧
    Returned changes P 1 officeId (JsMap.ofList modeData) ∧
    (∀ k, (JsMap.ofList budgetData).get k = none ∨ (JsMap.ofList modeData).get k = none) ∧
    (∀ u ∈ P.shared.updates, u.author = 0 ∨ u.author = 1) ∧
    ¬∃ after, Rows.find FirmRecord.id officeId P.shared.firms = some after ∧
      Kept office.settings (JsMap.ofList budgetData) (JsMap.ofList modeData) after.settings := by
  refine ⟨outcome overlapping, reachable_outcome overlapping_permitted,
    ⟨budget_body, _, _, _, rfl, rfl, rfl⟩, ⟨mode_body, _, _, _, rfl, rfl, rfl⟩, data_disjoint,
    by decide, ?_⟩
  rintro ⟨after, hafter, hkept⟩
  have hmode : after.settings.get (js "scrubber_mode") = some (.str (js "block")) :=
    hkept.second (js "scrubber_mode") (.str (js "block")) rfl
  have hstored : modeStored overlapping = some (js "redact") := by decide
  unfold modeStored at hstored
  rw [hafter, Option.bind_some, hmode] at hstored
  revert hstored
  decide

end Sample

end Settings

end VibeRouter
