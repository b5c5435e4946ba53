import VibeRouter.AdminApi.Logins
import VibeRouter.Lib.Pool

/-! # Old logins after a change of password

Logins, logouts, uses of sessions and changes of credentials, interleaved at every await over the
users table and one session store.  A change drops the sessions of its user, and a login that has
read the hash before the change may create its session only afterwards.

`Overtaken`: the login has read a hash that a change has replaced and swept since.
`old_logins_end`: the store stays within its cap, and as long as no login is overtaken no session
of an old password is left once a change has succeeded; a login that is overtaken leaves one. -/

namespace VibeRouter

open Effects

namespace Auth

variable {ι : Type} [DecidableEq ι]

/-! ### Interleaved requests -/

/-- The state of the service, with its history: a password has as its generation how often the
password of the user had been set. -/
structure Shared (ι : Type) where
  users : List UserRow
  store : SessionStore
  now : ℤ
  /-- The generation of a user's password. -/
  generation : Uuid → ℕ
  /-- The generation of the hash that a request has read last of a user. -/
  read : ι → Uuid → ℕ
  /-- The user whose password a request has set, and its generation. -/
  setBy : ι → Option (Uuid × ℕ)
  /-- The last generation whose change has succeeded. -/
  changed : Uuid → ℕ
  /-- The generation of the password that a session was created with. -/
  proof : JsString → ℕ

/-- What a request has done. -/
structure Progress where
  updated : Option Uuid := none
  swept : Bool := false

namespace Progress

def next (q : Progress) : (e : AuthOp) → e.Answer → Progress
  | .updateUser id _, _ => { q with updated := some id }
  | .destroyByUser _, _ => { q with swept := true }
  | _, _ => q

end Progress

namespace Shared

variable (s : Shared ι) (i : ι)

/-- The request `i` reads a row. -/
def reads : Option UserRow → Shared ι
  | none => s
  | some user =>
      let mine := Function.update (s.read i) user.id (s.generation user.id)
      { s with read := Function.update s.read i mine }

/-- The request `i` updates a row. -/
def sets (id : Uuid) (set : UserSet) : Shared ι :=
  let s := { s with users := Rows.update UserRow.id id set.apply s.users }
  if set.passwordHash.isSome then
    { s with
      generation := Function.update s.generation id (s.generation id + 1)
      setBy := Function.update s.setBy i (some (id, s.generation id + 1)) }
  else s

/-- The request `i` drops the sessions of a user, and succeeds. -/
def sweeps (userId : Uuid) : Shared ι :=
  { s with
    store := (s.store.destroyByUser userId).2
    changed := match s.setBy i with
      | none => s.changed
      | some (id, n) => Function.update s.changed id (max (s.changed id) n) }

/-- The request `i` creates a session. -/
def creates [AuthPlatform] (data : Login) (id : JsString) : Shared ι :=
  { s with
    store := (s.store.create data id s.now).2
    proof := Function.update s.proof id (s.read i data.userId) }

/-- No other row has the address: it is unique. -/
def Free (id : Uuid) (set : UserSet) : Prop :=
  ∀ email, set.email = some email → ∀ row ∈ s.users, row.email = some email → row.id = id

/-- The answers to an operation, and the state after.  A statement may be rejected; an update may
be rejected after it has been carried out. -/
def Handles [AuthPlatform] : (e : AuthOp) → e.Answer → Shared ι → Prop
  | .scrypt password salt n r p, answer, s' => s' = s ∧
      ∀ key, answer = .ok key → AuthPlatform.scrypt password salt n r p = some key
  | .findUserByEmail email, answer, s' =>
      (∃ e, answer = .error e ∧ s' = s) ∨
      ∃ user, answer = .ok user ∧ user = (s.users.find? fun row => row.email = some email) ∧
        s' = s.reads i user
  | .findUserById id, answer, s' =>
      (∃ e, answer = .error e ∧ s' = s) ∨
      ∃ user, answer = .ok user ∧ user = Rows.find UserRow.id id s.users ∧ s' = s.reads i user
  | .updateUser id set, answer, s' =>
      (∃ e, answer = .error e ∧ s' = s) ∨ s.Free id set ∧ s' = s.sets i id set
  | .getSession cookie, answer, s' => answer = (s.store.get cookie s.now).1 ∧
      s' = { s with store := (s.store.get cookie s.now).2 }
  | .createSession data, answer, s' => ∃ random : Random 24,
      answer = (s.store.create data (base64url random.1) s.now).1 ∧
        s' = s.creates i data (base64url random.1)
  | .destroySession cookie, _, s' => s' = { s with store := s.store.destroy cookie }
  | .destroyByUser userId, answer, s' => answer = (s.store.destroyByUser userId).1 ∧
      s' = s.sweeps i userId
  | _, _, s' => s' = s

/-- The session is for a login that has read a hash which a change has replaced and swept since. -/
def Overtaken : AuthOp → Prop
  | .createSession data => s.read i data.userId < s.changed data.userId
  | _ => False

instance decidableOvertaken (e : AuthOp) : Decidable (s.Overtaken i e) := by
  cases e with
  | createSession data => exact Nat.decLt (s.read i data.userId) (s.changed data.userId)
  | _ => exact .isFalse id

end Shared

/-- Requests, by a name for each. -/
abbrev AuthSystem (ι : Type) : Type :=
  System ι AuthOp AuthOp.Answer (Except Thrown Reply × Unit) (Shared ι) Progress

abbrev AuthPool (ι : Type) : Type :=
  Pool ι AuthOp AuthOp.Answer (Except Thrown Reply × Unit) (Shared ι) Progress

variable (ι) in
/-- Any number of requests, in any order of their operations; the clock may be set. -/
def requests [AuthPlatform] : AuthSystem ι where
  env := { allows := fun _ _ _ => True, next := Progress.next }
  handler i s _ e r s' := s.Handles i e r s'
  start _ _ p q := q = {} ∧ ∃ call : Call, p = call.run ()
  drift s s' := ∃ now, s' = { s with now }

variable (ι) in
/-- The same, as long as no login is overtaken. -/
def timely [AuthPlatform] : AuthSystem ι :=
  { requests ι with handler := fun i s _ e r s' => s.Handles i e r s' ∧ ¬s.Overtaken i e }

/-- A service that starts on a table and a store; its history is empty. -/
def opening (users : List UserRow) (store : SessionStore) (now : ℤ) : Shared ι where
  users := users
  store := store
  now := now
  generation _ := 0
  read _ _ := 0
  setBy _ := none
  changed _ := 0
  proof _ := 0

/-- Once a change of password has succeeded, no live session of the user was created with an older
password. -/
def OldLoginsEnded (P : AuthPool ι) : Prop :=
  ∀ j q userId n, P.thread j = some (.ret (.ok .changed, ()), q) →
    P.shared.setBy j = some (userId, n) → ∀ id session,
      P.shared.store.sessions.get id = some session → session.userId = userId →
        ¬session.expiresAt < P.shared.now → n ≤ P.shared.proof id

/-! ### What requests do -/

/-- What a request has done before it performs an operation: it updates once and sweeps the user it
has updated, and the sweep is its last operation. -/
def Prepared (q : Progress) (e : AuthOp) : Prop :=
  q.swept = false ∧ match e with
    | .updateUser _ _ => q.updated = none
    | .destroyByUser userId => q.updated = some userId
    | _ => True

/-- Neither an update nor a sweep. -/
def Quiet : AuthOp → Prop
  | .updateUser _ _ | .destroyByUser _ => False
  | _ => True

/-- Any answer will do. -/
def Rely (_ : Progress) (e : AuthOp) (_ : e.Answer) : Prop := True

/-- A request has swept exactly when it has succeeded. -/
def Succeeds (r : Except Thrown Reply × Unit) (q : Progress) : Prop :=
  q.swept = true ↔ r = (.ok .changed, ())

section

variable [AuthPlatform] {α : Type}

/-- The surroundings of one request. -/
abbrev view : Env AuthOp AuthOp.Answer Progress := (requests ι).view Rely

/-- Code that performs no update and no sweep, and returns what `R` says. -/
def Idle (c : Auth α) (R : α → Prop) : Prop :=
  ∀ (q : Progress) (u : Unit), q.swept = false →
    c.wp (view (ι := ι)) Prepared (fun r _ q' => q' = q ∧ ∀ a, r = .ok a → R a) u q

omit [AuthPlatform] in
theorem Quiet.prepared {e : AuthOp} {q : Progress} (he : Quiet e) (hq : q.swept = false) :
    Prepared q e := by
  cases e with
  | updateUser id set => exact he.elim
  | destroyByUser userId => exact he.elim
  | _ => exact ⟨hq, trivial⟩

omit [AuthPlatform] in
theorem Quiet.next {e : AuthOp} (he : Quiet e) (q : Progress) (r : e.Answer) : q.next e r = q := by
  cases e with
  | updateUser id set => exact he.elim
  | destroyByUser userId => exact he.elim
  | _ => rfl

theorem idle_op {e : AuthOp} (he : Quiet e) :
    Idle (ι := ι) (op e) fun _ => True := by
  intro q u hq
  simp only [op, Code.wp_perform]
  exact ⟨he.prepared hq, fun r _ => ⟨he.next q r, fun _ _ => trivial⟩⟩

theorem idle_pure {R : α → Prop} {a : α} (h : R a) : Idle (ι := ι) (pure a : Auth α) R := by
  intro q u _
  refine ⟨rfl, fun b hb => ?_⟩
  cases hb
  exact h

theorem Idle.bind {β : Type} {c : Auth α} {f : α → Auth β} {R : α → Prop} {R' : β → Prop}
    (h : Idle (ι := ι) c R) (hf : ∀ a, R a → Idle (ι := ι) (f a) R') :
    Idle (ι := ι) (c >>= f) R' := by
  intro q u hq
  refine Code.wp_seq (h q u hq) ?_ ?_
  · rintro a u' q' ⟨rfl, ha⟩
    exact hf a (ha a rfl) q' u' hq
  · rintro e u' q' ⟨rfl, -⟩
    exact ⟨rfl, fun a ha => (by cases ha)⟩

theorem Idle.await {c : Auth (Except Thrown α)} (h : Idle (ι := ι) c fun _ => True) :
    Idle (ι := ι) (await c) fun _ => True :=
  h.bind fun _ _ _ _ _ => ⟨rfl, fun _ _ => trivial⟩

theorem idle_verifyPassword (password stored : JsString) :
    Idle (ι := ι) (verifyPassword password stored) fun _ => True := by
  unfold verifyPassword
  split
  · split
    · exact (idle_op (by trivial)).await.bind fun _ _ => idle_pure trivial
    · exact idle_pure trivial
  · exact idle_pure trivial

theorem idle_hashPassword (password : JsString) :
    Idle (ι := ι) (hashPassword password) fun _ => True := by
  unfold hashPassword
  refine (idle_op (by trivial)).bind fun salt _ => ?_
  exact (idle_op (by trivial)).await.bind fun _ _ => idle_pure trivial

theorem idle_fail (code : ErrorCode) (message : String) :
    Idle (ι := ι) (fail code message) fun r => r ≠ .changed :=
  idle_pure Reply.noConfusion

theorem idle_storedHash (user : Option UserRow) :
    Idle (ι := ι) (storedHash user) fun _ => True := by
  unfold storedHash
  split
  · exact idle_pure trivial
  · exact (idle_op (by trivial)).await

theorem idle_login (body : Option Json) :
    Idle (ι := ι) (login body) fun r => r ≠ .changed := by
  unfold login
  split
  · exact idle_fail _ _
  · refine (idle_op (by trivial)).await.bind fun user _ => ?_
    refine (idle_storedHash user).bind fun hash _ => (idle_verifyPassword _ _).bind fun ok _ => ?_
    split
    · exact idle_fail _ _
    · exact (idle_op (by trivial)).bind fun _ _ =>
        idle_pure Reply.noConfusion

theorem idle_logout (cookie : Option JsString) :
    Idle (ι := ι) (logout cookie) fun r => r ≠ .changed :=
  (idle_op (by trivial)).bind fun _ _ => idle_pure Reply.noConfusion

theorem idle_me (cookie : Option JsString) :
    Idle (ι := ι) (me cookie) fun r => r ≠ .changed := by
  unfold me
  refine (idle_op (by trivial)).bind fun session _ => ?_
  split
  · exact idle_fail _ _
  · exact (idle_op (by trivial)).await.bind fun _ _ =>
      idle_pure Reply.noConfusion

theorem idle_emailTaken (user : UserRow) (newEmail : Option JsString) :
    Idle (ι := ι) (emailTaken user newEmail) fun _ => True := by
  unfold emailTaken
  split
  · exact idle_pure trivial
  · exact (idle_op (by trivial)).await.bind fun _ _ => idle_pure trivial

theorem idle_newHash (newPassword : Option JsString) :
    Idle (ι := ι) (newHash newPassword) fun _ => True := by
  unfold newHash
  split
  · exact idle_pure trivial
  · exact (idle_hashPassword _).bind fun _ _ => idle_pure trivial

/-- Code that starts a request, and sweeps exactly when it succeeds. -/
def Starts (c : Auth Reply) : Prop :=
  c.wp (view (ι := ι)) Prepared (fun r _ q => Succeeds (r, ()) q) () {}

omit [AuthPlatform] in
/-- An error is no success. -/
theorem succeeds_of_error {e : Thrown} {q : Progress} (hq : q.swept = false) :
    Succeeds (.error e, ()) q := by
  constructor
  · intro h
    rw [hq] at h
    cases h
  · intro h
    cases h

theorem Idle.starts {c : Auth Reply} (h : Idle (ι := ι) c fun r => r ≠ .changed) :
    Starts (ι := ι) c := by
  refine Code.wp_mono (h {} () rfl) ?_
  rintro r u q ⟨rfl, hr⟩
  constructor
  · intro hswept
    cases hswept
  · intro heq
    exact absurd rfl (hr _ (Prod.mk.inj heq).1)

theorem Idle.then_starts {c : Auth α} {f : α → Auth Reply} (h : Idle (ι := ι) c fun _ => True)
    (hf : ∀ a, Starts (ι := ι) (f a)) : Starts (ι := ι) (c >>= f) := by
  refine Code.wp_seq (h {} () rfl) ?_ ?_
  · rintro a u q ⟨rfl, -⟩
    exact hf a
  · rintro e u q ⟨rfl, -⟩
    exact succeeds_of_error rfl

/-- The update, then the sweep. -/
theorem starts_applyChange (session : SessionData) (user : UserRow) (body : ChangeBody) :
    Starts (ι := ι) (applyChange session user body) := by
  unfold applyChange
  refine (idle_newHash _).then_starts fun passwordHash => ?_
  unfold Starts
  simp only [op, Auth.await, Code.wp_bind, Code.wp_perform, Code.wp_ofExcept, Code.wp_pure]
  refine ⟨⟨rfl, rfl⟩, fun r _ => ?_⟩
  cases r with
  | error e => exact succeeds_of_error rfl
  | ok _ => exact ⟨⟨rfl, trivial⟩, fun _ _ => ⟨⟨rfl, rfl⟩, fun _ _ => ⟨fun _ => rfl, fun _ => rfl⟩⟩⟩

theorem starts_changeFor (session : SessionData) (body : ChangeBody) :
    Starts (ι := ι) (changeFor session body) := by
  unfold changeFor
  refine (idle_op (by trivial)).await.then_starts fun user => ?_
  split
  · exact (idle_fail _ _).starts
  · refine (idle_verifyPassword _ _).then_starts fun ok => ?_
    split
    · refine (idle_emailTaken _ _).then_starts fun taken => ?_
      split
      · exact (idle_fail _ _).starts
      · exact starts_applyChange _ _ _
    · exact (idle_fail _ _).starts

/-- **Every request prepares its sweep, and sweeps exactly when it succeeds.** -/
theorem call_starts (call : Call) : Starts (ι := ι) call.run := by
  cases call with
  | login body => exact (idle_login body).starts
  | logout cookie => exact (idle_logout cookie).starts
  | me cookie => exact (idle_me cookie).starts
  | changeCredentials cookie vibeAdmin body =>
      show Starts (ι := ι) (changeCredentials cookie vibeAdmin body)
      unfold changeCredentials
      refine (idle_op (by trivial)).then_starts fun session => ?_
      split
      · exact (idle_pure Reply.noConfusion).starts
      · split
        · split
          · exact (idle_fail _ _).starts
          · exact starts_changeFor _ _
        · exact (idle_pure Reply.noConfusion).starts

end

/-! ### The invariant -/

/-- What holds of every reachable state: the store is within its cap, a request that has set a
password has updated this user, and the generations of `changed` come from requests that have
swept. -/
structure Sound (cap : ℕ) (s : Shared ι) (L : ι → Option Progress) : Prop where
  maxSessions : s.store.maxSessions = cap
  size : s.store.sessions.size ≤ cap
  set : ∀ i userId n, s.setBy i = some (userId, n) → ∃ q, L i = some q ∧
    q.updated = some userId ∧ (q.swept = true → n ≤ s.changed userId)
  attained : ∀ userId, s.changed userId = 0 ∨ ∃ i q, L i = some q ∧ q.swept = true ∧
    s.setBy i = some (userId, s.changed userId)

/-- No session was created with a password older than the last one whose change has succeeded. -/
def Fresh (s : Shared ι) : Prop :=
  ∀ id session, s.store.sessions.get id = some session → s.changed session.userId ≤ s.proof id

/-- A step that creates no session and adds nothing to the history. -/
structure Plain (s s' : Shared ι) : Prop where
  store : s.store.Keeps s'.store
  setBy : s'.setBy = s.setBy
  changed : s'.changed = s.changed
  proof : s'.proof = s.proof

variable {s s' : Shared ι} {L : ι → Option Progress} {i : ι} {q : Progress} {cap : ℕ}

omit [DecidableEq ι] in
theorem plain_same : Plain s s := ⟨SessionStore.keeps_same, rfl, rfl, rfl⟩

theorem plain_reads (user : Option UserRow) : Plain s (s.reads i user) := by
  cases user with
  | none => exact plain_same
  | some user => exact ⟨SessionStore.keeps_same, rfl, rfl, rfl⟩

omit [DecidableEq ι] in
theorem Plain.sound (h : Plain s s') (hs : Sound cap s L) : Sound cap s' L where
  maxSessions := h.store.maxSessions.trans hs.maxSessions
  size := h.store.size.trans hs.size
  set := by
    rw [h.setBy, h.changed]
    exact hs.set
  attained := by
    rw [h.setBy, h.changed]
    exact hs.attained

omit [DecidableEq ι] in
theorem Plain.fresh (h : Plain s s') (hs : Fresh s) : Fresh s' := by
  intro id session hget
  obtain ⟨before, hbefore, hlogin⟩ := h.store.logins id session hget
  have huser : before.userId = session.userId := congrArg Login.userId hlogin
  rw [h.changed, h.proof, ← huser]
  exact hs id before hbefore

/-- A request that goes on and has not set a password. -/
theorem Sound.progress (h : Sound cap s L) (hset : s.setBy i = none) (q' : Progress) :
    Sound cap s (Function.update L i (some q')) where
  maxSessions := h.maxSessions
  size := h.size
  set := by
    intro j userId n hj
    have hji : j ≠ i := by
      rintro rfl
      rw [hset] at hj
      cases hj
    rw [Function.update_of_ne hji]
    exact h.set j userId n hj
  attained := by
    intro userId
    rcases h.attained userId with hzero | ⟨j, qj, hj, hjswept, hjset⟩
    · exact Or.inl hzero
    · have hji : j ≠ i := by
        rintro rfl
        rw [hset] at hjset
        cases hjset
      exact Or.inr ⟨j, qj, by rw [Function.update_of_ne hji]; exact hj, hjswept, hjset⟩

omit [DecidableEq ι] in
theorem Sound.unset (h : Sound cap s L) (hi : L i = some q) (hq : q.updated = none) :
    s.setBy i = none := by
  cases hset : s.setBy i with
  | none => rfl
  | some set =>
      obtain ⟨q', hq', hupdated, -⟩ := h.set i set.1 set.2 hset
      rw [hi] at hq'
      cases hq'
      rw [hq] at hupdated
      cases hupdated

/-- A new password. -/
theorem Sound.sets (h : Sound cap s L) (hi : L i = some q) (hq : q.updated = none)
    (hswept : q.swept = false) (id : Uuid) (set : UserSet) :
    Sound cap (s.sets i id set) (Function.update L i (some { q with updated := some id })) := by
  have hunset := h.unset hi hq
  have hprogress := h.progress hunset { q with updated := some id }
  unfold Shared.sets
  dsimp only
  split
  · refine ⟨h.maxSessions, h.size, ?_, ?_⟩
    · intro j userId n hj
      by_cases hji : j = i
      · subst hji
        replace hj : Function.update s.setBy j (some (id, s.generation id + 1)) j =
          some (userId, n) := hj
        rw [Function.update_self] at hj
        cases hj
        refine ⟨_, Function.update_self .., rfl, fun hfalse => ?_⟩
        rw [hswept] at hfalse
        cases hfalse
      · refine hprogress.set j userId n ?_
        rw [← hj]
        exact (Function.update_of_ne hji _ _).symm
    · intro userId
      rcases hprogress.attained userId with hzero | ⟨j, qj, hj, hjswept, hjset⟩
      · exact Or.inl hzero
      · have hji : j ≠ i := by
          rintro rfl
          rw [hunset] at hjset
          cases hjset
        exact Or.inr ⟨j, qj, hj, hjswept, (Function.update_of_ne hji _ _).trans hjset⟩
  · exact ⟨hprogress.maxSessions, hprogress.size, hprogress.set, hprogress.attained⟩

omit [DecidableEq ι] in
/-- What a sweep adds to the history. -/
theorem changed_sweeps (h : Sound cap s L) (hi : L i = some q) {userId : Uuid}
    (hq : q.updated = some userId) : s.setBy i = none ∧ (s.sweeps i userId).changed = s.changed ∨
      ∃ n, s.setBy i = some (userId, n) ∧ (s.sweeps i userId).changed =
        Function.update s.changed userId (max (s.changed userId) n) := by
  cases hset : s.setBy i with
  | none =>
      refine Or.inl ⟨rfl, ?_⟩
      unfold Shared.sweeps
      rw [hset]
  | some set =>
      obtain ⟨q', hq', hupdated, -⟩ := h.set i set.1 set.2 hset
      rw [hi] at hq'
      cases hq'
      have huser : set.1 = userId := by
        rw [hq] at hupdated
        exact (Option.some.inj hupdated).symm
      refine Or.inr ⟨set.2, by rw [← huser], ?_⟩
      unfold Shared.sweeps
      rw [hset, ← huser]

omit [DecidableEq ι] in
theorem le_changed_sweeps (h : Sound cap s L) (hi : L i = some q) {userId : Uuid}
    (hq : q.updated = some userId) (other : Uuid) :
    s.changed other ≤ (s.sweeps i userId).changed other := by
  rcases changed_sweeps h hi hq with ⟨-, hsame⟩ | ⟨n, -, hmax⟩
  · rw [hsame]
  · rw [hmax]
    by_cases hother : other = userId
    · subst hother
      rw [Function.update_self]
      exact le_max_left _ _
    · rw [Function.update_of_ne hother]

/-- A change that succeeds. -/
theorem Sound.sweeps (h : Sound cap s L) (hi : L i = some q) (hswept : q.swept = false)
    {userId : Uuid} (hq : q.updated = some userId) :
    Sound cap (s.sweeps i userId) (Function.update L i (some { q with swept := true })) where
  maxSessions := h.maxSessions
  size := (SessionStore.keeps_destroyByUser userId).size.trans h.size
  set := by
    intro j other n hj
    replace hj : s.setBy j = some (other, n) := hj
    by_cases hji : j = i
    · subst hji
      rcases changed_sweeps h hi hq with ⟨hnone, -⟩ | ⟨m, hset, hmax⟩
      · rw [hnone] at hj
        cases hj
      · rw [hset] at hj
        cases hj
        refine ⟨_, Function.update_self .., hq, fun _ => ?_⟩
        rw [hmax, Function.update_self]
        exact le_max_right _ _
    · obtain ⟨qj, hqj, hupdated, hle⟩ := h.set j other n hj
      refine ⟨qj, by rw [Function.update_of_ne hji]; exact hqj, hupdated, fun hqswept => ?_⟩
      exact (hle hqswept).trans (le_changed_sweeps h hi hq other)
  attained := by
    have hold : ∀ other, s.changed other = 0 ∨ ∃ j qj, Function.update L i
        (some { q with swept := true }) j = some qj ∧ qj.swept = true ∧
          s.setBy j = some (other, s.changed other) := by
      intro other
      rcases h.attained other with hzero | ⟨j, qj, hj, hjswept, hjset⟩
      · exact Or.inl hzero
      · have hji : j ≠ i := by
          rintro rfl
          rw [hi] at hj
          cases hj
          rw [hswept] at hjswept
          cases hjswept
        exact Or.inr ⟨j, qj, by rw [Function.update_of_ne hji]; exact hj, hjswept, hjset⟩
    intro other
    rcases changed_sweeps h hi hq with ⟨-, hsame⟩ | ⟨n, hset, hmax⟩
    · rw [hsame]
      exact hold other
    · rw [hmax]
      by_cases hother : other = userId
      · subst hother
        rw [Function.update_self]
        rcases le_total (s.changed other) n with hle | hle
        · rw [max_eq_right hle]
          exact Or.inr ⟨i, _, Function.update_self .., rfl, hset⟩
        · rw [max_eq_left hle]
          exact hold other
      · rw [Function.update_of_ne hother]
        exact hold other

omit [DecidableEq ι] in
theorem Fresh.sweeps (hf : Fresh s) (h : Sound cap s L) (hi : L i = some q) {userId : Uuid}
    (hq : q.updated = some userId) : Fresh (s.sweeps i userId) := by
  intro id session hget
  replace hget : (s.store.destroyByUser userId).2.sessions.get id = some session := hget
  have hother : session.userId ≠ userId := SessionStore.destroyByUser_get hget
  have hsame : (s.sweeps i userId).changed session.userId = s.changed session.userId := by
    rcases changed_sweeps h hi hq with ⟨-, hsame⟩ | ⟨n, -, hmax⟩
    · rw [hsame]
    · rw [hmax, Function.update_of_ne hother]
  rw [hsame]
  exact hf id session (JsMap.get_filter_iff.1 hget).1

section

variable [AuthPlatform]

omit [DecidableEq ι] in
theorem Sound.creates (h : Sound cap s L) (hcap : 1 ≤ cap) (data : Login) (id : JsString) :
    Sound cap (s.creates i data id) L where
  maxSessions := h.maxSessions
  size := by
    rw [← h.maxSessions] at hcap ⊢
    exact SessionStore.create_size hcap
  set := h.set
  attained := h.attained

omit [DecidableEq ι] in
/-- A login that is not overtaken. -/
theorem Fresh.creates (hf : Fresh s) {data : Login} {id : JsString}
    (hcalm : ¬s.Overtaken i (.createSession data)) : Fresh (s.creates i data id) := by
  intro id' session hget
  show s.changed session.userId ≤ Function.update s.proof id (s.read i data.userId) id'
  rcases SessionStore.create_get hget with ⟨rfl, rfl⟩ | ⟨hne, hbefore⟩
  · rw [Function.update_self]
    exact Nat.le_of_not_lt hcalm
  · rw [Function.update_of_ne hne]
    exact hf id' session hbefore

/-- The operations that add to the history. -/
def isPlain : AuthOp → Bool
  | .updateUser _ _ | .createSession _ | .destroyByUser _ => false
  | _ => true

theorem plain_handles {e : AuthOp} {r : e.Answer} (h : s.Handles i e r s')
    (he : isPlain e = true) : Plain s s' ∧ q.next e r = q := by
  cases e with
  | updateUser => cases he
  | createSession => cases he
  | destroyByUser => cases he
  | scrypt password salt n r' p =>
      obtain ⟨rfl, -⟩ := h
      exact ⟨plain_same, rfl⟩
  | findUserByEmail email =>
      rcases h with ⟨e, -, rfl⟩ | ⟨user, -, -, rfl⟩
      · exact ⟨plain_same, rfl⟩
      · exact ⟨plain_reads user, rfl⟩
  | findUserById id =>
      rcases h with ⟨e, -, rfl⟩ | ⟨user, -, -, rfl⟩
      · exact ⟨plain_same, rfl⟩
      · exact ⟨plain_reads user, rfl⟩
  | getSession cookie =>
      obtain ⟨-, rfl⟩ := h
      exact ⟨⟨SessionStore.keeps_get cookie s.now, rfl, rfl, rfl⟩, rfl⟩
  | destroySession cookie =>
      cases h
      exact ⟨⟨SessionStore.keeps_destroy cookie, rfl, rfl, rfl⟩, rfl⟩
  | _ =>
      cases h
      exact ⟨plain_same, rfl⟩

/-- **One operation keeps the invariant.** -/
theorem sound_act (h : Sound cap s L) (hcap : 1 ≤ cap) (hi : L i = some q) {e : AuthOp}
    {r : e.Answer} (hprep : Prepared q e) (hhandles : s.Handles i e r s') :
    Sound cap s' (Function.update L i (some (q.next e r))) := by
  have hsame : Function.update L i (some q) = L := by
    rw [← hi]
    exact Function.update_eq_self i L
  cases hplain : isPlain e with
  | true =>
      obtain ⟨hstep, hnext⟩ := plain_handles (q := q) hhandles hplain
      rw [hnext, hsame]
      exact hstep.sound h
  | false =>
      cases e with
      | updateUser id set =>
          rcases hhandles with ⟨e, -, rfl⟩ | ⟨-, rfl⟩
          · exact h.progress (h.unset hi hprep.2) _
          · exact h.sets hi hprep.2 hprep.1 id set
      | createSession data =>
          obtain ⟨random, -, rfl⟩ := hhandles
          have hnext : q.next (.createSession data) r = q := rfl
          rw [hnext, hsame]
          exact h.creates hcap data _
      | destroyByUser userId =>
          obtain ⟨-, rfl⟩ := hhandles
          exact h.sweeps hi hprep.1 hprep.2
      | _ => cases hplain

/-- **One operation that is not an overtaken login leaves no old session.** -/
theorem fresh_act (hf : Fresh s) (h : Sound cap s L) (hi : L i = some q) {e : AuthOp}
    {r : e.Answer} (hprep : Prepared q e) (hhandles : s.Handles i e r s')
    (hcalm : ¬s.Overtaken i e) : Fresh s' := by
  cases hplain : isPlain e with
  | true => exact (plain_handles (q := q) hhandles hplain).1.fresh hf
  | false =>
      cases e with
      | updateUser id set =>
          rcases hhandles with ⟨e, -, rfl⟩ | ⟨-, rfl⟩
          · exact hf
          · unfold Shared.sets
            dsimp only
            split <;> exact hf
      | createSession data =>
          obtain ⟨random, -, rfl⟩ := hhandles
          exact hf.creates hcalm
      | destroyByUser userId =>
          obtain ⟨-, rfl⟩ := hhandles
          exact hf.sweeps h hi hprep.2
      | _ => cases hplain

/-! ### Runs -/

omit [DecidableEq ι] [AuthPlatform] in
theorem sound_opening {users : List UserRow} {store : SessionStore} {now : ℤ}
    (hsize : store.sessions.size ≤ store.maxSessions) :
    Sound store.maxSessions (opening users store now : Shared ι) fun _ => none where
  maxSessions := rfl
  size := hsize
  set := fun i userId n h => by cases h
  attained := fun _ => Or.inl rfl

omit [AuthPlatform] in
theorem sound_spawn (h : Sound cap s L) (hi : L i = none) :
    Sound cap s (Function.update L i (some {})) := by
  refine h.progress ?_ {}
  cases hset : s.setBy i with
  | none => rfl
  | some set =>
      obtain ⟨q, hq, -⟩ := h.set i set.1 set.2 hset
      rw [hi] at hq
      cases hq

theorem requests_preserves (hcap : 1 ≤ cap) :
    System.Preserves (requests ι) Rely Prepared Succeeds (Sound cap) where
  start_wp := by
    intro i s p q hstart
    obtain ⟨rfl, call, rfl⟩ := hstart
    exact call_starts call
  spawn := by
    intro i s L p q h hi hstart
    obtain ⟨rfl, -⟩ := hstart
    exact sound_spawn h hi
  rely := fun _ _ _ _ _ _ _ _ _ _ _ => trivial
  act := fun i s L q e r s' h hi hprep _ hhandles => sound_act h hcap hi hprep hhandles
  drift := by
    intro s s' L h hdrift
    obtain ⟨now, rfl⟩ := hdrift
    exact ⟨h.maxSessions, h.size, h.set, h.attained⟩

theorem timely_preserves (hcap : 1 ≤ cap) :
    System.Preserves (timely ι) Rely Prepared Succeeds fun s L => Sound cap s L ∧ Fresh s where
  start_wp := by
    intro i s p q hstart
    obtain ⟨rfl, call, rfl⟩ := hstart
    exact call_starts (ι := ι) call
  spawn := by
    intro i s L p q h hi hstart
    obtain ⟨rfl, -⟩ := hstart
    exact ⟨sound_spawn h.1 hi, h.2⟩
  rely := fun _ _ _ _ _ _ _ _ _ _ _ => trivial
  act := fun i s L q e r s' h hi hprep _ hhandles =>
    ⟨sound_act h.1 hcap hi hprep hhandles.1, fresh_act h.2 h.1 hi hprep hhandles.1 hhandles.2⟩
  drift := by
    intro s s' L h hdrift
    obtain ⟨now, rfl⟩ := hdrift
    exact ⟨⟨h.1.maxSessions, h.1.size, h.1.set, h.1.attained⟩, h.2⟩

omit [DecidableEq ι] [AuthPlatform] in
theorem locals_of_thread {P : AuthPool ι} {p : Prog AuthOp AuthOp.Answer (Except Thrown Reply × Unit)}
    (h : P.thread i = some (p, q)) : P.locals i = some q := by
  unfold Pool.locals
  rw [h]
  rfl

/-- What is known of a reachable state without overtaken logins. -/
abbrev Known (cap : ℕ) (P : AuthPool ι) : Prop :=
  System.Holds (timely ι) Rely Prepared Succeeds (fun s L => Sound cap s L ∧ Fresh s) P

variable {P P' : AuthPool ι}

theorem Known.ended (h : Known cap P) : OldLoginsEnded P := by
  intro j q userId n hthread hset id session hget huser _
  have hswept : q.swept = true := (h.2 j _ q hthread).2 rfl
  obtain ⟨q', hq', -, hle⟩ := h.1.1.set j userId n hset
  rw [locals_of_thread hthread] at hq'
  cases hq'
  exact (hle hswept).trans (huser ▸ h.1.2 id session hget)

/-- An overtaken login leaves an old session. -/
theorem Known.calm (h : Known cap P) {e : AuthOp}
    {k : e.Answer → Prog AuthOp AuthOp.Answer (Except Thrown Reply × Unit)} {r : e.Answer}
    (hthread : P.thread i = some (.call e k, q)) (hhandles : P.shared.Handles i e r s')
    (hended : OldLoginsEnded ⟨s', Function.update P.thread i (some (k r, q.next e r))⟩) :
    ¬P.shared.Overtaken i e := by
  intro hover
  cases e with
  | createSession data =>
      have hover : P.shared.read i data.userId < P.shared.changed data.userId := hover
      obtain ⟨random, -, rfl⟩ := hhandles
      rcases h.1.1.attained data.userId with hzero | ⟨j, qj, hj, hjswept, hjset⟩
      · omega
      -- the change that has succeeded is another request, and has returned
      have hji : j ≠ i := by
        rintro rfl
        rw [locals_of_thread hthread] at hj
        cases hj
        have hswept := (h.2 j _ q hthread).1.1
        rw [hswept] at hjswept
        cases hjswept
      obtain ⟨⟨p, qj'⟩, hjthread, rfl⟩ := Option.map_eq_some_iff.1 hj
      have hp : p = .ret (.ok .changed, ()) := by
        have hwp := h.2 j p qj' hjthread
        cases p with
        | ret a => exact congrArg _ (hwp.1 hjswept)
        | call e' k' =>
            have hswept := hwp.1.1
            rw [hjswept] at hswept
            cases hswept
      rw [hp] at hjthread
      have hle := hended j qj' data.userId _ ((Function.update_of_ne hji _ _).trans hjthread) hjset
        (base64url random.1) _ SessionStore.create_get_self rfl (by
          show ¬P.shared.now + TTL_MS < P.shared.now
          unfold TTL_MS
          omega)
      replace hle : P.shared.changed data.userId ≤ Function.update P.shared.proof
        (base64url random.1) (P.shared.read i data.userId) (base64url random.1) := hle
      rw [Function.update_self] at hle
      omega
  | _ => exact hover

/-! ### Main result -/

/-- **Old logins end, as long as none is overtaken.**  The store always stays within its cap.  In
every state that requests reach without an overtaken login, no live session of an old password is
left once a change of it has succeeded.  And the next step leaves it so exactly when it is not an
overtaken login. -/
theorem old_logins_end {users : List UserRow} {store : SessionStore} {now : ℤ}
    (hcap : 1 ≤ store.maxSessions) (hsize : store.sessions.size ≤ store.maxSessions) :
    (∀ P, (requests ι).Reachable (opening users store now) P →
      P.shared.store.sessions.size ≤ store.maxSessions) ∧
    ∀ P, (timely ι).Reachable (opening users store now) P → OldLoginsEnded P ∧
      ∀ P', (requests ι).Step P P' → (OldLoginsEnded P' ↔ (timely ι).Step P P') := by
  have hopening : Sound store.maxSessions (opening users store now : Shared ι) fun _ => none :=
    sound_opening hsize
  have hfresh : Fresh (opening users store now : Shared ι) := fun _ _ _ => le_refl 0
  constructor
  · intro P hP
    exact (System.invariant (requests_preserves hcap) hopening hP).1.size
  · intro P hP
    have hknown : Known store.maxSessions P :=
      System.invariant (timely_preserves hcap) ⟨hopening, hfresh⟩ hP
    refine ⟨hknown.ended, fun P' hstep => ⟨fun hended => ?_, fun hcalm => ?_⟩⟩
    · cases hstep with
      | spawn hnone hstart => exact .spawn hnone hstart
      | act hthread hallows hhandles =>
          exact .act hthread hallows ⟨hhandles, hknown.calm hthread hhandles hended⟩
      | drift hdrift => exact .drift hdrift
    · have hknown' : Known store.maxSessions P' :=
        System.invariant (timely_preserves hcap) ⟨hopening, hfresh⟩ (hP.tail hcalm)
      exact hknown'.ended

end

/-! ### Samples -/

namespace Sample

/-- The keys of three passwords, and the signatures of two session ids. -/
@[reducible] def platform : AuthPlatform where
  hmac _ text :=
    if text = js "AAAAAAAAAAAAAAAAAAAAAAAAAAAAAAAA" then
      js "6jIeWbTM0KoeQfU2khSKayqpeRPK8v8Cud9f4JV6W8Y"
    else js "5H8XSoyQucxk4McNAtWUyZ9EofgE8M5R0jPhOVyXgbU"
  scrypt password salt _ _ _ :=
    if password = js "old password" ∧ salt = Base64.decode (js "AAECAwQFBgcICQoLDA0ODw==") then
      some (Base64.decode (js "B5g9fjxdBgxSGZMAPfunGZhlq6xHTOQNHajWw4fWWQs="))
    else if password = js "wrong password" ∧
        salt = Base64.decode (js "AAECAwQFBgcICQoLDA0ODw==") then
      some (Base64.decode (js "o+4A4PMrl5YnEezJ03MM8HVScp3sXOjNvUHmbQOob+M="))
    else if password = js "new password" ∧ salt = List.replicate 16 (Base64.byte 0) then
      some (Base64.decode (js "dybrSyA0EWgipCe7zuNyRgLxFM+yz9cnrWKx1j7lH6s="))
    else none
  isEmail text := text.contains 64

def adminId : Uuid := ⟨"00000000-0000-4000-8000-0000000000d1", by decide⟩
def adminFirmId : Uuid := ⟨"00000000-0000-4000-8000-0000000000d2", by decide⟩

def admin : UserRow where
  id := adminId
  firmId := adminFirmId
  role := .admin
  email := some (js "a@b.co")
  displayName := none
  passwordHash := some
    (js "scrypt$16384$8$1$AAECAwQFBgcICQoLDA0ODw==$B5g9fjxdBgxSGZMAPfunGZhlq6xHTOQNHajWw4fWWQs=")

/-- A store with a session of the admin. -/
def store : SessionStore where
  secret := js "secret"
  maxSessions := 1000
  sessions := JsMap.ofList [(js "AAAAAAAAAAAAAAAAAAAAAAAAAAAAAAAA",
    { userId := adminId, firmId := adminFirmId, email := js "a@b.co", role := .admin
      expiresAt := 1000 })]

theorem zeros_length (n : ℕ) : (List.replicate n (Base64.byte 0)).length = n :=
  List.length_replicate

/-- A service that answers every request; the ids of new sessions are alike. -/
def answer [AuthPlatform] (i : ℕ) (s : Shared ℕ) (_ : Progress) : (e : AuthOp) → e.Answer × Shared ℕ
  | .randomBytes n => (⟨List.replicate n (Base64.byte 0), zeros_length n⟩, s)
  | .scrypt password salt n r p =>
      ((AuthPlatform.scrypt password salt n r p).elim (.error .other) .ok, s)
  | .dummyPasswordHash => (.error .other, s)
  | .findUserByEmail email =>
      (.ok (s.users.find? fun row => row.email = some email),
        s.reads i (s.users.find? fun row => row.email = some email))
  | .findUserById id => (.ok (Rows.find UserRow.id id s.users),
      s.reads i (Rows.find UserRow.id id s.users))
  | .findFirm _ => (.ok none, s)
  | .updateUser id set =>
      if set.email.isSome then (.error .other, s) else (.ok (), s.sets i id set)
  | .audit _ => ((), s)
  | .getSession cookie => ((s.store.get cookie s.now).1,
      { s with store := (s.store.get cookie s.now).2 })
  | .createSession data =>
      ((s.store.create data (base64url (List.replicate 24 (Base64.byte 1))) s.now).1,
        s.creates i data (base64url (List.replicate 24 (Base64.byte 1))))
  | .destroySession cookie => ((), { s with store := s.store.destroy cookie })
  | .destroyByUser userId => ((s.store.destroyByUser userId).1, s.sweeps i userId)

theorem answer_sound [AuthPlatform] : System.Sound (requests ℕ) answer := by
  intro i s q e
  refine ⟨trivial, ?_⟩
  cases e with
  | scrypt password salt n r p =>
      refine ⟨rfl, fun key hkey => ?_⟩
      replace hkey : (AuthPlatform.scrypt password salt n r p).elim (.error .other) .ok =
        (.ok key : Except Thrown Bytes) := hkey
      cases hscrypt : AuthPlatform.scrypt password salt n r p with
      | none => rw [hscrypt] at hkey; cases hkey
      | some key' =>
          rw [hscrypt] at hkey
          exact congrArg some (Except.ok.inj hkey)
  | findUserByEmail email => exact Or.inr ⟨_, rfl, rfl, rfl⟩
  | findUserById id => exact Or.inr ⟨_, rfl, rfl, rfl⟩
  | updateUser id set =>
      show (∃ e, (answer i s q (.updateUser id set)).1 = .error e ∧ _) ∨ _
      unfold answer
      dsimp only
      split
      · exact Or.inl ⟨_, rfl, rfl⟩
      · rename_i hnone
        refine Or.inr ⟨fun email hemail => ?_, rfl⟩
        rw [hemail] at hnone
        exact absurd rfl hnone
  | getSession cookie => exact ⟨rfl, rfl⟩
  | createSession data => exact ⟨⟨_, List.length_replicate⟩, rfl, rfl⟩
  | destroyByUser userId => exact ⟨rfl, rfl⟩
  | _ => rfl

def loginBody (password : String) : Json :=
  .obj [(js "email", .str (js "a@b.co")), (js "password", .str (js password))]

def changeBody : Json :=
  .obj [(js "currentPassword", .str (js "old password")),
    (js "newPassword", .str (js "new password"))]

def cookie : JsString :=
  js "AAAAAAAAAAAAAAAAAAAAAAAAAAAAAAAA.6jIeWbTM0KoeQfU2khSKayqpeRPK8v8Cud9f4JV6W8Y"

section

variable [AuthPlatform]

/-- A login awaits its check while the password is changed. -/
def overtakenLogin :
    List (Action ℕ AuthOp AuthOp.Answer (Except Thrown Reply × Unit) (Shared ℕ) Progress) :=
  [.spawn 0 ((Call.login (some (loginBody "old password"))).run ()) {},
    .spawn 1 ((Call.changeCredentials (some cookie) (some (js "1")) (some changeBody)).run ()) {},
    .run 0 1, .run 1 8, .run 0 2]

def afterwards : AuthPool ℕ :=
  (System.initial (opening [admin] store 0) : Pool ..).exec Progress.next answer overtakenLogin

end

/-- What a request has returned. -/
def returned (thread : Option (Prog AuthOp AuthOp.Answer (Except Thrown Reply × Unit) × Progress)) :
    Option Reply :=
  match thread with
  | some (.ret (.ok reply, _), _) => some reply
  | _ => none

theorem returned_eq {thread : Option (Prog AuthOp AuthOp.Answer (Except Thrown Reply × Unit) ×
    Progress)} {reply : Reply} (h : returned thread = some reply) :
    ∃ q, thread = some (.ret (.ok reply, ()), q) := by
  unfold returned at h
  split at h
  · rename_i reply' u q
    cases h
    exact ⟨q, rfl⟩
  · cases h

/-- The session of the overtaken login. -/
def newId : JsString := js "AQEBAQEBAQEBAQEBAQEBAQEBAQEBAQEB"

theorem afterwards_eq : letI := platform
    (returned (afterwards.thread 1), afterwards.shared.setBy 1,
      (afterwards.shared.store.sessions.get newId).map fun session =>
        (session.userId, session.expiresAt), afterwards.shared.now, afterwards.shared.proof newId) =
      (some .changed, some (adminId, 1), some (adminId, TTL_MS), 0, 0) := by
  decide +kernel

theorem not_ended {P : AuthPool ℕ}
    (h : (returned (P.thread 1), P.shared.setBy 1,
      (P.shared.store.sessions.get newId).map fun session => (session.userId, session.expiresAt),
        P.shared.now, P.shared.proof newId) =
      (some .changed, some (adminId, 1), some (adminId, TTL_MS), 0, 0)) : ¬OldLoginsEnded P := by
  intro hended
  simp only [Prod.mk.injEq] at h
  obtain ⟨hreturned, hset, hsession, hnow, hproof⟩ := h
  obtain ⟨q, hthread⟩ := returned_eq hreturned
  obtain ⟨session, hget, heq⟩ := Option.map_eq_some_iff.1 hsession
  obtain ⟨huser, hexpires⟩ := Prod.mk.inj heq
  have hlive : ¬session.expiresAt < P.shared.now := by
    rw [hexpires, hnow]
    decide
  have hle := hended 1 q adminId 1 hthread hset newId session hget huser hlive
  omega

/-- **A login that straddles the change lives on.** -/
theorem old_login_lives : letI := platform
    ∃ P, (requests ℕ).Reachable (opening [admin] store 0) P ∧ ¬OldLoginsEnded P := by
  refine ⟨@afterwards platform, ?_, not_ended afterwards_eq⟩
  let := platform
  refine System.reachable_exec answer_sound .refl ?_
  exact ⟨rfl, ⟨rfl, .login (some (loginBody "old password")), rfl⟩, rfl,
    ⟨rfl, .changeCredentials (some cookie) (some (js "1")) (some changeBody), rfl⟩, trivial⟩

section

variable [AuthPlatform]

/-- A login and a change of the password, one after the other, with another login that awaits its
check meanwhile and is refused, and a login with the new password. -/
def timelyLogins :
    List (Action ℕ AuthOp AuthOp.Answer (Except Thrown Reply × Unit) (Shared ℕ) Progress) :=
  [.spawn 0 ((Call.login (some (loginBody "old password"))).run ()) {},
    .spawn 1 ((Call.changeCredentials (some cookie) (some (js "1")) (some changeBody)).run ()) {},
    .spawn 2 ((Call.login (some (loginBody "wrong password"))).run ()) {},
    .run 0 3, .run 2 1, .run 1 8, .run 2 2,
    .spawn 3 ((Call.login (some (loginBody "new password"))).run ()) {}, .run 3 3]

def renewed : AuthPool ℕ :=
  (System.initial (opening [admin] store 0) : Pool ..).exec Progress.next answer timelyLogins

end

theorem renewed_changed : letI := platform
    returned (renewed.thread 1) = some .changed ∧ renewed.shared.setBy 1 = some (adminId, 1) := by
  decide +kernel

/-- The login with the new password has its session. -/
theorem renewed_session : letI := platform
    (renewed.shared.store.sessions.get newId).map (fun session => (session.userId, session.expiresAt)) =
      some (adminId, TTL_MS) := by
  decide +kernel

theorem renewed_reachable : letI := platform
    (timely ℕ).Reachable (opening [admin] store 0) renewed := by
  let := platform
  refine System.reachable_guarded (S := requests ℕ) (B := fun i s e => s.Overtaken i e) answer_sound
    .refl ?_ (by decide +kernel)
  exact ⟨rfl, ⟨rfl, .login (some (loginBody "old password")), rfl⟩, rfl,
    ⟨rfl, .changeCredentials (some cookie) (some (js "1")) (some changeBody), rfl⟩, rfl,
    ⟨rfl, .login (some (loginBody "wrong password")), rfl⟩, rfl,
    ⟨rfl, .login (some (loginBody "new password")), rfl⟩, trivial⟩

/-- After the change the store is within its cap, no session of the old password is left, and the next
step leaves it so exactly when it is not an overtaken login. -/
theorem renewed_ended : letI := platform
    (returned (renewed.thread 1) = some .changed ∧ renewed.shared.setBy 1 = some (adminId, 1)) ∧
      (renewed.shared.store.sessions.get newId).map (fun session =>
        (session.userId, session.expiresAt)) = some (adminId, TTL_MS) ∧
      renewed.shared.store.sessions.size ≤ 1000 ∧ OldLoginsEnded renewed ∧
      ∀ P', (requests ℕ).Step renewed P' → (OldLoginsEnded P' ↔ (timely ℕ).Step renewed P') := by
  let := platform
  have h := @old_logins_end ℕ _ _ [admin] store 0 (by decide) (by decide)
  have hrequests := System.reachable_of_guarded (S := requests ℕ) renewed_reachable
  exact ⟨renewed_changed, renewed_session, h.1 _ hrequests, h.2 _ renewed_reachable⟩

end Sample

end Auth

end VibeRouter
