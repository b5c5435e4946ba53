import Mathlib.Tactic.NormNum
import VibeRouter.Db.Schema
import VibeRouter.Lib.Base64
import VibeRouter.Lib.JsMap
import VibeRouter.Lib.Utf8

/-! # Admin sessions

`SessionStore` keeps the sessions of the admin API under random ids; a cookie has an id and its
signature.  A session is created after as many others have been evicted as it takes, so the store
never holds more than its cap (`create_size`). -/

namespace VibeRouter

/-- What the admin API calls and is not part of the program. -/
class AuthPlatform where
  /-- `createHmac('sha256', secret).update(text).digest('base64url')`. -/
  hmac : (secret text : JsString) → JsString
  /-- `scrypt(password, salt, 32, { N: Number(n), r: Number(r), p: Number(p) })`; `none` where it
  fails. -/
  scrypt : (password : JsString) → (salt : Bytes) → (n r p : JsString) → Option Bytes
  /-- The texts that `z.string().email()` accepts. -/
  isEmail : JsString → Bool

/-- What a session is created for. -/
structure Login where
  userId : Uuid
  firmId : Uuid
  email : JsString
  role : UserRole

structure SessionData extends Login where
  expiresAt : ℤ

def TTL_MS : ℤ := 12 * 3600000

structure SessionStore where
  secret : JsString
  maxSessions : ℕ
  sessions : JsMap JsString SessionData

/-- `text.lastIndexOf('.')`; `none` is -1. -/
def lastDot (text : JsString) : Option ℕ :=
  ((text.zipIdx.filter fun c => c.1 = 46).map Prod.snd).getLast?

/-- `buffer.toString('base64url')`: the other alphabet, without padding. -/
def base64url (bs : Bytes) : JsString :=
  (Base64.encode bs).filterMap fun c =>
    if c = 43 then some 45 else if c = 47 then some 95 else if c = 61 then none else some c

namespace SessionStore

variable (st : SessionStore)

/-! ### Eviction -/

/-- The session that expires first, the one created first among those. -/
def oldest : List (JsString × SessionData) → Option (JsString × SessionData)
  | [] => none
  | e :: es => some (es.foldl (fun best e => if e.2.expiresAt < best.2.expiresAt then e else best) e)

/-- The `while` loop; each round deletes a session, so there are no more rounds than sessions. -/
def evictOldest (maxSessions : ℕ) : ℕ → JsMap JsString SessionData → JsMap JsString SessionData
  | 0, sessions => sessions
  | rounds + 1, sessions =>
      if maxSessions ≤ sessions.size then match oldest sessions.entries with
        | some e => evictOldest maxSessions rounds (sessions.delete e.1)
        | none => sessions
      else sessions

def evictIfNeeded (now : ℤ) : SessionStore :=
  let live := st.sessions.filter fun e => ¬e.2.expiresAt < now
  { st with sessions := evictOldest st.maxSessions live.size live }

/-! ### Operations -/

section
variable [AuthPlatform]

def sign (id : JsString) : JsString := AuthPlatform.hmac st.secret id

/-- The cookie, and the store after; `id` is the random id. -/
def create (data : Login) (id : JsString) (now : ℤ) : JsString × SessionStore :=
  let st := st.evictIfNeeded now
  (id ++ js "." ++ st.sign id,
    { st with sessions := st.sessions.set id { data with expiresAt := now + TTL_MS } })

/-- The id in a cookie, when its signature is right. -/
def verified (cookie : JsString) : Option JsString :=
  match lastDot cookie with
  | none => none
  | some dot =>
      let id := cookie.take dot
      let sig := cookie.drop (dot + 1)
      if Utf8.encode sig = Utf8.encode (st.sign id) then some id else none

/-- `get` prolongs the session it finds, and deletes one that has expired. -/
def get (cookieValue : Option JsString) (now : ℤ) : Option SessionData × SessionStore :=
  match (cookieValue.filter fun c => c ≠ []).bind st.verified with
  | none => (none, st)
  | some id => match st.sessions.get id with
    | none => (none, st)
    | some session =>
        if session.expiresAt < now then
          (none, { st with sessions := st.sessions.delete id })
        else
          let session := { session with expiresAt := now + TTL_MS }
          (some session, { st with sessions := st.sessions.set id session })

end

/-- The signature is not looked at.  `cookie.slice(0, -1)` is all but the last letter. -/
def destroy (cookieValue : Option JsString) : SessionStore :=
  match cookieValue.filter fun c => c ≠ [] with
  | none => st
  | some cookie =>
      let id := match lastDot cookie with
        | some dot => cookie.take dot
        | none => cookie.dropLast
      { st with sessions := st.sessions.delete id }

/-- How many sessions were dropped, and the store after. -/
def destroyByUser (userId : Uuid) : ℕ × SessionStore :=
  let sessions := st.sessions.filter fun e => e.2.userId ≠ userId
  (st.sessions.size - sessions.size, { st with sessions })

/-! ### What the operations keep -/

/-- No session is created: what is left are sessions of the same logins. -/
structure Keeps (st st' : SessionStore) : Prop where
  maxSessions : st'.maxSessions = st.maxSessions
  size : st'.sessions.size ≤ st.sessions.size
  logins : ∀ id s', st'.sessions.get id = some s' →
    ∃ s, st.sessions.get id = some s ∧ s.toLogin = s'.toLogin

variable {st}

theorem keeps_same : Keeps st st := ⟨rfl, le_refl _, fun _ s' h => ⟨s', h, rfl⟩⟩

theorem keeps_delete (id : JsString) :
    Keeps st { st with sessions := st.sessions.delete id } where
  maxSessions := rfl
  size := JsMap.size_delete_le _ _
  logins := by
    intro id' s' h
    rw [JsMap.get_delete] at h
    split at h
    · cases h
    · exact ⟨s', h, rfl⟩

theorem keeps_filter (p : JsString × SessionData → Bool) :
    Keeps st { st with sessions := st.sessions.filter p } where
  maxSessions := rfl
  size := JsMap.size_filter_le _ _
  logins := fun _ s' h => ⟨s', (JsMap.get_filter_iff.1 h).1, rfl⟩

theorem keeps_get [AuthPlatform] (cookieValue : Option JsString) (now : ℤ) :
    Keeps st (st.get cookieValue now).2 := by
  unfold get
  split
  · exact keeps_same
  · rename_i id _
    split
    · exact keeps_same
    · rename_i session hsession
      split
      · exact keeps_delete id
      · refine ⟨rfl, le_of_eq (JsMap.size_set_of_some hsession _), fun id' s' h => ?_⟩
        rw [JsMap.get_set] at h
        split at h
        · rename_i hid
          rw [← Option.some.inj h, hid]
          exact ⟨session, hsession, rfl⟩
        · exact ⟨s', h, rfl⟩

theorem keeps_destroy (cookieValue : Option JsString) : Keeps st (st.destroy cookieValue) := by
  unfold destroy
  split
  · exact keeps_same
  · exact keeps_delete _

theorem keeps_destroyByUser (userId : Uuid) : Keeps st (st.destroyByUser userId).2 :=
  keeps_filter _

/-- No session of the user is left. -/
theorem destroyByUser_get {userId : Uuid} {id : JsString} {s : SessionData}
    (h : (st.destroyByUser userId).2.sessions.get id = some s) : s.userId ≠ userId :=
  of_decide_eq_true (JsMap.get_filter_iff.1 h).2

/-! ### The cap -/

theorem oldest_mem {es : List (JsString × SessionData)} {e : JsString × SessionData}
    (h : oldest es = some e) : e ∈ es := by
  cases es with
  | nil => cases h
  | cons e₀ es =>
      rw [← Option.some.inj h]
      clear h
      induction es generalizing e₀ with
      | nil => exact List.mem_singleton_self _
      | cons e₁ es ih =>
          rw [List.foldl_cons]
          split
          · exact List.mem_cons_of_mem _ (ih e₁)
          · rcases List.mem_cons.1 (ih e₀) with heq | hmem
            · rw [heq]
              exact List.mem_cons_self ..
            · exact List.mem_cons_of_mem _ (List.mem_cons_of_mem _ hmem)

theorem evictOldest_get {maxSessions rounds : ℕ} {m : JsMap JsString SessionData} {id : JsString}
    {s : SessionData} (h : (evictOldest maxSessions rounds m).get id = some s) :
    m.get id = some s := by
  induction rounds generalizing m with
  | zero => exact h
  | succ rounds ih =>
      unfold evictOldest at h
      split at h
      · split at h
        · have hrest := ih h
          rw [JsMap.get_delete] at hrest
          split at hrest
          · cases hrest
          · exact hrest
        · exact h
      · exact h

/-- Enough sessions are evicted for one more. -/
theorem evictOldest_size {maxSessions rounds : ℕ} {m : JsMap JsString SessionData}
    (hcap : 1 ≤ maxSessions) (hrounds : m.size ≤ rounds) :
    (evictOldest maxSessions rounds m).size < maxSessions := by
  induction rounds generalizing m with
  | zero =>
      unfold evictOldest
      omega
  | succ rounds ih =>
      unfold evictOldest
      split
      · rename_i hfull
        cases holdest : oldest m.entries with
        | some e =>
            have hsmaller := JsMap.size_delete_lt (oldest_mem holdest)
            exact ih (by omega)
        | none =>
            have hnil : m.entries = [] := by
              cases hentries : m.entries with
              | nil => rfl
              | cons e es => rw [hentries] at holdest; cases holdest
            have hsize : m.size = 0 := congrArg List.length hnil
            omega
      · omega

variable [AuthPlatform] {data : Login} {id : JsString} {now : ℤ}

/-- The sessions after a login: the new one, and some of those before. -/
theorem create_get {id' : JsString} {s : SessionData}
    (h : (st.create data id now).2.sessions.get id' = some s) :
    id' = id ∧ s = { data with expiresAt := now + TTL_MS } ∨
      id' ≠ id ∧ st.sessions.get id' = some s := by
  unfold create at h
  dsimp only at h
  rw [JsMap.get_set] at h
  split at h
  · rename_i hid
    exact Or.inl ⟨hid, (Option.some.inj h).symm⟩
  · rename_i hid
    exact Or.inr ⟨hid, (JsMap.get_filter_iff.1 (evictOldest_get h)).1⟩

theorem create_get_self : (st.create data id now).2.sessions.get id =
    some { data with expiresAt := now + TTL_MS } :=
  JsMap.get_set_self _ _ _

/-- **A login stays within the cap.** -/
theorem create_size (hcap : 1 ≤ st.maxSessions) :
    (st.create data id now).2.sessions.size ≤ st.maxSessions := by
  unfold create evictIfNeeded
  dsimp only
  have hroom := evictOldest_size hcap
    (le_refl (st.sessions.filter fun e => ¬e.2.expiresAt < now).size)
  exact (JsMap.size_set_le _ _ _).trans hroom

end SessionStore

end VibeRouter
