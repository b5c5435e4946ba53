import VibeRouter.Db.Credentials
import VibeRouter.Lib.Code
import VibeRouter.Vault.Envelope
import Mathlib.Data.List.Perm.Basic

/-! # Master key rotation

The script reads every credential and wraps again, one statement a row, those that are neither
revoked nor under the new key already.  It may be stopped before any of its statements, and run
again.

`credentials_survive_rotation`: whatever the vault has written for a plaintext decrypts to it
under the keyring of the script, however often the script was stopped, and after a completed run
under the new key alone. -/

namespace VibeRouter

open Effects

/-! ### The script -/

/-- The variables of the environment that the script reads. -/
structure RotationEnv where
  DATABASE_URL : Option JsString
  OLD_MASTER_KEY : Option JsString
  NEW_MASTER_KEY : Option JsString
  OLD_MASTER_KEY_VERSION : Option ℤ
  NEW_MASTER_KEY_VERSION : Option ℤ

/-- The keyring of the script; `none` when it exits with status 1. -/
def rotationKeyring (env : RotationEnv) : Option Keyring :=
  match textGiven env.DATABASE_URL, textGiven env.OLD_MASTER_KEY, textGiven env.NEW_MASTER_KEY with
  | some _, some oldKey, some newKey =>
      let oldVersion := env.OLD_MASTER_KEY_VERSION.getD 1
      let newVersion := env.NEW_MASTER_KEY_VERSION.getD (oldVersion + 1)
      if newVersion ≤ oldVersion then none
      else
        let keyring : Keyring :=
          { keys := (JsMap.empty.set oldVersion (Base64.decode oldKey)).set newVersion
              (Base64.decode newKey)
            currentVersion := newVersion }
        if keyring.keys.values.all fun key => key.length = 32 then some keyring else none
  | _, _, _ => none

/-- The statements of the script, and the random bytes it draws. -/
inductive RotationOp
  | findMany
  | randomBytes
  | update (id : Uuid) (set : Sealed)

namespace RotationOp

@[reducible] def Answer : RotationOp → Type
  | findMany => List CredentialRow
  | randomBytes => Random 12
  | update _ _ => Unit

def setSealed (set : Sealed) (row : CredentialRow) : CredentialRow :=
  { row with ciphertext := set.ciphertext, keyVersion := set.keyVersion }

/-- The database answers with the rows in any order. -/
def env : Env RotationOp Answer (List CredentialRow) where
  allows db
    | findMany, r => r.Perm db
    | _, _ => True
  next db
    | update id set, _ => Rows.update CredentialRow.id id (setSealed set) db
    | _, _ => db

end RotationOp

abbrev Rotation (α : Type) : Type := Code RotationOp RotationOp.Answer Unit Thrown α

section

variable [Gcm] [Platform]

/-- `rewrapped` and `skipped`. -/
structure RotationCounts where
  rewrapped : ℕ := 0
  skipped : ℕ := 0

/-- The loop, from the row it has come to. -/
def rotateRows (keyring : Keyring) : List CredentialRow → RotationCounts → Rotation RotationCounts
  | [], counts => pure counts
  | row :: rows, counts =>
      if row.status = .revoked then
        rotateRows keyring rows { counts with skipped := counts.skipped + 1 }
      else if row.keyVersion = keyring.currentVersion then
        rotateRows keyring rows { counts with skipped := counts.skipped + 1 }
      else do
        let iv ← Code.perform RotationOp.randomBytes
        let next ← Code.ofExcept (rewrapCredential row.ciphertext row.keyVersion keyring iv)
        Code.perform (RotationOp.update row.id next)
        rotateRows keyring rows { counts with rewrapped := counts.rewrapped + 1 }

/-- `main`; `none` when it exits before it opens the database. -/
def rotateMasterKey (env : RotationEnv) : Rotation (Option RotationCounts) :=
  match rotationKeyring env with
  | none => pure none
  | some keyring => do
      let rows ← Code.perform RotationOp.findMany
      let counts ← rotateRows keyring rows {}
      pure (some counts)

/-- From one table to another by a run of the script, to its end or to where it was stopped. -/
def Rerun (env : RotationEnv) (db db' : List CredentialRow) : Prop :=
  ∃ p, Prog.Run RotationOp.env (rotateMasterKey env ()) db p db'

/-! ### What the vault writes -/

/-- A keyring with the right key for each of its versions. -/
def Keyring.Of (keyring : Keyring) (masters : ℤ → Option (Random 32)) : Prop :=
  ∀ version key, keyring.keys.get version = some key →
    ∃ master, masters version = some master ∧ master.val = key

def Keyring.Holds (keyring : Keyring) (version : ℤ) : Prop :=
  ∃ key, keyring.keys.get version = some key

/-- The keyring of the current key alone. -/
def Keyring.alone (keyring : Keyring) : Keyring :=
  { keyring with keys := keyring.keys.filterKeys fun version => version = keyring.currentVersion }

/-- What is stored for a plaintext: it was encrypted, and wrapped again any number of times,
under keyrings of the master keys. -/
inductive SealedFor (masters : ℤ → Option (Random 32)) (plaintext : JsString) : Sealed → Prop
  | encrypt {keyring : Keyring} {dek : Random 32} {iv iv' : Random 12} {s : Sealed} :
      keyring.Of masters → encryptCredential plaintext keyring dek iv iv' = .ok s →
      SealedFor masters plaintext s
  | rewrap {keyring : Keyring} {iv : Random 12} {s s' : Sealed} :
      keyring.Of masters → SealedFor masters plaintext s →
      rewrapCredential s.ciphertext s.keyVersion keyring iv = .ok s' →
      SealedFor masters plaintext s'

def CredentialRow.toSealed (row : CredentialRow) : Sealed where
  ciphertext := row.ciphertext
  keyVersion := row.keyVersion

variable {masters : ℤ → Option (Random 32)} {plaintext : JsString} {keyring : Keyring} {s : Sealed}

/-- What is stored opens under the master key of its version. -/
def OpensOf (masters : ℤ → Option (Random 32)) (plaintext : JsString) (s : Sealed) : Prop :=
  ∃ master, masters s.keyVersion = some master ∧ Opens master.val plaintext s.ciphertext

omit [Gcm] [Platform] in
theorem Keyring.Of.get (h : keyring.Of masters) {version : ℤ} {key : Bytes}
    (hkey : keyring.keys.get version = some key) :
    ∃ master, masters version = some master ∧ keyring.keys.get version = some master.val := by
  obtain ⟨master, hmaster, hval⟩ := h version key hkey
  exact ⟨master, hmaster, hval ▸ hkey⟩

/-- Wrapping again keeps what a credential opens to. -/
theorem OpensOf.rewrap (hgcm : Gcm.Lawful) (hof : keyring.Of masters) (h : OpensOf masters plaintext s)
    (hholds : keyring.Holds s.keyVersion) (hcurrent : keyring.Holds keyring.currentVersion)
    (iv : Random 12) :
    ∃ s', rewrapCredential s.ciphertext s.keyVersion keyring iv = .ok s' ∧
      s'.keyVersion = keyring.currentVersion ∧ OpensOf masters plaintext s' := by
  obtain ⟨master, hmaster, hopens⟩ := h
  obtain ⟨key, hkey⟩ := hholds
  obtain ⟨key', hkey'⟩ := hcurrent
  obtain ⟨master', hmaster', hget⟩ := hof.get hkey
  obtain ⟨target, htarget, hget'⟩ := hof.get hkey'
  have hsame : master' = master := Option.some.inj (hmaster'.symm.trans hmaster)
  rw [hsame] at hget
  obtain ⟨s', hs', hversion, hopens'⟩ := rewrapCredential_opens iv hgcm hget hget' hopens
  exact ⟨s', hs', hversion, target, hversion ▸ htarget, hopens'⟩

/-- **Everything the vault writes opens to its plaintext.** -/
theorem SealedFor.opensOf (hgcm : Gcm.Lawful) (h : SealedFor masters plaintext s) :
    OpensOf masters plaintext s := by
  induction h with
  | @encrypt keyring dek iv iv' s hof hs =>
      cases hget : keyring.keys.get keyring.currentVersion with
      | none =>
          unfold encryptCredential at hs
          rw [hget] at hs
          cases hs
      | some key =>
          obtain ⟨master, hmaster, hget'⟩ := hof.get hget
          obtain ⟨s', hs', hversion, hopens⟩ := encryptCredential_opens plaintext dek iv iv' hgcm
            hget'
          obtain rfl : s' = s := Except.ok.inj (hs'.symm.trans hs)
          exact ⟨master, hversion ▸ hmaster, hopens⟩
  | @rewrap keyring iv s s' hof _ hs ih =>
      have hheld : keyring.Holds s.keyVersion ∧ keyring.Holds keyring.currentVersion := by
        unfold rewrapCredential at hs
        cases hget : keyring.keys.get s.keyVersion with
        | none =>
            rw [hget] at hs
            cases hs
        | some key =>
            cases hget' : keyring.keys.get keyring.currentVersion with
            | none =>
                rw [hget, hget'] at hs
                cases hs
            | some key' => exact ⟨⟨key, hget⟩, ⟨key', hget'⟩⟩
      obtain ⟨s₁, hs₁, -, hopens⟩ := ih.rewrap hgcm hof hheld.1 hheld.2 iv
      obtain rfl : s₁ = s' := Except.ok.inj (hs₁.symm.trans hs)
      exact hopens

/-- What opens under the master key of its version is decrypted with every keyring that holds
that version. -/
theorem OpensOf.decrypt (hplain : Utf8.WellFormed plaintext) (h : OpensOf masters plaintext s)
    (hof : keyring.Of masters) (hholds : keyring.Holds s.keyVersion) :
    decryptCredential s.ciphertext s.keyVersion keyring = .ok plaintext := by
  obtain ⟨master, hmaster, hopens⟩ := h
  obtain ⟨key, hkey⟩ := hholds
  obtain ⟨master', hmaster', hget⟩ := hof.get hkey
  have hsame : master' = master := Option.some.inj (hmaster'.symm.trans hmaster)
  rw [hsame] at hget
  exact decryptCredential_opens hplain hget hopens

/-! ### The loop -/

/-- The columns that a rotation does not write. -/
def CredentialRow.rest (row : CredentialRow) : CredentialRow :=
  { row with ciphertext := [], keyVersion := 0 }

/-- The table that was `db₀`, with some credentials wrapped again: every credential opens to its
plaintext, and those that are not revoked under a key of the keyring. -/
structure Safe (masters : ℤ → Option (Random 32)) (keyring : Keyring) (plain : Uuid → JsString)
    (db₀ db : List CredentialRow) : Prop where
  rest : db.map CredentialRow.rest = db₀.map CredentialRow.rest
  opens : ∀ row ∈ db, OpensOf masters (plain row.id) row.toSealed
  held : ∀ row ∈ db, row.status ≠ .revoked → keyring.Holds row.keyVersion
  revoked : ∀ row ∈ db, row.status = .revoked → row ∈ db₀

def Rotated (keyring : Keyring) (row : CredentialRow) : Prop :=
  row.status = .revoked ∨ row.keyVersion = keyring.currentVersion

/-- The table when `todo` is what is left of the rows that were read: those are as they were, and
the others are rotated. -/
structure Rotating (masters : ℤ → Option (Random 32)) (keyring : Keyring) (plain : Uuid → JsString)
    (db₀ todo db : List CredentialRow) : Prop extends Safe masters keyring plain db₀ db where
  nodup : (todo.map CredentialRow.id).Nodup
  waiting : ∀ row ∈ todo, row ∈ db
  done : ∀ row ∈ db, row ∈ todo ∨ Rotated keyring row

variable {plain : Uuid → JsString} {db₀ db rows : List CredentialRow} {row : CredentialRow}

omit [Gcm] [Platform] in
theorem map_id_of_rest (h : db.map CredentialRow.rest = db₀.map CredentialRow.rest) :
    db.map CredentialRow.id = db₀.map CredentialRow.id := by
  have hid : CredentialRow.id = CredentialRow.id ∘ CredentialRow.rest := rfl
  rw [hid, ← List.map_map, h, List.map_map]

/-- A row that needs no rotation is passed over. -/
theorem Rotating.skip (h : Rotating masters keyring plain db₀ (row :: rows) db)
    (hrow : Rotated keyring row) : Rotating masters keyring plain db₀ rows db where
  toSafe := h.toSafe
  nodup := (List.nodup_cons.1 h.nodup).2
  waiting := fun r hr => h.waiting r (List.mem_cons_of_mem _ hr)
  done := by
    intro r hr
    rcases h.done r hr with htodo | hdone
    · rcases List.mem_cons.1 htodo with rfl | htodo
      · exact Or.inr hrow
      · exact Or.inl htodo
    · exact Or.inr hdone

/-- A row that is written anew is rotated, and the others are as they were. -/
theorem Rotating.update (hkeys : (db₀.map CredentialRow.id).Nodup)
    (h : Rotating masters keyring plain db₀ (row :: rows) db) (hstatus : row.status ≠ .revoked)
    (hversion : s.keyVersion = keyring.currentVersion)
    (hcurrent : keyring.Holds keyring.currentVersion) (hopens : OpensOf masters (plain row.id) s) :
    Rotating masters keyring plain db₀ rows
      (Rows.update CredentialRow.id row.id (RotationOp.setSealed s) db) := by
  obtain ⟨hnew, hnodup⟩ := List.nodup_cons.1 h.nodup
  have hkeys' : (db.map CredentialRow.id).Nodup := by
    rw [map_id_of_rest h.rest]
    exact hkeys
  have hself : ∀ r ∈ db, r.id = row.id → r = row := fun r hr hid =>
    Rows.eq_of_key hkeys' hr (h.waiting row (List.mem_cons_self ..)) hid
  refine ⟨⟨?_, ?_, ?_, ?_⟩, hnodup, ?_, ?_⟩
  · have hrest : ∀ r, (RotationOp.setSealed s r).rest = r.rest := fun _ => rfl
    rw [Rows.map_update CredentialRow.rest hrest]
    exact h.rest
  · intro r hr
    obtain ⟨r₀, hr₀, rfl⟩ := List.mem_map.1 hr
    split
    · next hid =>
        have hplain : (RotationOp.setSealed s r₀).id = row.id := hid
        rw [hplain]
        exact hopens
    · exact h.opens r₀ hr₀
  · intro r hr
    obtain ⟨r₀, hr₀, rfl⟩ := List.mem_map.1 hr
    split
    · intro _
      show keyring.Holds s.keyVersion
      rw [hversion]
      exact hcurrent
    · exact h.held r₀ hr₀
  · intro r hr
    obtain ⟨r₀, hr₀, rfl⟩ := List.mem_map.1 hr
    split
    · next hid =>
        rw [hself r₀ hr₀ hid]
        exact fun hrevoked => absurd hrevoked hstatus
    · exact h.revoked r₀ hr₀
  · intro r hr
    have hne : r.id ≠ row.id := fun heq => hnew (heq ▸ List.mem_map_of_mem hr)
    refine List.mem_map.2 ⟨r, h.waiting r (List.mem_cons_of_mem _ hr), ?_⟩
    rw [if_neg hne]
  · intro r hr
    obtain ⟨r₀, hr₀, rfl⟩ := List.mem_map.1 hr
    split
    · exact Or.inr (Or.inr hversion)
    · next hne =>
        rcases h.done r₀ hr₀ with htodo | hdone
        · rcases List.mem_cons.1 htodo with rfl | htodo
          · exact absurd rfl hne
          · exact Or.inl htodo
        · exact Or.inr hdone

/-- **The loop** keeps every credential readable, and ends with every credential rotated. -/
theorem rotateRows_spec (hgcm : Gcm.Lawful) (hof : keyring.Of masters)
    (hcurrent : keyring.Holds keyring.currentVersion) (hkeys : (db₀.map CredentialRow.id).Nodup)
    (counts : RotationCounts) (h : Rotating masters keyring plain db₀ rows db) :
    (rotateRows keyring rows counts).wp RotationOp.env
      (fun db _ => Safe masters keyring plain db₀ db)
      (fun r _ db => (∃ counts, r = .ok counts) ∧ Rotating masters keyring plain db₀ [] db)
      () db := by
  induction rows generalizing counts db with
  | nil => exact ⟨⟨counts, rfl⟩, h⟩
  | cons row rows ih =>
      unfold rotateRows
      by_cases hrevoked : row.status = .revoked
      · rw [if_pos hrevoked]
        exact ih _ (h.skip (Or.inl hrevoked))
      rw [if_neg hrevoked]
      by_cases hversion : row.keyVersion = keyring.currentVersion
      · rw [if_pos hversion]
        exact ih _ (h.skip (Or.inr hversion))
      rw [if_neg hversion]
      simp only [Code.wp_bind, Code.wp_perform, Code.wp_ofExcept]
      refine ⟨h.toSafe, fun iv _ => ?_⟩
      have hmem := h.waiting row (List.mem_cons_self ..)
      have hopens := h.opens row hmem
      have hholds := h.held row hmem hrevoked
      obtain ⟨s, hs, hnew, hopens'⟩ := hopens.rewrap hgcm hof hholds hcurrent iv
      replace hs : rewrapCredential row.ciphertext row.keyVersion keyring iv = .ok s := hs
      rw [hs]
      exact ⟨h.toSafe, fun _ _ => ih _ (h.update hkeys hrevoked hnew hcurrent hopens')⟩

/-! ### The script -/

omit [Gcm] [Platform] in
/-- The script holds the key it wraps with. -/
theorem holds_current {env : RotationEnv} (h : rotationKeyring env = some keyring) :
    keyring.Holds keyring.currentVersion := by
  unfold rotationKeyring at h
  split at h
  · simp only at h
    split_ifs at h
    cases h
    exact ⟨_, JsMap.get_set_self ..⟩
  · cases h

variable {env : RotationEnv}

/-- A run keeps every credential readable, and ends with every credential rotated. -/
theorem rotateMasterKey_spec (hgcm : Gcm.Lawful) (henv : rotationKeyring env = some keyring)
    (hof : keyring.Of masters) (hkeys : (db₀.map CredentialRow.id).Nodup)
    (h : Safe masters keyring plain db₀ db) :
    (rotateMasterKey env).wp RotationOp.env (fun db _ => Safe masters keyring plain db₀ db)
      (fun r _ db => (∃ counts, r = .ok counts) ∧ Rotating masters keyring plain db₀ [] db)
      () db := by
  unfold rotateMasterKey
  rw [henv]
  simp only [Code.wp_bind, Code.wp_perform]
  refine ⟨h, fun rows hrows => ?_⟩
  replace hrows : rows.Perm db := hrows
  have hrotating : Rotating masters keyring plain db₀ rows db :=
    { toSafe := h
      nodup := by
        rw [(hrows.map CredentialRow.id).nodup_iff, map_id_of_rest h.rest]
        exact hkeys
      waiting := fun row hrow => hrows.mem_iff.1 hrow
      done := fun row hrow => Or.inl (hrows.mem_iff.2 hrow) }
  refine Code.wp_mono (rotateRows_spec hgcm hof (holds_current henv) hkeys {} hrotating) ?_
  intro r u db' hr
  obtain ⟨⟨counts, rfl⟩, hdone⟩ := hr
  exact ⟨⟨_, rfl⟩, hdone⟩

/-- The current key alone decrypts what is under the current version. -/
theorem OpensOf.decrypt_alone (hplain : Utf8.WellFormed plaintext) (h : OpensOf masters plaintext s)
    (hof : keyring.Of masters) (hversion : s.keyVersion = keyring.currentVersion)
    (hcurrent : keyring.Holds keyring.currentVersion) :
    decryptCredential s.ciphertext s.keyVersion keyring.alone = .ok plaintext := by
  have hget : ∀ version, keyring.alone.keys.get version =
      if version = keyring.currentVersion then keyring.keys.get version else none := by
    intro version
    unfold Keyring.alone
    rw [JsMap.get_filterKeys]
    simp only [decide_eq_true_eq]
  have hof' : keyring.alone.Of masters := by
    intro version key hkey
    rw [hget] at hkey
    split at hkey
    · exact hof version key hkey
    · cases hkey
  refine h.decrypt hplain hof' ?_
  obtain ⟨key, hkey⟩ := hcurrent
  refine ⟨key, ?_⟩
  rw [hget, hversion, if_pos rfl]
  exact hkey

/-- **A credential survives the rotation of the master key.**  With its current key a keyring
encrypts every plaintext, and wraps again whatever the vault has written under a version it holds.
What the vault has written for a plaintext decrypts to it with every keyring that holds its version.
And from a table of such rows, whose versions in use the script holds, however often it is started and wherever it is
stopped: nothing but the envelopes and their versions changes, and nothing at all of a revoked
row; every credential in use is under a key of the script, and what is under one decrypts to its
plaintext.  A run that is not stopped ends well, with every credential in use under the new
version and decrypting to its plaintext with the new key alone. -/
theorem credentials_survive_rotation (hgcm : Gcm.Lawful) :
    (∀ (masters : ℤ → Option (Random 32)) (plaintext : JsString) (keyring : Keyring),
      keyring.Of masters → keyring.Holds keyring.currentVersion →
      (∀ (dek : Random 32) (iv iv' : Random 12), ∃ s,
        encryptCredential plaintext keyring dek iv iv' = .ok s ∧
          s.keyVersion = keyring.currentVersion ∧ SealedFor masters plaintext s) ∧
      ∀ (s : Sealed) (iv : Random 12), SealedFor masters plaintext s →
        keyring.Holds s.keyVersion → ∃ s',
          rewrapCredential s.ciphertext s.keyVersion keyring iv = .ok s' ∧
            s'.keyVersion = keyring.currentVersion ∧ SealedFor masters plaintext s') ∧
    (∀ (masters : ℤ → Option (Random 32)) (plaintext : JsString) (s : Sealed) (keyring : Keyring),
      Utf8.WellFormed plaintext → SealedFor masters plaintext s → keyring.Of masters →
      keyring.Holds s.keyVersion →
      decryptCredential s.ciphertext s.keyVersion keyring = .ok plaintext) ∧
    ∀ (masters : ℤ → Option (Random 32)) (env : RotationEnv) (keyring : Keyring)
      (plain : Uuid → JsString) (db : List CredentialRow),
      rotationKeyring env = some keyring → keyring.Of masters →
      (db.map CredentialRow.id).Nodup →
      (∀ row ∈ db, Utf8.WellFormed (plain row.id) ∧
        SealedFor masters (plain row.id) row.toSealed ∧
        (row.status ≠ .revoked → keyring.Holds row.keyVersion)) →
      ∀ db', Relation.ReflTransGen (Rerun env) db db' →
        db'.map CredentialRow.rest = db.map CredentialRow.rest ∧
        (∀ row ∈ db', (row.status = .revoked → row ∈ db) ∧
          (row.status ≠ .revoked → keyring.Holds row.keyVersion) ∧
          (keyring.Holds row.keyVersion →
            decryptCredential row.ciphertext row.keyVersion keyring = .ok (plain row.id))) ∧
        ∀ r u db'', Prog.Run RotationOp.env (rotateMasterKey env ()) db' (.ret (r, u)) db'' →
          (∃ counts, r = .ok counts) ∧
          ∀ row ∈ db'', row.status ≠ .revoked → row.keyVersion = keyring.currentVersion ∧
            decryptCredential row.ciphertext row.keyVersion keyring.alone =
              .ok (plain row.id) := by
  refine ⟨fun masters plaintext keyring hof hcurrent => ⟨fun dek iv iv' => ?_,
      fun s iv hsealed hholds => ?_⟩,
    fun masters plaintext s keyring hplain hsealed hof hholds =>
      (hsealed.opensOf hgcm).decrypt hplain hof hholds, ?_⟩
  · obtain ⟨key, hkey⟩ := hcurrent
    obtain ⟨master, -, hget⟩ := hof.get hkey
    obtain ⟨s, hs, hversion, -⟩ := encryptCredential_opens plaintext dek iv iv' hgcm hget
    exact ⟨s, hs, hversion, .encrypt hof hs⟩
  · obtain ⟨s', hs', hversion, -⟩ := (hsealed.opensOf hgcm).rewrap hgcm hof hholds hcurrent iv
    exact ⟨s', hs', hversion, .rewrap hof hsealed hs'⟩
  intro masters env keyring plain db henv hof hkeys hdb db' hreruns
  have hsafe : Safe masters keyring plain db db' := by
    induction hreruns with
    | refl =>
        exact ⟨rfl, fun row hrow => (hdb row hrow).2.1.opensOf hgcm,
          fun row hrow => (hdb row hrow).2.2, fun row hrow _ => hrow⟩
    | tail _ hrun ih =>
        obtain ⟨p, hrun⟩ := hrun
        have hwp := Prog.wp_run (rotateMasterKey_spec hgcm henv hof hkeys ih) hrun
        cases p with
        | ret r => exact hwp.2.toSafe
        | call e k => exact hwp.1
  have hplain : ∀ {db'}, Safe masters keyring plain db db' → ∀ row ∈ db',
      Utf8.WellFormed (plain row.id) := by
    intro db' h row hrow
    have hid : row.id ∈ db.map CredentialRow.id := by
      rw [← map_id_of_rest h.rest]
      exact List.mem_map_of_mem hrow
    obtain ⟨row₀, hrow₀, hid⟩ := List.mem_map.1 hid
    rw [← hid]
    exact (hdb row₀ hrow₀).1
  refine ⟨hsafe.rest, fun row hrow => ?_, fun r u db'' hrun => ?_⟩
  · exact ⟨hsafe.revoked row hrow, hsafe.held row hrow, fun hholds =>
      (hsafe.opens row hrow).decrypt (hplain hsafe row hrow) hof hholds⟩
  · obtain ⟨hend, hdone⟩ :=
      Prog.post_of_run (rotateMasterKey_spec hgcm henv hof hkeys hsafe) hrun
    refine ⟨hend, fun row hrow hstatus => ?_⟩
    have hversion : row.keyVersion = keyring.currentVersion := by
      rcases hdone.done row hrow with htodo | hrevoked | hversion
      · cases htodo
      · exact absurd hrevoked hstatus
      · exact hversion
    exact ⟨hversion, (hdone.opens row hrow).decrypt_alone (hplain hdone.toSafe row hrow) hof
      hversion (holds_current henv)⟩

end

/-! ### Samples -/

namespace Sample

def oldKey : Random 32 := ⟨List.replicate 32 (Base64.byte 1), List.length_replicate⟩
def newKey : Random 32 := ⟨List.replicate 32 (Base64.byte 2), List.length_replicate⟩
def dek : Random 32 := ⟨List.replicate 32 (Base64.byte 3), List.length_replicate⟩
def dekIv : Random 12 := ⟨List.replicate 12 (Base64.byte 4), List.length_replicate⟩
def payloadIv : Random 12 := ⟨List.replicate 12 (Base64.byte 5), List.length_replicate⟩
def rewrapIv : Random 12 := ⟨List.replicate 12 (Base64.byte 6), List.length_replicate⟩

def vaultKey : Random 32 := ⟨List.replicate 32 (Base64.byte 7), List.length_replicate⟩
def vaultDek : Random 32 := ⟨List.replicate 32 (Base64.byte 8), List.length_replicate⟩
def vaultIv : Random 12 := ⟨List.replicate 12 (Base64.byte 9), List.length_replicate⟩

def apiKey : JsString := js "sk-ant-0123"
def nextApiKey : JsString := js "sk-ant-4567"

def bytes (ns : List ℕ) : Bytes := ns.map Base64.byte

/-- One use of the cipher. -/
structure GcmEntry where
  key : Bytes
  iv : Bytes
  plaintext : Bytes
  data : Bytes
  tag : Bytes

/-- What AES-256-GCM does with the sample credentials. -/
def gcmTable : List GcmEntry :=
  [{ key := oldKey.val, iv := dekIv.val, plaintext := dek.val
     data := bytes [236, 162, 88, 67, 154, 187, 184, 74, 164, 79, 157, 191, 147, 86, 175, 129, 118, 27,
       234, 164, 47, 47, 230, 55, 200, 128, 254, 190, 192, 59, 184, 22]
     tag := bytes [234, 236, 12, 54, 134, 216, 109, 19, 37, 7, 221, 200, 117, 251, 3, 146] },
   { key := dek.val, iv := payloadIv.val, plaintext := Utf8.encode apiKey
     data := bytes [101, 73, 242, 5, 220, 168, 58, 113, 155, 60, 249]
     tag := bytes [225, 222, 208, 130, 163, 160, 18, 11, 153, 132, 91, 106, 100, 74, 101, 204] },
   { key := newKey.val, iv := rewrapIv.val, plaintext := dek.val
     data := bytes [205, 243, 199, 27, 58, 24, 77, 62, 235, 84, 94, 95, 252, 11, 233, 64, 46, 157, 82,
       181, 132, 126, 43, 161, 5, 178, 25, 0, 156, 60, 222, 83]
     tag := bytes [35, 67, 36, 210, 210, 79, 243, 217, 114, 118, 29, 187, 112, 175, 206, 125] },
   { key := vaultKey.val, iv := vaultIv.val, plaintext := vaultDek.val
     data := bytes [47, 141, 140, 156, 182, 248, 201, 105, 168, 106, 195, 48, 238, 226, 171, 215, 220,
       184, 107, 251, 60, 230, 255, 200, 103, 166, 78, 174, 221, 124, 9, 114]
     tag := bytes [31, 205, 150, 254, 62, 164, 29, 115, 163, 28, 56, 185, 111, 163, 255, 103] },
   { key := vaultDek.val, iv := vaultIv.val, plaintext := Utf8.encode nextApiKey
     data := bytes [33, 150, 232, 22, 117, 119, 227, 158, 179, 162, 136]
     tag := bytes [252, 219, 36, 167, 28, 79, 78, 158, 28, 139, 173, 21, 54, 12, 231, 22] }]

/-- The use of the cipher on a plaintext. -/
def gcmEncrypt (key iv plaintext : Bytes) : Bytes × Bytes :=
  match gcmTable.find? fun e => e.key = key ∧ e.iv = iv ∧ e.plaintext = plaintext with
  | some e => (e.data, e.tag)
  | none => (plaintext, [])

def gcmDecrypt (key iv tag data : Bytes) : Option Bytes :=
  if tag = [] then some data
  else (gcmTable.find? fun e => e.key = key ∧ e.iv = iv ∧ e.tag = tag ∧ e.data = data).map
    GcmEntry.plaintext

/-- A cipher that is AES-256-GCM on the table, and leaves every other plaintext in the open. -/
@[reducible] def gcm : Gcm where
  encrypt := gcmEncrypt
  decrypt := gcmDecrypt

theorem gcmTable_tags : ∀ e ∈ gcmTable, e.tag ≠ [] := by decide

theorem gcmTable_keys : (gcmTable.map GcmEntry.key).Nodup := by decide

theorem gcm_lawful : letI := gcm; Gcm.Lawful := by
  intro key iv plaintext
  show gcmDecrypt key.val iv.val (gcmEncrypt key.val iv.val plaintext).2
    (gcmEncrypt key.val iv.val plaintext).1 = some plaintext
  unfold gcmEncrypt
  split
  · next e hfind =>
      have hmem := List.mem_of_find?_eq_some hfind
      have hmatch := List.find?_some hfind
      simp only [decide_eq_true_eq] at hmatch
      obtain ⟨hkey, hiv, hplain⟩ := hmatch
      have hfound : (gcmTable.find? fun e' =>
          e'.key = key.val ∧ e'.iv = iv.val ∧ e'.tag = e.tag ∧ e'.data = e.data) = some e := by
        cases hfind' : gcmTable.find? fun e' =>
            e'.key = key.val ∧ e'.iv = iv.val ∧ e'.tag = e.tag ∧ e'.data = e.data with
        | none =>
            have hnone := List.find?_eq_none.1 hfind' e hmem
            simp [hkey, hiv] at hnone
        | some e' =>
            have hmatch' := List.find?_some hfind'
            simp only [decide_eq_true_eq] at hmatch'
            rw [List.inj_on_of_nodup_map gcmTable_keys (List.mem_of_find?_eq_some hfind') hmem
              (hmatch'.1.trans hkey.symm)]
      unfold gcmDecrypt
      rw [if_neg (gcmTable_tags e hmem), hfound, ← hplain]
      rfl
  · rfl

def rotationEnv : RotationEnv where
  DATABASE_URL := some (js "postgres://localhost/router")
  OLD_MASTER_KEY := some (Base64.encode oldKey.val)
  NEW_MASTER_KEY := some (Base64.encode newKey.val)
  OLD_MASTER_KEY_VERSION := none
  NEW_MASTER_KEY_VERSION := none

/-- The keyring before the rotation. -/
def oldKeyring : Keyring where
  keys := JsMap.empty.set 1 oldKey.val
  currentVersion := 1

/-- The keyring of the script. -/
def bothKeyring : Keyring where
  keys := (JsMap.empty.set 1 oldKey.val).set 2 newKey.val
  currentVersion := 2

def masters (version : ℤ) : Option (Random 32) :=
  if version = 1 then some oldKey else if version = 2 then some newKey else none

def credentialId : Uuid := ⟨"5c5c5c5c-5555-4555-8555-5c5c5c5c5c5c", by decide⟩
def providerId : Uuid := ⟨"6c6c6c6c-6666-4666-8666-6c6c6c6c6c6c", by decide⟩

/-- The row of a sealed credential. -/
def credential (s : Sealed) : CredentialRow where
  id := credentialId
  providerId := providerId
  ciphertext := s.ciphertext
  keyVersion := s.keyVersion
  last4 := last4 apiKey
  status := .active
  graceUntil := none
  createdBy := none
  rotatedFrom := none
  createdAt := 0

theorem bothKeyring_of : bothKeyring.Of masters := by
  intro version key hkey
  have hget : bothKeyring.keys.get version =
      if version = 2 then some newKey.val else if version = 1 then some oldKey.val else none := by
    show ((JsMap.empty.set 1 oldKey.val).set 2 newKey.val).get version = _
    rw [JsMap.get_set, JsMap.get_set, JsMap.get_empty]
  rw [hget] at hkey
  unfold masters
  split_ifs at hkey with h₂ h₁
  · cases hkey
    rw [if_neg (by omega), if_pos h₂]
    exact ⟨newKey, rfl, rfl⟩
  · cases hkey
    rw [if_pos h₁]
    exact ⟨oldKey, rfl, rfl⟩

theorem oldKeyring_of : oldKeyring.Of masters := by
  intro version key hkey
  have hget : oldKeyring.keys.get version = if version = 1 then some oldKey.val else none := by
    show (JsMap.empty.set 1 oldKey.val).get version = _
    rw [JsMap.get_set, JsMap.get_empty]
  rw [hget] at hkey
  unfold masters
  split_ifs at hkey with h₁
  cases hkey
  rw [if_pos h₁]
  exact ⟨oldKey, rfl, rfl⟩

theorem textGiven_of_ne {text : JsString} (h : text ≠ []) : textGiven (some text) = some text := by
  unfold textGiven
  rw [Option.filter_some, if_pos (decide_eq_true h)]

theorem keys_of_32 : ([oldKey.val, newKey.val].all fun key => key.length = 32) = true := by
  simp [oldKey.property, newKey.property]

theorem rotationKeyring_sample : rotationKeyring rotationEnv = some bothKeyring := by
  have hurl : textGiven rotationEnv.DATABASE_URL = some (js "postgres://localhost/router") :=
    textGiven_of_ne (by decide)
  have hold : textGiven rotationEnv.OLD_MASTER_KEY = some (Base64.encode oldKey.val) :=
    textGiven_of_ne (by simp [oldKey, Base64.encode])
  have hnew : textGiven rotationEnv.NEW_MASTER_KEY = some (Base64.encode newKey.val) :=
    textGiven_of_ne (by simp [newKey, Base64.encode])
  have hversion : rotationEnv.OLD_MASTER_KEY_VERSION = none := rfl
  have hversion' : rotationEnv.NEW_MASTER_KEY_VERSION = none := rfl
  unfold rotationKeyring
  rw [hurl, hold, hnew]
  simp only [Base64.decode_encode, hversion, hversion', Option.getD_none]
  rw [if_neg (by decide)]
  have hvalues : ((JsMap.empty.set (1 : ℤ) oldKey.val).set 2 newKey.val).values =
      [oldKey.val, newKey.val] := rfl
  show (if ((JsMap.empty.set (1 : ℤ) oldKey.val).set 2 newKey.val).values.all
    (fun key => key.length = 32) then some bothKeyring else none) = _
  rw [hvalues, if_pos keys_of_32]

theorem credential_sealed : letI := gcm; letI := Platform.ofDigests [] credentialId
    ∃ s, encryptCredential apiKey oldKeyring dek dekIv payloadIv = .ok s ∧ s.keyVersion = 1 ∧
      SealedFor masters apiKey s := by
  let := gcm
  let := Platform.ofDigests [] credentialId
  have hget : oldKeyring.keys.get oldKeyring.currentVersion = some oldKey.val := rfl
  obtain ⟨s, hs, hversion, -⟩ := encryptCredential_opens apiKey dek dekIv payloadIv
    gcm_lawful hget
  exact ⟨s, hs, hversion, .encrypt oldKeyring_of hs⟩

theorem apiKey_units : apiKey = [115, 107, 45, 97, 110, 116, 45, 48, 49, 50, 51] := by decide

theorem apiKey_wellFormed : Utf8.WellFormed apiKey := by
  rw [apiKey_units]
  exact Utf8.wellFormed_of_ascii (by decide)

theorem holds_old : bothKeyring.Holds 1 := ⟨oldKey.val, rfl⟩

theorem credential_row {s : Sealed} (hversion : s.keyVersion = 1)
    (hsealed : letI := gcm; letI := Platform.ofDigests [] credentialId
      SealedFor masters apiKey s) : letI := gcm; letI := Platform.ofDigests [] credentialId
    ∀ r ∈ [credential s], Utf8.WellFormed apiKey ∧ SealedFor masters apiKey r.toSealed ∧
      (r.status ≠ .revoked → bothKeyring.Holds r.keyVersion) := by
  intro r hr
  have hsame : r = credential s := List.mem_singleton.1 hr
  have hseal : r.toSealed = s := by
    rw [hsame]
    cases s
    rfl
  have hholds : r.keyVersion = 1 := by
    rw [hsame]
    exact hversion
  rw [hseal, hholds]
  exact ⟨apiKey_wellFormed, hsealed, fun _ => holds_old⟩

/-- The credential is readable however often the script is stopped. -/
theorem sample_credential_survives : letI := gcm; letI := Platform.ofDigests [] credentialId
    ∃ s, encryptCredential apiKey oldKeyring dek dekIv payloadIv = .ok s ∧
      ∀ db', Relation.ReflTransGen (Rerun rotationEnv) [credential s] db' →
        ∀ row ∈ db', bothKeyring.Holds row.keyVersion →
          decryptCredential row.ciphertext row.keyVersion bothKeyring = .ok apiKey := by
  let := gcm
  let := Platform.ofDigests [] credentialId
  obtain ⟨s, hs, hversion, hsealed⟩ := credential_sealed
  refine ⟨s, hs, fun db' hreruns row hrow => ?_⟩
  have h := (credentials_survive_rotation gcm_lawful).2.2 masters rotationEnv bothKeyring
    (fun _ => apiKey) [credential s] rotationKeyring_sample bothKeyring_of
    (List.nodup_singleton _) (credential_row hversion hsealed) db' hreruns
  exact (h.2.1 row hrow).2.2

end Sample

end VibeRouter
