import VibeRouter.Lib.Pool
import VibeRouter.Vault.Rotation
import VibeRouter.Vault.Service
import Mathlib.Algebra.Order.BigOperators.Group.List
import Mathlib.Algebra.Order.Group.Nat

/-! # The active credential of a provider

The calls of the vault, interleaved statement by statement over the credentials table.  `add` and
`promote` look for the active credential of the provider, and activate another one with a later
statement; between the two other calls may activate credentials of their own.

`Overtaken`: another call has activated a credential since this call looked, and that one is still
active.  `one_active_credential`: as long as no activation is overtaken a provider has at most one
active credential, and an activation that is overtaken leaves it with two. -/

namespace VibeRouter

open Effects

/-! ### The table -/

/-- An active credential of the provider `p`. -/
def CredentialRow.IsActive (p : Uuid) (row : CredentialRow) : Prop :=
  row.providerId = p ∧ row.status = .active

instance (p : Uuid) (row : CredentialRow) : Decidable (row.IsActive p) :=
  inferInstanceAs (Decidable (_ ∧ _))

def AtMostOneActive (p : Uuid) (rows : List CredentialRow) : Prop :=
  ∀ a ∈ rows, ∀ b ∈ rows, a.IsActive p → b.IsActive p → a = b

/-- The answers to `findFirst` for an active credential: there is no order to choose by. -/
def FindsActive (rows : List CredentialRow) (p : Uuid) : Option CredentialRow → Prop
  | none => ∀ row ∈ rows, ¬row.IsActive p
  | some row => row ∈ rows ∧ row.IsActive p

/-- `new Date() > graceUntil` on a demoted credential. -/
def CredentialRow.Expired (now : ℕ) (row : CredentialRow) : Prop :=
  row.status = .grace ∧ ∃ t, row.graceUntil = some t ∧ t < now

instance (now : ℕ) (row : CredentialRow) : Decidable (row.Expired now) :=
  decidable_of_iff (row.status = .grace ∧ (row.graceUntil.any fun t => decide (t < now)) = true) (by
    unfold CredentialRow.Expired
    cases row.graceUntil <;> simp)

def revokeRow (row : CredentialRow) : CredentialRow := { row with status := .revoked }

/-- The row an insertion adds. -/
def CredentialValues.toRow (v : CredentialValues) (id : Uuid) (createdAt : ℕ) : CredentialRow where
  id := id
  providerId := v.providerId
  ciphertext := v.ciphertext
  keyVersion := v.keyVersion
  last4 := v.last4
  status := v.status
  graceUntil := none
  createdBy := v.createdBy
  rotatedFrom := v.rotatedFrom
  createdAt := createdAt

namespace Vault

variable {ι : Type} [DecidableEq ι]

/-! ### Interleaved calls -/

/-- The table, and for every call the credentials that other calls have activated since it looked
for the active one. -/
structure Shared (ι : Type) where
  rows : List CredentialRow
  meanwhile : ι → List Uuid

/-- What a call has seen and done. -/
structure Session where
  target : Option CredentialRow := none
  looked : Option (Uuid × Option CredentialRow) := none
  demoted : Bool := false

namespace Session

def next (q : Session) : (e : VaultOp) → e.Answer → Session
  | .findCredential _, r => { q with target := r }
  | .findActive p, r => { q with looked := some (p, r), demoted := false }
  | .insert _, _ => { q with looked := none }
  | .update _ set, _ => match set.status with
    | .active => { q with looked := none }
    | .grace => { q with demoted := true }
    | .revoked => q
  | _, _ => q

end Session

namespace Shared

variable (s : Shared ι) (i : ι)

/-- Every other call notes that `i` has activated the credential `id`. -/
def note (id : Uuid) : ι → List Uuid := fun j =>
  if j = i then s.meanwhile j else id :: s.meanwhile j

/-- The table after an insertion. -/
def insert (row : CredentialRow) : Shared ι where
  rows := s.rows ++ [row]
  meanwhile := if row.status = .active then s.note i row.id else s.meanwhile

/-- The table after an update. -/
def update (id : Uuid) (set : StatusSet) : Shared ι where
  rows := Rows.update CredentialRow.id id set.apply s.rows
  meanwhile := if set.status = .active then s.note i id else s.meanwhile

def revokeExpired (now : ℕ) : Shared ι :=
  { s with rows := s.rows.map fun row => if row.Expired now then revokeRow row else row }

/-- The call `i` looks for the active credential. -/
def look : Shared ι := { s with meanwhile := Function.update s.meanwhile i [] }

/-- The statements on the table. -/
def Handles : (e : VaultOp) → e.Answer → Shared ι → Prop
  | .findActive p, r, s' => FindsActive s.rows p r ∧ s' = s.look i
  | .findCredential id, r, s' => r = Rows.find CredentialRow.id id s.rows ∧ s' = s
  | .insert v, r, s' => (∀ row ∈ s.rows, row.id ≠ r.id) ∧ r = v.toRow r.id r.createdAt ∧
      s' = s.insert i r
  | .update id set, r, s' => s' = s.update i id set ∧ r = s'.rows.filter fun row => row.id = id
  | .revokeExpired now, r, s' => s' = s.revokeExpired now ∧
      r = (s.rows.filter fun row => row.Expired now).map revokeRow
  | _, _, s' => s' = s

/-- An activation of the call `i` is overtaken: a credential that another call has activated since
`i` looked is still active. -/
def Overtaken : VaultOp → Prop
  | .insert v => v.status = .active ∧ ∃ row ∈ s.rows, row.IsActive v.providerId ∧
      row.id ∈ s.meanwhile i
  | .update id set => set.status = .active ∧ ∃ target ∈ s.rows, target.id = id ∧
      ∃ row ∈ s.rows, row.IsActive target.providerId ∧ row.id ≠ id ∧ row.id ∈ s.meanwhile i
  | _ => False

instance decidableOvertaken : ∀ e, Decidable (s.Overtaken i e)
  | .insert _ => inferInstanceAs (Decidable (_ ∧ ∃ row ∈ s.rows, _))
  | .update _ _ => inferInstanceAs (Decidable (_ ∧ ∃ target ∈ s.rows, _))
  | .now | .randomBytes _ | .findProvider _ | .findActive _ | .findCredential _ | .revokeExpired _
  | .writeAudit _ => .isFalse id

end Shared

/-- Calls of the vault, by a name for each. -/
abbrev VaultSystem (ι : Type) : Type :=
  System ι VaultOp VaultOp.Answer (Except Thrown Unit × Unit) (Shared ι) Session

section

variable [Gcm] [Platform] (config : Config)

/-- Any number of calls, in any order of their statements. -/
def calls : VaultSystem ι where
  env := { allows := fun _ _ _ => True, next := Session.next }
  handler i s _ e r s' := s.Handles i e r s'
  start _ _ p q := q = {} ∧ ∃ call : Call, p = call.run config ()
  drift _ _ := False

/-- The same, as long as no activation is overtaken. -/
def undisturbed : VaultSystem ι :=
  { calls config with handler := fun i s _ e r s' => s.Handles i e r s' ∧ ¬s.Overtaken i e }

/-! ### What the calls do -/

/-- What a call has made sure of before it performs an operation. -/
def Prepared (q : Session) : VaultOp → Prop
  | .insert v => v.status = .active → q.looked = some (v.providerId, none)
  | .update id set => match set.status with
    | .active => ∃ target a, q.target = some target ∧ target.id = id ∧
        q.looked = some (target.providerId, a) ∧ (a = none ∨ q.demoted = true)
    | .grace => ∃ p found, q.looked = some (p, some found) ∧ found.id = id
    | .revoked => True
  | _ => True

/-- What a call may rely on: a credential found by its id has that id. -/
def Rely (_ : Session) : (e : VaultOp) → e.Answer → Prop
  | .findCredential id, r => ∀ row, r = some row → row.id = id
  | _, _ => True

/-- The surroundings of one call. -/
abbrev view : Env VaultOp VaultOp.Answer Session := (undisturbed (ι := ι) config).view Rely

variable {config} {q : Session} {u : Unit}

theorem fail_prepared {α : Type} {message : String} {post : Except Thrown α → Unit → Session → Prop}
    (h : ∀ e, post (.error e) u q) :
    (fail message : Vault α).wp (view (ι := ι) config) Prepared post u q := h _

/-- `add` activates its credential only when it found none active. -/
theorem add_prepared (providerId : Uuid) (plaintext : JsString) (createdBy : Option Uuid) :
    (add config providerId plaintext createdBy).wp (view (ι := ι) config) Prepared
      (fun _ _ _ => True) u q := by
  unfold add
  by_cases hshort : plaintext.length < 8
  · rw [if_pos hshort]
    exact fail_prepared fun _ => trivial
  rw [if_neg hshort]
  simp only [op, Code.wp_bind, Code.wp_perform]
  refine ⟨trivial, fun found _ => ?_⟩
  cases found.filter fun provider => provider.deletedAt.isNone with
  | none => exact fail_prepared fun _ => trivial
  | some provider =>
      simp only [Code.wp_bind, Code.wp_perform, Code.wp_ofExcept]
      refine ⟨trivial, fun active _ => ⟨trivial, fun dek _ => ⟨trivial, fun iv _ =>
        ⟨trivial, fun iv' _ => ?_⟩⟩⟩⟩
      cases encryptCredential plaintext config.keyring dek iv iv' with
      | error e => trivial
      | ok s =>
          refine ⟨?_, fun row _ => ⟨trivial, fun _ _ => trivial⟩⟩
          intro hstatus
          cases active with
          | none => rfl
          | some row => cases hstatus

/-- `promote` activates its credential only when it found none active, or has demoted it. -/
theorem promote_prepared (credentialId : Uuid) :
    (promote config credentialId).wp (view (ι := ι) config) Prepared (fun _ _ _ => True) u q := by
  unfold promote
  simp only [op, Code.wp_bind, Code.wp_perform]
  refine ⟨trivial, fun found _ => ?_⟩
  cases found with
  | none => exact fail_prepared fun _ => trivial
  | some cred =>
      show Code.wp _ _ (if cred.status = .revoked then
          (fail "credential is revoked" : Vault CredentialMeta)
        else if cred.status = .active then pure (toMeta cred) else promoteRow config cred) _ _ _
      by_cases hrevoked : cred.status = .revoked
      · rw [if_pos hrevoked]
        exact fail_prepared fun _ => trivial
      rw [if_neg hrevoked]
      by_cases hactive : cred.status = .active
      · rw [if_pos hactive]
        trivial
      rw [if_neg hactive]
      unfold promoteRow
      simp only [op, Code.wp_bind, Code.wp_perform]
      refine ⟨trivial, fun provider _ => ?_⟩
      cases provider with
      | none => exact fail_prepared fun _ => trivial
      | some provider =>
          simp only [Code.wp_bind, Code.wp_perform]
          refine ⟨trivial, fun now _ => ⟨trivial, fun currentActive _ => ?_⟩⟩
          have hrest : ∀ updated : List CredentialRow, ∀ q : Session,
              (updatedMeta updated).wp (view (ι := ι) config) Prepared (fun _ _ _ => True) u q := by
            intro updated q
            cases updated <;> trivial
          cases currentActive with
          | none =>
              refine ⟨⟨cred, none, rfl, rfl, rfl, Or.inl rfl⟩, fun updated _ => ⟨trivial, fun _ _ => ?_⟩⟩
              exact hrest updated _
          | some row =>
              simp only [op, demote, Code.wp_bind, Code.wp_perform]
              refine ⟨⟨cred.providerId, row, rfl, rfl⟩, fun _ _ => ?_⟩
              refine ⟨⟨cred, some row, rfl, rfl, rfl, Or.inr rfl⟩, fun updated _ => ⟨trivial, fun _ _ => ?_⟩⟩
              exact hrest updated _

theorem revoke_prepared (credentialId : Uuid) :
    (revoke credentialId).wp (view (ι := ι) config) Prepared (fun _ _ _ => True) u q := by
  unfold revoke
  simp only [op, Code.wp_bind, Code.wp_perform]
  refine ⟨trivial, fun found _ => ?_⟩
  cases found with
  | none => exact fail_prepared fun _ => trivial
  | some cred =>
      simp only [Code.wp_bind, Code.wp_perform]
      refine ⟨trivial, fun provider _ => ⟨trivial, fun _ _ => ?_⟩⟩
      cases provider with
      | none => trivial
      | some provider =>
          exact ⟨trivial, fun _ _ => trivial⟩

theorem auditExpired_prepared (rows : List CredentialRow) :
    (auditExpired rows).wp (view (ι := ι) config) Prepared (fun _ _ _ => True) u q := by
  induction rows generalizing q with
  | nil => trivial
  | cons row rows ih =>
      unfold auditExpired
      simp only [op, Code.wp_bind, Code.wp_perform]
      refine ⟨trivial, fun provider _ => ?_⟩
      cases provider with
      | none => exact ih
      | some provider =>
          simp only [Code.wp_bind, Code.wp_perform]
          exact ⟨trivial, fun _ _ => ih⟩

/-- **Every call prepares its activations.** -/
theorem call_prepared (call : Call) :
    (call.run config).wp (view (ι := ι) config) Prepared (fun _ _ _ => True) u q := by
  have hdone : ∀ {α : Type} {c : Vault α},
      c.wp (view (ι := ι) config) Prepared (fun _ _ _ => True) u q →
      (c >>= fun _ => pure ()).wp (view (ι := ι) config) Prepared (fun _ _ _ => True) u q := by
    intro α c h
    rw [Code.wp_bind]
    refine Code.wp_mono h fun r u q _ => ?_
    cases r <;> trivial
  cases call with
  | add providerId plaintext createdBy => exact hdone (add_prepared providerId plaintext createdBy)
  | promote credentialId => exact hdone (promote_prepared credentialId)
  | revoke credentialId => exact revoke_prepared credentialId
  | autoRevokeExpired =>
      refine hdone ?_
      unfold autoRevokeExpired
      simp only [op, Code.wp_bind, Code.wp_perform]
      refine ⟨trivial, fun now _ => ⟨trivial, fun expired _ => ?_⟩⟩
      refine Code.wp_mono (auditExpired_prepared expired) fun r u q _ => ?_
      cases r <;> trivial

end

/-! ### The invariant -/

/-- What a call has seen still describes the table, but for what other calls did meanwhile. -/
structure Knows (s : Shared ι) (i : ι) (q : Session) : Prop where
  target : ∀ row, q.target = some row → ∃ row' ∈ s.rows, row'.id = row.id ∧
    row'.providerId = row.providerId
  looked : ∀ p a, q.looked = some (p, a) → ∀ row ∈ s.rows, row.IsActive p →
    row.id ∈ s.meanwhile i ∨ q.demoted = false ∧ ∃ found, a = some found ∧ found.id = row.id

/-- The table has its keys, and at most one active credential of each provider. -/
structure Tidy (s : Shared ι) : Prop where
  keys : (s.rows.map CredentialRow.id).Nodup
  unique : ∀ p, AtMostOneActive p s.rows

/-- What holds of every reachable state. -/
def Holds (s : Shared ι) (L : ι → Option Session) : Prop :=
  Tidy s ∧ ∀ i q, L i = some q → Knows s i q

variable {s s' : Shared ι} {i j : ι} {q : Session} {L : ι → Option Session}

/-- A step that activates nothing: rows may be added or changed, and those active afterwards were
active before. -/
structure Quiet (s s' : Shared ι) : Prop where
  meanwhile : s'.meanwhile = s.meanwhile
  kept : ∀ row ∈ s.rows, ∃ row' ∈ s'.rows, row'.id = row.id ∧ row'.providerId = row.providerId
  active : ∀ p, ∀ row ∈ s'.rows, row.IsActive p → row ∈ s.rows

omit [DecidableEq ι] in
theorem Quiet.unique (h : Quiet s s') (hs : ∀ p, AtMostOneActive p s.rows) (p : Uuid) :
    AtMostOneActive p s'.rows := fun a ha b hb hpa hpb =>
  hs p a (h.active p a ha hpa) b (h.active p b hb hpb) hpa hpb

omit [DecidableEq ι] in
theorem Quiet.knows (h : Quiet s s') (hk : Knows s i q) : Knows s' i q where
  target := by
    intro row hrow
    obtain ⟨row₁, hmem, hid, hp⟩ := hk.target row hrow
    obtain ⟨row₂, hmem', hid', hp'⟩ := h.kept row₁ hmem
    exact ⟨row₂, hmem', hid'.trans hid, hp'.trans hp⟩
  looked := by
    intro p a hlooked row hrow hactive
    rw [h.meanwhile]
    exact hk.looked p a hlooked row (h.active p row hrow hactive) hactive

/-- A step in which `i` activates the credential `id`. -/
structure Activates (s s' : Shared ι) (i : ι) (id : Uuid) : Prop where
  meanwhile : s'.meanwhile = s.note i id
  kept : ∀ row ∈ s.rows, ∃ row' ∈ s'.rows, row'.id = row.id ∧ row'.providerId = row.providerId
  active : ∀ p, ∀ row ∈ s'.rows, row.IsActive p → row.id = id ∨ row ∈ s.rows

/-- The other calls note the activation. -/
theorem Activates.knows {id : Uuid} (h : Activates s s' i id) (hj : j ≠ i) (hk : Knows s j q) :
    Knows s' j q where
  target := by
    intro row hrow
    obtain ⟨row₁, hmem, hid, hp⟩ := hk.target row hrow
    obtain ⟨row₂, hmem', hid', hp'⟩ := h.kept row₁ hmem
    exact ⟨row₂, hmem', hid'.trans hid, hp'.trans hp⟩
  looked := by
    intro p a hlooked row hrow hactive
    have hnote : s'.meanwhile j = id :: s.meanwhile j := by
      rw [h.meanwhile]
      exact if_neg hj
    rw [hnote]
    rcases h.active p row hrow hactive with hid | hrow'
    · exact Or.inl (hid ▸ List.mem_cons_self ..)
    · rcases hk.looked p a hlooked row hrow' hactive with hmem | hfound
      · exact Or.inl (List.mem_cons_of_mem _ hmem)
      · exact Or.inr hfound

/-- The call that activates keeps only its target. -/
theorem Activates.knows_self {id : Uuid} (h : Activates s s' i id) (hk : Knows s i q) :
    Knows s' i { q with looked := none } where
  target := by
    intro row hrow
    obtain ⟨row₁, hmem, hid, hp⟩ := hk.target row hrow
    obtain ⟨row₂, hmem', hid', hp'⟩ := h.kept row₁ hmem
    exact ⟨row₂, hmem', hid'.trans hid, hp'.trans hp⟩
  looked := fun p a hlooked => by cases hlooked

/-! ### Statements -/

variable {id : Uuid} {set : StatusSet} {row : CredentialRow}

/-- The rows after an update. -/
theorem mem_update (h : row ∈ (s.update i id set).rows) :
    (∃ old ∈ s.rows, old.id = id ∧ row = set.apply old) ∨ row ∈ s.rows ∧ row.id ≠ id := by
  obtain ⟨old, hold, rfl⟩ := List.mem_map.1 h
  split
  · next hid => exact Or.inl ⟨old, hold, hid, rfl⟩
  · next hid => exact Or.inr ⟨hold, hid⟩

theorem update_kept (i : ι) (id : Uuid) (set : StatusSet) (hrow : row ∈ s.rows) :
    ∃ row' ∈ (s.update i id set).rows, row'.id = row.id ∧ row'.providerId = row.providerId := by
  refine ⟨_, List.mem_map_of_mem hrow, ?_⟩
  split <;> exact ⟨rfl, rfl⟩

theorem update_quiet (h : set.status ≠ .active) : Quiet s (s.update i id set) where
  meanwhile := if_neg h
  kept := fun _ hrow => update_kept i id set hrow
  active := by
    intro p row hrow hactive
    rcases mem_update hrow with ⟨old, -, -, rfl⟩ | ⟨hold, -⟩
    · exact absurd hactive.2 h
    · exact hold

theorem update_activates (h : set.status = .active) : Activates s (s.update i id set) i id where
  meanwhile := if_pos h
  kept := fun _ hrow => update_kept i id set hrow
  active := by
    intro p row hrow hactive
    rcases mem_update hrow with ⟨old, -, hid, rfl⟩ | ⟨hold, -⟩
    · exact Or.inl hid
    · exact Or.inr hold

theorem update_keys (i : ι) (id : Uuid) (set : StatusSet)
    (h : (s.rows.map CredentialRow.id).Nodup) :
    ((s.update i id set).rows.map CredentialRow.id).Nodup := by
  have hid : ∀ row, (set.apply row).id = row.id := fun _ => rfl
  show ((Rows.update CredentialRow.id id set.apply s.rows).map CredentialRow.id).Nodup
  rw [Rows.map_update CredentialRow.id hid]
  exact h

theorem insert_kept {new : CredentialRow} (hrow : row ∈ s.rows) :
    ∃ row' ∈ (s.insert i new).rows, row'.id = row.id ∧ row'.providerId = row.providerId :=
  ⟨row, List.mem_append_left _ hrow, rfl, rfl⟩

theorem insert_quiet {new : CredentialRow} (h : new.status ≠ .active) : Quiet s (s.insert i new) where
  meanwhile := if_neg h
  kept := fun _ hrow => insert_kept hrow
  active := by
    intro p row hrow hactive
    rcases List.mem_append.1 hrow with hold | hnew
    · exact hold
    · rw [List.mem_singleton.1 hnew] at hactive
      exact absurd hactive.2 h

theorem insert_activates {new : CredentialRow} (h : new.status = .active) :
    Activates s (s.insert i new) i new.id where
  meanwhile := if_pos h
  kept := fun _ hrow => insert_kept hrow
  active := by
    intro p row hrow _
    rcases List.mem_append.1 hrow with hold | hnew
    · exact Or.inr hold
    · exact Or.inl (congrArg CredentialRow.id (List.mem_singleton.1 hnew))

omit [DecidableEq ι] in
theorem revokeExpired_quiet (now : ℕ) : Quiet s (s.revokeExpired now) where
  meanwhile := rfl
  kept := by
    intro row hrow
    refine ⟨_, List.mem_map_of_mem hrow, ?_⟩
    split <;> exact ⟨rfl, rfl⟩
  active := by
    intro p row hrow hactive
    obtain ⟨old, hold, rfl⟩ := List.mem_map.1 hrow
    split at hactive
    · cases hactive.2
    · next hexpired =>
        rw [if_neg hexpired]
        exact hold

omit [DecidableEq ι] in
theorem revokeExpired_keys {now : ℕ} (h : (s.rows.map CredentialRow.id).Nodup) :
    ((s.revokeExpired now).rows.map CredentialRow.id).Nodup := by
  have hsame : (s.revokeExpired now).rows.map CredentialRow.id = s.rows.map CredentialRow.id := by
    show (s.rows.map _).map _ = _
    rw [List.map_map]
    refine List.map_congr_left fun row _ => ?_
    show CredentialRow.id (if row.Expired now then revokeRow row else row) = row.id
    split <;> rfl
  rw [hsame]
  exact h

/-! ### Activations -/

/-- Activating an old credential leaves one active exactly when it is not overtaken. -/
theorem update_unique_iff (hs : Tidy s) (hk : Knows s i q) (hprep : Prepared q (.update id set))
    (hset : set.status = .active) :
    (∀ p, AtMostOneActive p (s.update i id set).rows) ↔ ¬s.Overtaken i (.update id set) := by
  have hkeys' := update_keys i id set hs.keys
  constructor
  · intro hunique
    rintro ⟨-, target, htarget, hid, row, hrow, hactive, hne, -⟩
    have hmem : set.apply target ∈ (s.update i id set).rows :=
      List.mem_map.2 ⟨target, htarget, if_pos hid⟩
    have hmem' : row ∈ (s.update i id set).rows := List.mem_map.2 ⟨row, hrow, if_neg hne⟩
    have hsame := hunique target.providerId _ hmem _ hmem' ⟨rfl, hset⟩ hactive
    exact hne (hsame ▸ hid)
  · intro hcalm p a ha b hb hpa hpb
    unfold Prepared at hprep
    simp only [hset] at hprep
    obtain ⟨target, found, htarget, hid, hlooked, hnone⟩ := hprep
    obtain ⟨row, hrow, hrowid, hprovider⟩ := hk.target target htarget
    have hthis : ∀ c ∈ (s.update i id set).rows, c.id = id → c.providerId = target.providerId := by
      intro c hc hcid
      obtain ⟨c', hc', hcid', hcp⟩ := update_kept i id set hrow
      rw [Rows.eq_of_key hkeys' hc hc' (by rw [hcid, hcid', hrowid, hid]), hcp, hprovider]
    -- an active credential of the target's provider, other than the target, overtakes
    have hother : ∀ c ∈ (s.update i id set).rows, c.id ≠ id → c.IsActive p →
        p ≠ target.providerId := by
      intro c hc hcid hactive hp
      rcases mem_update hc with ⟨old, -, holdid, rfl⟩ | ⟨hold, -⟩
      · exact hcid holdid
      have hseen := hk.looked target.providerId found hlooked c hold (hp ▸ hactive)
      rcases hseen with hmeanwhile | ⟨hdemoted, c', hfound, -⟩
      · refine hcalm ⟨hset, row, hrow, hrowid.trans hid, c, hold, ?_, hcid, hmeanwhile⟩
        rw [hprovider, ← hp]
        exact hactive
      · rcases hnone with hnone | hdemoted'
        · rw [hnone] at hfound
          cases hfound
        · rw [hdemoted] at hdemoted'
          cases hdemoted'
    by_cases haid : a.id = id
    · by_cases hbid : b.id = id
      · exact Rows.eq_of_key hkeys' ha hb (haid.trans hbid.symm)
      · exact absurd (hpa.1.symm.trans (hthis a ha haid)) (hother b hb hbid hpb)
    · by_cases hbid : b.id = id
      · exact absurd (hpb.1.symm.trans (hthis b hb hbid)) (hother a ha haid hpa)
      · rcases mem_update ha with ⟨old, -, holdid, rfl⟩ | ⟨ha', -⟩
        · exact absurd holdid haid
        rcases mem_update hb with ⟨old, -, holdid, rfl⟩ | ⟨hb', -⟩
        · exact absurd holdid hbid
        exact hs.unique p a ha' b hb' hpa hpb

/-- Inserting an active credential leaves one active exactly when it is not overtaken. -/
theorem insert_unique_iff {v : CredentialValues} {createdAt : ℕ} (hs : Tidy s) (hk : Knows s i q)
    (hprep : Prepared q (.insert v)) (hfresh : ∀ row ∈ s.rows, row.id ≠ id)
    (hv : v.status = .active) :
    (∀ p, AtMostOneActive p (s.insert i (v.toRow id createdAt)).rows) ↔
      ¬s.Overtaken i (.insert v) := by
  have hlooked : q.looked = some (v.providerId, none) := hprep hv
  have hnew : v.toRow id createdAt ∈ (s.insert i (v.toRow id createdAt)).rows :=
    List.mem_append_right _ (List.mem_singleton.2 rfl)
  constructor
  · intro hunique
    rintro ⟨-, row, hrow, hactive, -⟩
    have hsame := hunique v.providerId row (List.mem_append_left _ hrow) _ hnew hactive ⟨rfl, hv⟩
    exact hfresh row hrow (congrArg CredentialRow.id hsame)
  · intro hcalm p a ha b hb hpa hpb
    have hother : ∀ c ∈ s.rows, ¬c.IsActive v.providerId := by
      intro c hc hactive
      rcases hk.looked _ _ hlooked c hc hactive with hmeanwhile | ⟨-, found, hfound, -⟩
      · exact hcalm ⟨hv, c, hc, hactive, hmeanwhile⟩
      · cases hfound
    rcases List.mem_append.1 ha with ha | ha
    · rcases List.mem_append.1 hb with hb | hb
      · exact hs.unique p a ha b hb hpa hpb
      · rw [List.mem_singleton.1 hb] at hpb
        have hp : v.providerId = p := hpb.1
        exact absurd (hp ▸ hpa) (hother a ha)
    · rcases List.mem_append.1 hb with hb | hb
      · rw [List.mem_singleton.1 ha] at hpa
        have hp : v.providerId = p := hpa.1
        exact absurd (hp ▸ hpb) (hother b hb)
      · rw [List.mem_singleton.1 ha, List.mem_singleton.1 hb]

/-! ### Steps -/

/-- A statement of `i` that activates nothing leaves what every call knows. -/
theorem Holds.quiet (h : Holds s L) (hi : L i = some q) (hquiet : Quiet s s')
    (hkeys : (s'.rows.map CredentialRow.id).Nodup) {q' : Session}
    (hself : Knows s' i q → Knows s' i q') : Holds s' (Function.update L i (some q')) := by
  refine ⟨⟨hkeys, hquiet.unique h.1.unique⟩, fun j qj hj => ?_⟩
  by_cases hji : j = i
  · subst hji
    rw [Function.update_self, Option.some.injEq] at hj
    rw [← hj]
    exact hself (hquiet.knows (h.2 j q hi))
  · rw [Function.update_of_ne hji] at hj
    exact hquiet.knows (h.2 j qj hj)

/-- A statement of `i` that activates a credential. -/
theorem Holds.activates (h : Holds s L) (hi : L i = some q) (hstep : Activates s s' i id)
    (hkeys : (s'.rows.map CredentialRow.id).Nodup) (hunique : ∀ p, AtMostOneActive p s'.rows) :
    Holds s' (Function.update L i (some { q with looked := none })) := by
  refine ⟨⟨hkeys, hunique⟩, fun j qj hj => ?_⟩
  by_cases hji : j = i
  · subst hji
    rw [Function.update_self, Option.some.injEq] at hj
    rw [← hj]
    exact hstep.knows_self (h.2 j q hi)
  · rw [Function.update_of_ne hji] at hj
    exact hstep.knows hji (h.2 j qj hj)

/-- Looking for the active credential: from here on the call notes the activations of others. -/
theorem Holds.look (h : Holds s L) (hi : L i = some q) {p : Uuid} {r : Option CredentialRow}
    (hfinds : FindsActive s.rows p r) :
    Holds (s.look i) (Function.update L i (some (q.next (.findActive p) r))) := by
  refine ⟨⟨h.1.keys, h.1.unique⟩, fun j qj hj => ?_⟩
  by_cases hji : j = i
  · subst hji
    rw [Function.update_self, Option.some.injEq] at hj
    rw [← hj]
    refine ⟨(h.2 j q hi).target, fun p' a hlooked row hrow hactive => ?_⟩
    cases hlooked
    cases r with
    | none => exact absurd hactive (hfinds row hrow)
    | some found =>
        have hsame := h.1.unique p found hfinds.1 row hrow hfinds.2 hactive
        exact Or.inr ⟨rfl, found, rfl, congrArg CredentialRow.id hsame⟩
  · rw [Function.update_of_ne hji] at hj
    have hmeanwhile : (s.look i).meanwhile j = s.meanwhile j := Function.update_of_ne hji _ _
    have hk := h.2 j qj hj
    refine ⟨hk.target, fun p' a hlooked row hrow hactive => ?_⟩
    rw [hmeanwhile]
    exact hk.looked p' a hlooked row hrow hactive

/-- A statement that leaves the table as it is. -/
theorem Holds.same (h : Holds s L) (hi : L i = some q) {q' : Session}
    (hself : Knows s i q → Knows s i q') : Holds s (Function.update L i (some q')) :=
  h.quiet hi ⟨rfl, fun row hrow => ⟨row, hrow, rfl, rfl⟩, fun _ _ hrow _ => hrow⟩ h.1.keys hself

/-- **One statement that is not an overtaken activation keeps the invariant.** -/
theorem holds_act (h : Holds s L) (hi : L i = some q) {e : VaultOp} {r : e.Answer}
    (hprep : Prepared q e) (hhandles : s.Handles i e r s') (hcalm : ¬s.Overtaken i e) :
    Holds s' (Function.update L i (some (q.next e r))) := by
  cases e with
  | findActive p =>
      obtain ⟨hfinds, rfl⟩ := hhandles
      exact h.look hi hfinds
  | findCredential id =>
      obtain ⟨rfl, rfl⟩ := hhandles
      refine h.same hi fun hk => ⟨fun row hrow => ?_, hk.looked⟩
      replace hrow : Rows.find CredentialRow.id id s'.rows = some row := hrow
      exact ⟨row, (Rows.mem_of_find hrow).1, rfl, rfl⟩
  | insert v =>
      obtain ⟨hfresh, hrow, rfl⟩ := hhandles
      have hkeys : ((s.insert i r).rows.map CredentialRow.id).Nodup :=
        Rows.nodup_append h.1.keys hfresh
      by_cases hv : v.status = .active
      · have hr : r.status = .active := by
          rw [hrow]
          exact hv
        refine h.activates hi (insert_activates hr) hkeys ?_
        rw [hrow]
        exact (insert_unique_iff h.1 (h.2 i q hi) hprep hfresh hv).2 hcalm
      · have hr : r.status ≠ .active := by
          rw [hrow]
          exact hv
        exact h.quiet hi (insert_quiet hr) hkeys fun hk =>
          ⟨hk.target, fun p a hlooked => by cases hlooked⟩
  | update id set =>
      obtain ⟨rfl, -⟩ := hhandles
      have hkeys := update_keys i id set h.1.keys
      cases hset : set.status with
      | active =>
          have hnext : q.next (.update id set) r = { q with looked := none } := by
            simp only [Session.next, hset]
          rw [hnext]
          exact h.activates hi (update_activates hset) hkeys
            ((update_unique_iff h.1 (h.2 i q hi) hprep hset).2 hcalm)
      | grace =>
          have hnext : q.next (.update id set) r = { q with demoted := true } := by
            simp only [Session.next, hset]
          rw [hnext]
          unfold Prepared at hprep
          simp only [hset] at hprep
          obtain ⟨p, found, hlooked, hid⟩ := hprep
          have hne : set.status ≠ .active := by simp [hset]
          refine h.quiet hi (update_quiet hne) hkeys fun hk =>
            ⟨hk.target, fun p' a hlooked' row hrow hactive => ?_⟩
          rcases hk.looked p' a hlooked' row hrow hactive with hmeanwhile | ⟨-, found', hfound, hid'⟩
          · exact Or.inl hmeanwhile
          -- the credential that was found has been demoted
          · have hsame : found' = found := by
              replace hlooked' : q.looked = some (p', a) := hlooked'
              rw [hlooked] at hlooked'
              cases hlooked'
              exact (Option.some.inj hfound).symm
            rcases mem_update hrow with ⟨old, -, -, rfl⟩ | ⟨-, hrowid⟩
            · exact absurd hactive.2 hne
            · rw [hsame, hid] at hid'
              exact absurd hid'.symm hrowid
      | revoked =>
          have hnext : q.next (.update id set) r = q := by
            simp only [Session.next, hset]
          rw [hnext]
          exact h.quiet hi (update_quiet (by simp [hset])) hkeys fun hk => hk
  | revokeExpired now =>
      obtain ⟨rfl, -⟩ := hhandles
      exact h.quiet hi (revokeExpired_quiet now) (revokeExpired_keys h.1.keys) fun hk => hk
  | now =>
      obtain rfl := hhandles
      exact h.same hi fun hk => hk
  | randomBytes n =>
      obtain rfl := hhandles
      exact h.same hi fun hk => hk
  | findProvider id =>
      obtain rfl := hhandles
      exact h.same hi fun hk => hk
  | writeAudit entry =>
      obtain rfl := hhandles
      exact h.same hi fun hk => hk

/-- An overtaken activation leaves two active credentials. -/
theorem calm_of_unique (hs : Tidy s) (hk : Knows s i q) {e : VaultOp} {r : e.Answer}
    (hprep : Prepared q e) (hhandles : s.Handles i e r s')
    (hunique : ∀ p, AtMostOneActive p s'.rows) : ¬s.Overtaken i e := by
  cases e with
  | insert v =>
      obtain ⟨hfresh, hrow, rfl⟩ := hhandles
      rw [hrow] at hunique
      intro hover
      exact (insert_unique_iff hs hk hprep hfresh hover.1).1 hunique hover
  | update id set =>
      obtain ⟨rfl, -⟩ := hhandles
      intro hover
      exact (update_unique_iff hs hk hprep hover.1).1 hunique hover
  | _ => exact fun hover => hover

/-- A call of `getActiveApiKey` on the table `rows`. -/
def keyEnv (rows : List CredentialRow) : Env VaultOp VaultOp.Answer Unit where
  allows _
    | .findActive p, r => FindsActive rows p r
    | _, _ => True
  next _ _ _ := ()

theorem findsActive_unique {rows : List CredentialRow} {p : Uuid} {a b : Option CredentialRow}
    (h : AtMostOneActive p rows) (ha : FindsActive rows p a) (hb : FindsActive rows p b) :
    a = b := by
  cases a with
  | none => cases b with
    | none => rfl
    | some b => exact absurd hb.2 (ha b hb.1)
  | some a => cases b with
    | none => exact absurd ha.2 (hb a ha.1)
    | some b => exact congrArg some (h a ha.1 b hb.1 ha.2 hb.2)

section

variable [Gcm] [Platform] {config : Config}

theorem undisturbed_preserves :
    System.Preserves (undisturbed (ι := ι) config) Rely Prepared (fun _ _ => True) Holds where
  start_wp := by
    intro i s p q hstart
    obtain ⟨rfl, call, rfl⟩ := hstart
    exact call_prepared call
  spawn := by
    intro i s L p q h hi hstart
    obtain ⟨rfl, -⟩ := hstart
    refine ⟨h.1, fun j qj hj => ?_⟩
    by_cases hji : j = i
    · subst hji
      rw [Function.update_self, Option.some.injEq] at hj
      rw [← hj]
      constructor
      · intro row hrow
        cases hrow
      · intro p a hlooked
        cases hlooked
    · rw [Function.update_of_ne hji] at hj
      exact h.2 j qj hj
  rely := by
    intro i s L q e r s' h hi _ hhandles
    cases e with
    | findCredential id =>
        intro row hrow
        have hfind := hhandles.1.1
        rw [hrow] at hfind
        exact (Rows.mem_of_find hfind.symm).2
    | _ => trivial
  act := fun i s L q e r s' h hi hprep _ hhandles =>
    holds_act h hi hprep hhandles.1 hhandles.2
  drift := fun s s' L h hdrift => hdrift.elim

/-! ### The key of the active credential -/

/-- The results of `getActiveApiKey` on the table `rows`. -/
def KeyAnswer (config : Config) (rows : List CredentialRow) (p : Uuid)
    (r : Except Thrown (Option JsString)) : Prop :=
  Prog.Run (keyEnv rows) (getActiveApiKey config p ()) () (.ret (r, ())) ()

/-- What `getActiveApiKey` makes of the credential it finds. -/
def keyOf (config : Config) : Option CredentialRow → Except Thrown (Option JsString)
  | none => .ok none
  | some cred => (decryptCredential cred.ciphertext cred.keyVersion config.keyring).map some

omit [Platform] in
theorem KeyAnswer.finds {rows : List CredentialRow} {p : Uuid}
    {r : Except Thrown (Option JsString)} (h : KeyAnswer config rows p r) :
    ∃ found, FindsActive rows p found ∧ r = keyOf config found := by
  have hwp : (getActiveApiKey config p).wp (keyEnv rows) (fun _ _ => True)
      (fun r _ _ => ∃ found, FindsActive rows p found ∧ r = keyOf config found) () () := by
    unfold getActiveApiKey
    simp only [op, Code.wp_bind, Code.wp_perform]
    refine ⟨trivial, fun found hfound => ?_⟩
    cases found with
    | none => exact ⟨none, hfound, rfl⟩
    | some cred =>
        simp only [Code.wp_bind, Code.wp_ofExcept]
        cases hkey : decryptCredential cred.ciphertext cred.keyVersion config.keyring with
        | error e => exact ⟨some cred, hfound, by rw [keyOf, hkey]; rfl⟩
        | ok key => exact ⟨some cred, hfound, by rw [keyOf, hkey]; rfl⟩
  exact Prog.post_of_run hwp h

omit [Platform] in
theorem KeyAnswer.unique {rows : List CredentialRow} {p : Uuid}
    {a b : Except Thrown (Option JsString)} (h : AtMostOneActive p rows)
    (ha : KeyAnswer config rows p a) (hb : KeyAnswer config rows p b) : a = b := by
  obtain ⟨found, hfound, rfl⟩ := ha.finds
  obtain ⟨found', hfound', rfl⟩ := hb.finds
  rw [findsActive_unique h hfound hfound']

/-! ### Main result -/

/-- **At most one active credential, as long as no activation is overtaken.**  In every state that
the calls of the vault reach without an overtaken activation, a provider has at most one active
credential and `getActiveApiKey` has one answer.  And the next statement of any call leaves it so
exactly when it is not an overtaken activation. -/
theorem one_active_credential (config : Config) {rows : List CredentialRow}
    (hkeys : (rows.map CredentialRow.id).Nodup) (hunique : ∀ p, AtMostOneActive p rows)
    {P : Pool ι VaultOp VaultOp.Answer (Except Thrown Unit × Unit) (Shared ι) Session}
    (hP : (undisturbed config).Reachable ⟨rows, fun _ => []⟩ P) :
    (∀ p, AtMostOneActive p P.shared.rows ∧
      ∀ a b, KeyAnswer config P.shared.rows p a → KeyAnswer config P.shared.rows p b → a = b) ∧
    ∀ P', (calls config).Step P P' →
      ((∀ p, AtMostOneActive p P'.shared.rows) ↔ (undisturbed config).Step P P') := by
  have hstart : Holds (⟨rows, fun _ => []⟩ : Shared ι) fun _ => none :=
    ⟨⟨hkeys, hunique⟩, fun i q hi => by cases hi⟩
  have hinv := System.invariant undisturbed_preserves hstart hP
  refine ⟨fun p => ⟨hinv.1.1.unique p, fun a b ha hb => ha.unique (hinv.1.1.unique p) hb⟩, ?_⟩
  intro P' hstep
  constructor
  · intro hafter
    cases hstep with
    | spawn hnone hst => exact .spawn hnone hst
    | @act i e k q r s' hthread hallows hhandles =>
        have hlocal : P.locals i = some q := by
          unfold Pool.locals
          rw [hthread]
          rfl
        have hprep := (hinv.2 i _ q hthread).1
        exact .act hthread hallows
          ⟨hhandles, calm_of_unique hinv.1.1 (hinv.1.2 i q hlocal) hprep hhandles hafter⟩
    | drift hdrift => exact hdrift.elim
  · intro hcalm
    have hinv' := System.invariant undisturbed_preserves hstart (hP.tail hcalm)
    exact hinv'.1.1.unique

end

/-! ### Samples -/

namespace Sample

def firstId : Uuid := ⟨"00000000-0000-4000-8000-000000000001", by decide⟩
def secondId : Uuid := ⟨"00000000-0000-4000-8000-000000000002", by decide⟩
def thirdId : Uuid := ⟨"00000000-0000-4000-8000-000000000003", by decide⟩
def vaultProviderId : Uuid := ⟨"00000000-0000-4000-8000-000000000009", by decide⟩

def otherProviderId : Uuid := ⟨"00000000-0000-4000-8000-00000000000a", by decide⟩

def config : Config where
  keyring := { keys := JsMap.empty.set 1 VibeRouter.Sample.vaultKey.val, currentVersion := 1 }
  graceHours := 24

def provider (id : Uuid) : ProviderRow where
  id := id
  firmId := vaultProviderId
  kind := .anthropic
  label := "anthropic"
  baseUrl := "https://api.anthropic.com"
  authType := .api_key

def stored (id : Uuid) (status : CredentialStatus) : CredentialRow where
  id := id
  providerId := vaultProviderId
  ciphertext := []
  keyVersion := 1
  last4 := js "0123"
  status := status
  graceUntil := none
  createdBy := none
  rotatedFrom := none
  createdAt := 0

/-- A provider with one active credential and two that are staged. -/
def rows : List CredentialRow :=
  [stored firstId .active, stored secondId .grace, stored thirdId .grace]

/-- An id longer than all those of the table. -/
def freshId (rows : List CredentialRow) : Uuid where
  text := String.ofList (List.replicate ((rows.map fun row => row.id.text.length).sum + 1) 'a')
  wf := by
    rw [String.toList_ofList, List.all_replicate]
    simp [isHexChar]

/-- The bytes of `vaultDek` and `vaultIv`. -/
def random (n : ℕ) : Random n :=
  ⟨List.replicate n (Base64.byte (if n = 32 then 8 else 9)), List.length_replicate⟩

/-- A database that answers with the first row it finds. -/
def answer (i : ℕ) (s : Shared ℕ) (_ : Session) : (e : VaultOp) → e.Answer × Shared ℕ
  | .now => (0, s)
  | .randomBytes n => (random n, s)
  | .findProvider id => (some (provider id), s)
  | .findActive p =>
      (s.rows.find? fun row => row.IsActive p, s.look i)
  | .findCredential id => (Rows.find CredentialRow.id id s.rows, s)
  | .insert v => (v.toRow (freshId s.rows) 0, s.insert i (v.toRow (freshId s.rows) 0))
  | .update id set =>
      ((s.update i id set).rows.filter fun row => row.id = id, s.update i id set)
  | .revokeExpired now =>
      ((s.rows.filter fun row => row.Expired now).map revokeRow, s.revokeExpired now)
  | .writeAudit _ => ((), s)

theorem freshId_ne {rows : List CredentialRow} {row : CredentialRow} (h : row ∈ rows) :
    row.id ≠ freshId rows := by
  intro heq
  have hlength : row.id.text.length = (rows.map fun row => row.id.text.length).sum + 1 := by
    rw [heq]
    simp [freshId]
  have hle := List.le_sum_of_mem
    (List.mem_map_of_mem (f := fun row : CredentialRow => row.id.text.length) h)
  omega

theorem answer_sound [Gcm] [Platform] : System.Sound (calls config) answer := by
  intro i s q e
  refine ⟨trivial, ?_⟩
  cases e with
  | findActive p =>
      refine ⟨?_, rfl⟩
      show FindsActive s.rows p (s.rows.find? fun row => row.IsActive p)
      cases hfind : s.rows.find? fun row => row.IsActive p with
      | none =>
          intro row hrow hactive
          exact absurd (decide_eq_true hactive) (List.find?_eq_none.1 hfind row hrow)
      | some row =>
          have hactive := List.find?_some hfind
          exact ⟨List.mem_of_find?_eq_some hfind, by simpa using hactive⟩
  | insert v => exact ⟨fun row hrow => freshId_ne hrow, rfl, rfl⟩
  | findCredential id => exact ⟨rfl, rfl⟩
  | update id set => exact ⟨rfl, rfl⟩
  | revokeExpired now => exact ⟨rfl, rfl⟩
  | _ => rfl

theorem rows_tidy : (rows.map CredentialRow.id).Nodup := by decide

theorem rows_unique (p : Uuid) : AtMostOneActive p rows := by
  have hactive : ∀ row ∈ rows, row.status = .active → row = stored firstId .active := by decide
  intro a ha b hb hpa hpb
  rw [hactive a ha hpa.2, hactive b hb hpb.2]

section

variable [Gcm] [Platform]

/-- Two staged credentials are promoted at once: both calls look for the active credential before
either has demoted it. -/
def twoPromotes : List (Action ℕ VaultOp VaultOp.Answer (Except Thrown Unit × Unit) (Shared ℕ) Session) :=
  [.spawn 0 ((Call.promote secondId).run config ()) {},
   .spawn 1 ((Call.promote thirdId).run config ()) {},
   .run 0 4, .run 1 4, .run 0 3, .run 1 3]

/-- What a schedule makes of the sample table. -/
def runFrom (as : List (Action ℕ VaultOp VaultOp.Answer (Except Thrown Unit × Unit) (Shared ℕ) Session)) :
    Pool ℕ VaultOp VaultOp.Answer (Except Thrown Unit × Unit) (Shared ℕ) Session :=
  (System.initial ⟨rows, fun _ => []⟩ : Pool ..).exec Session.next answer as

end

theorem twoPromotes_rows : letI := Sample.gcm; letI := Platform.ofDigests [] firstId
    (runFrom twoPromotes).shared.rows.map (fun row => (row.id, row.providerId, row.status)) =
      [(firstId, vaultProviderId, .grace), (secondId, vaultProviderId, .active),
        (thirdId, vaultProviderId, .active)] := by
  decide

/-- **Two promotions at once leave two active credentials.** -/
theorem two_promotes_two_active : letI := Sample.gcm; letI := Platform.ofDigests [] firstId
    ∃ P, (calls (ι := ℕ) config).Reachable ⟨rows, fun _ => []⟩ P ∧
      ¬AtMostOneActive vaultProviderId P.shared.rows := by
  let := Sample.gcm
  let := Platform.ofDigests [] firstId
  refine ⟨runFrom twoPromotes, System.reachable_exec answer_sound .refl ?_, fun hunique => ?_⟩
  · exact ⟨rfl, ⟨rfl, _, rfl⟩, rfl, ⟨rfl, _, rfl⟩, trivial⟩
  · have hrows := twoPromotes_rows
    have hsecond : (secondId, vaultProviderId, CredentialStatus.active) ∈
        (runFrom twoPromotes).shared.rows.map fun row => (row.id, row.providerId, row.status) := by
      rw [hrows]
      exact List.mem_cons_of_mem _ (List.mem_cons_self ..)
    have hthird : (thirdId, vaultProviderId, CredentialStatus.active) ∈
        (runFrom twoPromotes).shared.rows.map fun row => (row.id, row.providerId, row.status) := by
      rw [hrows]
      exact List.mem_cons_of_mem _ (List.mem_cons_of_mem _ (List.mem_cons_self ..))
    obtain ⟨a, ha, hida⟩ := List.mem_map.1 hsecond
    obtain ⟨b, hb, hidb⟩ := List.mem_map.1 hthird
    rw [Prod.mk.injEq, Prod.mk.injEq] at hida hidb
    have hsame := hunique a ha b hb hida.2 hidb.2
    have hids : secondId = thirdId := by rw [← hida.1, ← hidb.1, hsame]
    exact absurd hids (by decide)

section

variable [Gcm] [Platform]

/-- Four calls side by side: a credential is added to the provider while the second one is promoted
and the third revoked, and another provider gets its first. -/
def fourCalls : List (Action ℕ VaultOp VaultOp.Answer (Except Thrown Unit × Unit) (Shared ℕ) Session) :=
  [.spawn 0 ((Call.add vaultProviderId VibeRouter.Sample.nextApiKey none).run config ()) {},
   .spawn 1 ((Call.promote secondId).run config ()) {},
   .spawn 2 ((Call.revoke thirdId).run config ()) {},
   .spawn 3 ((Call.add otherProviderId VibeRouter.Sample.nextApiKey none).run config ()) {},
   .run 0 3, .run 1 5, .run 2 2, .run 3 7, .run 0 4, .run 1 2, .run 2 2]

end

/-- A call that has returned. -/
def returned : Option (Prog VaultOp VaultOp.Answer (Except Thrown Unit × Unit) × Session) → Bool
  | some (.ret (.ok (), ()), _) => true
  | _ => false

theorem fourCalls_rows : letI := Sample.gcm; letI := Platform.ofDigests [] firstId
    (runFrom fourCalls).shared.rows.map (fun row => (row.providerId, row.status)) =
        [(vaultProviderId, .grace), (vaultProviderId, .active), (vaultProviderId, .revoked),
          (otherProviderId, .active), (vaultProviderId, .grace)] ∧
      ([0, 1, 2, 3].all fun i => returned ((runFrom fourCalls).thread i)) = true := by
  decide +kernel

/-- No activation of the four calls is overtaken. -/
theorem fourCalls_reachable : letI := Sample.gcm; letI := Platform.ofDigests [] firstId
    (undisturbed (ι := ℕ) config).Reachable ⟨rows, fun _ => []⟩ (runFrom fourCalls) := by
  let := Sample.gcm
  let := Platform.ofDigests [] firstId
  refine System.reachable_guarded (S := calls config) (B := fun i s e => s.Overtaken i e) answer_sound
    .refl ?_ (by decide +kernel)
  exact ⟨rfl, ⟨rfl, _, rfl⟩, rfl, ⟨rfl, _, rfl⟩, rfl, ⟨rfl, _, rfl⟩, rfl, ⟨rfl, _, rfl⟩, trivial⟩

/-- After the four calls each provider has one active credential, and the next statement of any call
leaves it so exactly when it is not an overtaken activation. -/
theorem sample_one_active : letI := Sample.gcm; letI := Platform.ofDigests [] firstId
    ([0, 1, 2, 3].all fun i => returned ((runFrom fourCalls).thread i)) = true ∧
      (∀ p, AtMostOneActive p (runFrom fourCalls).shared.rows) ∧
      ∀ P', (calls (ι := ℕ) config).Step (runFrom fourCalls) P' →
        ((∀ p, AtMostOneActive p P'.shared.rows) ↔
          (undisturbed config).Step (runFrom fourCalls) P') := by
  let := Sample.gcm
  let := Platform.ofDigests [] firstId
  have h := one_active_credential (ι := ℕ) config rows_tidy rows_unique fourCalls_reachable
  exact ⟨fourCalls_rows.2, fun p => (h.1 p).1, h.2⟩

end Sample

end Vault

end VibeRouter
