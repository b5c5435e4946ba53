import VibeRouter.Vault.Active

/-! # Where a promotion may stop

`promote` demotes the active credential with one statement and activates the new one with another;
no transaction joins them.  A statement that fails ends the call, as a crash does, so what is left
behind is the table after some of its statements.  `promote_keeps_active_iff`: a provider with an
active credential has one wherever the call stops, unless the call demotes the only one. -/

namespace VibeRouter

open Effects

namespace Vault

/-! ### One call -/

/-- The tables during a call that nothing else interrupts. -/
structure VaultDb where
  rows : List CredentialRow
  provider : Uuid → Option ProviderRow

/-- The answers to the statements of a call, and the tables after each. -/
def statements : Env VaultOp VaultOp.Answer VaultDb where
  allows db
    | .findProvider id, r => r = db.provider id
    | .findActive p, r => FindsActive db.rows p r
    | .findCredential id, r => r = Rows.find CredentialRow.id id db.rows
    | .insert v, r => (∀ row ∈ db.rows, row.id ≠ r.id) ∧ r = v.toRow r.id r.createdAt
    | .update id set, r =>
        r = (Rows.update CredentialRow.id id set.apply db.rows).filter fun row => row.id = id
    | .revokeExpired now, r => r = (db.rows.filter fun row => row.Expired now).map revokeRow
    | _, _ => True
  next db
    | .insert _, r => { db with rows := db.rows ++ [r] }
    | .update id set, _ => { db with rows := Rows.update CredentialRow.id id set.apply db.rows }
    | .revokeExpired now, _ =>
        { db with rows := db.rows.map fun row => if row.Expired now then revokeRow row else row }
    | _, _ => db

/-- The tables where a call may stop. -/
def StopsAt {α : Type} (call : Vault α) (db db' : VaultDb) : Prop :=
  ∃ rest, Prog.Run statements (call ()) db rest db'

def HasActive (p : Uuid) (rows : List CredentialRow) : Prop := ∃ row ∈ rows, row.IsActive p

/-- The provider has an active credential, one that was active before or the promoted one. -/
def StillActive (p id : Uuid) (before after : List CredentialRow) : Prop :=
  ∃ row ∈ after, row.IsActive p ∧
    (row.id = id ∨ ∃ old ∈ before, old.id = row.id ∧ old.IsActive p)

/-- The promotion demotes the only active credential of the provider: the credential `id` is one of
that provider and in grace. -/
def Strands (db : VaultDb) (p id : Uuid) : Prop :=
  AtMostOneActive p db.rows ∧ (db.provider p).isSome = true ∧
    ∃ cred, Rows.find CredentialRow.id id db.rows = some cred ∧ cred.providerId = p ∧
      cred.status = .grace

/-- What holds before each statement and at the end holds wherever the call stops, and conversely. -/
theorem forall_stops_iff {α : Type} {call : Vault α} {J : VaultDb → Prop} {db : VaultDb} :
    (∀ db', StopsAt call db db' → J db') ↔
      call.wp statements (fun db _ => J db) (fun _ _ db => J db) () db := by
  constructor
  · intro h
    unfold StopsAt at h
    unfold Code.wp
    generalize call () = p at h
    induction p generalizing db with
    | ret r => exact h db ⟨_, .refl _ _⟩
    | call e k ih =>
        refine ⟨h db ⟨_, .refl _ _⟩, fun r hr => ih r fun db' hstop => ?_⟩
        obtain ⟨rest, hrun⟩ := hstop
        exact h db' ⟨rest, .step r hr hrun⟩
  · rintro h db' ⟨rest, hrun⟩
    have hrest := Prog.wp_run h hrun
    cases rest with
    | ret r => exact hrest
    | call e k => exact hrest.1

/-! ### Updates -/

section

variable {p id : Uuid} {rows before : List CredentialRow} {row : CredentialRow}

theorem mem_update_of_ne {set : StatusSet} (hrow : row ∈ rows) (hne : row.id ≠ id) :
    row ∈ Rows.update CredentialRow.id id set.apply rows :=
  List.mem_map.2 ⟨row, hrow, if_neg hne⟩

/-- An activation leaves what is active so. -/
theorem StillActive.activate (h : StillActive p id before rows) (target : Uuid) :
    StillActive p id before (Rows.update CredentialRow.id target
      (StatusSet.apply { status := .active, graceUntil := some none }) rows) := by
  obtain ⟨row, hrow, hactive, horigin⟩ := h
  by_cases hid : row.id = target
  · refine ⟨_, List.mem_map.2 ⟨row, hrow, if_pos hid⟩, ⟨hactive.1, rfl⟩, horigin⟩
  · exact ⟨row, mem_update_of_ne hrow hid, hactive, horigin⟩

/-- The demotion of one active credential leaves the others. -/
theorem stillActive_demote {found : CredentialRow} (hkeys : (rows.map CredentialRow.id).Nodup)
    (hfound : found ∈ rows) (hrow : row ∈ rows) (hactive : row.IsActive p) (hne : row ≠ found)
    (id : Uuid) (set : StatusSet) :
    StillActive p id rows (Rows.update CredentialRow.id found.id set.apply rows) := by
  have hid : row.id ≠ found.id := fun heq => hne (Rows.eq_of_key hkeys hrow hfound heq)
  exact ⟨row, mem_update_of_ne hrow hid, hactive, Or.inr ⟨row, hrow, rfl, hactive⟩⟩

/-- The demotion of the only active credential leaves none. -/
theorem not_hasActive_demote {found : CredentialRow} (hone : AtMostOneActive p rows)
    (hfound : found ∈ rows) (hactive : found.IsActive p) (t : ℕ) :
    ¬HasActive p (Rows.update CredentialRow.id found.id
      (StatusSet.apply { status := .grace, graceUntil := some (some t) }) rows) := by
  rintro ⟨row', hrow', hactive'⟩
  obtain ⟨row, hrow, rfl⟩ := List.mem_map.1 hrow'
  by_cases hid : row.id = found.id
  · rw [if_pos hid] at hactive'
    exact absurd hactive'.2 (by simp [StatusSet.apply])
  · rw [if_neg hid] at hactive'
    exact hid (congrArg CredentialRow.id (hone row hrow found hfound hactive' hactive))

/-- Another active credential than the one found. -/
theorem exists_other (hactive : HasActive p rows) {found : CredentialRow} {q : Uuid}
    (hfound : found ∈ rows) (hq : found.IsActive q) (h : q = p → ¬AtMostOneActive p rows) :
    ∃ row ∈ rows, row.IsActive p ∧ row ≠ found := by
  by_cases hqp : q = p
  · by_contra hnone
    refine h hqp fun a ha b hb hpa hpb => ?_
    have hsame : ∀ row ∈ rows, row.IsActive p → row = found := by
      intro row hrow hrowActive
      by_contra hne
      exact hnone ⟨row, hrow, hrowActive, hne⟩
    rw [hsame a ha hpa, hsame b hb hpb]
  · obtain ⟨row, hrow, hrowActive⟩ := hactive
    refine ⟨row, hrow, hrowActive, ?_⟩
    rintro rfl
    exact hqp (hq.1.symm.trans hrowActive.1)

/-! ### The promotion -/

variable {config : Config} {db : VaultDb}

/-- What `promote` does after the demotion. -/
def activate (cred : CredentialRow) (entry : VaultAudit) : Vault CredentialMeta := do
  let updated ← op (.update cred.id { status := .active, graceUntil := some none })
  op (.writeAudit entry)
  updatedMeta updated

theorem activate_keeps (db : VaultDb) (h : StillActive p id before db.rows) (cred : CredentialRow)
    (entry : VaultAudit) :
    (activate cred entry).wp statements (fun db' _ => StillActive p id before db'.rows)
      (fun _ _ db' => StillActive p id before db'.rows) () db := by
  unfold activate
  simp only [op, Code.wp_bind, Code.wp_perform]
  refine ⟨h, fun updated _ => ⟨h.activate cred.id, fun _ _ => ?_⟩⟩
  cases updated with
  | nil => exact h.activate cred.id
  | cons row rows => exact h.activate cred.id

/-- **A promotion that strands nobody** leaves an active credential wherever it stops. -/
theorem promote_keeps_active (hkeys : (db.rows.map CredentialRow.id).Nodup)
    (hactive : HasActive p db.rows) (hsafe : ¬Strands db p id) :
    (promote config id).wp statements (fun db' _ => StillActive p id db.rows db'.rows)
      (fun _ _ db' => StillActive p id db.rows db'.rows) () db := by
  have hstart : StillActive p id db.rows db.rows := by
    obtain ⟨row, hrow, hrowActive⟩ := hactive
    exact ⟨row, hrow, hrowActive, Or.inr ⟨row, hrow, rfl, hrowActive⟩⟩
  unfold promote
  simp only [op, Code.wp_bind, Code.wp_perform]
  refine ⟨hstart, fun found hfound => ?_⟩
  replace hfound : found = Rows.find CredentialRow.id id db.rows := hfound
  cases found with
  | none => exact hstart
  | some cred =>
      show (if cred.status = .revoked then fail _ else _ : Vault CredentialMeta).wp _ _ _ () db
      rw [Code.wp_ite]
      split
      · exact hstart
      · rw [Code.wp_ite]
        split
        · exact hstart
        · next hrevoked hnotActive =>
            have hgrace : cred.status = .grace := by
              cases hstatus : cred.status with
              | active => exact absurd hstatus hnotActive
              | grace => rfl
              | revoked => exact absurd hstatus hrevoked
            unfold promoteRow
            simp only [op, Code.wp_bind, Code.wp_perform]
            refine ⟨hstart, fun provider hprovider => ?_⟩
            replace hprovider : provider = db.provider cred.providerId := hprovider
            cases provider with
            | none => exact hstart
            | some provider =>
                simp only [Code.wp_bind, Code.wp_perform]
                refine ⟨hstart, fun now _ => ⟨hstart, fun current hcurrent => ?_⟩⟩
                replace hcurrent : FindsActive db.rows cred.providerId current := hcurrent
                cases current with
                | none => exact activate_keeps db hstart cred _
                | some found =>
                    -- the provider has another active credential, which this call leaves alone
                    obtain ⟨row, hrow, hrowActive, hne⟩ := exists_other hactive hcurrent.1 hcurrent.2
                      fun hp hone => hsafe ⟨hone, by rw [← hp, ← hprovider]; rfl, cred, hfound.symm,
                        hp, hgrace⟩
                    have hdemoted := stillActive_demote hkeys hcurrent.1 hrow hrowActive hne id
                      { status := .grace, graceUntil := some (some (now +
                        (config.graceHours * 3600000).floor.toNat)) }
                    exact ⟨hstart, fun updated _ => activate_keeps
                      { db with rows := Rows.update CredentialRow.id found.id _ db.rows }
                      hdemoted cred _⟩

/-- A call that strands a provider may stop between its two updates. -/
theorem Strands.stops (config : Config) (h : Strands db p id) (hactive : HasActive p db.rows) :
    ∃ db', StopsAt (promote config id) db db' ∧ ¬HasActive p db'.rows := by
  by_contra hnone
  have hall : ∀ db', StopsAt (promote config id) db db' → HasActive p db'.rows := by
    intro db' hstop
    by_contra hgone
    exact hnone ⟨db', hstop, hgone⟩
  obtain ⟨hone, hprovider, cred, hfind, rfl, hgrace⟩ := h
  obtain ⟨provider, hprovider⟩ := Option.isSome_iff_exists.1 hprovider
  obtain ⟨found, hfound, hfoundActive⟩ := hactive
  have hwp := forall_stops_iff.1 hall
  unfold promote at hwp
  simp only [op, Code.wp_bind, Code.wp_perform] at hwp
  have hcred := hwp.2 (some cred) hfind.symm
  replace hcred : (if cred.status = .revoked then fail "credential is revoked"
      else if cred.status = .active then pure (toMeta cred) else promoteRow config cred :
      Vault CredentialMeta).wp _ _ _ () db := hcred
  rw [if_neg (by rw [hgrace]; decide), if_neg (by rw [hgrace]; decide)] at hcred
  unfold promoteRow at hcred
  simp only [op, Code.wp_bind, Code.wp_perform] at hcred
  have hrow := hcred.2 (some provider) hprovider.symm
  simp only [Code.wp_bind, Code.wp_perform] at hrow
  have hcurrent := (hrow.2 0 trivial).2 (some found) ⟨hfound, hfoundActive⟩
  have hdemoted := (hcurrent.2 _ rfl).1
  exact not_hasActive_demote hone hfound hfoundActive _ hdemoted

/-! ### Main result -/

/-- **A promotion leaves no provider without a key, unless it demotes the only one.**  Wherever the
call stops, a provider with an active credential still has one, the old or the promoted one, exactly
when the call does not strand it. -/
theorem promote_keeps_active_iff (config : Config) (hkeys : (db.rows.map CredentialRow.id).Nodup)
    (hactive : HasActive p db.rows) (id : Uuid) :
    (∀ db', StopsAt (promote config id) db db' → StillActive p id db.rows db'.rows) ↔
      ¬Strands db p id := by
  constructor
  · intro hall hstrands
    obtain ⟨db', hstop, hgone⟩ := hstrands.stops config hactive
    obtain ⟨row, hrow, hrowActive, -⟩ := hall db' hstop
    exact hgone ⟨row, hrow, hrowActive⟩
  · intro hsafe
    exact forall_stops_iff.2 (promote_keeps_active hkeys hactive hsafe)

end

/-! ### Samples -/

namespace Sample

/-- The provider has one active credential and two in grace. -/
def vaultDb : VaultDb := ⟨rows, fun id => some (provider id)⟩

theorem vaultDb_active : HasActive vaultProviderId vaultDb.rows :=
  ⟨stored firstId .active, List.mem_cons_self .., rfl, rfl⟩

/-- **A promotion that stops halfway leaves no active credential.** -/
theorem promote_strands : ¬∀ (db : VaultDb) (p id : Uuid), (db.rows.map CredentialRow.id).Nodup →
    HasActive p db.rows → ∀ db', StopsAt (promote config id) db db' →
      StillActive p id db.rows db'.rows := by
  intro hall
  have hstrands : Strands vaultDb vaultProviderId secondId :=
    ⟨rows_unique vaultProviderId, rfl, stored secondId .grace, rfl, rfl, rfl⟩
  obtain ⟨db', hstop, hgone⟩ := hstrands.stops config vaultDb_active
  obtain ⟨row, hrow, hrowActive, -⟩ :=
    hall vaultDb vaultProviderId secondId rows_tidy vaultDb_active db' hstop
  exact hgone ⟨row, hrow, hrowActive⟩

/-- The provider has two active credentials, as two promotions at once leave them, and one in grace. -/
def twoActiveDb : VaultDb where
  rows := [stored firstId .active, stored secondId .active, stored thirdId .grace]
  provider id := some (provider id)

/-- A database that answers every statement. -/
def statementAnswer (db : VaultDb) (e : VaultOp) : e.Answer :=
  match e with
  | .findProvider id => db.provider id
  | e => (answer 0 ⟨db.rows, fun _ => []⟩ {} e).1

def runPromote (id : Uuid) (db : VaultDb) : (Except Thrown CredentialMeta × Unit) × VaultDb :=
  (promote config id).eval
    (fun db e => (statementAnswer db e, statements.next db e (statementAnswer db e))) () db

theorem runPromote_stops (id : Uuid) (db : VaultDb) :
    StopsAt (promote config id) db (runPromote id db).2 := by
  let := Sample.gcm
  let := Platform.ofDigests [] firstId
  refine ⟨_, Prog.run_eval (fun db e => ⟨?_, rfl⟩) _ _⟩
  have hsound := (answer_sound 0 ⟨db.rows, fun _ => []⟩ {} e).2
  cases e with
  | findActive p => exact hsound.1
  | findCredential id => exact rfl
  | insert v => exact ⟨hsound.1, hsound.2.1⟩
  | update id set => exact rfl
  | revokeExpired now => exact rfl
  | findProvider id => exact rfl
  | _ => exact trivial

/-- The promotion of the third demotes one of the two, and the other stays. -/
theorem promote_third_keeps : ¬Strands twoActiveDb vaultProviderId thirdId ∧
    (runPromote thirdId twoActiveDb).2.rows.map CredentialRow.status = [.grace, .active, .active] ∧
    StillActive vaultProviderId thirdId twoActiveDb.rows (runPromote thirdId twoActiveDb).2.rows := by
  have hstays : ¬Strands twoActiveDb vaultProviderId thirdId := by
    rintro ⟨hone, -, -⟩
    have hsame := hone (stored firstId .active) (by simp [twoActiveDb]) (stored secondId .active)
      (by simp [twoActiveDb]) ⟨rfl, rfl⟩ ⟨rfl, rfl⟩
    have hids : firstId = secondId := congrArg CredentialRow.id hsame
    exact absurd hids (by decide)
  have hactive : HasActive vaultProviderId twoActiveDb.rows :=
    ⟨stored firstId .active, List.mem_cons_self .., rfl, rfl⟩
  exact ⟨hstays, by decide +kernel, (promote_keeps_active_iff config (by decide) hactive thirdId).2 hstays
    _ (runPromote_stops thirdId twoActiveDb)⟩

end Sample

end Vault

end VibeRouter
