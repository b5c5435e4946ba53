import VibeRouter.Gateway.Calls

/-! # What a request touches

App tokens, providers and budgets belong to firms, and most of what requests share is kept under keys
that name one.  Everything that a request does concerns the firm of its app token and nobody else:
the rows it reads and writes, the limiters, caches and circuits, the credentials and the calls
(`chatCompletions_owned`, in the next module). -/

namespace VibeRouter

open Effects Async Code

/-- The firm that an app token, by its digest or its id, or a provider belongs to.  The database never
gives one to another firm. -/
structure Homes where
  ofHash : Digest → Uuid
  ofToken : Uuid → Uuid
  ofProvider : Uuid → Uuid

/-- A reference of a budget scope of the firm. -/
def ScopeOf (firmId : Uuid) (ref : String) : Prop :=
  ref = firmId.text ∨ ∃ name, ref = firmId.text ++ ":" ++ name

theorem scopeOf_scopeKey (scope : BudgetScope) (firmId : Uuid) (ref : String) :
    ScopeOf firmId (scopeKey scope firmId ref) := by
  unfold scopeKey
  split
  · exact Or.inl rfl
  · exact Or.inr ⟨ref, rfl⟩

/-- What an operation names is the firm's own. -/
def Op.Owned (home : Homes) (F : Uuid) : Op → Prop
  | .findAppToken tokenHash => home.ofHash tokenHash = F
  | .touchAppToken id => home.ofToken id = F
  | .take .perToken key => ∃ id, home.ofToken id = F ∧ key = "t:" ++ id.text
  | .take .perUser key => ∃ userId, key = "u:" ++ F.text ++ ":" ++ userId
  | .firmCacheGet firmId => firmId = F
  | .firmCacheSet firmId _ => firmId = F
  | .providerCacheGet key => ∃ kind, key = PolicyEngine.providerKey F kind
  | .providerCacheSet key entry => ∃ kind, key = PolicyEngine.providerKey F kind ∧
      ∀ row, entry.value = some row → home.ofProvider row.id = F
  | .cacheGet key => ∃ taskClassKey, key = PolicyEngine.cacheKey F taskClassKey
  | .cacheSet key _ => ∃ taskClassKey, key = PolicyEngine.cacheKey F taskClassKey
  | .findFirm firmId => firmId = F
  | .findProvider firmId _ => firmId = F
  | .findPolicy firmId _ => firmId = F
  | .findBudget _ scopeRef _ => ScopeOf F scopeRef
  | .sumLedger firmId _ _ => firmId = F
  | .getApiKey providerId => home.ofProvider providerId = F
  | .execute _ route _ => home.ofProvider route.provider.id = F
  | .openStream _ route _ => home.ofProvider route.provider.id = F
  | .recordHealth route firmId _ => home.ofProvider route.provider.id = F ∧ firmId = F
  | .breakerAllow providerId => home.ofProvider providerId = F
  | .breakerRecord providerId _ => home.ofProvider providerId = F
  | .shedAcquire providerId => home.ofProvider providerId = F
  | .shedRelease providerId => home.ofProvider providerId = F
  | .responseGet key => ∃ model h d, key = ResponseCache.key F model h d
  | .responseSet key _ _ => ∃ model h d, key = ResponseCache.key F model h d
  | .insertUsage values => values.firmId = F
  | .incrementBudget _ scopeRef _ _ => ScopeOf F scopeRef
  | .audit entry => entry.firmId = F
  | _ => True

/-- What the database says of the firms of rows. -/
def Homes.Rows (home : Homes) : (e : Op) → e.Answer → Prop
  | .findAppToken tokenHash, r => ∀ row, r = .ok (some row) →
      row.firmId = home.ofHash tokenHash ∧ home.ofToken row.id = row.firmId
  | .findProvider firmId _, r => ∀ row, r = .ok (some row) → home.ofProvider row.id = firmId
  | _, _ => True

/-- What the provider cache answers when rows are only stored under the keys of their firms. -/
def Homes.Cached (home : Homes) : (e : Op) → e.Answer → Prop
  | .providerCacheGet key, r => ∀ entry firmId kind, r = some entry →
      key = PolicyEngine.providerKey firmId kind →
      ∀ row, entry.value = some row → home.ofProvider row.id = firmId
  | _, _ => True

/-- What a request relies on. -/
def Homes.Told (home : Homes) (e : Op) (r : e.Answer) : Prop := home.Rows e r ∧ home.Cached e r

/-- The parts that belong to no firm. -/
def publicParts : List Op.Part := [.clock, .signal, .prices, .client]

variable {home : Homes} {F : Uuid} {L : (e : Op) → e.Answer → Prop}

theorem Op.Within.owned (e : Op) (h : e.Within publicParts) : e.Owned home F := by
  obtain ⟨hpart, -⟩ := h
  cases e <;> trivial

/-- What the program does concerns the firm. -/
abbrev Async.Owns {S α : Type} (L : (e : Op) → e.Answer → Prop) (home : Homes) (F : Uuid)
    (c : Async S α) (s : S) (post : Except Thrown α → S → Prop) : Prop :=
  c.Meets L (Op.Owned home F) s post

/-- Code that touches what belongs to no firm. -/
theorem owns_of_uses {S α : Type} {c : Async S α} {s : S} {ps : List Op.Part}
    {post post' : Except Thrown α → S → Prop} (h : Uses L ps c s post) (hps : ps ⊆ publicParts)
    (hpost : ∀ r s, post r s → post' r s) : Owns L home F c s post' :=
  ((h.weaken (Op.Within.widen hps)).weaken Op.Within.owned).mono hpost

/-! ### Contexts -/

/-- A user of the firm, through one of its app tokens. -/
structure AuthContext.Of (home : Homes) (F : Uuid) (auth : AuthContext) : Prop where
  firm : auth.firmId = F
  token : home.ofToken auth.tokenId = F

/-- The context of a request of the firm. -/
structure PipelineCtx.Of (home : Homes) (F : Uuid) (c : PipelineCtx) : Prop where
  auth : ∀ auth, c.auth = some auth → auth.Of home F
  route : ∀ route, c.route = some route → home.ofProvider route.provider.id = F

variable {s s' : PipelineCtx}

theorem PipelineCtx.Of.congr (h : s.Of home F) (hauth : s'.auth = s.auth)
    (hroute : s'.route = s.route) : s'.Of home F where
  auth auth heq := h.auth auth (hauth ▸ heq)
  route route heq := h.route route (hroute ▸ heq)

theorem PipelineCtx.Of.reroute (h : s.Of home F) {b : Bool} {route : RouteDecision}
    (hroute : home.ofProvider route.provider.id = F) :
    { s with cloudBlockAudited := b, route := some route }.Of home F where
  auth := h.auth
  route := by
    rintro route' ⟨⟩
    exact hroute

/-! ### Audit and health -/

theorem auditAs_owned (h : s.Of home F) (model : Option String) (event : AuditEvent) :
    Owns L home F (auditAs model event) s fun r s' => r = .ok () ∧ s' = s := by
  simp only [auditAs, meets_bind, meets_ctx]
  split
  · simp
  · next auth hauth => exact ⟨(h.auth auth hauth).firm, fun _ _ => ⟨rfl, rfl⟩⟩

theorem auditSoftFindings_owned (h : s.Of home F) (model : String) (soft : List SoftFinding) :
    Owns L home F (auditSoftFindings model soft) s fun r s' => r = .ok () ∧ s' = s := by
  cases soft with
  | nil => exact ⟨rfl, rfl⟩
  | cons f fs => exact auditAs_owned h _ _

theorem auditFrom_owned (h : s.Of home F) (previousModel : String) (model : ModelRow)
    (reason : String) :
    Owns L home F (auditFrom previousModel model reason) s fun r s' => r = .ok () ∧ s' = s := by
  unfold auditFrom
  split
  · exact ⟨rfl, rfl⟩
  · exact auditAs_owned h _ _

theorem auditClamp_owned (h : s.Of home F) (route : RouteDecision) :
    Owns L home F (auditClamp route) s fun r s' => r = .ok () ∧ s' = s := by
  simp only [auditClamp, meets_bind, meets_ctx]
  split
  · split
    · exact ⟨rfl, rfl⟩
    · exact auditAs_owned h _ _
  · exact ⟨rfl, rfl⟩

theorem auditIfInvalid_owned (h : s.Of home F) (route : RouteDecision) (rerr : RouterError) :
    Owns L home F (auditIfInvalid route rerr) s fun r s' => r = .ok () ∧ s' = s := by
  unfold auditIfInvalid
  split
  · exact auditAs_owned h _ _
  · exact ⟨rfl, rfl⟩

theorem recordHealth_owned (h : s.Of home F) {route : RouteDecision}
    (hroute : home.ofProvider route.provider.id = F) (ok : Bool) :
    Owns L home F (recordHealth route ok) s fun _ s' => s' = s := by
  simp only [recordHealth, meets_bind, meets_ctx]
  split
  · next auth hauth => exact ⟨⟨hroute, (h.auth auth hauth).firm⟩, fun _ _ => rfl⟩
  · rfl

theorem auditRequest_owned {auth : AuthContext} (h : auth.Of home F) (effective : EffectivePolicy)
    (event : AuditEvent) :
    Owns L home F (auditRequest auth effective event) s fun r s' => r = .ok () ∧ s' = s := by
  simp only [auditRequest, meets_bind, meets_ctx, meets_op]
  exact ⟨h.firm, fun _ _ => by simp⟩

theorem emitTerminalAudit_owned (h : s.Of home F) :
    Owns L home F emitTerminalAudit s fun r s' => r = .ok () ∧ s' = s := by
  simp only [emitTerminalAudit, meets_bind, meets_ctx]
  split
  · next auth event hauth _ => exact ⟨(h.auth auth hauth).firm, fun _ _ => by simp⟩
  · simp

theorem requireAuth_owned (h : s.Of home F) :
    Owns L home F requireAuth s fun r s' => s' = s ∧ ∀ auth, r = .ok auth → auth.Of home F :=
  owns_of_uses requireAuth_uses (by simp) fun _ _ ⟨heq, hauth⟩ =>
    ⟨heq, fun auth hr => h.auth auth (hauth auth hr)⟩

/-! ### Streams -/

/-- A stream of the firm: what it does is the firm's own, and it is left in the contexts of its
request. -/
def GenOwned (home : Homes) (F : Uuid) : GenOp Op Yielded → Prop
  | .op e => e.Owned home F
  | .yield y => y.2.Of home F

abbrev Async.OwnsGen {α : Type} (L : (e : Op) → e.Answer → Prop) (home : Homes) (F : Uuid)
    (g : Generator α) (s : PipelineCtx) (post : Except Abrupt α → PipelineCtx → Prop) : Prop :=
  g.Meets (GenOp.laws L Yielded) (GenOwned home F) s post

theorem ownsGen_inGenerator {α : Type} (c : Stage α) {post : Except Abrupt α → PipelineCtx → Prop} :
    (inGenerator c).Meets (GenOp.laws L Yielded) (GenOwned home F) s post ↔
      c.Meets L (Op.Owned home F) s fun r => post (r.mapError .thrown) := by
  unfold Code.Meets inGenerator
  rw [wp_embed]
  rfl

theorem ownsGen_op (e : Op) {post : Except Abrupt e.Answer → PipelineCtx → Prop} :
    @Code.Meets _ _ PipelineCtx Abrupt (no_index e.Answer) (GenOp.laws L Yielded)
      (GenOwned home F) (inGenerator (op e)) s post ↔
        e.Owned home F ∧ ∀ r, L e r → post (.ok r) s := Iff.rfl

theorem yieldChunk_owned (h : s.Of home F) (chunk : StreamChunk) :
    OwnsGen L home F (yieldChunk chunk) s fun _ s' => s' = s := by
  simp only [yieldChunk, meets_bind, meets_read, meets_perform]
  refine ⟨h, fun resumed _ => ?_⟩
  cases resumed with
  | next => rfl
  | return_ =>
      simp only [meets_bind, ownsGen_op]
      refine ⟨trivial, fun r _ => ?_⟩
      cases r <;> rfl

theorem yieldAll_owned (h : s.Of home F) (chunks : List StreamChunk) :
    OwnsGen L home F (yieldAll chunks) s fun _ s' => s' = s := by
  induction chunks with
  | nil => rfl
  | cons chunk chunks ih =>
      simp only [yieldAll, meets_bind]
      refine (yieldChunk_owned h chunk).mono ?_
      rintro (e | _ | e) s' rfl
      · rfl
      · exact ih
      · rfl

theorem relayStream_owned (h : s.Of home F) (cfg : ResilienceConfig) (chunks : List StreamChunk)
    (contentSeen : Bool) (pending : List StreamChunk) :
    OwnsGen L home F (relayStream cfg chunks contentSeen pending) s fun _ s' => s' = s := by
  induction chunks generalizing contentSeen pending with
  | nil =>
      simp only [relayStream, meets_bind, ownsGen_op]
      refine ⟨trivial, fun r _ => ?_⟩
      cases r <;> rfl
  | cons chunk rest ih =>
      have hcommit : OwnsGen L home F (commit contentSeen) s fun r s' => r = .ok () ∧ s' = s := by
        unfold commit
        split
        · exact ⟨rfl, rfl⟩
        · exact ⟨trivial, fun _ _ => ⟨rfl, rfl⟩⟩
      simp only [relayStream, meets_bind, ownsGen_op]
      refine ⟨trivial, fun r _ => ?_⟩
      rcases r with e | _
      · rfl
      · simp only [meets_bind, ownsGen_op]
        refine ⟨trivial, fun _ _ => ?_⟩
        split
        · exact ih _ _
        · rw [meets_bind]
          refine hcommit.mono ?_
          rintro _ _ ⟨rfl, rfl⟩
          dsimp only
          rw [meets_bind]
          refine (yieldAll_owned h _).mono ?_
          rintro (e | _ | e) s' rfl
          · rfl
          · exact ih _ _
          · rfl

/-! ### policy -/

namespace PolicyEngine

variable {S : Type} {t : S}

theorem firmSettings_owned (ttlMs : ℕ) :
    Owns L home F (firmSettings ttlMs F : Async S FirmSettings) t fun _ t' => t' = t := by
  simp only [firmSettings, meets_bind, meets_op]
  refine ⟨rfl, fun hit _ => owns_of_uses (fresh_uses hit) (by decide) ?_⟩
  rintro _ t' ⟨rfl, o, rfl, -⟩
  cases o with
  | some v => rfl
  | none =>
      simp only [meets_bind, meets_await, meets_op]
      refine ⟨rfl, fun r _ => ?_⟩
      cases r with
      | error e => trivial
      | ok firm =>
          simp only [meets_dateNow]
          exact ⟨trivial, fun now _ => ⟨rfl, fun _ _ => rfl⟩⟩

theorem load_owned (taskClassKey : String) (settings : FirmSettings) :
    Owns L home F (load F taskClassKey settings : Async S EffectivePolicy) t fun _ t' => t' = t := by
  simp only [load, meets_bind, meets_await, meets_op]
  refine ⟨trivial, fun r _ => ?_⟩
  rcases r with e | _ | tc
  · trivial
  · trivial
  simp only [meets_bind, meets_await, meets_op]
  refine ⟨rfl, fun r _ => ?_⟩
  rcases r with e | _ | policy
  · trivial
  · trivial
  dsimp only
  split
  · trivial
  simp only [meets_bind, meets_await, meets_op]
  refine ⟨trivial, fun r _ => ?_⟩
  rcases r with e | rows
  · trivial
  dsimp only
  split
  · trivial
  simp only [meets_bind, meets_await, meets_op, meets_pure]
  refine ⟨trivial, fun r _ => ?_⟩
  cases r <;> trivial

theorem resolve_owned (ttlMs : ℕ) (taskClassKey : String) (settings : FirmSettings) :
    Owns L home F (resolve ttlMs F taskClassKey settings : Async S EffectivePolicy) t
      fun _ t' => t' = t := by
  simp only [resolve, meets_bind, meets_op]
  refine ⟨⟨taskClassKey, rfl⟩, fun hit _ => owns_of_uses (fresh_uses hit) (by decide) ?_⟩
  rintro _ t' ⟨rfl, o, rfl, -⟩
  cases o with
  | some v => rfl
  | none =>
      simp only [meets_bind]
      refine (load_owned taskClassKey settings).mono ?_
      rintro (e | value) t'' rfl
      · trivial
      simp only [meets_dateNow, meets_op, meets_pure]
      exact ⟨trivial, fun now _ => ⟨⟨taskClassKey, rfl⟩, fun _ _ => trivial⟩⟩

/-- The providers of a firm are its own. -/
theorem providerFor_owned (hL : ∀ e r, L e r → home.Told e r) (ttlMs : ℕ) (kind : ProviderKind) :
    Owns L home F (providerFor ttlMs F kind : Async S (Option ProviderRow)) t fun r t' =>
      t' = t ∧ ∀ row, r = .ok (some row) → home.ofProvider row.id = F := by
  simp only [providerFor, meets_bind, meets_op]
  refine ⟨⟨kind, rfl⟩, fun hit hhit => owns_of_uses (fresh_uses hit) (by decide) ?_⟩
  rintro _ t' ⟨rfl, o, rfl, ho⟩
  cases o with
  | some v =>
      refine ⟨rfl, fun row hrow => ?_⟩
      obtain ⟨entry, rfl, hv⟩ := ho v rfl
      simp only [Except.ok.injEq] at hrow
      exact (hL _ _ hhit).2 entry F kind rfl rfl row (hv.trans hrow)
  | none =>
      simp only [meets_bind, meets_await, meets_op]
      refine ⟨rfl, fun r hr => ?_⟩
      cases r with
      | error e => simp
      | ok row =>
          have hown : ∀ row', row = some row' → home.ofProvider row'.id = F := by
            rintro row' rfl
            exact (hL _ _ hr).1 row' rfl
          simp only [meets_dateNow, meets_pure]
          refine ⟨trivial, fun now _ => ⟨⟨kind, rfl, hown⟩, fun _ _ => ⟨trivial, ?_⟩⟩⟩
          rintro row' hrow'
          exact hown row' (Except.ok.inj hrow')

end PolicyEngine

variable (deps : PipelineDeps)

theorem stagePolicy_owned (h : s.Of home F) :
    Owns L home F (stagePolicy deps) s fun _ s' => s'.Of home F := by
  simp only [stagePolicy, meets_bind]
  refine (requireAuth_owned h).mono ?_
  rintro (e | auth) s' ⟨rfl, hauth⟩
  · exact h
  obtain ⟨hfirm, -⟩ := hauth auth rfl
  dsimp only
  rw [hfirm]
  refine (PolicyEngine.firmSettings_owned _).mono ?_
  rintro (e | settings) s'' rfl
  · exact h
  simp only [meets_ctx]
  refine (PolicyEngine.resolve_owned _ _ _).mono ?_
  rintro (e | effective) s''' rfl
  · exact h
  simp only [meets_assign, meets_ofExcept]
  split
  · exact h.congr rfl rfl
  · exact h.congr rfl rfl

/-! ### budget -/

theorem checkScope_owned (period : Period) (softPct : ℕ) (scope : CheckScope) (scopeRef : String)
    (limit : Option ℕ) {spent : Stage ℤ} (warnings : List BudgetScopeCheck)
    (hspent : Owns L home F spent s fun _ s' => s' = s) :
    Owns L home F (checkScope period softPct scope scopeRef limit spent warnings) s
      fun _ s' => s' = s := by
  unfold checkScope
  split
  · rfl
  · simp only [meets_bind]
    refine hspent.mono ?_
    rintro (e | n) s' rfl
    · rfl
    · exact owns_of_uses (evaluate_uses _ _ _ _) (by simp) fun _ _ h => h

theorem spentFor_owned (scope : BudgetScope) {scopeRef : String} (h : ScopeOf F scopeRef)
    (period : Period) :
    Owns L home F (spentFor scope scopeRef period : Stage ℤ) s fun _ s' => s' = s := by
  simp only [spentFor, meets_bind, meets_await, meets_op]
  refine ⟨h, fun r _ => ?_⟩
  cases r <;> trivial

theorem checkBudgets_owned {p : BudgetParams} (h : p.firmId = F) :
    Owns L home F (checkBudgets p : Stage _) s fun _ s' => s' = s := by
  subst h
  simp only [checkBudgets, meets_bind, meets_dateNow]
  refine ⟨trivial, fun now _ => ?_⟩
  refine (checkScope_owned _ _ _ _ _ _ (spentFor_owned _ (Or.inl rfl) _)).mono ?_
  rintro (e | ws) s' rfl
  · rfl
  refine (checkScope_owned _ _ _ _ _ _ (spentFor_owned _ (scopeOf_scopeKey _ _ _) _)).mono ?_
  rintro (e | ws) s' rfl
  · rfl
  refine (checkScope_owned _ _ _ _ _ _ (spentFor_owned _ (scopeOf_scopeKey _ _ _) _)).mono ?_
  rintro (e | ws) s' rfl
  · rfl
  refine checkScope_owned _ _ _ _ _ _ ?_
  simp only [meets_await, meets_op]
  refine ⟨rfl, fun r _ => ?_⟩
  cases r <;> trivial

theorem auditWarnings_owned {auth : AuthContext} (h : auth.Of home F) (effective : EffectivePolicy)
    (ws : List BudgetScopeCheck) :
    Owns L home F (auditWarnings auth effective ws) s fun r s' => r = .ok () ∧ s' = s := by
  induction ws with
  | nil => exact ⟨rfl, rfl⟩
  | cons w ws ih =>
      simp only [auditWarnings, meets_bind, meets_dateNow, meets_op]
      exact ⟨trivial, fun now _ => ⟨h.firm, fun _ _ => ih⟩⟩

theorem stageBudget_owned (h : s.Of home F) :
    Owns L home F stageBudget s fun _ s' => s'.Of home F := by
  simp only [stageBudget, meets_bind]
  refine (requireAuth_owned h).mono ?_
  rintro (e | auth) s' ⟨rfl, hauth⟩
  · exact h
  have hof := hauth auth rfl
  refine owns_of_uses requireEffective_uses (by simp) ?_
  rintro (e | effective) s' ⟨rfl, -⟩
  · exact h
  simp only [meets_ctx]
  refine (checkBudgets_owned hof.firm).mono ?_
  rintro (e | ws) s' rfl
  · exact h
  dsimp only
  split
  · simp only [meets_bind, meets_assign]
    refine (auditWarnings_owned hof _ _).mono ?_
    rintro _ _ ⟨-, rfl⟩
    exact h.congr rfl rfl
  · exact h

/-! ### auth -/

variable [Platform]

/-- The bearer token is one of the firm, if it is one at all. -/
def Homes.Bears (home : Homes) (F : Uuid) (bearerToken : Option String) : Prop :=
  ∀ token, truthyText bearerToken = some token → home.ofHash (hashToken token) = F

section
variable (hL : ∀ e r, L e r → home.Told e r)
include hL

theorem authenticateAppToken_owned {bearerToken : Option String}
    (hbearer : home.Bears F bearerToken) :
    Owns L home F (authenticateAppToken bearerToken) s fun r s' => s' = s ∧
      ∀ auth, r = .ok auth → auth.Of home F := by
  unfold authenticateAppToken
  split
  · simp
  · next token htoken =>
      have hhash := hbearer token htoken
      simp only [meets_bind, meets_await, meets_op]
      refine ⟨hhash, fun r hr => ?_⟩
      rcases r with e | _ | row
      · simp
      · simp
      · obtain ⟨hfirm, hid⟩ := (hL _ _ hr).1 row rfl
        have hrow : row.firmId = F := hfirm.trans hhash
        dsimp only
        split
        · simp
        · split
          · simp
          · simp only [meets_bind, meets_op]
            refine ⟨hid.trans hrow, fun _ _ => ⟨rfl, ?_⟩⟩
            rintro auth ⟨⟩
            exact ⟨hrow, hid.trans hrow⟩

omit [Platform] hL in
theorem checkRateLimits_owned {auth : AuthContext} (h : auth.Of home F) :
    Owns L home F (checkRateLimits auth) s fun _ s' => s' = s := by
  have haudit : ∀ event,
      (Op.audit { firmId := auth.firmId, app := auth.app, event }).Owned home F := fun _ => h.firm
  simp only [checkRateLimits, meets_bind, meets_op, meets_ctx]
  refine ⟨⟨auth.tokenId, h.token, rfl⟩, fun tokenWait _ => ?_⟩
  split
  · simp only [meets_bind, meets_op]
    refine ⟨⟨_, by rw [h.firm]⟩, fun userWait _ => ?_⟩
    split
    · simp only [meets_bind, meets_op]
      exact ⟨haudit _, fun _ _ => rfl⟩
    · rfl
  · simp only [meets_bind, meets_pure]
    split
    · simp only [meets_bind, meets_op]
      exact ⟨haudit _, fun _ _ => rfl⟩
    · rfl

theorem stageAuth_owned (deps : PipelineDeps) {bearerToken : Option String}
    (hbearer : home.Bears F bearerToken) (h : s.Of home F) :
    Owns L home F (stageAuth deps bearerToken) s fun _ s' => s'.Of home F := by
  simp only [stageAuth, meets_bind]
  refine (authenticateAppToken_owned hL hbearer).mono ?_
  rintro (e | auth) s' ⟨rfl, hauth⟩
  · exact h
  have hof := hauth auth rfl
  have hctx : (s'.withAuth auth).Of home F := by
    refine ⟨?_, h.route⟩
    rintro auth' ⟨⟩
    exact hof
  simp only [meets_assign]
  split
  · refine (checkRateLimits_owned hof).mono ?_
    rintro _ _ rfl
    exact hctx
  · exact hctx

end

/-! ### scrub -/

omit [Platform] in
theorem runScrubber_owned (h : s.Of home F) (mode : ScrubberMode) (cloudPrimary : Bool) :
    Owns L home F (runScrubber mode cloudPrimary) s fun _ s' => s'.Of home F := by
  simp only [runScrubber, meets_bind, meets_ctx]
  split
  · split
    · cases cloudPrimary with
      | true => exact h.congr rfl rfl
      | false => exact h.congr rfl rfl
    · exact h
  · split
    · exact h.congr rfl rfl
    · exact h

omit [Platform] in
theorem actOnReport_owned {auth : AuthContext} (hauth : auth.Of home F) (h : s.Of home F)
    (effective : EffectivePolicy) (mode : ScrubberMode) (cloudPrimary : Bool)
    (counts : List (String × ℕ)) :
    Owns L home F (actOnReport auth effective mode cloudPrimary counts) s
      fun _ s' => s'.Of home F := by
  have haudit : ∀ event, Owns L home F (auditRequest auth effective event) s
      fun _ s' => s'.Of home F := by
    intro event
    refine (auditRequest_owned hauth effective event).mono ?_
    rintro _ _ ⟨-, rfl⟩
    exact h
  unfold actOnReport
  cases mode with
  | block =>
      dsimp only
      split
      · exact h.congr rfl rfl
      · simp only [meets_bind]
        refine (haudit _).mono ?_
        rintro (e | _) s' h' <;> exact h'
  | redact => exact haudit _
  | warn => exact haudit _

theorem stageScrub_owned (h : s.Of home F) :
    Owns L home F stageScrub s fun _ s' => s'.Of home F := by
  simp only [stageScrub, meets_bind]
  refine owns_of_uses requireEffective_uses (by simp) ?_
  rintro (e | effective) s' ⟨rfl, -⟩
  · exact h
  refine (requireAuth_owned h).mono ?_
  rintro (e | auth) s' ⟨rfl, hauth⟩
  · exact h
  simp only [meets_ctx, meets_ofExcept]
  split
  · split
    · exact h
    · simp only [meets_bind]
      refine (runScrubber_owned h _ _).mono ?_
      rintro (e | report) s'' h'
      · exact h'
      dsimp only
      split
      · exact h'
      · exact actOnReport_owned (hauth auth rfl) h' _ _ _ _
  · exact h

/-! ### route -/

omit [Platform] in
theorem barCloudHop_owned {auth : AuthContext} (hauth : auth.Of home F) (effective : EffectivePolicy)
    (model : ModelRow) :
    Owns L home F (barCloudHop auth effective model) s fun _ s' =>
      ∃ b, s' = { s with cloudBlockAudited := b } := by
  simp only [barCloudHop, meets_bind, meets_ctx]
  split
  · exact ⟨_, rfl⟩
  · split
    · exact ⟨_, rfl⟩
    · split
      · exact ⟨_, rfl⟩
      · simp only [meets_bind, meets_assign]
        refine (auditRequest_owned hauth _ _).mono ?_
        rintro _ _ ⟨rfl, rfl⟩
        exact ⟨true, rfl⟩

omit [Platform] in
theorem resolveApiKey_owned {provider : ProviderRow} (h : home.ofProvider provider.id = F) :
    Owns L home F (resolveApiKey deps provider) s fun _ s' => s' = s := by
  unfold resolveApiKey
  split
  · rfl
  · split
    · simp only [meets_bind, meets_await, meets_op]
      refine ⟨h, fun r _ => ?_⟩
      rcases r with e | key
      · trivial
      · dsimp only
        split <;> trivial
    · simp only [meets_bind, meets_pure]
      split <;> trivial

section
variable (hL : ∀ e r, L e r → home.Told e r)
include hL

/-- A route leads to a provider of the firm. -/
theorem routeForModel_owned (h : s.Of home F) (model : ModelRow) :
    Owns L home F (routeForModel deps model) s fun r s' =>
      (∃ b, s' = { s with cloudBlockAudited := b }) ∧
        ∀ route, r = .ok route → home.ofProvider route.provider.id = F := by
  simp only [routeForModel, meets_bind]
  refine (requireAuth_owned h).mono ?_
  rintro (e | auth) s' ⟨rfl, hauth⟩
  · exact ⟨⟨_, rfl⟩, by simp⟩
  have hof := hauth auth rfl
  refine owns_of_uses requireEffective_uses (by simp) ?_
  rintro (e | effective) s' ⟨rfl, -⟩
  · exact ⟨⟨_, rfl⟩, by simp⟩
  simp only [meets_ctx, meets_ofExcept]
  cases modelViolation model effective (requiredCapabilities effective s'.envelope) with
  | error e => exact ⟨⟨_, rfl⟩, by simp⟩
  | ok violation =>
      cases violation with
      | some v => exact ⟨⟨_, rfl⟩, by simp⟩
      | none =>
          simp only [meets_bind]
          refine (barCloudHop_owned hof effective model).mono ?_
          rintro (e | _) _ ⟨b, rfl⟩
          · exact ⟨⟨_, rfl⟩, by simp⟩
          dsimp only
          rw [hof.firm]
          refine (PolicyEngine.providerFor_owned hL _ _).mono ?_
          rintro (e | row) _ ⟨rfl, hrow⟩
          · exact ⟨⟨_, rfl⟩, by simp⟩
          simp only [meets_ofExcept]
          cases hp : checkProvider deps effective model row with
          | error e => exact ⟨⟨_, rfl⟩, by simp⟩
          | ok provider =>
              have hprovider := hrow provider (by rw [checkProvider_eq_ok deps hp])
              dsimp only
              cases adapterFor deps provider with
              | error e => exact ⟨⟨_, rfl⟩, by simp⟩
              | ok adapter =>
                  simp only [meets_pure]
                  refine (resolveApiKey_owned deps hprovider).mono ?_
                  rintro (e | key) _ rfl
                  · exact ⟨⟨_, rfl⟩, by simp⟩
                  refine ⟨⟨_, rfl⟩, ?_⟩
                  rintro route ⟨⟩
                  exact hprovider

theorem stageRoute_owned (h : s.Of home F) :
    Owns L home F (stageRoute deps) s fun _ s' => s'.Of home F := by
  simp only [stageRoute, meets_bind]
  refine owns_of_uses requireEffective_uses (by simp) ?_
  rintro (e | effective) s' ⟨rfl, -⟩
  · exact h
  refine (requireAuth_owned h).mono ?_
  rintro (e | auth) s' ⟨rfl, hauth⟩
  · exact h
  have hof := hauth auth rfl
  simp only [meets_ctx, meets_ofExcept]
  cases selectModelWith effective s'.envelope with
  | error e => exact h
  | ok selected =>
      obtain ⟨model, upgrade⟩ := selected
      have hupgrade : Owns L home F (auditUpgrade auth effective upgrade) s' fun _ s'' => s'' = s' := by
        cases upgrade with
        | none => rfl
        | some up => exact (auditRequest_owned hof _ _).mono fun _ _ h => h.2
      dsimp only
      refine hupgrade.mono ?_
      rintro (e | _) s'' rfl
      · exact h
      simp only [routePrimary, meets_bind, meets_outcome]
      refine (routeForModel_owned deps hL h model).mono ?_
      rintro (e | route) _ ⟨⟨b, rfl⟩, hroute⟩
      · dsimp only
        split
        · exact h.congr rfl rfl
        · exact h.congr rfl rfl
      · exact h.reroute (hroute route rfl)

end

end VibeRouter
