import VibeRouter.Gateway.OwnedCalls
import VibeRouter.Ledger.Funds
import VibeRouter.Lib.Unwinding
import VibeRouter.Resilience.Breaker
import VibeRouter.Resilience.Limiter

/-! # Firms beside each other

The requests of all firms share the limiters, the caches of the policy engine, the circuits, the
response cache, the price cache and the stored spend of one gateway.  Two runs of it that have the requests
of one firm in common, and in which the requests of the other firms are any others, are the same to that
firm (`firms_do_not_interfere`): each of its requests gets the same answers, so every limiter, policy,
budget and circuit decides alike, and every cached response is the same.

The clock, the rows of the configuration, the providers and the slots of the semaphores come from outside
of these stores; they are the same in both runs.  Two of the stores are not divided among the firms.  No
response is dropped because the cache is full; and the price cache has one entry for each model, which any
firm's request may have filled, so that the prices it answers with are supposed to be the same (`Shared`). -/

namespace VibeRouter

open Effects Async Code

/-! ### The stores -/

namespace RateLimiter

/-- The same limits, and the same buckets under the keys in `K`. -/
structure SameOn (K : String → Prop) (l l' : RateLimiter) : Prop where
  rpm : l.rpm = l'.rpm
  burst : l.burst = l'.burst
  buckets : JsMap.SameOn K l.buckets l'.buckets

variable {l l' : RateLimiter} {K : String → Prop} {key : String} {now : ℚ}

theorem SameOn.symm (h : SameOn K l l') : SameOn K l' l :=
  ⟨h.rpm.symm, h.burst.symm, h.buckets.symm⟩

theorem SameOn.take (h : SameOn K l l') (hkey : K key) (now : ℚ) :
    (l.take key now).1 = (l'.take key now).1 ∧ SameOn K (l.take key now).2 (l'.take key now).2 := by
  have hfilled : l.filled key now = l'.filled key now := by
    unfold filled refillPerMs
    rw [h.rpm, h.burst, h.buckets key hkey]
  unfold RateLimiter.take refillPerMs
  rw [hfilled, h.rpm]
  split
  · exact ⟨rfl, h⟩
  · dsimp only
    split
    · exact ⟨rfl, rfl, h.burst, h.buckets.set key _⟩
    · exact ⟨rfl, rfl, h.burst, h.buckets.set key _⟩

theorem SameOn.take_other (h : SameOn K l l') (hkey : ¬K key) (now : ℚ) :
    SameOn K (l.take key now).2 l' := by
  unfold RateLimiter.take
  split
  · exact h
  · dsimp only
    split
    · exact ⟨h.rpm, h.burst, h.buckets.set_other hkey _⟩
    · exact ⟨h.rpm, h.burst, h.buckets.set_other hkey _⟩

theorem SameOn.prune (h : SameOn K l l') (maxIdleMs now : ℚ) :
    SameOn K (l.prune maxIdleMs now) (l'.prune maxIdleMs now) :=
  ⟨h.rpm, h.burst, h.buckets.filterKeys fun k hk => by rw [h.buckets k hk]⟩

end RateLimiter

namespace CircuitBreaker

/-- The same options, and the same windows of the providers in `K`. -/
structure SameOn (K : Uuid → Prop) (b b' : CircuitBreaker) : Prop where
  options : b.options = b'.options
  window : ∀ p, K p → b.window p = b'.window p

variable {b b' : CircuitBreaker} {K : Uuid → Prop} {p : Uuid}

theorem SameOn.symm (h : SameOn K b b') : SameOn K b' b :=
  ⟨h.options.symm, fun p hp => (h.window p hp).symm⟩

theorem SameOn.put (h : SameOn K b b') (p : Uuid) (w : Window) : SameOn K (b.put p w) (b'.put p w) := by
  refine ⟨h.options, fun p' hp' => ?_⟩
  by_cases heq : p' = p
  · rw [heq, window_put_self, window_put_self]
  · rw [window_put_of_ne _ _ heq, window_put_of_ne _ _ heq, h.window p' hp']

theorem SameOn.put_other (h : SameOn K b b') (hp : ¬K p) (w : Window) : SameOn K (b.put p w) b' := by
  refine ⟨h.options, fun p' hp' => ?_⟩
  have hne : p' ≠ p := by
    rintro rfl
    exact hp hp'
  rw [window_put_of_ne _ _ hne, h.window p' hp']

theorem SameOn.allow (h : SameOn K b b') (hp : K p) (now : ℕ) :
    (b.allow p now).1 = (b'.allow p now).1 ∧ SameOn K (b.allow p now).2 (b'.allow p now).2 := by
  unfold CircuitBreaker.allow
  rw [h.window p hp, h.options]
  exact ⟨rfl, h.put p _⟩

theorem SameOn.record (h : SameOn K b b') (hp : K p) (ok : Bool) (now : ℕ) :
    SameOn K (b.record p ok now) (b'.record p ok now) := by
  unfold CircuitBreaker.record
  rw [h.window p hp, h.options]
  exact h.put p _

end CircuitBreaker

namespace ResponseCache

/-- The same responses under the keys in `K`. -/
def SameOn (K : String → Prop) (c c' : ResponseCache) : Prop := JsMap.SameOn K c.entries c'.entries

variable {c c' : ResponseCache} {K : String → Prop} {key : String}

theorem SameOn.get (h : SameOn K c c') (hkey : K key) (now : ℕ) :
    (c.get key now).1 = (c'.get key now).1 ∧ SameOn K (c.get key now).2 (c'.get key now).2 := by
  unfold ResponseCache.get
  rw [h key hkey]
  cases c'.entries.get key with
  | none => exact ⟨rfl, h⟩
  | some entry =>
      dsimp only
      split
      · exact ⟨rfl, JsMap.SameOn.delete h key⟩
      · exact ⟨rfl, (JsMap.SameOn.delete h key).set key entry⟩

theorem SameOn.get_other (h : SameOn K c c') (hkey : ¬K key) (now : ℕ) :
    SameOn K (c.get key now).2 c' := by
  unfold ResponseCache.get
  split
  · exact h
  · split
    · exact JsMap.SameOn.delete_other h hkey
    · exact (JsMap.SameOn.delete_other h hkey).set_other hkey _

/-- There is room for another entry. -/
def HasRoom (c : ResponseCache) : Prop := c.entries.size < c.maxEntries

theorem set_of_hasRoom (h : c.HasRoom) (key : String) (response : AIResponse) {ttlSeconds : ℚ}
    (httl : ¬ttlSeconds ≤ 0) (now : ℕ) : c.set key response ttlSeconds now =
      { c with entries := c.entries.set key ⟨response, now + ttlSeconds * 1000⟩ } := by
  unfold ResponseCache.set
  rw [if_neg httl, if_neg (Nat.not_le.2 h)]

theorem SameOn.set (h : SameOn K c c') (hroom : c.HasRoom) (hroom' : c'.HasRoom) (key : String)
    (response : AIResponse) (ttlSeconds : ℚ) (now : ℕ) :
    SameOn K (c.set key response ttlSeconds now) (c'.set key response ttlSeconds now) := by
  by_cases httl : ttlSeconds ≤ 0
  · unfold ResponseCache.set
    rw [if_pos httl, if_pos httl]
    exact h
  · rw [set_of_hasRoom hroom key response httl, set_of_hasRoom hroom' key response httl]
    exact JsMap.SameOn.set h key _

theorem SameOn.set_other (h : SameOn K c c') (hroom : c.HasRoom) (hkey : ¬K key)
    (response : AIResponse) (ttlSeconds : ℚ) (now : ℕ) :
    SameOn K (c.set key response ttlSeconds now) c' := by
  by_cases httl : ttlSeconds ≤ 0
  · unfold ResponseCache.set
    rw [if_pos httl]
    exact h
  · rw [set_of_hasRoom hroom key response httl]
    exact JsMap.SameOn.set_other h hkey _

end ResponseCache

/-- What the requests of one gateway share, but for the slots of the semaphores and the health monitor. -/
structure GatewayStores where
  meter : Meter
  perToken : RateLimiter
  perUser : RateLimiter
  firmSettings : JsMap Uuid (Cached FirmSettings)
  providers : ProviderCache
  policies : JsMap String (Cached EffectivePolicy)
  breaker : CircuitBreaker
  responses : ResponseCache
  prices : JsMap Uuid (Cached (Option ModelPricingRow))

namespace GatewayStores

variable (s : GatewayStores)

def now : ℕ := s.meter.clock

/-- The row of a budget; there is none before spend is recorded. -/
def budgetRow (scope : BudgetScope) (ref : String) (period : Period) : Option ℤ :=
  if s.meter.budgets scope ref period = 0 then none
  else some (s.meter.budgets scope ref period)

/-- What an operation answers and makes of the stores.  A query may fail; a response is only stored
while there is room. -/
def Serves (s : GatewayStores) (e : Op) (r : e.Answer) (s' : GatewayStores) : Prop :=
  match e, r with
  | .now, t => t = s.now ∧ s' = s
  | .take .perToken key, r => r = (s.perToken.take key s.now).1.map Int.toNat ∧
      s' = { s with perToken := (s.perToken.take key s.now).2 }
  | .take .perUser key, r => r = (s.perUser.take key s.now).1.map Int.toNat ∧
      s' = { s with perUser := (s.perUser.take key s.now).2 }
  | .firmCacheGet firmId, r => r = s.firmSettings.get firmId ∧ s' = s
  | .firmCacheSet firmId entry, _ =>
      s' = { s with firmSettings := s.firmSettings.set firmId entry }
  | .providerCacheGet key, r => r = s.providers.get key ∧ s' = s
  | .providerCacheSet key entry, _ => s' = { s with providers := s.providers.set key entry }
  | .cacheGet key, r => r = s.policies.get key ∧ s' = s
  | .cacheSet key entry, _ => s' = { s with policies := s.policies.set key entry }
  | .findBudget scope ref period, r =>
      ((∃ err, r = .error err) ∨ r = .ok (s.budgetRow scope ref period)) ∧ s' = s
  | .sumLedger firmId taskClassId since, r =>
      ((∃ err, r = .error err) ∨ r = .ok (s.meter.sumLedger firmId taskClassId since)) ∧ s' = s
  | .breakerAllow providerId, r => r = (s.breaker.allow providerId s.now).1 ∧
      s' = { s with breaker := (s.breaker.allow providerId s.now).2 }
  | .breakerRecord providerId ok, _ =>
      s' = { s with breaker := s.breaker.record providerId ok s.now }
  | .responseGet key, r => r = (s.responses.get key s.now).1 ∧
      s' = { s with responses := (s.responses.get key s.now).2 }
  | .responseSet key response ttlSeconds, _ => s.responses.HasRoom ∧
      s' = { s with responses := s.responses.set key response ttlSeconds s.now }
  | .pricingCacheGet modelId, r => r = s.prices.get modelId ∧ s' = s
  | .pricingCacheSet modelId entry, _ => s' = { s with prices := s.prices.set modelId entry }
  | .insertUsage values, .ok true =>
      s' = { s with meter := { s.meter with ledger := ⟨values, s.now⟩ :: s.meter.ledger } }
  | .incrementBudget scope ref period amount, .ok () =>
      s' = { s with meter := s.meter.increment scope ref period amount }
  | _, _ => s' = s

/-- What happens to the stores besides: time passes, idle buckets are dropped, and the policy engine
forgets what it has cached, for one firm or for all. -/
inductive Event
  | tick (clock : ℕ)
  | prune
  | invalidate (firmId : Option Uuid)

/-- `PolicyEngine.invalidate`. -/
def invalidate (firmId : Option Uuid) : GatewayStores :=
  { s with
    firmSettings := .empty
    providers := .empty
    policies := match firmId with
      | none => .empty
      | some firmId => s.policies.filterKeys fun key => !key.startsWith (firmId.text ++ ":") }

def happen (ev : Event) (s : GatewayStores) : GatewayStores :=
  match ev with
  | .tick clock => { s with meter := { s.meter with clock := max s.now clock } }
  | .prune => { s with
      perToken := s.perToken.prune RateLimiter.maxIdleMs s.now
      perUser := s.perUser.prune RateLimiter.maxIdleMs s.now }
  | .invalidate firmId => s.invalidate firmId

end GatewayStores

/-! ### The part of a firm -/

/-- The keys of a firm. -/
def TokenKey (home : Homes) (F : Uuid) (key : String) : Prop :=
  ∃ id, home.ofToken id = F ∧ key = "t:" ++ id.text

def UserKey (F : Uuid) (key : String) : Prop := ∃ userId, key = "u:" ++ F.text ++ ":" ++ userId

def ProviderKey (F : Uuid) (key : String) : Prop := ∃ kind, key = PolicyEngine.providerKey F kind

def PolicyKey (F : Uuid) (key : String) : Prop :=
  ∃ taskClassKey, key = PolicyEngine.cacheKey F taskClassKey

def ResponseKey (F : Uuid) (key : String) : Prop :=
  ∃ model h d, key = ResponseCache.key F model h d

section
variable {home : Homes} {F G : Uuid} {key : String}

theorem TokenKey.unique (h : TokenKey home F key) (h' : TokenKey home G key) : F = G := by
  obtain ⟨id, rfl, rfl⟩ := h
  obtain ⟨id', rfl, heq⟩ := h'
  have htext : id.text.toList = id'.text.toList := by
    simpa using congrArg String.toList heq
  rw [HexText.ext_text (String.toList_injective htext)]

theorem UserKey.unique (h : UserKey F key) (h' : UserKey G key) : F = G := by
  obtain ⟨userId, rfl⟩ := h
  obtain ⟨userId', heq⟩ := h'
  have htext : (F.text ++ ":" ++ userId).toList = (G.text ++ ":" ++ userId').toList := by
    simpa using congrArg String.toList heq
  exact (HexText.key_inj (String.toList_injective htext)).1

theorem ProviderKey.unique (h : ProviderKey F key) (h' : ProviderKey G key) : F = G := by
  obtain ⟨kind, rfl⟩ := h
  obtain ⟨kind', heq⟩ := h'
  exact (PolicyEngine.providerKey_inj heq).1

theorem PolicyKey.unique (h : PolicyKey F key) (h' : PolicyKey G key) : F = G := by
  obtain ⟨taskClassKey, rfl⟩ := h
  obtain ⟨taskClassKey', heq⟩ := h'
  exact (HexText.key_inj heq).1

theorem ResponseKey.unique (h : ResponseKey F key) (h' : ResponseKey G key) : F = G := by
  obtain ⟨model, h, d, rfl⟩ := h
  obtain ⟨model', h', d', heq⟩ := h'
  exact (ResponseCache.key_injective heq).1

theorem ScopeOf.unique (h : ScopeOf F key) (h' : ScopeOf G key) : F = G := by
  have hcolon : ∀ {F G : Uuid} {name : String}, F.text ≠ G.text ++ ":" ++ name := by
    intro F G name heq
    refine F.no_colon ?_
    rw [heq]
    simp
  rcases h with rfl | ⟨name, rfl⟩
  · rcases h' with heq | ⟨name', heq⟩
    · exact HexText.ext_text heq
    · exact absurd heq hcolon
  · rcases h' with heq | ⟨name', heq⟩
    · exact absurd heq.symm hcolon
    · exact (HexText.key_inj heq).1

end

/-- The part of a firm is the same in two stores.  No part of the price cache is a firm's. -/
structure GatewayStores.Alike (home : Homes) (F : Uuid) (s t : GatewayStores) : Prop where
  clock : s.meter.clock = t.meter.clock
  budgets : ∀ scope ref period, ScopeOf F ref →
    s.meter.budgets scope ref period = t.meter.budgets scope ref period
  ledger : s.meter.ledger.filter (fun row => row.firmId = F) =
    t.meter.ledger.filter fun row => row.firmId = F
  perToken : s.perToken.SameOn (TokenKey home F) t.perToken
  perUser : s.perUser.SameOn (UserKey F) t.perUser
  firmSettings : s.firmSettings.get F = t.firmSettings.get F
  providers : s.providers.SameOn (ProviderKey F) t.providers
  policies : s.policies.SameOn (PolicyKey F) t.policies
  breaker : s.breaker.SameOn (fun p => home.ofProvider p = F) t.breaker
  responses : s.responses.SameOn (ResponseKey F) t.responses

/-- What two answers have in common because it comes from outside of the stores, or is supposed to be the
same: a price that is cached. -/
def Op.Shared : (e : Op) → e.Answer → e.Answer → Prop
  | .now, _, _ => True
  | .take _ _, _, _ => True
  | .firmCacheGet _, _, _ => True
  | .providerCacheGet _, _, _ => True
  | .cacheGet _, _, _ => True
  | .breakerAllow _, _, _ => True
  | .responseGet _, _, _ => True
  | .findBudget _ _ _, r, r' => ∀ err, r = .error err ↔ r' = .error err
  | .sumLedger _ _ _, r, r' => ∀ err, r = .error err ↔ r' = .error err
  | _, r, r' => r = r'

namespace GatewayStores

variable {home : Homes} {F G : Uuid} {s s' t t' : GatewayStores} {e : Op} {r r' : e.Answer}

theorem Alike.symm (h : s.Alike home F t) : t.Alike home F s where
  clock := h.clock.symm
  budgets scope ref period href := (h.budgets scope ref period href).symm
  ledger := h.ledger.symm
  perToken := h.perToken.symm
  perUser := h.perUser.symm
  firmSettings := h.firmSettings.symm
  providers := h.providers.symm
  policies := h.policies.symm
  breaker := h.breaker.symm
  responses := JsMap.SameOn.symm h.responses

theorem Alike.sumLedger (h : s.Alike home F t) (taskClassId : Uuid) (since : ℕ) :
    s.meter.sumLedger F taskClassId since = t.meter.sumLedger F taskClassId since := by
  have hsplit : ∀ m : Meter, m.sumLedger F taskClassId since =
      (((m.ledger.filter fun row => row.firmId = F).filter fun row =>
        row.taskClassId = some taskClassId ∧ since ≤ row.ts).map fun row =>
          row.costCents.getD 0).sum := by
    intro m
    unfold Meter.sumLedger Meter.sumRows
    rw [List.filter_filter]
    congr 3
    funext row
    by_cases hfirm : row.firmId = F <;> simp [hfirm]
  rw [hsplit, hsplit, h.ledger]

/-- Queries that fail in both runs or in none. -/
theorem agree_of_shared {α : Type} {r r' : Except Thrown α} {a : α}
    (hr : (∃ err, r = .error err) ∨ r = .ok a) (hr' : (∃ err, r' = .error err) ∨ r' = .ok a)
    (hshared : ∀ err, r = .error err ↔ r' = .error err) : r = r' := by
  rcases hr with ⟨err, rfl⟩ | rfl
  · exact ((hshared err).1 rfl).symm
  · rcases hr' with ⟨err, rfl⟩ | rfl
    · exact (hshared err).2 rfl
    · rfl

/-- An operation of another firm leaves the part of the firm alone. -/
theorem Alike.other (h : s.Alike home F t) (hne : G ≠ F) (hown : e.Owned home G)
    (hserves : s.Serves e r s') : s'.Alike home F t := by
  have hsame : s' = s → s'.Alike home F t := by
    rintro rfl
    exact h
  cases e with
  | now => exact hsame hserves.2
  | take limiter key =>
      cases limiter with
      | perToken =>
          obtain ⟨-, rfl⟩ := hserves
          have hkey : ¬TokenKey home F key := fun hF => hne (TokenKey.unique hown hF)
          exact { h with perToken := h.perToken.take_other hkey _ }
      | perUser =>
          obtain ⟨-, rfl⟩ := hserves
          have hkey : ¬UserKey F key := fun hF => hne (UserKey.unique hown hF)
          exact { h with perUser := h.perUser.take_other hkey _ }
  | firmCacheGet firmId => exact hsame hserves.2
  | firmCacheSet firmId entry =>
      obtain rfl : s' = _ := hserves
      obtain rfl : firmId = G := hown
      refine { h with firmSettings := ?_ }
      dsimp only
      rw [JsMap.get_set_of_ne _ _ hne.symm, h.firmSettings]
  | providerCacheGet key => exact hsame hserves.2
  | providerCacheSet key entry =>
      obtain rfl : s' = _ := hserves
      obtain ⟨kind, rfl, -⟩ := hown
      have hkey : ¬ProviderKey F (PolicyEngine.providerKey G kind) :=
        fun hF => hne (ProviderKey.unique ⟨kind, rfl⟩ hF)
      exact { h with providers := h.providers.set_other hkey _ }
  | cacheGet key => exact hsame hserves.2
  | cacheSet key entry =>
      obtain rfl : s' = _ := hserves
      have hkey : ¬PolicyKey F key := fun hF => hne (PolicyKey.unique hown hF)
      exact { h with policies := h.policies.set_other hkey _ }
  | findBudget scope ref period => exact hsame hserves.2
  | sumLedger firmId taskClassId since => exact hsame hserves.2
  | breakerAllow providerId =>
      obtain ⟨-, rfl⟩ := hserves
      have hprovider : ¬home.ofProvider providerId = F := fun hF => hne (hown.symm.trans hF)
      exact { h with breaker := h.breaker.put_other hprovider _ }
  | breakerRecord providerId ok =>
      obtain rfl : s' = _ := hserves
      have hprovider : ¬home.ofProvider providerId = F := fun hF => hne (hown.symm.trans hF)
      exact { h with breaker := h.breaker.put_other hprovider _ }
  | responseGet key =>
      obtain ⟨-, rfl⟩ := hserves
      have hkey : ¬ResponseKey F key := fun hF => hne (ResponseKey.unique hown hF)
      exact { h with responses := h.responses.get_other hkey _ }
  | responseSet key response ttlSeconds =>
      obtain ⟨hroom, rfl⟩ := hserves
      have hkey : ¬ResponseKey F key := fun hF => hne (ResponseKey.unique hown hF)
      exact { h with responses := h.responses.set_other hroom hkey _ _ _ }
  | pricingCacheGet modelId => exact hsame hserves.2
  | pricingCacheSet modelId entry =>
      obtain rfl : s' = _ := hserves
      exact { h with }
  | insertUsage values =>
      rcases r with err | _ | _
      · exact hsame hserves
      · exact hsame hserves
      · obtain rfl : s' = _ := hserves
        have hfirm : ¬values.firmId = F := fun hF => hne (hown.symm.trans hF)
        refine { h with ledger := ?_ }
        dsimp only
        rw [List.filter_cons_of_neg (by simpa using hfirm), h.ledger]
  | incrementBudget scope ref period amount =>
      cases r with
      | error err => exact hsame hserves
      | ok _ =>
          obtain rfl : s' = _ := hserves
          refine { h with budgets := fun scope' ref' period' href' => ?_ }
          have hne' : ref' ≠ ref := by
            rintro rfl
            exact hne (ScopeOf.unique hown href')
          simp only [Meter.increment, hne', false_and, and_false, if_false]
          exact h.budgets scope' ref' period' href'
  | _ => exact hsame hserves

/-- An operation of the firm gets the same answer from both stores. -/
theorem Alike.own (h : s.Alike home F t) (hown : e.Owned home F) (hs : s.Serves e r s')
    (ht : t.Serves e r' t') (hshared : e.Shared r r') : r = r' ∧ s'.Alike home F t' := by
  have hnow : s.now = t.now := h.clock
  have hsame : r = r' → s' = s → t' = t → r = r' ∧ s'.Alike home F t' := by
    rintro rfl rfl rfl
    exact ⟨rfl, h⟩
  cases e with
  | now =>
      obtain ⟨rfl, hs'⟩ := hs
      obtain ⟨rfl, ht'⟩ := ht
      exact hsame hnow hs' ht'
  | take limiter key =>
      cases limiter with
      | perToken =>
          obtain ⟨rfl, rfl⟩ := hs
          obtain ⟨rfl, rfl⟩ := ht
          obtain ⟨hanswer, hafter⟩ := h.perToken.take hown s.now
          rw [← hnow]
          exact ⟨by rw [hanswer], { h with perToken := hafter }⟩
      | perUser =>
          obtain ⟨rfl, rfl⟩ := hs
          obtain ⟨rfl, rfl⟩ := ht
          obtain ⟨hanswer, hafter⟩ := h.perUser.take hown s.now
          rw [← hnow]
          exact ⟨by rw [hanswer], { h with perUser := hafter }⟩
  | firmCacheGet firmId =>
      obtain ⟨rfl, hs'⟩ := hs
      obtain ⟨rfl, ht'⟩ := ht
      obtain rfl : firmId = F := hown
      exact hsame h.firmSettings hs' ht'
  | firmCacheSet firmId entry =>
      obtain rfl : s' = _ := hs
      obtain rfl : t' = _ := ht
      obtain rfl : firmId = F := hown
      refine ⟨rfl, { h with firmSettings := ?_ }⟩
      dsimp only
      rw [JsMap.get_set_self, JsMap.get_set_self]
  | providerCacheGet key =>
      obtain ⟨rfl, hs'⟩ := hs
      obtain ⟨rfl, ht'⟩ := ht
      exact hsame (h.providers key hown) hs' ht'
  | providerCacheSet key entry =>
      obtain rfl : s' = _ := hs
      obtain rfl : t' = _ := ht
      exact ⟨rfl, { h with providers := h.providers.set key entry }⟩
  | cacheGet key =>
      obtain ⟨rfl, hs'⟩ := hs
      obtain ⟨rfl, ht'⟩ := ht
      exact hsame (h.policies key hown) hs' ht'
  | cacheSet key entry =>
      obtain rfl : s' = _ := hs
      obtain rfl : t' = _ := ht
      exact ⟨rfl, { h with policies := h.policies.set key entry }⟩
  | findBudget scope ref period =>
      obtain ⟨hr, hs'⟩ := hs
      obtain ⟨hr', ht'⟩ := ht
      refine hsame ?_ hs' ht'
      have hrow : s.budgetRow scope ref period = t.budgetRow scope ref period := by
        unfold budgetRow
        rw [h.budgets scope ref period hown]
      exact agree_of_shared hr (hrow ▸ hr') hshared
  | sumLedger firmId taskClassId since =>
      obtain ⟨hr, hs'⟩ := hs
      obtain ⟨hr', ht'⟩ := ht
      obtain rfl : firmId = F := hown
      refine hsame ?_ hs' ht'
      exact agree_of_shared hr (h.sumLedger taskClassId since ▸ hr') hshared
  | breakerAllow providerId =>
      obtain ⟨rfl, rfl⟩ := hs
      obtain ⟨rfl, rfl⟩ := ht
      obtain ⟨hanswer, hafter⟩ := h.breaker.allow hown s.now
      rw [← hnow]
      exact ⟨hanswer, { h with breaker := hafter }⟩
  | breakerRecord providerId ok =>
      obtain rfl : s' = _ := hs
      obtain rfl : t' = _ := ht
      rw [← hnow]
      exact ⟨rfl, { h with breaker := h.breaker.record hown ok s.now }⟩
  | responseGet key =>
      obtain ⟨rfl, rfl⟩ := hs
      obtain ⟨rfl, rfl⟩ := ht
      obtain ⟨hanswer, hafter⟩ := h.responses.get hown s.now
      rw [← hnow]
      exact ⟨hanswer, { h with responses := hafter }⟩
  | responseSet key response ttlSeconds =>
      obtain ⟨hroom, rfl⟩ := hs
      obtain ⟨hroom', rfl⟩ := ht
      rw [← hnow]
      exact ⟨rfl, { h with responses := h.responses.set hroom hroom' key response ttlSeconds s.now }⟩
  | pricingCacheGet modelId => exact hsame hshared hs.2 ht.2
  | pricingCacheSet modelId entry =>
      obtain rfl : s' = _ := hs
      obtain rfl : t' = _ := ht
      exact ⟨rfl, { h with }⟩
  | insertUsage values =>
      obtain rfl : r = r' := hshared
      refine ⟨rfl, ?_⟩
      rcases r with err | _ | _
      · exact (hsame rfl hs ht).2
      · exact (hsame rfl hs ht).2
      · obtain rfl : s' = _ := hs
        obtain rfl : t' = _ := ht
        refine { h with ledger := ?_ }
        dsimp only
        rw [List.filter_cons, List.filter_cons, h.ledger, hnow]
  | incrementBudget scope ref period amount =>
      obtain rfl : r = r' := hshared
      refine ⟨rfl, ?_⟩
      cases r with
      | error err => exact (hsame rfl hs ht).2
      | ok _ =>
          obtain rfl : s' = _ := hs
          obtain rfl : t' = _ := ht
          refine { h with budgets := fun scope' ref' period' href' => ?_ }
          unfold Meter.increment
          dsimp only
          rw [h.budgets scope' ref' period' href']
  | _ => exact hsame hshared hs ht

theorem Alike.happen (h : s.Alike home F t) (ev : Event) :
    (happen ev s).Alike home F (happen ev t) := by
  have hnow : s.now = t.now := h.clock
  cases ev with
  | tick clock =>
      refine { h with clock := ?_ }
      show max s.now clock = max t.now clock
      rw [hnow]
  | prune =>
      unfold GatewayStores.happen
      rw [hnow]
      exact { h with perToken := h.perToken.prune _ _, perUser := h.perUser.prune _ _ }
  | invalidate firmId =>
      refine { h with firmSettings := rfl, providers := fun _ _ => rfl, policies := ?_ }
      cases firmId with
      | none => exact fun _ _ => rfl
      | some firmId => exact h.policies.filterKeys fun _ _ => rfl

theorem Serves.providers (hserves : s.Serves e r s') (he : ∀ key entry, e ≠ .providerCacheSet key entry) :
    s'.providers = s.providers := by
  have hsame : s' = s → s'.providers = s.providers := by
    rintro rfl
    rfl
  cases e with
  | providerCacheSet key entry => exact absurd rfl (he key entry)
  | take limiter key =>
      cases limiter with
      | perToken => rw [hserves.2]
      | perUser => rw [hserves.2]
  | firmCacheSet firmId entry =>
      obtain rfl : s' = _ := hserves
      rfl
  | cacheSet key entry =>
      obtain rfl : s' = _ := hserves
      rfl
  | breakerRecord providerId ok =>
      obtain rfl : s' = _ := hserves
      rfl
  | breakerAllow providerId => rw [hserves.2]
  | responseGet key => rw [hserves.2]
  | responseSet key response ttlSeconds => rw [hserves.2]
  | pricingCacheGet modelId => exact hsame hserves.2
  | pricingCacheSet modelId entry =>
      obtain rfl : s' = _ := hserves
      rfl
  | insertUsage values =>
      rcases r with err | _ | _
      · exact hsame hserves
      · exact hsame hserves
      · obtain rfl : s' = _ := hserves
        rfl
  | incrementBudget scope ref period amount =>
      cases r with
      | error err => exact hsame hserves
      | ok _ =>
          obtain rfl : s' = _ := hserves
          rfl
  | now => exact hsame hserves.2
  | firmCacheGet firmId => exact hsame hserves.2
  | providerCacheGet key => exact hsame hserves.2
  | cacheGet key => exact hsame hserves.2
  | findBudget scope ref period => exact hsame hserves.2
  | sumLedger firmId taskClassId since => exact hsame hserves.2
  | _ => exact hsame hserves

/-- Cached rows are of the firms they are cached for. -/
def Homed (home : Homes) (s : GatewayStores) : Prop :=
  ∀ firmId kind entry row, s.providers.get (PolicyEngine.providerKey firmId kind) = some entry →
    entry.value = some row → home.ofProvider row.id = firmId

theorem Homed.serves (h : s.Homed home) (he : ∀ key entry, e ≠ .providerCacheSet key entry)
    (hserves : s.Serves e r s') : s'.Homed home := by
  unfold Homed
  rw [hserves.providers he]
  exact h

end GatewayStores

/-! ### The requests of all firms -/

section
variable [Platform] (deps : PipelineDeps) (home : Homes) (owner : ℕ → Uuid)

/-- Any number of requests over the stores, each with an app token of the firm that owns it, if it has
one.  A request remembers its firm and what it was answered. -/
def shop : System ℕ Op Op.Answer (Except Thrown Unit × PipelineCtx) GatewayStores
    (Uuid × Past Op Op.Answer) where
  env := { allows := fun _ e r => home.Rows e r, next := fun q e r => (q.1, ⟨e, r⟩ :: q.2) }
  handler _ s _ e r s' := s.Serves e r s'
  start i _ p q := q = (owner i, []) ∧ ∃ bearerToken requestId startedAt envelope,
    home.Bears (owner i) bearerToken ∧
      p = chatCompletions deps bearerToken (newPipelineCtx requestId startedAt envelope)
  drift s s' := ∃ ev, s' = GatewayStores.happen ev s

theorem newPipelineCtx_of (F : Uuid) (requestId : String) (startedAt : ℕ) (envelope : AIRequest) :
    (newPipelineCtx requestId startedAt envelope).Of home F where
  auth _ h := by cases h
  route _ h := by cases h

/-- Requests keep to what is their firm's. -/
theorem shop_preserves :
    System.Preserves (shop deps home owner) (fun _ e r => home.Cached e r)
      (fun q e => e.Owned home q.1) (fun _ _ => True)
      fun s L => s.Homed home ∧ ∀ i q, L i = some q → q.1 = owner i where
  start_wp := by
    rintro i s p q ⟨rfl, bearerToken, requestId, startedAt, envelope, hbearer, rfl⟩
    have hmeets := chatCompletions_owned deps (L := home.Told) (fun _ _ hr => hr) hbearer
      (newPipelineCtx_of home (owner i) requestId startedAt envelope)
    show (chatCompletions deps bearerToken).wp _ _ (fun _ _ _ => True) _ (owner i, [])
    refine hmeets.wp (J := fun q => q.1 = owner i) (fun _ _ _ hr => hr) rfl ?_
      fun _ _ _ _ _ => trivial
    rintro q e hq he
    rw [← hq] at he
    exact ⟨he, fun _ _ => hq⟩
  spawn := by
    rintro i s p L q ⟨hhomed, hL⟩ - ⟨rfl, -⟩
    refine ⟨hhomed, fun j q' hj => ?_⟩
    rcases System.thread_updated hj with ⟨rfl, rfl⟩ | hj
    · rfl
    · exact hL j q' hj
  rely := by
    rintro i s L q e r s' ⟨hhomed, -⟩ - - hserves
    cases e with
    | providerCacheGet key =>
        rintro entry firmId kind rfl rfl row hrow
        exact hhomed firmId kind entry row hserves.1.symm hrow
    | _ => trivial
  act := by
    rintro i s L q e r s' ⟨hhomed, hL⟩ hi hown - hserves
    change s.Serves e r s' at hserves
    refine ⟨?_, fun j q' hj => ?_⟩
    · cases e with
      | providerCacheSet key entry =>
          obtain rfl : s' = _ := hserves
          obtain ⟨kind, rfl, hrow⟩ := hown
          intro firmId' kind' entry' row hget hrow'
          rw [JsMap.get_set] at hget
          split at hget
          · next heq =>
              obtain ⟨rfl, -⟩ := PolicyEngine.providerKey_inj heq
              cases hget
              exact hrow row hrow'
          · exact hhomed firmId' kind' entry' row hget hrow'
      | _ => exact hhomed.serves (fun _ _ heq => by simp at heq) hserves
    · rcases System.thread_updated hj with ⟨rfl, rfl⟩ | hj
      · exact hL _ q hi
      · exact hL j q' hj
  drift := by
    rintro s s' L ⟨hhomed, hL⟩ ⟨ev, rfl⟩
    refine ⟨?_, hL⟩
    cases ev with
    | tick clock => exact hhomed
    | prune => exact hhomed
    | invalidate firmId =>
        intro firmId kind entry row hget
        cases hget

theorem shop_owns {s₀ : GatewayStores} (hhomed : s₀.Homed home) :
    (shop deps home owner).Owns owner (Op.Owned home) s₀ := by
  intro P hP i e k q hi
  obtain ⟨⟨-, hL⟩, hwp⟩ := System.invariant (shop_preserves deps home owner)
    ⟨hhomed, fun _ _ hnone => by cases hnone⟩ hP
  have hown : e.Owned home q.1 := (hwp i _ q hi).1
  have hq : q.1 = owner i := hL i q (by simp [Pool.locals, hi])
  rwa [hq] at hown

theorem shop_unwinding (F : Uuid) :
    (shop deps home owner).Unwinding owner (Op.Owned home) F Op.Shared GatewayStores.happen
      (GatewayStores.Alike home F) where
  own _ _ _ _ _ _ _ _ _ _ hown hsim hs ht hshared := hsim.own hown hs ht hshared
  left _ _ _ _ _ _ _ hi hown hsim hs := hsim.other hi hown hs
  right _ _ _ _ _ _ _ hi hown hsim ht := (hsim.symm.other hi hown ht).symm
  drift ev _ _ hsim := hsim.happen ev

/-- **Firms do not interfere.**  Two runs have the requests of the firm `F` in common, and what these get
from outside of the stores and from the price cache; the requests of the other firms are any others.  Then
every request of `F` has got the same answers in both runs and has the same left to do, and the part of `F`
of the stores is the same. -/
theorem firms_do_not_interfere {F : Uuid} {s₀ t₀ : GatewayStores} (hs : s₀.Homed home) (ht : t₀.Homed home)
    (hinit : s₀.Alike home F t₀)
    {P P' : Pool ℕ Op Op.Answer (Except Thrown Unit × PipelineCtx) GatewayStores (Uuid × Past Op Op.Answer)}
    (h : (shop deps home owner).Twins owner F Op.Shared GatewayStores.happen s₀ t₀ P P') :
    P.shared.Alike home F P'.shared ∧ ∀ i, owner i = F → P.thread i = P'.thread i :=
  h.same (shop_unwinding deps home owner F) (shop_owns deps home owner hs)
    (shop_owns deps home owner ht) hinit

end

/-! ### Two firms, and one of them alone -/

namespace Sample

def rivalFirmId : Uuid := ⟨"cccccccc-cccc-4ccc-8ccc-cccccccccccc", by decide⟩
def rivalTokenId : Uuid := ⟨"dddddddd-dddd-4ddd-8ddd-dddddddddddd", by decide⟩

def rivalToken : String := "rival-token"
def rivalTokenHash : Digest :=
  ⟨"cafe8a4a813656d62475cf026887934a51373a443bb4ebb51c965b526bbd3bec", by decide⟩

@[reducible] def sharedPlatform : Platform :=
  .ofDigests [(js token, tokenHash), (js rivalToken, rivalTokenHash)]
    ⟨"beef60c982a74a791fe8334cf1f16cd00a4896d16df844231845be6ab5fcdc9a", by decide⟩

/-- Both firms have an app token. -/
def sharedTables : Tables :=
  { tables with
    appTokens := [appToken,
      { appToken with id := rivalTokenId, firmId := rivalFirmId, tokenHash := rivalTokenHash }]
    firms := [firm, { firm with id := rivalFirmId }] }

def homes : Homes where
  ofHash h := if h = rivalTokenHash then rivalFirmId else firmId
  ofToken id := if id = rivalTokenId then rivalFirmId else firmId
  ofProvider _ := firmId

def freshStores : GatewayStores where
  meter := { clock := 0, budgets := fun _ _ _ => 0, ledger := [] }
  perToken := .new 60 15
  perUser := .new 60 15
  firmSettings := .empty
  providers := .empty
  policies := .empty
  breaker := .new {}
  responses := { entries := .empty }
  prices := .empty

/-- Answers from the tables and the stores, whose clock stands still. -/
def shopAnswer (s : GatewayStores) (_ : Uuid × Past Op Op.Answer) : (e : Op) → e.Answer × GatewayStores
  | .now => (s.now, s)
  | .take .perToken key => ((s.perToken.take key s.now).1.map Int.toNat,
      { s with perToken := (s.perToken.take key s.now).2 })
  | .take .perUser key => ((s.perUser.take key s.now).1.map Int.toNat,
      { s with perUser := (s.perUser.take key s.now).2 })
  | .firmCacheGet firmId => (s.firmSettings.get firmId, s)
  | .firmCacheSet firmId entry => ((), { s with firmSettings := s.firmSettings.set firmId entry })
  | .providerCacheGet key => (s.providers.get key, s)
  | .providerCacheSet key entry => ((), { s with providers := s.providers.set key entry })
  | .cacheGet key => (s.policies.get key, s)
  | .cacheSet key entry => ((), { s with policies := s.policies.set key entry })
  | .findBudget scope ref period => (.ok (s.budgetRow scope ref period), s)
  | .sumLedger firmId taskClassId since => (.ok (s.meter.sumLedger firmId taskClassId since), s)
  | .breakerAllow providerId => ((s.breaker.allow providerId s.now).1,
      { s with breaker := (s.breaker.allow providerId s.now).2 })
  | .breakerRecord providerId ok => ((), { s with breaker := s.breaker.record providerId ok s.now })
  | .responseGet key => ((s.responses.get key s.now).1,
      { s with responses := (s.responses.get key s.now).2 })
  | .pricingCacheGet modelId => (s.prices.get modelId, s)
  | .pricingCacheSet modelId entry => ((), { s with prices := s.prices.set modelId entry })
  | .insertUsage values => (.ok true,
      { s with meter := { s.meter with ledger := ⟨values, s.now⟩ :: s.meter.ledger } })
  | .incrementBudget scope ref period amount =>
      (.ok (), { s with meter := s.meter.increment scope ref period amount })
  | e => (sharedTables.answer e, s)

/-- The operations that need no room, and no price. -/
def storesNothing : Op → Bool
  | .responseSet _ _ _ => false
  | .pricingCacheGet _ => false
  | _ => true

/-- Request 0 is of the firm, and the others are of its rival. -/
def rivalry (i : ℕ) : Uuid := if i = 0 then firmId else rivalFirmId

theorem rows_answer (e : Op) : homes.Rows e (sharedTables.answer e) := by
  cases e with
  | findAppToken h =>
      intro row hrow
      have hfind := Except.ok.inj hrow
      have hhash := List.find?_some hfind
      have hmem := List.mem_of_find?_eq_some hfind
      simp only [decide_eq_true_eq] at hhash
      rcases hmem with _ | ⟨_, _ | ⟨_, hnil⟩⟩
      · rw [← hhash.1]
        exact ⟨by decide, by decide⟩
      · rw [← hhash.1]
        exact ⟨by decide, by decide⟩
      · cases hnil
  | findProvider firmId' kind =>
      intro row hrow
      have hfind := Except.ok.inj hrow
      have hfirm := List.find?_some hfind
      have hmem := List.mem_of_find?_eq_some hfind
      simp only [decide_eq_true_eq] at hfirm
      rw [← hfirm.1]
      rcases hmem with _ | ⟨_, _ | ⟨_, hnil⟩⟩
      · rfl
      · rfl
      · cases hnil
  | _ => trivial

theorem shopAnswer_sound [Platform] :
    (shop deps homes rivalry).SoundFor (fun e => storesNothing e = true) shopAnswer := by
  intro i s q e he
  have hrows := rows_answer e
  cases e with
  | responseSet key response ttlSeconds => simp [storesNothing] at he
  | pricingCacheGet modelId => simp [storesNothing] at he
  | take limiter key =>
      cases limiter with
      | perToken => exact ⟨trivial, rfl, rfl⟩
      | perUser => exact ⟨trivial, rfl, rfl⟩
  | now => exact ⟨trivial, rfl, rfl⟩
  | firmCacheGet firmId => exact ⟨trivial, rfl, rfl⟩
  | providerCacheGet key => exact ⟨trivial, rfl, rfl⟩
  | cacheGet key => exact ⟨trivial, rfl, rfl⟩
  | findBudget scope ref period => exact ⟨trivial, .inr rfl, rfl⟩
  | sumLedger firmId taskClassId since => exact ⟨trivial, .inr rfl, rfl⟩
  | breakerAllow providerId => exact ⟨trivial, rfl, rfl⟩
  | responseGet key => exact ⟨trivial, rfl, rfl⟩
  | _ => exact ⟨hrows, rfl⟩

theorem shopAnswer_shared (s t : GatewayStores) (q : Uuid × Past Op Op.Answer) (e : Op)
    (he : storesNothing e = true) : e.Shared (shopAnswer s q e).1 (shopAnswer t q e).1 := by
  cases e with
  | pricingCacheGet modelId => simp [storesNothing] at he
  | take limiter key => trivial
  | findBudget scope ref period => exact fun err => ⟨nofun, nofun⟩
  | sumLedger firmId taskClassId since => exact fun err => ⟨nofun, nofun⟩
  | now => trivial
  | firmCacheGet firmId => trivial
  | providerCacheGet key => trivial
  | cacheGet key => trivial
  | breakerAllow providerId => trivial
  | responseGet key => trivial
  | _ => rfl

/-- The gateway with two requests: the one of the rival has looked its firm up and stored its settings. -/
def crowded (steps : ℕ) :
    Pool ℕ Op Op.Answer (Except Thrown Unit × PipelineCtx) GatewayStores (Uuid × Past Op Op.Answer) :=
  letI := sharedPlatform
  (System.initial freshStores).exec (shop deps homes rivalry).env.next (fun _ => shopAnswer)
    [.spawn 1 (chatCompletions deps (some rivalToken) (newPipelineCtx "r2" 0 (request "rival")))
        (rivalFirmId, []),
      .run 1 6,
      .spawn 0 (chatCompletions deps (some token) (newPipelineCtx "r1" 0 (request "hello")))
        (firmId, []),
      .run 0 steps]

/-- The gateway with the request of the firm only. -/
def alone (steps : ℕ) :
    Pool ℕ Op Op.Answer (Except Thrown Unit × PipelineCtx) GatewayStores (Uuid × Past Op Op.Answer) :=
  letI := sharedPlatform
  (System.initial freshStores).exec (shop deps homes rivalry).env.next (fun _ => shopAnswer)
    [.spawn 0 (chatCompletions deps (some token) (newPipelineCtx "r1" 0 (request "hello")))
        (firmId, []),
      .run 0 steps]

theorem freshStores_alike : freshStores.Alike homes firmId freshStores where
  clock := rfl
  budgets _ _ _ _ := rfl
  ledger := rfl
  perToken := ⟨rfl, rfl, fun _ _ => rfl⟩
  perUser := ⟨rfl, rfl, fun _ _ => rfl⟩
  firmSettings := rfl
  providers _ _ := rfl
  policies _ _ := rfl
  breaker := ⟨rfl, fun _ _ => rfl⟩
  responses _ _ := rfl

theorem freshStores_homed : freshStores.Homed homes := fun _ _ _ _ hget => by cases hget

/-- The first operations of both requests store no response and ask for no price. -/
theorem crowded_stores_nothing :
    letI := sharedPlatform
    (∀ e ∈ (chatCompletions deps (some rivalToken)
        (newPipelineCtx "r2" 0 (request "rival"))).performed (shop deps homes rivalry).env.next
        shopAnswer 6 (rivalFirmId, []) freshStores, storesNothing e = true) ∧
      ∀ e ∈ (chatCompletions deps (some token)
        (newPipelineCtx "r1" 0 (request "hello"))).performed (shop deps homes rivalry).env.next
        shopAnswer 20 (firmId, []) (crowded 0).shared, storesNothing e = true := by
  decide +kernel

theorem crowded_twins :
    letI := sharedPlatform
    (shop deps homes rivalry).Twins rivalry firmId Op.Shared GatewayStores.happen freshStores freshStores
      (crowded 20) (alone 20) := by
  let := sharedPlatform
  have hrival : (shop deps homes rivalry).StepOfOthers rivalry firmId
      (System.initial freshStores) _ := .spawn (i := 1) (by decide) rfl
    ⟨rfl, some rivalToken, "r2", 0, request "rival", by rintro _ ⟨⟩; decide, rfl⟩
  have hstart : (shop deps homes rivalry).Twins rivalry firmId Op.Shared GatewayStores.happen freshStores
      freshStores _ _ := .initial
  have hrun := (hstart.left hrival).steps_left shopAnswer_sound
    (by decide : rivalry 1 ≠ firmId) 6 rfl crowded_stores_nothing.1
  have hboth := hrun.spawn (i := 0) rfl rfl rfl
    ⟨rfl, some token, "r1", 0, request "hello", by rintro _ ⟨⟩; decide, rfl⟩
    ⟨rfl, some token, "r1", 0, request "hello", by rintro _ ⟨⟩; decide, rfl⟩
  exact hboth.steps shopAnswer_sound shopAnswer_shared (shop_unwinding deps homes rivalry firmId)
    (shop_owns deps homes rivalry freshStores_homed)
    (shop_owns deps homes rivalry freshStores_homed) freshStores_alike
    (rfl : rivalry 0 = firmId) 20 rfl crowded_stores_nothing.2

end Sample

theorem sample_firms_do_not_interfere :
    (Sample.crowded 20).shared.Alike Sample.homes Sample.firmId (Sample.alone 20).shared ∧
      (Sample.crowded 20).thread 0 = (Sample.alone 20).thread 0 := by
  let := Sample.sharedPlatform
  obtain ⟨halike, hthread⟩ := firms_do_not_interfere Sample.deps Sample.homes Sample.rivalry
    Sample.freshStores_homed Sample.freshStores_homed Sample.freshStores_alike Sample.crowded_twins
  exact ⟨halike, hthread 0 rfl⟩

end VibeRouter
