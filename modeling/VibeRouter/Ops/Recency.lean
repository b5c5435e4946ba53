import VibeRouter.Ops.Cache

/-! # The response cache as a least recently used map

What the cache answers is read off its calls: the last set of a key, unless an eviction followed
it or it has expired.  A set keeps a key at its place in the map, and makes room before it looks
whether the key is there.  So the order of the map is the order of use, and a set drops nothing
but the least recently used key of a full cache, as long as a key that is set again is the newest
one, or the oldest one of a full cache (`lru_of_in_place`). -/

namespace VibeRouter

/-! ### Calls -/

/-- A call of the cache and its time. -/
inductive CacheCall
  | get (key : String) (now : ℕ)
  | set (key : String) (response : AIResponse) (ttlSeconds : ℚ) (now : ℕ)

namespace CacheCall

def key : CacheCall → String
  | get key _ => key
  | set key _ _ _ => key

def now : CacheCall → ℕ
  | get _ now => now
  | set _ _ _ now => now

end CacheCall

/-- A call that was made, and the key it evicted. -/
structure CacheEvent where
  call : CacheCall
  evicted : Option String

namespace ResponseCache

/-- The cache after a call. -/
def after (c : ResponseCache) : CacheCall → ResponseCache
  | .get k now => (c.get k now).2
  | .set k response ttlSeconds now => c.set k response ttlSeconds now

/-- The key that a set loses. -/
def evicts (c : ResponseCache) : CacheCall → Option String
  | .get _ _ => none
  | .set k response ttlSeconds now =>
      c.entries.keys.find? fun k' => k' ∉ (c.set k response ttlSeconds now).entries.keys

/-- The last set of a key, unless the key was evicted after it; the newest call comes first. -/
def standing (k : String) : List CacheEvent → Option (AIResponse × ℚ × ℕ)
  | [] => none
  | ⟨.get _ _, _⟩ :: past => standing k past
  | ⟨.set k' response ttlSeconds now, evicted⟩ :: past =>
      if k' = k then some (response, ttlSeconds, now)
      else if evicted = some k then none
      else standing k past

/-- When a response that was set at `now` expires. -/
def expiry (ttlSeconds : ℚ) (now : ℕ) : ℚ := now + ttlSeconds * 1000

/-- What a get of a key has to answer; a response without a time to live has expired as it is
set. -/
def expected (past : List CacheEvent) (k : String) (now : ℕ) : Option AIResponse :=
  match standing k past with
  | none => none
  | some (response, ttlSeconds, then_) =>
      if 0 < ttlSeconds ∧ now ≤ expiry ttlSeconds then_ then some response else none

/-- The number of calls since the last one for a key.  For a key that is there that is a set, or a
get that found it. -/
def since (past : List CacheEvent) (k : String) : ℕ := past.findIdx fun e => e.call.key = k

/-- A key that is set again gets a time to live, and is the oldest one of a full cache or the newest
one. -/
def InPlace (c : ResponseCache) : CacheCall → Prop
  | .get _ _ => True
  | .set k _ ttlSeconds _ => k ∈ c.entries.keys → 0 < ttlSeconds ∧
      if c.maxEntries ≤ c.entries.size then c.entries.keys.head? = some k
      else c.entries.keys.getLast? = some k

/-- The caches that calls with non-decreasing times reach, each call `ok` where it is made. -/
inductive Run (ok : ResponseCache → CacheCall → Prop) (n : ℕ) :
    ResponseCache → List CacheEvent → Prop
  | start : Run ok n ⟨.empty, n⟩ []
  | call {c : ResponseCache} {past : List CacheEvent} (call : CacheCall) :
      Run ok n c past → (∀ e ∈ past, e.call.now ≤ call.now) → ok c call →
      Run ok n (c.after call) (⟨call, c.evicts call⟩ :: past)

instance decidableInPlace (c : ResponseCache) : DecidablePred (InPlace c)
  | .get _ _ => .isTrue trivial
  | .set k _ ttlSeconds _ => inferInstanceAs (Decidable (k ∈ c.entries.keys → 0 < ttlSeconds ∧
      if c.maxEntries ≤ c.entries.size then c.entries.keys.head? = some k
      else c.entries.keys.getLast? = some k))

/-- The cache is a least recently used map of `n` entries with expiry: its size, what the next get
answers, and what the next call evicts. -/
structure Lru (ok : ResponseCache → CacheCall → Prop) (n : ℕ) (c : ResponseCache)
    (past : List CacheEvent) : Prop where
  size_le : c.entries.size ≤ n
  answers : ∀ k now, (∀ e ∈ past, e.call.now ≤ now) → (c.get k now).1 = expected past k now
  evicts : ∀ call k, ok c call → c.evicts call = some k →
    call.key ∉ c.entries.keys ∧ c.entries.size = n ∧ k ∈ c.entries.keys ∧
      ∀ k' ∈ c.entries.keys, k' ≠ k → since past k' < since past k

/-! ### Entries -/

variable {c : ResponseCache} {past : List CacheEvent} {k : String}

theorem since_self (call : CacheCall) (evicted : Option String) (h : call.key = k) :
    since (⟨call, evicted⟩ :: past) k = 0 := by
  unfold since
  rw [List.findIdx_cons, decide_eq_true h]
  rfl

theorem since_other (call : CacheCall) (evicted : Option String) (h : call.key ≠ k) :
    since (⟨call, evicted⟩ :: past) k = since past k + 1 := by
  unfold since
  rw [List.findIdx_cons, decide_eq_false h]
  rfl

/-- The entries but for those of `k`. -/
def others (c : ResponseCache) (k : String) : List (String × CacheEntry) :=
  c.entries.entries.filter fun e => e.1 ≠ k

theorem mem_keys_iff : k ∈ c.entries.keys ↔ ∃ entry, (k, entry) ∈ c.entries.entries := by
  unfold JsMap.keys
  constructor
  · intro h
    obtain ⟨⟨k', entry⟩, hmem, rfl⟩ := List.mem_map.1 h
    exact ⟨entry, hmem⟩
  · rintro ⟨entry, hmem⟩
    exact List.mem_map.2 ⟨_, hmem, rfl⟩

theorem notMem_keys (hget : c.entries.get k = none) : k ∉ c.entries.keys := by
  intro hin
  obtain ⟨e, he, heq⟩ := List.mem_map.1 hin
  rw [JsMap.get, Option.map_eq_none_iff, List.find?_eq_none] at hget
  exact hget e he (decide_eq_true heq)

theorem others_of_notMem (h : k ∉ c.entries.keys) : c.others k = c.entries.entries := by
  unfold others
  refine List.filter_eq_self.2 fun e he => decide_eq_true ?_
  rintro rfl
  exact h (mem_keys_iff.2 ⟨e.2, he⟩)

/-- Assigning to a key that was deleted puts it at the end. -/
theorem entries_delete_set (m : JsMap String CacheEntry) (k : String) (entry : CacheEntry) :
    ((m.delete k).set k entry).entries = (m.entries.filter fun e => e.1 ≠ k) ++ [(k, entry)] := by
  refine JsMap.assign_of_notMem ?_
  intro hmem
  obtain ⟨e, he, hk⟩ := List.mem_map.1 hmem
  exact absurd hk (of_decide_eq_true (List.mem_filter.1 he).2)

/-- Assigning to the last key keeps the others. -/
theorem assign_getLast {es : List (String × CacheEntry)} (hnodup : (es.map Prod.fst).Nodup)
    (h : (es.map Prod.fst).getLast? = some k) (entry : CacheEntry) :
    JsMap.assign k entry es = (es.filter fun e => e.1 ≠ k) ++ [(k, entry)] := by
  obtain ⟨init, hinit⟩ := List.getLast?_eq_some_iff.1 h
  obtain ⟨es', last, rfl, rfl, hlast⟩ := List.map_eq_append_iff.1 hinit
  obtain ⟨e, rfl, hk⟩ : ∃ e, last = [e] ∧ e.1 = k := by
    obtain ⟨e, rest, rfl, hk, hrest⟩ := List.map_eq_cons_iff.1 hlast
    rw [List.map_eq_nil_iff.1 hrest]
    exact ⟨e, rfl, hk⟩
  have hnot : ∀ e' ∈ es', e'.1 ≠ k := by
    intro e' he' heq
    rw [List.map_append, List.nodup_append] at hnodup
    exact hnodup.2.2 e'.1 (List.mem_map_of_mem he') e.1 (by simp) (heq.trans hk.symm)
  have hassign : JsMap.assign k entry (es' ++ [e]) = es' ++ [(k, entry)] := by
    clear hnodup h hinit
    induction es' with
    | nil => simp [JsMap.assign, hk]
    | cons a es' ih =>
        have ha : a.1 ≠ k := hnot a (List.mem_cons_self ..)
        rw [List.cons_append, JsMap.assign, if_neg ha,
          ih fun e' he' => hnot e' (List.mem_cons_of_mem _ he')]
        rfl
  rw [hassign, List.filter_append, List.filter_eq_self.2 fun e' he' => decide_eq_true (hnot e' he')]
  simp [hk]

/-- What a call does that uses the key `k`. -/
structure Used (c c' : ResponseCache) (k : String) (entry : CacheEntry) (evicted : Option String) :
    Prop where
  maxEntries : c'.maxEntries = c.maxEntries
  entries : ∃ rest, c'.entries.entries = rest ++ [(k, entry)] ∧
    (evicted = none ∧ rest = c.others k ∧
        (k ∈ c.entries.keys ∨ c.entries.size < c.maxEntries ∨ c.entries.entries = []) ∨
      ∃ oldest, evicted = some oldest.1 ∧ c.entries.entries = oldest :: rest ∧
        k ∉ c.entries.keys ∧ c.maxEntries ≤ c.entries.size)

theorem keys_eq (c : ResponseCache) : c.entries.keys = c.entries.entries.map Prod.fst := rfl

/-- A set loses no key that is there after it. -/
theorem evicts_eq_none {response : AIResponse} {ttlSeconds : ℚ} {now : ℕ}
    {c' : ResponseCache} (hset : c.set k response ttlSeconds now = c') {entry : CacheEntry}
    (h : c'.entries.entries = c.others k ++ [(k, entry)]) :
    c.evicts (.set k response ttlSeconds now) = none := by
  unfold evicts
  refine List.find?_eq_none.2 fun k' hk' => ?_
  rw [hset, keys_eq c', h, decide_eq_true_eq, not_not, List.map_append, List.mem_append]
  by_cases hk : k' = k
  · exact Or.inr (by simp [hk])
  · obtain ⟨entry', hmem⟩ := mem_keys_iff.1 hk'
    refine Or.inl (List.mem_map.2 ⟨(k', entry'), List.mem_filter.2 ⟨hmem, ?_⟩, rfl⟩)
    exact decide_eq_true hk

/-- A set in place uses its key. -/
theorem set_used {response : AIResponse} {ttlSeconds : ℚ} {now : ℕ} (httl : 0 < ttlSeconds)
    (h : InPlace c (.set k response ttlSeconds now)) :
    Used c (c.set k response ttlSeconds now) k ⟨response, expiry ttlSeconds now⟩
      (c.evicts (.set k response ttlSeconds now)) := by
  have hset : c.set k response ttlSeconds now =
      { (if c.maxEntries ≤ c.entries.size then c.evict else c) with
        entries := (if c.maxEntries ≤ c.entries.size then c.evict else c).entries.set k
          ⟨response, expiry ttlSeconds now⟩ } := by
    unfold ResponseCache.set
    rw [if_neg (not_le.2 httl)]
    rfl
  by_cases hfull : c.maxEntries ≤ c.entries.size
  · rw [if_pos hfull] at hset
    cases hentries : c.entries.entries with
    | nil =>
        -- only a cache of capacity zero is full and empty
        have hkeys : c.entries.keys = [] := by rw [keys_eq, hentries]; rfl
        have hevict : c.evict = c := by
          unfold evict
          rw [hkeys]
          rfl
        rw [hevict] at hset
        have hothers : c.others k = [] := by unfold others; rw [hentries]; rfl
        have hafter : (c.set k response ttlSeconds now).entries.entries =
            c.others k ++ [(k, ⟨response, expiry ttlSeconds now⟩)] := by
          rw [hset, hothers]
          show JsMap.assign k _ c.entries.entries = _
          rw [hentries]
          rfl
        refine ⟨by rw [hset], c.others k, hafter, Or.inl ⟨evicts_eq_none rfl hafter, rfl, ?_⟩⟩
        exact Or.inr (Or.inr hentries)
    | cons oldest rest =>
        have hkeys : c.entries.keys = oldest.1 :: rest.map Prod.fst := by
          rw [keys_eq, hentries]
          rfl
        have hevict : c.evict = { c with entries := c.entries.delete oldest.1 } := by
          unfold evict
          rw [hkeys]
          rfl
        rw [hevict] at hset
        by_cases hk : k ∈ c.entries.keys
        · have hhead := (h hk).2
          rw [if_pos hfull, hkeys, List.head?_cons, Option.some.injEq] at hhead
          rw [hhead] at hset
          have hafter : (c.set k response ttlSeconds now).entries.entries =
              c.others k ++ [(k, ⟨response, expiry ttlSeconds now⟩)] := by
            rw [hset]
            exact entries_delete_set c.entries k _
          exact ⟨by rw [hset], c.others k, hafter,
            Or.inl ⟨evicts_eq_none rfl hafter, rfl, Or.inl hk⟩⟩
        · have hnodup := c.entries.nodup
          rw [hentries, List.map_cons, List.nodup_cons] at hnodup
          have hdelete : (c.entries.delete oldest.1).entries = rest := by
            show c.entries.entries.filter _ = rest
            rw [hentries, List.filter_cons_of_neg (by simp)]
            refine List.filter_eq_self.2 fun e he => decide_eq_true ?_
            intro heq
            exact hnodup.1 (heq ▸ List.mem_map_of_mem he)
          rw [hkeys, List.mem_cons, not_or] at hk
          have hafter : (c.set k response ttlSeconds now).entries.entries =
              rest ++ [(k, ⟨response, expiry ttlSeconds now⟩)] := by
            rw [hset]
            show JsMap.assign k _ (c.entries.delete oldest.1).entries = _
            rw [hdelete]
            exact JsMap.assign_of_notMem hk.2
          have hlost : c.evicts (.set k response ttlSeconds now) = some oldest.1 := by
            have hgone : oldest.1 ∉ (c.set k response ttlSeconds now).entries.keys := by
              rw [keys_eq, hafter, List.map_append, List.mem_append, not_or]
              exact ⟨hnodup.1, by simpa using Ne.symm hk.1⟩
            show c.entries.keys.find? _ = _
            rw [hkeys]
            exact List.find?_cons_of_pos (decide_eq_true hgone)
          refine ⟨by rw [hset], rest, hafter, Or.inr ⟨oldest, hlost, hentries, ?_, hfull⟩⟩
          rw [hkeys, List.mem_cons, not_or]
          exact hk
  · rw [if_neg hfull] at hset
    have hafter : (c.set k response ttlSeconds now).entries.entries =
        c.others k ++ [(k, ⟨response, expiry ttlSeconds now⟩)] := by
      rw [hset]
      show JsMap.assign k _ c.entries.entries = _
      by_cases hk : k ∈ c.entries.keys
      · have hlast := (h hk).2
        rw [if_neg hfull] at hlast
        exact assign_getLast c.entries.nodup hlast _
      · rw [others_of_notMem hk]
        exact JsMap.assign_of_notMem hk
    refine ⟨by rw [hset], c.others k, hafter, Or.inl ⟨evicts_eq_none rfl hafter, rfl, ?_⟩⟩
    exact Or.inr (Or.inl (by omega))

/-- A get that finds its key uses it. -/
theorem get_used {entry : CacheEntry} {now : ℕ} (hget : c.entries.get k = some entry)
    (hlive : now ≤ entry.expiresAt) : Used c (c.get k now).2 k entry none := by
  have hafter : (c.get k now).2 = { c with entries := (c.entries.delete k).set k entry } := by
    unfold ResponseCache.get
    rw [hget]
    dsimp only
    rw [if_neg (not_lt.2 hlive)]
  refine ⟨by rw [hafter], c.others k, ?_, Or.inl ⟨rfl, rfl, Or.inl ?_⟩⟩
  · rw [hafter]
    exact entries_delete_set c.entries k entry
  · exact mem_keys_iff.2 ⟨entry, JsMap.mem_entries_of_get hget⟩

/-! ### The invariant -/

/-- The order of the entries is the order of use, each entry is the last set of its key, and a key
that is not there has no response that is still to expire. -/
structure Tracks (n : ℕ) (c : ResponseCache) (past : List CacheEvent) : Prop where
  maxEntries : c.maxEntries = n
  size_le : c.entries.entries.length ≤ n
  recent : c.entries.entries.Pairwise fun a b => since past b.1 < since past a.1
  stands : ∀ e ∈ c.entries.entries, ∃ ttlSeconds now,
    standing e.1 past = some (e.2.response, ttlSeconds, now) ∧ 0 < ttlSeconds ∧
      e.2.expiresAt = expiry ttlSeconds now
  gone : ∀ k, k ∉ c.entries.keys → ∀ response ttlSeconds now,
    standing k past = some (response, ttlSeconds, now) → 0 < ttlSeconds →
      ∃ e ∈ past, expiry ttlSeconds now < e.call.now

theorem mem_others {e : String × CacheEntry} : e ∈ c.others k ↔ e ∈ c.entries.entries ∧ e.1 ≠ k := by
  unfold others
  rw [List.mem_filter, decide_eq_true_eq]

theorem length_others_le (c : ResponseCache) (k : String) :
    (c.others k).length ≤ c.entries.entries.length := List.length_filter_le ..

theorem length_others_lt (h : k ∈ c.entries.keys) :
    (c.others k).length < c.entries.entries.length := by
  obtain ⟨entry, hmem⟩ := mem_keys_iff.1 h
  unfold others
  refine lt_of_le_of_ne (List.length_filter_le ..) fun heq => ?_
  have hall := List.length_filter_eq_length_iff.1 heq (k, entry) hmem
  exact absurd rfl (of_decide_eq_true hall)

/-- A call for `k` is one more for the other keys. -/
theorem recent_cons {call : CacheCall} {evicted : Option String} (hk : call.key = k)
    {es : List (String × CacheEntry)} (h : es.Pairwise fun a b => since past b.1 < since past a.1)
    (hne : ∀ e ∈ es, e.1 ≠ k) :
    es.Pairwise fun a b => since (⟨call, evicted⟩ :: past) b.1 < since (⟨call, evicted⟩ :: past) a.1 := by
  refine h.imp_of_mem fun {a b} ha hb hlt => ?_
  rw [since_other call evicted (hk ▸ Ne.symm (hne b hb)),
    since_other call evicted (hk ▸ Ne.symm (hne a ha))]
  omega

variable {n : ℕ}

/-- A call that uses its key. -/
theorem Tracks.use (h : Tracks n c past) (hn : 1 ≤ n) {c' : ResponseCache} {call : CacheCall}
    {entry : CacheEntry} {evicted : Option String} (hk : call.key = k)
    (hused : Used c c' k entry evicted)
    (hstands : ∃ ttlSeconds now,
      standing k (⟨call, evicted⟩ :: past) = some (entry.response, ttlSeconds, now) ∧
        0 < ttlSeconds ∧ entry.expiresAt = expiry ttlSeconds now)
    (hothers : ∀ k', k' ≠ k → standing k' (⟨call, evicted⟩ :: past) =
      if evicted = some k' then none else standing k' past) :
    Tracks n c' (⟨call, evicted⟩ :: past) := by
  obtain ⟨hmax, rest, hentries, hcases⟩ := hused
  -- the entries that stay are entries of other keys, and none of them was evicted
  have hrest : rest.Sublist c.entries.entries ∧ (∀ e ∈ rest, e.1 ≠ k ∧ evicted ≠ some e.1) ∧
      rest.length + 1 ≤ n := by
    rcases hcases with ⟨rfl, rfl, hroom⟩ | ⟨oldest, rfl, hold, hnot, -⟩
    · refine ⟨List.filter_sublist, fun e he => ⟨(mem_others.1 he).2, Option.some_ne_none _ ∘ Eq.symm⟩, ?_⟩
      have hle := h.size_le
      rcases hroom with hin | hlt | hnil
      · have hlt := length_others_lt hin
        omega
      · have hlt' : c.entries.entries.length < n := h.maxEntries ▸ hlt
        have hothers_le := length_others_le c k
        omega
      · have hothers_le := length_others_le c k
        rw [hnil, List.length_nil] at hothers_le
        omega
    · have hnodup := c.entries.nodup
      rw [hold, List.map_cons, List.nodup_cons] at hnodup
      have hle := h.size_le
      rw [hold, List.length_cons] at hle
      refine ⟨hold ▸ List.sublist_cons_self .., fun e he => ⟨?_, ?_⟩, hle⟩
      · rintro rfl
        exact hnot (mem_keys_iff.2 ⟨e.2, by rw [hold]; exact List.mem_cons_of_mem _ he⟩)
      · intro heq
        rw [Option.some.injEq] at heq
        exact hnodup.1 (heq ▸ List.mem_map_of_mem he)
  constructor
  · rw [hmax, h.maxEntries]
  · rw [hentries, List.length_append, List.length_singleton]
    exact hrest.2.2
  · rw [hentries, List.pairwise_append]
    refine ⟨recent_cons hk (h.recent.sublist hrest.1) fun e he => (hrest.2.1 e he).1,
      List.pairwise_singleton _ _, fun a ha b hb => ?_⟩
    rw [List.mem_singleton] at hb
    rw [hb, since_self call evicted hk,
      since_other call evicted (hk ▸ Ne.symm (hrest.2.1 a ha).1)]
    exact Nat.succ_pos _
  · intro e he
    rw [hentries, List.mem_append, List.mem_singleton] at he
    rcases he with he | rfl
    · rw [hothers e.1 (hrest.2.1 e he).1, if_neg (hrest.2.1 e he).2]
      exact h.stands e (hrest.1.mem he)
    · exact hstands
  · intro k' hk' response ttlSeconds now hstanding httl
    have hne : k' ≠ k := by
      rintro rfl
      exact hk' (mem_keys_iff.2 ⟨entry, by rw [hentries]; simp⟩)
    rw [hothers k' hne] at hstanding
    by_cases hev : evicted = some k'
    · rw [if_pos hev] at hstanding
      cases hstanding
    · rw [if_neg hev] at hstanding
      have hnotin : k' ∉ c.entries.keys := by
        intro hin
        obtain ⟨entry', hmem⟩ := mem_keys_iff.1 hin
        refine hk' (mem_keys_iff.2 ⟨entry', ?_⟩)
        rw [hentries, List.mem_append]
        rcases hcases with ⟨-, rfl, -⟩ | ⟨oldest, rfl, hold, -⟩
        · exact Or.inl (mem_others.2 ⟨hmem, hne⟩)
        · rw [hold, List.mem_cons] at hmem
          rcases hmem with rfl | hmem
          · exact absurd rfl hev
          · exact Or.inl hmem
      obtain ⟨e, he, hlt⟩ := h.gone k' hnotin response ttlSeconds now hstanding httl
      exact ⟨e, List.mem_cons_of_mem _ he, hlt⟩

/-- A call after which its key is not there. -/
theorem Tracks.miss (h : Tracks n c past) {c' : ResponseCache} {call : CacheCall}
    (hk : call.key = k) (hmax : c'.maxEntries = c.maxEntries)
    (hentries : c'.entries.entries = c.others k)
    (hgone : ∀ response ttlSeconds now,
      standing k (⟨call, none⟩ :: past) = some (response, ttlSeconds, now) → 0 < ttlSeconds →
        ∃ e ∈ (⟨call, none⟩ : CacheEvent) :: past, expiry ttlSeconds now < e.call.now)
    (hothers : ∀ k', k' ≠ k → standing k' (⟨call, none⟩ :: past) = standing k' past) :
    Tracks n c' (⟨call, none⟩ :: past) := by
  constructor
  · rw [hmax, h.maxEntries]
  · rw [hentries]
    exact (length_others_le c k).trans h.size_le
  · rw [hentries]
    exact recent_cons hk (h.recent.sublist List.filter_sublist) fun e he => (mem_others.1 he).2
  · intro e he
    rw [hentries, mem_others] at he
    rw [hothers e.1 he.2]
    exact h.stands e he.1
  · intro k' hk' response ttlSeconds now hstanding httl
    by_cases hkk : k' = k
    · subst hkk
      exact hgone response ttlSeconds now hstanding httl
    · rw [hothers k' hkk] at hstanding
      have hnotin : k' ∉ c.entries.keys := by
        intro hin
        obtain ⟨entry', hmem⟩ := mem_keys_iff.1 hin
        exact hk' (mem_keys_iff.2 ⟨entry', by rw [hentries]; exact mem_others.2 ⟨hmem, hkk⟩⟩)
      obtain ⟨e, he, hlt⟩ := h.gone k' hnotin response ttlSeconds now hstanding httl
      exact ⟨e, List.mem_cons_of_mem _ he, hlt⟩

/-- **One call keeps the invariant.** -/
theorem Tracks.call (h : Tracks n c past) (hn : 1 ≤ n) (call : CacheCall)
    (htimes : ∀ e ∈ past, e.call.now ≤ call.now) (hcall : InPlace c call) :
    Tracks n (c.after call) (⟨call, c.evicts call⟩ :: past) := by
  cases call with
  | get k now =>
      show Tracks n (c.get k now).2 (⟨.get k now, none⟩ :: past)
      have hsame : ∀ k', standing k' (⟨.get k now, none⟩ :: past) = standing k' past := fun _ => rfl
      cases hget : c.entries.get k with
      | none =>
          have hafter : (c.get k now).2 = c := by
            unfold ResponseCache.get
            rw [hget]
          have hnot := notMem_keys hget
          rw [hafter]
          refine h.miss rfl rfl (others_of_notMem hnot).symm ?_ fun k' _ => hsame k'
          intro response ttlSeconds then_ hstanding httl
          rw [hsame] at hstanding
          obtain ⟨e, he, hlt⟩ := h.gone k hnot response ttlSeconds then_ hstanding httl
          exact ⟨e, List.mem_cons_of_mem _ he, hlt⟩
      | some entry =>
          obtain ⟨ttlSeconds, then_, hstanding, httl, hexpires⟩ :=
            h.stands (k, entry) (JsMap.mem_entries_of_get hget)
          by_cases hlive : now ≤ entry.expiresAt
          · refine h.use hn rfl (get_used hget hlive) ⟨ttlSeconds, then_, hstanding, httl, hexpires⟩ ?_
            intro k' _
            rw [if_neg (Option.some_ne_none _ ∘ Eq.symm)]
            exact hsame k'
          · have hafter : (c.get k now).2 = { c with entries := c.entries.delete k } := by
              unfold ResponseCache.get
              rw [hget]
              dsimp only
              rw [if_pos (not_le.1 hlive)]
            rw [hafter]
            refine h.miss rfl rfl rfl ?_ fun k' _ => hsame k'
            intro response ttlSeconds' then' hstanding' _
            have hlast := hstanding.symm.trans hstanding'
            cases hlast
            refine ⟨_, List.mem_cons_self .., ?_⟩
            show expiry ttlSeconds then_ < now
            rw [← hexpires]
            exact not_le.1 hlive
  | set k response ttlSeconds now =>
      have hself : ∀ evicted, standing k (⟨.set k response ttlSeconds now, evicted⟩ :: past) =
          some (response, ttlSeconds, now) := fun _ => if_pos rfl
      have hother : ∀ evicted k', k' ≠ k →
          standing k' (⟨.set k response ttlSeconds now, evicted⟩ :: past) =
            if evicted = some k' then none else standing k' past := by
        intro evicted k' hne
        exact if_neg (Ne.symm hne)
      by_cases httl : 0 < ttlSeconds
      · exact h.use hn rfl (set_used httl hcall) ⟨ttlSeconds, now, hself _, httl, rfl⟩ (hother _)
      · -- a response without a time to live is not stored
        have hnot : k ∉ c.entries.keys := fun hin => httl (hcall hin).1
        have hafter : c.after (.set k response ttlSeconds now) = c := by
          show c.set k response ttlSeconds now = c
          unfold ResponseCache.set
          rw [if_pos (not_lt.1 httl)]
        have hevicts : c.evicts (.set k response ttlSeconds now) = none := by
          refine List.find?_eq_none.2 fun k' hk' => ?_
          have hset : c.set k response ttlSeconds now = c := hafter
          rw [hset, decide_eq_true_eq, not_not]
          exact hk'
        rw [hafter, hevicts]
        refine h.miss rfl rfl (others_of_notMem hnot).symm ?_ fun k' hne => ?_
        · intro response' ttlSeconds' then_ hstanding httl'
          cases (hself none).symm.trans hstanding
          exact absurd httl' httl
        · rw [hother none k' hne, if_neg (Option.some_ne_none _ ∘ Eq.symm)]

theorem Run.tracks (h : Run InPlace n c past) (hn : 1 ≤ n) : Tracks n c past := by
  induction h with
  | start => exact ⟨rfl, Nat.zero_le _, List.Pairwise.nil, fun e he => absurd he (List.not_mem_nil),
      fun k _ response ttlSeconds now hstanding => (by cases hstanding)⟩
  | call call _ htimes hcall ih => exact ih.call hn call htimes hcall

/-! ### Main result -/

/-- What a get answers in a state that is tracked. -/
theorem Tracks.answers (h : Tracks n c past) (k : String) (now : ℕ)
    (hnow : ∀ e ∈ past, e.call.now ≤ now) : (c.get k now).1 = expected past k now := by
  unfold ResponseCache.get expected
  cases hget : c.entries.get k with
  | none =>
      have hnot := notMem_keys hget
      cases hstanding : standing k past with
      | none => rfl
      | some last =>
          obtain ⟨response, ttlSeconds, then_⟩ := last
          by_cases httl : 0 < ttlSeconds
          · obtain ⟨e, he, hlt⟩ := h.gone k hnot response ttlSeconds then_ hstanding httl
            have hle := hnow e he
            have hgone : expiry ttlSeconds then_ < now := hlt.trans_le (Nat.cast_le.2 hle)
            dsimp only
            rw [if_neg fun hlive => not_le.2 hgone hlive.2]
          · dsimp only
            rw [if_neg fun hlive => httl hlive.1]
  | some entry =>
      obtain ⟨ttlSeconds, then_, hstanding, httl, hexpires⟩ :=
        h.stands (k, entry) (JsMap.mem_entries_of_get hget)
      rw [hstanding]
      dsimp only
      rw [hexpires]
      by_cases hlive : now ≤ expiry ttlSeconds then_
      · rw [if_neg (not_lt.2 hlive), if_pos ⟨httl, hlive⟩]
      · rw [if_pos (not_le.1 hlive), if_neg fun hboth => hlive hboth.2]

/-- What a set evicts in a state that is tracked. -/
theorem Tracks.evicts (h : Tracks n c past) {call : CacheCall} (hcall : InPlace c call)
    (hevicts : c.evicts call = some k) :
    call.key ∉ c.entries.keys ∧ c.entries.size = n ∧ k ∈ c.entries.keys ∧
      ∀ k' ∈ c.entries.keys, k' ≠ k → since past k' < since past k := by
  cases call with
  | get k' now => cases hevicts
  | set key response ttlSeconds now =>
      by_cases httl : 0 < ttlSeconds
      · obtain ⟨-, rest, -, hcases⟩ := set_used httl hcall
        rw [hevicts] at hcases
        rcases hcases with ⟨hnone, -⟩ | ⟨oldest, hold, hentries, hnot, hfull⟩
        · cases hnone
        · rw [Option.some.injEq] at hold
          refine ⟨hnot, ?_, ?_, ?_⟩
          · have hle := h.size_le
            rw [h.maxEntries] at hfull
            exact le_antisymm hle hfull
          · rw [hold, keys_eq, hentries]
            exact List.mem_cons_self ..
          · intro k' hk' hne
            have hrecent := h.recent
            rw [hentries, List.pairwise_cons] at hrecent
            rw [keys_eq, hentries, List.map_cons, List.mem_cons] at hk'
            rcases hk' with rfl | hk'
            · exact absurd hold.symm hne
            · obtain ⟨e, he, rfl⟩ := List.mem_map.1 hk'
              rw [hold]
              exact hrecent.1 e he
      · have hset : c.set key response ttlSeconds now = c := by
          unfold ResponseCache.set
          rw [if_pos (not_lt.1 httl)]
        have hfind := List.find?_some hevicts
        rw [hset] at hfind
        exact absurd (List.mem_of_find?_eq_some hevicts) (of_decide_eq_true hfind)

/-- **A least recently used map, as long as keys are set in place.**  In every state that calls with
non-decreasing times reach, the cache holds at most its capacity, a get answers the last set of its
key unless that was evicted or has expired, and a set in place evicts only for a new key in a full
cache, and then the key used least recently. -/
theorem lru_of_in_place (hn : 1 ≤ n) (h : Run InPlace n c past) : Lru InPlace n c past where
  size_le := (h.tracks hn).size_le
  answers := (h.tracks hn).answers
  evicts := fun _ _ hcall hevicts => (h.tracks hn).evicts hcall hevicts

end ResponseCache

/-! ### Samples -/

namespace Sample

def cachedResponse (text : String) : AIResponse where
  message := { content := js text }
  finishReason := .stop
  usage := EMPTY_USAGE
  served := { model := "m", providerId := ⟨"feed", by decide⟩, latencyMs := 1 }

/-- A cache after some calls, and the calls so far. -/
def replay : List CacheCall → ResponseCache × List CacheEvent → ResponseCache × List CacheEvent
  | [], x => x
  | call :: calls, (c, past) => replay calls (c.after call, ⟨call, c.evicts call⟩ :: past)

/-- Calls that are `ok` where they are made, in the order of their times. -/
def Replayable (ok : ResponseCache → CacheCall → Prop) :
    List CacheCall → ResponseCache × List CacheEvent → Prop
  | [], _ => True
  | call :: calls, (c, past) => (∀ e ∈ past, e.call.now ≤ call.now) ∧ ok c call ∧
      Replayable ok calls (c.after call, ⟨call, c.evicts call⟩ :: past)

instance decidableReplayable (ok : ResponseCache → CacheCall → Prop) [∀ c, DecidablePred (ok c)] :
    ∀ calls x, Decidable (Replayable ok calls x)
  | [], _ => .isTrue trivial
  | call :: calls, (c, past) =>
      let := decidableReplayable ok calls (c.after call, ⟨call, c.evicts call⟩ :: past)
      inferInstanceAs (Decidable (_ ∧ _ ∧ _))

theorem replay_run {ok : ResponseCache → CacheCall → Prop} {n : ℕ} {calls : List CacheCall}
    {x : ResponseCache × List CacheEvent} (h : Replayable ok calls x)
    (hx : ResponseCache.Run ok n x.1 x.2) :
    ResponseCache.Run ok n (replay calls x).1 (replay calls x).2 := by
  induction calls generalizing x with
  | nil => exact hx
  | cons call calls ih =>
      obtain ⟨htimes, hok, hrest⟩ := h
      exact ih hrest (.call call hx htimes hok)

def setA : CacheCall := .set "a" (cachedResponse "1") 60 0
def setB : CacheCall := .set "b" (cachedResponse "2") 60 0

/-- A cache of two, and what two calls make of it. -/
def emptyCache : ResponseCache × List CacheEvent := (⟨.empty, 2⟩, [])
def filled : ResponseCache × List CacheEvent := replay [setA, setB] emptyCache

/-- `b` is set again while the cache is full: `a` is dropped. -/
def setAgain : CacheCall := .set "b" (cachedResponse "3") 60 1

/-- **A key that is set again evicts another one.** -/
theorem set_again_evicts :
    ¬∀ n c past, 1 ≤ n → ResponseCache.Run (fun _ _ => True) n c past →
      ResponseCache.Lru (fun _ _ => True) n c past := by
  intro h
  have hrun : ResponseCache.Run (fun _ _ => True) 2 filled.1 filled.2 :=
    replay_run (by decide) .start
  have hevicts : filled.1.evicts setAgain = some "a" := by decide +kernel
  exact (h 2 _ _ (by decide) hrun).evicts setAgain "a" trivial hevicts |>.1 (by decide +kernel)

/-- `a` is read, so that the third key evicts `b`; `a` is then the oldest key of a full cache, and is set
again in its place. -/
def busyCalls : List CacheCall :=
  [setA, setB, .get "a" 10, .set "c" (cachedResponse "3") (1 / 2) 20, .set "a" (cachedResponse "4") 60 30]

def busyCache : ResponseCache × List CacheEvent := replay busyCalls emptyCache

/-- The newest call first. -/
example : busyCache.2.map (fun e => (e.call.key, e.evicted)) =
    [("a", none), ("c", some "b"), ("a", none), ("b", none), ("a", none)] := by
  decide +kernel

theorem busyCache_lru : ResponseCache.Lru ResponseCache.InPlace 2 busyCache.1 busyCache.2 :=
  ResponseCache.lru_of_in_place (by decide)
    (replay_run (by decide +kernel : Replayable ResponseCache.InPlace busyCalls emptyCache) .start)

end Sample

end VibeRouter
