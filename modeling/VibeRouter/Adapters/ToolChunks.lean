import VibeRouter.Adapters.ToolCalls

/-! # Tool chunks of any provider

The fragments of a provider are followed from the openings of its calls alone: which indices have
been given to which calls, and which call was named last.  The chunks of tool calls are well formed
exactly when every fragment that brings arguments finds its index opened by its own call
(`tool_chunks_formed_iff`). -/

namespace VibeRouter

namespace OpenaiCompat

/-- The calls of a provider: one for each explicit index, and one for each name without an index. -/
inductive Origin
  | explicit (index : ℚ)
  | implicit (n : ℕ)
deriving DecidableEq

/-- The calls that the fragments so far have opened. -/
structure Openings where
  opened : List (ℚ × Origin) := []
  current : ℚ := 0
  implicit : ℕ := 0
  last : Option Origin := none

namespace Openings

/-- The indices that have been given to calls. -/
def indices (h : Openings) : List ℚ := h.opened.map Prod.fst

/-- The index of a fragment; a name without an index takes the next number. -/
def slot (h : Openings) (tc : RawToolCall) : ℚ :=
  match tc.index with
  | some i => i
  | none => if tc.name.isSome then h.opened.length else h.current

/-- The call of a fragment that has an index or a name. -/
def caller (h : Openings) (tc : RawToolCall) : Origin :=
  match tc.index with
  | some i => .explicit i
  | none => .implicit h.implicit

/-- The call of a fragment; arguments alone belong to the call named last. -/
def origin (h : Openings) (tc : RawToolCall) : Option Origin :=
  if tc.index.isNone ∧ tc.name.isNone then h.last else some (h.caller tc)

def opens (h : Openings) (tc : RawToolCall) : Bool := tc.name.isSome && h.slot tc ∉ h.indices

def next (h : Openings) (tc : RawToolCall) : Openings where
  opened := if h.opens tc then h.opened ++ [(h.slot tc, h.caller tc)] else h.opened
  current := if tc.index.isSome then h.current else h.slot tc
  implicit := if tc.index.isNone ∧ tc.name.isSome then h.implicit + 1 else h.implicit
  last := if tc.name.isSome then some (h.caller tc) else h.last

/-- A fragment that brings arguments finds its index opened by its own call. -/
def Fits (h : Openings) (tc : RawToolCall) : Prop :=
  tc.delta ≠ [] → match tc.index, tc.name with
    | some i, some _ => ∀ n, (i, .implicit n) ∉ h.opened
    | some i, none => (i, .explicit i) ∈ h.opened
    | none, some _ => (h.opened.length : ℚ) ∉ h.indices
    | none, none => ∃ o, h.last = some o ∧ (h.current, o) ∈ h.opened

/-- Every fragment fits the openings before it. -/
def AllFit : Openings → List RawToolCall → Prop
  | _, [] => True
  | h, tc :: tcs => h.Fits tc ∧ AllFit (h.next tc) tcs

end Openings

/-! ### Chunks with their calls -/

/-- The chunks of fragments, each with the call its fragment is from. -/
def tagged [Platform] :
    Openings → OpenAiStreamState → List RawToolCall → List (Option Origin × StreamChunk)
  | _, _, [] => []
  | h, st, tc :: tcs =>
      ((st.toolCall tc).1.map fun c => (h.origin tc, c)) ++
        tagged (h.next tc) (st.toolCall tc).2 tcs

/-- Every delta comes after the start of its index. -/
def Ordered (es : List (Option Origin × StreamChunk)) : Prop :=
  ∀ before o i delta after, es = before ++ (o, .tool_call_delta i delta) :: after →
    ∃ e ∈ before, e.2.starts = some i

/-- Well-formed chunks: deltas follow their start, an index is started once, and the chunks at one
index are from one call. -/
structure WellFormed (es : List (Option Origin × StreamChunk)) : Prop where
  ordered : Ordered es
  once : (es.filterMap fun e => e.2.starts).Nodup
  unmerged : ∀ e ∈ es, ∀ e' ∈ es, ∀ i, e.2.callIndex = some i → e'.2.callIndex = some i → e.1 = e'.1

theorem ordered_concat {es : List (Option Origin × StreamChunk)} {e : Option Origin × StreamChunk}
    (h : Ordered es)
    (he : ∀ o i delta, e = (o, .tool_call_delta i delta) → ∃ e' ∈ es, e'.2.starts = some i) :
    Ordered (es ++ [e]) := by
  intro before o i delta after heq
  rcases List.eq_nil_or_concat after with rfl | ⟨after', e', rfl⟩
  · obtain ⟨rfl, hlast⟩ := List.append_inj' heq rfl
    exact he o i delta (List.singleton_inj.1 hlast)
  · rw [List.concat_eq_append, ← List.cons_append, ← List.append_assoc] at heq
    obtain ⟨hes, -⟩ := List.append_inj' heq rfl
    exact h before o i delta after' hes

/-! ### The openings and the state machine -/

section
variable {h : Openings} {st : OpenAiStreamState} {tc : RawToolCall}

/-- The state machine has the same openings. -/
structure Couples (h : Openings) (st : OpenAiStreamState) : Prop where
  steady : st.Steady
  started : ∀ i, st.started.get i = if i ∈ h.indices then some true else none
  size : st.started.size = h.opened.length
  current : st.nextImplicitIndex = h.current

theorem couples_empty : Couples {} {} where
  steady := OpenAiStreamState.steady_empty
  started := fun _ => rfl
  size := rfl
  current := rfl

theorem Couples.slot (hc : Couples h st) (tc : RawToolCall) : st.slot tc = h.slot tc := by
  unfold OpenAiStreamState.slot Openings.slot
  cases tc.index with
  | some i => rfl
  | none =>
      dsimp only
      rw [hc.size, hc.current]

theorem Couples.opens (hc : Couples h st) (tc : RawToolCall) : st.opens tc = h.opens tc := by
  unfold OpenAiStreamState.opens Openings.opens OpenAiStreamState.isStarted
  rw [hc.slot, hc.started]
  by_cases hmem : h.slot tc ∈ h.indices
  · simp [hmem]
  · simp [hmem]

theorem Openings.indices_next (h : Openings) (tc : RawToolCall) :
    (h.next tc).indices = if h.opens tc then h.indices ++ [h.slot tc] else h.indices := by
  unfold indices next
  dsimp only
  split
  · rw [List.map_append]
    rfl
  · rfl

theorem Openings.opens_iff (h : Openings) (tc : RawToolCall) :
    h.opens tc = true ↔ tc.name.isSome = true ∧ h.slot tc ∉ h.indices := by
  unfold opens
  rw [Bool.and_eq_true, decide_eq_true_iff]

/-- What holds of the openings and of the chunks emitted so far, while every fragment fits. -/
structure Emitted (h : Openings) (done : List (Option Origin × StreamChunk)) : Prop where
  nodup : h.indices.Nodup
  explicit : ∀ i j, (i, Origin.explicit j) ∈ h.opened → i = j
  implicit : ∀ i n, (i, Origin.implicit n) ∈ h.opened → n < h.implicit
  starts : (done.filterMap fun e => e.2.starts) = h.indices
  calls : ∀ e ∈ done, ∀ i, e.2.callIndex = some i → ∃ o, e.1 = some o ∧ (i, o) ∈ h.opened
  opener : ∀ i o, (i, o) ∈ h.opened → ∃ e ∈ done, e.2.starts = some i ∧ e.1 = some o
  ordered : Ordered done

theorem emitted_empty : Emitted {} [] where
  nodup := List.nodup_nil
  explicit := fun _ _ h => (by cases h)
  implicit := fun _ _ h => (by cases h)
  starts := rfl
  calls := fun _ h => (by cases h)
  opener := fun _ _ h => (by cases h)
  ordered := fun before _ _ _ _ h => (by cases before <;> cases h)

variable {done : List (Option Origin × StreamChunk)}

theorem callIndex_of_starts {c : StreamChunk} {i : ℚ} (h : c.starts = some i) :
    c.callIndex = some i := by
  cases c with
  | tool_call_start => exact h
  | _ => cases h

/-- An index is given to one call. -/
theorem Emitted.opened_unique (he : Emitted h done) {i : ℚ} {o o' : Origin}
    (ho : (i, o) ∈ h.opened) (ho' : (i, o') ∈ h.opened) : o = o' := by
  have heq := List.inj_on_of_nodup_map he.nodup ho ho' rfl
  exact (Prod.mk.inj heq).2

theorem Emitted.wellFormed (he : Emitted h done) : WellFormed done where
  ordered := he.ordered
  once := he.starts ▸ he.nodup
  unmerged := by
    intro e hmem e' hmem' i hi hi'
    obtain ⟨o, heq, ho⟩ := he.calls e hmem i hi
    obtain ⟨o', heq', ho'⟩ := he.calls e' hmem' i hi'
    rw [heq, heq', he.opened_unique ho ho']

/-- The openings only grow. -/
theorem Openings.opened_next {e : ℚ × Origin} (he : e ∈ h.opened) (tc : RawToolCall) :
    e ∈ (h.next tc).opened := by
  unfold next
  dsimp only
  split
  · exact List.mem_append_left _ he
  · exact he

theorem Openings.implicit_next (h : Openings) (tc : RawToolCall) :
    h.implicit ≤ (h.next tc).implicit := by
  unfold next
  dsimp only
  split
  · exact Nat.le_succ _
  · exact le_refl _

/-- The start of a call keeps everything in order, whatever the fragment is. -/
theorem Emitted.start (he : Emitted h done) (tc : RawToolCall) (id name : JsString) :
    Emitted (h.next tc) (done ++
      if h.opens tc then [(h.origin tc, .tool_call_start (h.slot tc) id name)] else []) := by
  by_cases hopens : h.opens tc = true
  · obtain ⟨hname, hfree⟩ := (h.opens_iff tc).1 hopens
    have horigin : h.origin tc = some (h.caller tc) := by
      unfold Openings.origin
      rw [if_neg]
      intro hnone
      rw [Option.isNone_iff_eq_none.1 hnone.2] at hname
      cases hname
    have hopened : (h.next tc).opened = h.opened ++ [(h.slot tc, h.caller tc)] := if_pos hopens
    have hmem : ∀ e, e ∈ (h.next tc).opened ↔ e ∈ h.opened ∨ e = (h.slot tc, h.caller tc) := by
      intro e
      rw [hopened, List.mem_append, List.mem_singleton]
    have hindices : (h.next tc).indices = h.indices ++ [h.slot tc] := by
      rw [Openings.indices_next, if_pos hopens]
    rw [if_pos hopens, horigin]
    constructor
    · rw [hindices]
      exact List.nodup_append.2 ⟨he.nodup, List.nodup_singleton _, fun a ha b hb heq =>
        hfree (List.mem_singleton.1 hb ▸ heq ▸ ha)⟩
    · intro i j hi
      rcases (hmem _).1 hi with hi | hi
      · exact he.explicit i j hi
      · obtain ⟨rfl, hcaller⟩ := Prod.mk.inj hi
        unfold Openings.caller at hcaller
        unfold Openings.slot
        cases hindex : tc.index with
        | none => rw [hindex] at hcaller; cases hcaller
        | some k =>
            rw [hindex] at hcaller
            exact (Origin.explicit.inj hcaller).symm
    · intro i n hi
      rcases (hmem _).1 hi with hi | hi
      · exact lt_of_lt_of_le (he.implicit i n hi) (h.implicit_next tc)
      · obtain ⟨-, hcaller⟩ := Prod.mk.inj hi
        unfold Openings.caller at hcaller
        cases hindex : tc.index with
        | some k => rw [hindex] at hcaller; cases hcaller
        | none =>
            rw [hindex] at hcaller
            have hnext : (h.next tc).implicit = h.implicit + 1 := by
              unfold Openings.next
              dsimp only
              rw [if_pos ⟨by rw [hindex]; rfl, hname⟩]
            rw [hnext, Origin.implicit.inj hcaller]
            exact Nat.lt_succ_self _
    · rw [List.filterMap_append, he.starts, hindices]
      rfl
    · intro e hmem' i hi
      rcases List.mem_append.1 hmem' with hold | hnew
      · obtain ⟨o, heq, ho⟩ := he.calls e hold i hi
        exact ⟨o, heq, (hmem _).2 (Or.inl ho)⟩
      · rw [List.mem_singleton.1 hnew] at hi ⊢
        refine ⟨h.caller tc, rfl, (hmem _).2 (Or.inr ?_)⟩
        rw [← Option.some.inj hi]
    · intro i o hi
      rcases (hmem _).1 hi with hi | hi
      · obtain ⟨e, hold, hstarts⟩ := he.opener i o hi
        exact ⟨e, List.mem_append_left _ hold, hstarts⟩
      · obtain ⟨rfl, rfl⟩ := Prod.mk.inj hi
        exact ⟨_, List.mem_append_right _ (List.mem_singleton_self _), rfl, rfl⟩
    · refine ordered_concat he.ordered fun o i delta heq => ?_
      cases (Prod.mk.inj heq).2
  · have hopened : (h.next tc).opened = h.opened := if_neg hopens
    have hindices : (h.next tc).indices = h.indices := by
      rw [Openings.indices_next, if_neg hopens]
    rw [if_neg hopens, List.append_nil]
    exact {
      nodup := hindices ▸ he.nodup
      explicit := fun i j hi => he.explicit i j (hopened ▸ hi)
      implicit := fun i n hi =>
        lt_of_lt_of_le (he.implicit i n (hopened ▸ hi)) (h.implicit_next tc)
      starts := hindices ▸ he.starts
      calls := fun e hmem i hi => hopened ▸ he.calls e hmem i hi
      opener := fun i o hi => he.opener i o (hopened ▸ hi)
      ordered := he.ordered }

theorem Openings.next_of_opens (hopens : h.opens tc = true) :
    (h.next tc).opened = h.opened ++ [(h.slot tc, h.caller tc)] := if_pos hopens

theorem Openings.next_of_not_opens (hopens : h.opens tc ≠ true) : (h.next tc).opened = h.opened :=
  if_neg hopens

theorem Openings.mem_indices {i : ℚ} : i ∈ h.indices ↔ ∃ o, (i, o) ∈ h.opened := by
  unfold indices
  rw [List.mem_map]
  constructor
  · intro hmem
    obtain ⟨⟨i', o⟩, hmem, rfl⟩ := hmem
    exact ⟨o, hmem⟩
  · intro hmem
    obtain ⟨o, hmem⟩ := hmem
    exact ⟨(i, o), hmem, rfl⟩

/-- **A fragment fits exactly when its index has been opened by its own call.** -/
theorem Emitted.fits_iff (he : Emitted h done) (tc : RawToolCall) :
    h.Fits tc ↔ (tc.delta ≠ [] →
      ∃ o, h.origin tc = some o ∧ (h.slot tc, o) ∈ (h.next tc).opened) := by
  apply imp_congr_right
  intro _
  obtain ⟨index, id, name, arguments⟩ := tc
  cases index with
  | some i =>
      cases name with
      | some name =>
          have horigin : h.origin ⟨some i, id, some name, arguments⟩ = some (.explicit i) := rfl
          have hslot : h.slot ⟨some i, id, some name, arguments⟩ = i := rfl
          rw [horigin, hslot]
          constructor
          · intro hnot
            refine ⟨_, rfl, ?_⟩
            by_cases hmem : i ∈ h.indices
            · obtain ⟨o, ho⟩ := Openings.mem_indices.1 hmem
              apply Openings.opened_next
              cases o with
              | explicit j =>
                  have hij := he.explicit i j ho
                  rwa [hij] at ho ⊢
              | implicit n => exact absurd ho (hnot n)
            · have hopens : h.opens ⟨some i, id, some name, arguments⟩ = true :=
                (h.opens_iff _).2 ⟨rfl, hmem⟩
              rw [Openings.next_of_opens hopens]
              exact List.mem_append_right _ (List.mem_singleton_self _)
          · intro hown n hn
            obtain ⟨o, ho, hmem⟩ := hown
            have hclosed : h.opens ⟨some i, id, some name, arguments⟩ ≠ true := fun hopens =>
              ((h.opens_iff _).1 hopens).2 (Openings.mem_indices.2 ⟨_, hn⟩)
            rw [Openings.next_of_not_opens hclosed, ← Option.some.inj ho] at hmem
            cases he.opened_unique hmem hn
      | none =>
          constructor
          · intro hmem
            exact ⟨_, rfl, hmem⟩
          · intro hown
            obtain ⟨o, ho, hmem⟩ := hown
            have ho' : (some (.explicit i) : Option Origin) = some o := ho
            rw [← Option.some.inj ho'] at hmem
            exact hmem
  | none =>
      cases name with
      | some name =>
          have horigin : h.origin ⟨none, id, some name, arguments⟩ =
              some (.implicit h.implicit) := rfl
          have hslot : h.slot ⟨none, id, some name, arguments⟩ = h.opened.length := rfl
          rw [horigin, hslot]
          constructor
          · intro hfree
            refine ⟨_, rfl, ?_⟩
            have hopens : h.opens ⟨none, id, some name, arguments⟩ = true :=
              (h.opens_iff _).2 ⟨rfl, hfree⟩
            rw [Openings.next_of_opens hopens]
            exact List.mem_append_right _ (List.mem_singleton_self _)
          · intro hown hused
            obtain ⟨o, ho, hmem⟩ := hown
            have hclosed : h.opens ⟨none, id, some name, arguments⟩ ≠ true := fun hopens =>
              ((h.opens_iff _).1 hopens).2 hused
            rw [Openings.next_of_not_opens hclosed, ← Option.some.inj ho] at hmem
            exact absurd (he.implicit _ _ hmem) (lt_irrefl _)
      | none => exact Iff.rfl

variable [Platform]

theorem Couples.next (hc : Couples h st) (tc : RawToolCall) :
    Couples (h.next tc) (st.toolCall tc).2 := by
  obtain ⟨-, hsteady, hstarted, hnext⟩ := OpenAiStreamState.toolCall_spec hc.steady tc
  rw [hc.opens, hc.slot] at hstarted
  rw [hc.slot, hc.current] at hnext
  refine ⟨hsteady, ?_, ?_, hnext⟩
  · intro i
    rw [hstarted, Openings.indices_next]
    by_cases hopens : h.opens tc = true
    · rw [if_pos hopens, if_pos hopens, JsMap.get_set, hc.started]
      by_cases hi : i = h.slot tc
      · simp [hi]
      · simp [hi]
    · rw [if_neg hopens, if_neg hopens]
      exact hc.started i
  · rw [hstarted]
    unfold Openings.next
    dsimp only
    by_cases hopens : h.opens tc = true
    · have hfree : st.started.get (h.slot tc) = none := by
        rw [hc.started, if_neg ((h.opens_iff tc).1 hopens).2]
      rw [if_pos hopens, if_pos hopens, JsMap.size_set hfree, hc.size, List.length_append]
      rfl
    · rw [if_neg hopens, if_neg hopens]
      exact hc.size

/-- The chunks of a fragment: perhaps a start, then perhaps a delta. -/
theorem Couples.out (hc : Couples h st) (tc : RawToolCall) :
    ∃ id name, ((st.toolCall tc).1.map fun c => (h.origin tc, c)) =
      (if h.opens tc then [(h.origin tc, .tool_call_start (h.slot tc) id name)] else []) ++
        if tc.delta = [] then [] else [(h.origin tc, .tool_call_delta (h.slot tc) tc.delta)] := by
  have hout := (OpenAiStreamState.toolCall_spec hc.steady tc).1
  unfold OpenAiStreamState.startOf OpenAiStreamState.deltaOf at hout
  rw [hc.opens, hc.slot] at hout
  refine ⟨tc.id.getD (OpenAiStreamState.syntheticId (h.slot tc)), tc.name.getD [], ?_⟩
  rw [hout, List.map_append]
  congr 1
  · split <;> rfl
  · split <;> rfl

/-- A fragment that fits keeps the chunks in order. -/
theorem Emitted.step (he : Emitted h done) (hc : Couples h st) (hfits : h.Fits tc) :
    Emitted (h.next tc) (done ++ (st.toolCall tc).1.map fun c => (h.origin tc, c)) := by
  obtain ⟨id, name, hout⟩ := hc.out tc
  have hstart := he.start tc id name
  rw [hout, ← List.append_assoc]
  by_cases hdelta : tc.delta = []
  · rw [if_pos hdelta, List.append_nil]
    exact hstart
  · rw [if_neg hdelta]
    obtain ⟨o, horigin, hown⟩ := (he.fits_iff tc).1 hfits hdelta
    refine { hstart with starts := ?_, calls := ?_, opener := ?_, ordered := ?_ }
    · rw [List.filterMap_append, hstart.starts]
      exact List.append_nil _
    · intro e hmem i hi
      rcases List.mem_append.1 hmem with hold | hnew
      · exact hstart.calls e hold i hi
      · rw [List.mem_singleton.1 hnew] at hi ⊢
        refine ⟨o, horigin, ?_⟩
        rw [← Option.some.inj hi]
        exact hown
    · intro i o' hmem
      obtain ⟨e, hold, hstarts⟩ := hstart.opener i o' hmem
      exact ⟨e, List.mem_append_left _ hold, hstarts⟩
    · refine ordered_concat hstart.ordered fun o' i delta heq => ?_
      obtain ⟨e, hmem, hstarts, -⟩ := hstart.opener _ _ hown
      obtain ⟨-, heq⟩ := Prod.mk.inj heq
      obtain ⟨rfl, -⟩ := StreamChunk.tool_call_delta.inj heq
      exact ⟨e, hmem, hstarts⟩

/-- A fragment that does not fit brings an orphan, or joins the chunks of another call. -/
theorem Emitted.broken (he : Emitted h done) (hc : Couples h st) (hfits : ¬h.Fits tc)
    (rest : List (Option Origin × StreamChunk)) :
    ¬WellFormed (done ++ ((st.toolCall tc).1.map fun c => (h.origin tc, c)) ++ rest) := by
  intro hformed
  obtain ⟨id, name, hout⟩ := hc.out tc
  have hstart := he.start tc id name
  rw [he.fits_iff, Classical.not_imp] at hfits
  obtain ⟨hdelta, hown⟩ := hfits
  rw [hout, ← List.append_assoc, if_neg hdelta, List.append_assoc, List.singleton_append] at hformed
  by_cases hmem : h.slot tc ∈ (h.next tc).indices
  · obtain ⟨o, ho⟩ := Openings.mem_indices.1 hmem
    obtain ⟨e, hbefore, hstarts, heq⟩ := hstart.opener _ _ ho
    have hsame := hformed.unmerged e (List.mem_append_left _ hbefore)
      (h.origin tc, .tool_call_delta (h.slot tc) tc.delta)
      (List.mem_append_right _ (List.mem_cons_self ..)) (h.slot tc)
      (callIndex_of_starts hstarts) rfl
    exact hown ⟨o, hsame.symm.trans heq, ho⟩
  · obtain ⟨e, hbefore, hstarts⟩ := hformed.ordered _ _ _ _ _ rfl
    have hmem' : h.slot tc ∈ (done ++ if h.opens tc then
        [(h.origin tc, StreamChunk.tool_call_start (h.slot tc) id name)] else []).filterMap
          fun e => e.2.starts := List.mem_filterMap.2 ⟨e, hbefore, hstarts⟩
    rw [hstart.starts] at hmem'
    exact hmem hmem'

/-- The chunks of a run are well formed exactly when every fragment fits. -/
theorem Emitted.wellFormed_iff (he : Emitted h done) (hc : Couples h st) (tcs : List RawToolCall) :
    WellFormed (done ++ tagged h st tcs) ↔ h.AllFit tcs := by
  induction tcs generalizing h st done with
  | nil =>
      unfold tagged Openings.AllFit
      rw [List.append_nil]
      exact ⟨fun _ => trivial, fun _ => he.wellFormed⟩
  | cons tc tcs ih =>
      unfold tagged Openings.AllFit
      rw [← List.append_assoc]
      by_cases hfits : h.Fits tc
      · rw [ih (he.step hc hfits) (hc.next tc)]
        exact ⟨fun hrest => ⟨hfits, hrest⟩, fun hall => hall.2⟩
      · exact ⟨fun hformed => absurd hformed (he.broken hc hfits _), fun hall => absurd hall.1 hfits⟩

theorem tagged_map_snd (h : Openings) (st : OpenAiStreamState) (tcs : List RawToolCall) :
    (tagged h st tcs).map Prod.snd = (st.toolCalls tcs).1 := by
  induction tcs generalizing h st with
  | nil => rfl
  | cons tc tcs ih =>
      unfold tagged
      rw [OpenAiStreamState.toolCalls_cons, List.map_append, List.map_map, ih]
      congr 1
      exact List.map_id' _

end

end OpenaiCompat

open OpenaiCompat in
/-- **Exactly when the tool chunks of a stream are well formed.**  The chunks of tool calls of any
frames, each with the call its fragment is from, are well formed exactly when every fragment that
brings arguments finds its index opened by its own call: an explicit index by its name and not by a
call without index, a name without an index by being the next free number, and arguments alone by
the call named last. -/
theorem tool_chunks_formed_iff [Platform] (frames : List Json) :
    (tagged {} {} (fragments frames)).map Prod.snd =
        (chunksOf frames).filter (fun c => c.callIndex.isSome) ∧
      (WellFormed (tagged {} {} (fragments frames)) ↔
        ({} : Openings).AllFit (fragments frames)) := by
  constructor
  · rw [tagged_map_snd]
    exact (OpenAiStreamState.handleAll_calls OpenAiStreamState.steady_empty frames).1.symm
  · exact emitted_empty.wellFormed_iff couples_empty (fragments frames)

/-! ### Samples -/

namespace Sample

open OpenaiCompat

/-- Arguments that come before their name. -/
def lateName : List Json := [callFrame [moreFragment 0 "1"], callFrame [startFragment 0 "f"]]

/-- A name without an index, after a call at index 1. -/
def mixedIndices : List Json :=
  [callFrame [startFragment 1 "f"],
    callFrame [.obj [(js "function", .obj [(js "name", .str (js "g")),
      (js "arguments", .str (js "2"))])]]]

/-- **Orphans and merged calls happen.** -/
theorem tool_chunks_break : letI := platform
    ¬(∀ frames, WellFormed (tagged {} {} (fragments frames))) ∧
      ¬Ordered (tagged {} {} (fragments lateName)) ∧
      (Option.some (Origin.explicit 1), StreamChunk.tool_call_start 1 (js "call_1") (js "f")) ∈
        tagged {} {} (fragments mixedIndices) ∧
      (Option.some (Origin.implicit 0), StreamChunk.tool_call_delta 1 (js "2")) ∈
        tagged {} {} (fragments mixedIndices) := by
  let := platform
  have horphan : ¬Ordered (tagged {} {} (fragments lateName)) := by
    intro hordered
    obtain ⟨e, hmem, -⟩ := hordered [] _ _ _ _ rfl
    cases hmem
  refine ⟨fun hall => horphan (hall lateName).ordered, horphan, ?_, ?_⟩
  · decide
  · decide

end Sample

end VibeRouter
