import VibeRouter.Protect.Redaction
import VibeRouter.Lib.RegexSearch

/-! # The spans of a scan

`Spans.collect` is what one pass keeps: the spans found so far lie in the text and are disjoint.
`scanText_spans` says so of a whole scan, and that it is sorted; `redactText_replaced` says what
redaction then makes of the text; and `redactEnvelope_eq` says that redacting an envelope does
this to each of its texts, and nothing else. -/

namespace VibeRouter

open Regex

/-! ### Spans -/

/-- One match ends before the other starts. -/
def ScrubMatch.Apart (a b : ScrubMatch) : Prop := a.stop ≤ b.start ∨ b.stop ≤ a.start

theorem ScrubMatch.Apart.symm {a b : ScrubMatch} (h : a.Apart b) : b.Apart a := Or.symm h

/-- Matches that lie in a text and are disjoint. -/
structure Spans (text : JsString) (ms : List ScrubMatch) : Prop where
  inBounds : ∀ m ∈ ms, m.start < m.stop ∧ m.stop ≤ text.length
  disjoint : ms.Pairwise ScrubMatch.Apart

theorem overlaps_eq_true {ms : List ScrubMatch} {start stop : ℕ} :
    overlaps ms start stop = true ↔ ∃ m ∈ ms, start < m.stop ∧ m.start < stop := by
  unfold overlaps
  rw [List.any_eq_true]
  simp only [Bool.and_eq_true, decide_eq_true_eq]

theorem overlaps_append_left {ms ms' : List ScrubMatch} {start stop : ℕ}
    (h : overlaps ms start stop = true) : overlaps (ms ++ ms') start stop = true := by
  unfold overlaps at h ⊢
  rw [List.any_append, h, Bool.true_or]

/-- The step of `collect` for one candidate. -/
theorem collect_cons (type : MatchType) (valid : Match → Bool) (m : Match) (found : List Match)
    (ms : List ScrubMatch) :
    collect type valid (m :: found) ms = collect type valid found
      (if overlaps ms m.index m.stop then ms
        else if valid m then ms ++ [⟨type, m.index, m.stop⟩] else ms) := rfl

variable {text : JsString} {ms : List ScrubMatch}

theorem Spans.push (h : Spans text ms) {m : ScrubMatch} (hnonempty : m.start < m.stop)
    (hstop : m.stop ≤ text.length) (hfree : overlaps ms m.start m.stop = false) :
    Spans text (ms ++ [m]) := by
  have hapart : ∀ a ∈ ms, a.Apart m := by
    intro a ha
    have hnot : ¬(m.start < a.stop ∧ a.start < m.stop) := by
      intro hboth
      rw [overlaps_eq_true.2 ⟨a, ha, hboth⟩] at hfree
      cases hfree
    unfold ScrubMatch.Apart
    omega
  constructor
  · intro a ha
    rcases List.mem_append.1 ha with ha | ha
    · exact h.inBounds a ha
    · rw [List.mem_singleton.1 ha]
      exact ⟨hnonempty, hstop⟩
  · refine List.pairwise_append.2 ⟨h.disjoint, List.pairwise_singleton _ _, fun a ha b hb => ?_⟩
    rw [List.mem_singleton.1 hb]
    exact hapart a ha

/-- **One pass** keeps the matches in the text and disjoint. -/
theorem Spans.collect (h : Spans text ms) {type : MatchType} {valid : Match → Bool}
    {found : List Match} (hfound : ∀ m ∈ found, m.index < m.stop ∧ m.stop ≤ text.length) :
    Spans text (collect type valid found ms) := by
  induction found generalizing ms with
  | nil => exact h
  | cons m found ih =>
      obtain ⟨hnonempty, hstop⟩ := hfound m List.mem_cons_self
      rw [collect_cons]
      refine ih ?_ fun m' hm' => hfound m' (List.mem_cons_of_mem _ hm')
      split
      · exact h
      case isFalse hfree =>
        split
        · exact h.push hnonempty hstop (Bool.eq_false_iff.2 hfree)
        · exact h

/-- What is found of an expression that matches no empty text. -/
theorem found_inBounds (text : JsString) {r : Regex} (hr : 0 < r.minLen) :
    ∀ m ∈ r.matchAll text, m.index < m.stop ∧ m.stop ≤ text.length := by
  intro m hm
  have hfound := found_of_mem_matchAll hm
  have hlength := hfound.minLen_le
  refine ⟨?_, hfound.stop_le⟩
  unfold Match.stop
  omega

theorem Spans.scanCards (text : JsString) : Spans text (scanCards text) := by
  have hbounds := found_inBounds text (by decide : 0 < CARD.minLen)
  have hpairs := (matchAll_pairwise CARD text).filter validCard
  unfold VibeRouter.scanCards
  constructor
  · intro m hm
    obtain ⟨m', hm', rfl⟩ := List.mem_map.1 hm
    exact hbounds m' (List.mem_filter.1 hm').1
  · exact List.pairwise_map.2 (hpairs.imp Or.inl)

/-- The matches of the five passes, before they are sorted. -/
def found (text : JsString) : List ScrubMatch :=
  scanAccount text (scanEin text (scanSsn text (scanRouting text (scanCards text))))

theorem Spans.found (text : JsString) : Spans text (found text) := by
  have hcards := Spans.scanCards text
  have hnine := found_inBounds text (by decide : 0 < NINE_DIGITS.minLen)
  have hssn := found_inBounds text (by decide : 0 < SSN.minLen)
  have hein := found_inBounds text (by decide : 0 < EIN.minLen)
  have haccount := found_inBounds text (by decide : 0 < ACCOUNT_DIGITS.minLen)
  exact ((((hcards.collect hnine).collect hssn).collect hnine).collect hein).collect haccount

theorem scanText_perm (text : JsString) : (scanText text).Perm (found text) :=
  List.perm_insertionSort _ _

theorem Spans.scanText (text : JsString) : Spans text (scanText text) := by
  have hperm := scanText_perm text
  have h := Spans.found text
  constructor
  · intro m hm
    exact h.inBounds m (hperm.mem_iff.1 hm)
  · exact hperm.symm.pairwise h.disjoint fun h => h.symm

theorem scanText_sorted (text : JsString) :
    (scanText text).Pairwise fun a b => a.start ≤ b.start := by
  have : Std.Total fun a b : ScrubMatch => a.start ≤ b.start := ⟨fun a b => Nat.le_total ..⟩
  have : IsTrans ScrubMatch fun a b => a.start ≤ b.start := ⟨fun a b c => Nat.le_trans⟩
  exact List.pairwise_insertionSort (fun a b : ScrubMatch => a.start ≤ b.start) _

/-- Each match ends before the next starts. -/
theorem scanText_chain (text : JsString) :
    (scanText text).Pairwise fun a b => a.stop ≤ b.start := by
  have hspans := Spans.scanText text
  have hboth := List.pairwise_and_iff.2 ⟨scanText_sorted text, hspans.disjoint⟩
  refine hboth.imp_of_mem fun {a b} ha hb h => ?_
  have hb := (hspans.inBounds b hb).1
  obtain ⟨hle, hapart⟩ := h
  unfold ScrubMatch.Apart at hapart
  omega

/-! ### Redacted texts -/

/-- The text from a place on, with spans replaced: what stands before a span is kept, the span is
replaced by the placeholder of its kind, and the rest is treated likewise. -/
inductive Replaced : ℕ → JsString → List ScrubMatch → JsString → Prop
  | done (place : ℕ) (rest : JsString) : Replaced place rest [] rest
  | next {place : ℕ} {kept span rest out : JsString} {m : ScrubMatch} {ms : List ScrubMatch}
      (start : place + kept.length = m.start) (stop : m.start + span.length = m.stop)
      (more : Replaced m.stop rest ms out) :
      Replaced place (kept ++ (span ++ rest)) (m :: ms) (kept ++ (REDACTION m.type ++ out))

/-- How many placeholders the loop of `redactText` writes. -/
def insertedFrom : ℕ → List ScrubMatch → ℕ
  | _, [] => 0
  | cursor, m :: ms =>
      if m.start < cursor then insertedFrom cursor ms else insertedFrom m.stop ms + 1

/-- Sorted and disjoint matches from a place on. -/
structure Ahead (text : JsString) (place : ℕ) (ms : List ScrubMatch) : Prop where
  start : ∀ m ∈ ms, place ≤ m.start
  inBounds : ∀ m ∈ ms, m.start < m.stop ∧ m.stop ≤ text.length
  chain : ms.Pairwise fun a b => a.stop ≤ b.start

theorem Ahead.tail {place : ℕ} {m : ScrubMatch} (h : Ahead text place (m :: ms)) :
    Ahead text m.stop ms where
  start := (List.pairwise_cons.1 h.chain).1
  inBounds := fun m' hm' => h.inBounds m' (List.mem_cons_of_mem _ hm')
  chain := (List.pairwise_cons.1 h.chain).2

theorem ahead_scanText (text : JsString) : Ahead text 0 (scanText text) where
  start := fun m _ => Nat.zero_le m.start
  inBounds := (Spans.scanText text).inBounds
  chain := scanText_chain text

theorem redactFrom_replaced {place : ℕ} (h : Ahead text place ms) (hplace : place ≤ text.length) :
    Replaced place (text.drop place) ms (redactFrom text place ms) := by
  induction ms generalizing place with
  | nil => exact Replaced.done place _
  | cons m ms ih =>
      have hstart := h.start m List.mem_cons_self
      obtain ⟨hnonempty, hstop⟩ := h.inBounds m List.mem_cons_self
      have hkept : (text.slice place m.start).length = m.start - place := by
        unfold JsString.slice
        rw [List.length_take, List.length_drop]
        omega
      have hspan : (text.slice m.start m.stop).length = m.stop - m.start := by
        unfold JsString.slice
        rw [List.length_take, List.length_drop]
        omega
      have hsplit : ∀ {i j : ℕ}, i ≤ j → text.drop i = text.slice i j ++ text.drop j := by
        intro i j hij
        unfold JsString.slice
        have hj : text.drop j = (text.drop i).drop (j - i) := by
          rw [List.drop_drop]
          congr 1
          omega
        rw [hj, List.take_append_drop]
      rw [redactFrom, if_neg (by omega), hsplit hstart, hsplit hnonempty.le, List.append_assoc]
      exact Replaced.next (by omega) (by omega) (ih h.tail hstop)

/-- **What redaction makes of a text.** -/
theorem redactText_replaced (text : JsString) :
    Replaced 0 text (scanText text) (redactText text (scanText text)) :=
  redactFrom_replaced (ahead_scanText text) (Nat.zero_le _)

theorem insertedFrom_eq {place : ℕ} (h : Ahead text place ms) :
    insertedFrom place ms = ms.length := by
  induction ms generalizing place with
  | nil => rfl
  | cons m ms ih =>
      have hstart := h.start m List.mem_cons_self
      rw [insertedFrom, if_neg (by omega), ih h.tail, List.length_cons]

/-! ### Redacted envelopes -/

/-- A text with its matches replaced. -/
def redacted (text : JsString) : JsString := redactText text (scanText text)

def ContentPart.mapText (f : JsString → JsString) : ContentPart → ContentPart
  | .text t => .text (f t)
  | .image url => .image url

def Content.mapTexts (f : JsString → JsString) : Content → Content
  | .text s => .text (f s)
  | .parts ps => .parts (ps.map (ContentPart.mapText f))

def AIMessage.mapTexts (f : JsString → JsString) (m : AIMessage) : AIMessage :=
  { m with
    content := m.content.mapTexts f
    toolCalls := m.toolCalls.map fun tcs => tcs.map fun tc => { tc with arguments := f tc.arguments } }

/-- Change the texts of the messages and the arguments of the tool calls. -/
def AIRequest.mapTexts (f : JsString → JsString) (env : AIRequest) : AIRequest :=
  { env with messages := env.messages.map (AIMessage.mapTexts f) }

/-- A traversal that changes by `g`, and counts the texts that `texts` lists. -/
def Counts {α : Type} (f : α → StateM ScrubReport α) (g : α → α) (texts : α → List JsString) :
    Prop := ∀ a r, (f a).run r = (g a, (texts a).foldl ScrubReport.countText r)

theorem Counts.mapM {α : Type} {f : α → StateM ScrubReport α} {g : α → α}
    {texts : α → List JsString} (h : Counts f g texts) :
    Counts (fun as : List α => as.mapM f) (List.map g) fun as => as.flatMap texts := by
  intro as
  induction as with
  | nil => exact fun r => rfl
  | cons a as ih =>
      intro r
      have hfirst := h a r
      have hmore := ih ((texts a).foldl ScrubReport.countText r)
      have hrun : ((a :: as).mapM f).run r =
          (fun p : List α × ScrubReport => (((f a).run r).1 :: p.1, p.2))
            ((as.mapM f).run ((f a).run r).2) := by
        rw [List.mapM_cons]
        rfl
      dsimp only at hmore ⊢
      rw [hrun, hfirst, hmore, List.flatMap_cons, List.foldl_append]
      rfl

theorem scrubString_counts : Counts scrubString redacted fun text => [text] := by
  intro text r
  have htext : (if 0 < (scanText text).length then redactText text (scanText text) else text) =
      redacted text := by
    unfold redacted
    split
    · rfl
    case isFalse h =>
      have hnil : scanText text = [] := List.eq_nil_of_length_eq_zero (by omega)
      rw [hnil]
      rfl
  exact congrArg (fun t => (t, r.countText text)) htext

theorem scrubPart_counts :
    Counts scrubPart (ContentPart.mapText redacted) fun p => match p with
      | .text t => [t]
      | .image _ => [] := by
  intro p r
  cases p with
  | text t => exact congrArg (fun p => (ContentPart.text p.1, p.2)) (scrubString_counts t r)
  | image url => rfl

theorem scrubContent_counts : Counts scrubContent (Content.mapTexts redacted) Content.texts := by
  intro c r
  cases c with
  | text s => exact congrArg (fun p => (Content.text p.1, p.2)) (scrubString_counts s r)
  | parts ps =>
      have htexts : ∀ ps : List ContentPart, (Content.parts ps).texts = ps.flatMap fun p => match p with
          | .text t => [t]
          | .image _ => [] := by
        intro ps
        induction ps with
        | nil => rfl
        | cons p ps ih =>
            unfold Content.texts at ih ⊢
            rw [List.flatMap_cons, ← ih]
            cases p with
            | text t => rfl
            | image url => rfl
      rw [htexts]
      exact congrArg (fun p => (Content.parts p.1, p.2)) (scrubPart_counts.mapM ps r)

theorem scrubToolCall_counts :
    Counts scrubToolCall (fun tc => { tc with arguments := redacted tc.arguments })
      fun tc => [tc.arguments] := by
  intro tc r
  exact congrArg (fun p => ({ tc with arguments := p.1 }, p.2)) (scrubString_counts tc.arguments r)

theorem scrubMessage_counts :
    Counts scrubMessage (AIMessage.mapTexts redacted) AIMessage.textFields := by
  intro m r
  obtain ⟨role, content, toolCalls, toolCallId⟩ := m
  have hcontent := scrubContent_counts content r
  cases toolCalls with
  | none =>
      have hfields : (AIMessage.mk role content none toolCallId).textFields = content.texts :=
        List.append_nil _
      rw [hfields]
      exact congrArg (fun p => (AIMessage.mk role p.1 none toolCallId, p.2)) hcontent
  | some tcs =>
      have hcalls := scrubToolCall_counts.mapM tcs (content.texts.foldl ScrubReport.countText r)
      have hmap : tcs.flatMap (fun tc => [tc.arguments]) = tcs.map ToolCall.arguments := by
        rw [← List.map_eq_flatMap]
      have hfields : (AIMessage.mk role content (some tcs) toolCallId).textFields =
          content.texts ++ tcs.map ToolCall.arguments := rfl
      dsimp only at hcalls
      rw [hmap] at hcalls
      rw [hfields, List.foldl_append]
      have hrun : (scrubMessage ⟨role, content, some tcs, toolCallId⟩).run r =
          (fun p : List ToolCall × ScrubReport =>
            (AIMessage.mk role ((scrubContent content).run r).1 (some p.1) toolCallId, p.2))
            ((tcs.mapM scrubToolCall).run ((scrubContent content).run r).2) := rfl
      rw [hrun, hcontent, hcalls]
      rfl

/-- **Redacting an envelope** redacts its texts, and reports what a scan reports. -/
theorem redactEnvelope_eq (env : AIRequest) :
    redactEnvelope env = (env.mapTexts redacted, scanEnvelope env) := by
  have h := scrubMessage_counts.mapM env.messages .empty
  unfold redactEnvelope
  dsimp only at h ⊢
  rw [h]
  rfl

/-- How many placeholders are written into an envelope. -/
def inserted (env : AIRequest) : ℕ :=
  ((textFields env).map fun text => insertedFrom 0 (scanText text)).sum

theorem scanEnvelope_total (env : AIRequest) : (scanEnvelope env).total = inserted env := by
  have htotal : ∀ (texts : List JsString) (r : ScrubReport),
      (texts.foldl ScrubReport.countText r).total =
        r.total + (texts.map fun text => insertedFrom 0 (scanText text)).sum := by
    intro texts
    induction texts with
    | nil => exact fun r => rfl
    | cons text texts ih =>
        intro r
        rw [List.foldl_cons, ih, countText_total, List.map_cons, List.sum_cons,
          insertedFrom_eq (ahead_scanText text), Nat.add_assoc]
  unfold scanEnvelope inserted
  rw [htotal, ScrubReport.empty, Nat.zero_add]

/-- **Scans and redactions.**  The matches of a scan lie in the text, are sorted and disjoint, and
redaction replaces exactly them; in an envelope it changes the texts alone, writes as many placeholders
as it reports, and reports what a scan does. -/
theorem redaction_spans :
    (∀ text, (∀ m ∈ scanText text, m.start < m.stop ∧ m.stop ≤ text.length) ∧
      ((scanText text).Pairwise fun a b => a.start ≤ b.start) ∧
      (scanText text).Pairwise ScrubMatch.Apart ∧
      Replaced 0 text (scanText text) (redactText text (scanText text))) ∧
    ∀ env, (redactEnvelope env).1 = env.mapTexts redacted ∧
      (redactEnvelope env).2 = scanEnvelope env ∧ (redactEnvelope env).2.total = inserted env := by
  constructor
  · intro text
    have hspans := Spans.scanText text
    exact ⟨hspans.inBounds, scanText_sorted text, hspans.disjoint, redactText_replaced text⟩
  · intro env
    rw [redactEnvelope_eq]
    exact ⟨rfl, rfl, scanEnvelope_total env⟩

end VibeRouter
