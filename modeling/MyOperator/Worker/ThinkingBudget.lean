import MyOperator.Worker.LogitsProcs

/-!
# The thinking budget

A thinking section holds the tokens after the last start marker that no end marker
follows. When it holds the budget of tokens, the tokens of the end marker are forced.
The processor inspects the output only when its countdown has run out, and then a window
that reaches back far enough for every marker that was completed since; in between a
section cannot fill up. It does not look across the end of the prompt, and the countdown
it begins with knows nothing of a section that the prompt has opened.
-/

namespace MyOperator.Worker

open Function List Lib

/-! ## Sections -/

/-- The marker stands at place `i` of the text. -/
def StandsAt (marker text : List TokenId) (i : Nat) : Prop := marker <+: text.drop i

instance (marker text : List TokenId) (i : Nat) : Decidable (StandsAt marker text i) :=
  inferInstanceAs (Decidable (marker <+: text.drop i))

/-- The current section begins with the marker at `i`. -/
structure SectionAt (cfg : ReasoningConfig) (text : List TokenId) (i : Nat) : Prop where
  start : StandsAt cfg.startTokenIds text i
  last : ∀ j, StandsAt cfg.startTokenIds text j → j ≤ i
  unclosed : ∀ j, StandsAt cfg.endTokenIds text j → j < i

/-- The current section holds at least the budget of tokens. -/
def ExhaustsBudget (cfg : ReasoningConfig) (text : List TokenId) (budget : Int) : Prop :=
  ∃ i, SectionAt cfg text i ∧ budget ≤ text.length - (i + cfg.startTokenIds.length)

/-- The text before a step. -/
abbrev textAt (prompt output : List TokenId) (n : Nat) : List TokenId := prompt ++ output.take n

open Classical in
/-- Which token of the end marker is to be forced at a step, if any. -/
noncomputable def forcedAt (cfg : ReasoningConfig) (prompt output : List TokenId) (budget : Int) :
    Nat → Option Nat
  | 0 => if ExhaustsBudget cfg (textAt prompt output 0) budget then some 0 else none
  | n + 1 =>
    match (forcedAt cfg prompt output budget n).filter (· + 1 < cfg.endTokenIds.length) with
    | some k => some (k + 1)
    | none => if ExhaustsBudget cfg (textAt prompt output (n + 1)) budget then some 0 else none

/-! ## Runs of the processor -/

namespace ThinkState

/-- The entry after the update before a step; each step adds a token to the output. -/
def after (cfg : ReasoningConfig) (s : ThinkState) (output : List TokenId) : Nat → ThinkState
  | 0 => s.updateThinkState cfg (output.take 0)
  | n + 1 => (after cfg s output n).updateThinkState cfg (output.take (n + 1))

/-- Which token of the end marker `apply` forces. -/
def forced (s : ThinkState) : Option Nat := if s.inEnd then some s.endCount else none

/-- A run: a token that is forced is the one that is sampled. -/
def Samples (cfg : ReasoningConfig) (s : ThinkState) (output : List TokenId) : Prop :=
  ∀ n < output.length, ∀ t, (s.after cfg output n).forced.bind (cfg.endTokenIds[·]?) = some t →
    output[n]? = some t

end ThinkState

/-- The processor forces the end marker at the steps of the run at which it is to be forced. -/
def EnforcesBudget (cfg : ReasoningConfig) (promptTokIds : Option (List TokenId)) (budget : Int)
    (outputTokIds : OutputRef) (output : List TokenId) : Prop :=
  ∀ n ≤ output.length,
    ((ThinkState.initStateEntry cfg promptTokIds budget outputTokIds).after cfg output n).forced =
      forcedAt cfg (promptTokIds.getD []) output budget n

/-- The prompt leaves no section open that holds a token, or that a budget of zero ends; no marker
lies across its end; and the end marker does not bring a start marker with it. -/
structure SectionsInOutput (cfg : ReasoningConfig) (prompt : List TokenId) (budget : Int)
    (output : List TokenId) : Prop where
  opened : ∀ i, SectionAt cfg prompt i → i + cfg.startTokenIds.length = prompt.length ∧ 0 < budget
  start_boundary : ∀ i < prompt.length, StandsAt cfg.startTokenIds (prompt ++ output) i →
    i + cfg.startTokenIds.length ≤ prompt.length
  end_boundary : ∀ i < prompt.length, StandsAt cfg.endTokenIds (prompt ++ output) i →
    i + cfg.endTokenIds.length ≤ prompt.length
  apart : ∀ k, 0 < k → ¬ cfg.startTokenIds <+: cfg.endTokenIds.drop k

/-! ## Markers -/

variable {cfg : ReasoningConfig} {marker text more prompt output : List TokenId} {budget : Int}
  {s : ThinkState} {i j k n p : Nat}

namespace StandsAt

theorem le_length (h : StandsAt marker text i) (hm : marker ≠ []) :
    i + marker.length ≤ text.length := by
  have hlen := h.length_le
  have hpos := length_pos_iff.mpr hm
  rw [length_drop] at hlen
  omega

theorem append (h : StandsAt marker text i) (hi : i ≤ text.length) :
    StandsAt marker (text ++ more) i := by
  unfold StandsAt
  rw [drop_append_of_le_length hi]
  exact h.trans (prefix_append _ _)

theorem of_append (h : StandsAt marker (text ++ more) i) (hi : i + marker.length ≤ text.length) :
    StandsAt marker text i := by
  unfold StandsAt at *
  rw [drop_append_of_le_length (by omega)] at h
  exact prefix_of_prefix_length_le h (prefix_append _ _) (by rw [length_drop]; omega)

theorem drop_iff : StandsAt marker (text.drop i) j ↔ StandsAt marker text (i + j) := by
  unfold StandsAt
  rw [drop_drop]

theorem length_add_iff : StandsAt marker (text ++ more) (text.length + i) ↔
    StandsAt marker more i := by
  unfold StandsAt
  rw [drop_length_add_append]

end StandsAt

theorem findFrom_spec (i : Nat) :
    ThinkState.findFrom text marker i = -1 ∧ (∀ j ≤ i, ¬ StandsAt marker text j) ∨
      ∃ k : Nat, ThinkState.findFrom text marker i = k ∧ StandsAt marker text k ∧
        ∀ j ≤ i, StandsAt marker text j → j ≤ k := by
  have hat : ∀ j, (text.drop j).take marker.length = marker ↔ StandsAt marker text j :=
    fun j => eq_comm.trans prefix_iff_eq_take.symm
  induction i with
  | zero =>
    unfold ThinkState.findFrom
    by_cases h : text.take marker.length = marker
    · rw [if_pos h]
      exact .inr ⟨0, rfl, (hat 0).mp h, fun j hj _ => hj⟩
    · rw [if_neg h]
      refine .inl ⟨rfl, fun j hj hstands => h ?_⟩
      obtain rfl := Nat.le_zero.mp hj
      exact (hat 0).mpr hstands
  | succ i ih =>
    unfold ThinkState.findFrom
    by_cases h : (text.drop (i + 1)).take marker.length = marker
    · rw [if_pos h]
      exact .inr ⟨i + 1, rfl, (hat _).mp h, fun j hj _ => hj⟩
    · rw [if_neg h]
      have hle : ∀ j ≤ i + 1, StandsAt marker text j → j ≤ i := by
        intro j hj hstands
        refine Nat.le_of_lt_succ (lt_of_le_of_ne hj ?_)
        rintro rfl
        exact h ((hat _).mpr hstands)
      rcases ih with ⟨heq, hnone⟩ | ⟨k, heq, hk, hlast⟩
      · exact .inl ⟨heq, fun j hj hstands => hnone j (hle j hj hstands) hstands⟩
      · exact .inr ⟨k, heq, hk, fun j hj hstands => hlast j (hle j hj hstands) hstands⟩

/-- `_find_last_sequence_index` finds the last place of a marker. -/
theorem findLastSequenceIndex_spec (hm : marker ≠ []) :
    ThinkState.findLastSequenceIndex text marker = -1 ∧ (∀ j, ¬ StandsAt marker text j) ∨
      ∃ k : Nat, ThinkState.findLastSequenceIndex text marker = k ∧ StandsAt marker text k ∧
        ∀ j, StandsAt marker text j → j ≤ k := by
  unfold ThinkState.findLastSequenceIndex
  by_cases hlen : text.length < marker.length
  · rw [if_pos (.inr hlen)]
    exact .inl ⟨rfl, fun j h => absurd (h.le_length hm) (by omega)⟩
  · rw [if_neg (not_or.mpr ⟨hm, hlen⟩)]
    have hle : ∀ j, StandsAt marker text j → j ≤ text.length - marker.length := by
      intro j h
      have := h.le_length hm
      omega
    rcases findFrom_spec (text.length - marker.length) with ⟨heq, hnone⟩ | ⟨k, heq, hk, hlast⟩
    · exact .inl ⟨heq, fun j h => hnone j (hle j h) h⟩
    · exact .inr ⟨k, heq, hk, fun j h => hlast j (hle j h) h⟩

/-! ## Inspections -/

/-- What the entry says about the current section of the text. -/
structure Knows (cfg : ReasoningConfig) (inThink : Bool) (thinkCount : Int) (text : List TokenId) :
    Prop where
  inThink : inThink = true ↔ ∃ i, SectionAt cfg text i
  count : ∀ i, SectionAt cfg text i → thinkCount = text.length - (i + cfg.startTokenIds.length)

/-- A section that begins behind all end markers and all other start markers. -/
theorem knows_open (h : SectionAt cfg text i) {count : Int}
    (hcount : count = text.length - (i + cfg.startTokenIds.length)) : Knows cfg true count text where
  inThink := ⟨fun _ => ⟨i, h⟩, fun _ => rfl⟩
  count := fun j hj => by rw [le_antisymm (h.last j hj.start) (hj.last i h.start), hcount]

theorem knows_closed (h : ∀ i, ¬ SectionAt cfg text i) (count : Int) : Knows cfg false count text where
  inThink := ⟨nofun, fun ⟨i, hi⟩ => absurd hi (h i)⟩
  count := fun i hi => absurd hi (h i)

theorem initStateEntry_knows (hstart : cfg.startTokenIds ≠ []) (hend : cfg.endTokenIds ≠ [])
    (promptTokIds : Option (List TokenId)) (outputTokIds : OutputRef) :
    Knows cfg (ThinkState.initStateEntry cfg promptTokIds budget outputTokIds).inThink
      (ThinkState.initStateEntry cfg promptTokIds budget outputTokIds).thinkCount
      (promptTokIds.getD []) := by
  unfold ThinkState.initStateEntry
  dsimp only
  cases promptTokIds with
  | none =>
    refine knows_closed (fun i hi => ?_) _
    have := hi.start.le_length hstart
    have := length_pos_iff.mpr hstart
    rw [Option.getD_none, length_nil] at *
    omega
  | some prompt =>
    rw [Option.elim_some, Option.elim_some]
    rcases @findLastSequenceIndex_spec cfg.startTokenIds prompt hstart with
      ⟨heq, hnone⟩ | ⟨k, heq, hk, hlast⟩
    · rw [heq, decide_eq_false]
      · exact knows_closed (fun i hi => hnone i hi.start) _
      · rcases @findLastSequenceIndex_spec cfg.endTokenIds prompt hend with
          ⟨heq', -⟩ | ⟨k', heq', -⟩ <;> omega
    · rw [heq]
      rcases @findLastSequenceIndex_spec cfg.endTokenIds prompt hend with
        ⟨heq', hnone'⟩ | ⟨k', heq', hk', hlast'⟩
      · rw [heq', decide_eq_true (by omega), if_pos rfl]
        exact knows_open ⟨hk, hlast, fun j hj => absurd hj (hnone' j)⟩ rfl
      · by_cases hlt : k' < k
        · rw [decide_eq_true (by omega), if_pos rfl]
          exact knows_open ⟨hk, hlast, fun j hj => (hlast' j hj).trans_lt hlt⟩ rfl
        · rw [decide_eq_false (by omega)]
          refine knows_closed (fun i hi => ?_) _
          have := hi.unclosed k' hk'
          have := hlast i hi.start
          omega

theorem textAt_append (h : p ≤ n) :
    textAt prompt output n = textAt prompt output p ++ (output.take n).drop p := by
  unfold textAt
  rw [append_assoc]
  congr 1
  rw [← min_eq_left h, ← take_take, min_eq_left h, take_append_drop]

theorem length_textAt (h : n ≤ output.length) :
    (textAt prompt output n).length = prompt.length + n := by
  rw [length_append, length_take, min_eq_left h]

section Run

variable (hstart : cfg.startTokenIds ≠ []) (hend : cfg.endTokenIds ≠ [])
  (hrun : SectionsInOutput cfg prompt budget output)

include hstart hend hrun

/-- A marker that was completed since the last inspection begins in the window. -/
theorem recent_of_new (hm : marker = cfg.startTokenIds ∨ marker = cfg.endTokenIds)
    (hn : n ≤ output.length) (hp : p ≤ n) (h : StandsAt marker (textAt prompt output n) i)
    (hnew : ¬ StandsAt marker (textAt prompt output p) i) :
    prompt.length + (p + 1 - max cfg.startTokenIds.length cfg.endTokenIds.length) ≤ i := by
  have hne : marker ≠ [] := by
    rcases hm with rfl | rfl
    · exact hstart
    · exact hend
  have hmax : marker.length ≤ max cfg.startTokenIds.length cfg.endTokenIds.length := by
    rcases hm with rfl | rfl
    · exact le_max_left _ _
    · exact le_max_right _ _
  -- it is not complete in the old text
  have hlate : prompt.length + p < i + marker.length := by
    by_contra hle
    refine hnew (StandsAt.of_append (textAt_append hp ▸ h) ?_)
    rw [length_textAt (hp.trans hn)]
    omega
  have hlen := h.le_length hne
  have hbehind : prompt.length ≤ i := by
    by_contra hlt
    have hfull : StandsAt marker (prompt ++ output) i := by
      have happ := @StandsAt.append _ _ (output.drop n) _ h (by omega)
      rwa [append_assoc, take_append_drop] at happ
    rcases hm with rfl | rfl
    · have := hrun.start_boundary i (by omega) hfull
      omega
    · have := hrun.end_boundary i (by omega) hfull
      omega
  omega

/-- An inspection finds the current section. -/
theorem located_knows (hn : n ≤ output.length) (hp : s.prevOutputLength < n)
    (h : Knows cfg s.inThink s.thinkCount (textAt prompt output s.prevOutputLength)) :
    let checkStart :=
      s.prevOutputLength + 1 - max cfg.startTokenIds.length cfg.endTokenIds.length
    let recent := (output.take n).drop checkStart
    let found := s.located cfg n checkStart (n - s.prevOutputLength)
      (ThinkState.findLastSequenceIndex recent cfg.startTokenIds)
      (ThinkState.findLastSequenceIndex recent cfg.endTokenIds)
    Knows cfg found.1 found.2 (textAt prompt output n) := by
  intro checkStart recent found
  have hlength := @length_textAt prompt output n hn
  have hlength' := @length_textAt prompt output s.prevOutputLength (by omega)
  have hrecent : ∀ {marker j}, StandsAt marker recent j ↔
      StandsAt marker (textAt prompt output n) (prompt.length + checkStart + j) := by
    intro marker j
    rw [add_assoc, StandsAt.length_add_iff, StandsAt.drop_iff]
  have hin : ∀ {marker i}, StandsAt marker (textAt prompt output n) i →
      prompt.length + checkStart ≤ i →
      StandsAt marker recent (i - (prompt.length + checkStart)) := by
    intro marker i hi hle
    rw [hrecent, Nat.add_sub_cancel' hle]
    exact hi
  have hopen : ∀ k, StandsAt cfg.startTokenIds recent k →
      (∀ j, StandsAt cfg.startTokenIds recent j → j ≤ k) →
      (∀ j, StandsAt cfg.endTokenIds recent j → j < k) →
      Knows cfg true (n - (checkStart + k + cfg.startTokenIds.length)) (textAt prompt output n) := by
    intro k hk hlast hbefore
    refine @knows_open _ _ (prompt.length + checkStart + k) ⟨hrecent.mp hk, ?_, ?_⟩ _ (by omega)
    · intro j hj
      by_cases hle : prompt.length + checkStart ≤ j
      · have := hlast _ (hin hj hle)
        omega
      · omega
    · intro j hj
      by_cases hle : prompt.length + checkStart ≤ j
      · have := hbefore _ (hin hj hle)
        omega
      · omega
  have hclosed : ∀ k, StandsAt cfg.endTokenIds recent k →
      (∀ j, StandsAt cfg.startTokenIds recent j → j ≤ k) →
      Knows cfg false 0 (textAt prompt output n) := by
    intro k hk hlast
    refine knows_closed (fun i hi => ?_) 0
    have := hi.unclosed _ (hrecent.mp hk)
    have := hlast _ (hin hi.start (by omega))
    omega
  show Knows cfg (ThinkState.located ..).1 (ThinkState.located ..).2 _
  unfold ThinkState.located
  dsimp only
  rcases @findLastSequenceIndex_spec cfg.startTokenIds recent hstart with
    ⟨heq, hnone⟩ | ⟨k, heq, hk, hlast⟩
  · rcases @findLastSequenceIndex_spec cfg.endTokenIds recent hend with
      ⟨heq', hnone'⟩ | ⟨k', heq', hk', hlast'⟩
    · -- no marker in the window: the section is the old one
      rw [heq, heq', if_neg (by omega), if_neg (by omega), if_neg (by omega)]
      have hold : ∀ {marker i}, marker = cfg.startTokenIds ∨ marker = cfg.endTokenIds →
          (StandsAt marker (textAt prompt output n) i ↔
            StandsAt marker (textAt prompt output s.prevOutputLength) i) := by
        intro marker i hm
        constructor
        · intro hi
          by_contra hnew
          have hle := recent_of_new hstart hend hrun hm hn hp.le hi hnew
          rcases hm with rfl | rfl
          · exact hnone _ (hin hi hle)
          · exact hnone' _ (hin hi hle)
        · intro hi
          have hne : marker ≠ [] := by
            rcases hm with rfl | rfl
            · exact hstart
            · exact hend
          have := hi.le_length hne
          rw [textAt_append hp.le]
          exact hi.append (by omega)
      have hsame : ∀ i, SectionAt cfg (textAt prompt output n) i ↔
          SectionAt cfg (textAt prompt output s.prevOutputLength) i := by
        intro i
        constructor
        · exact fun hi => ⟨(hold (.inl rfl)).mp hi.start,
            fun j hj => hi.last j ((hold (.inl rfl)).mpr hj),
            fun j hj => hi.unclosed j ((hold (.inr rfl)).mpr hj)⟩
        · exact fun hi => ⟨(hold (.inl rfl)).mpr hi.start,
            fun j hj => hi.last j ((hold (.inl rfl)).mp hj),
            fun j hj => hi.unclosed j ((hold (.inr rfl)).mp hj)⟩
      cases hthink : s.inThink with
      | true =>
        obtain ⟨i, hi⟩ := h.inThink.mp hthink
        have hcount := h.count i hi
        rw [if_pos rfl]
        exact knows_open ((hsame i).mpr hi) (by omega)
      | false =>
        rw [if_neg Bool.false_ne_true]
        refine knows_closed (fun i hi => ?_) _
        rw [h.inThink.mpr ⟨i, (hsame i).mp hi⟩] at hthink
        cases hthink
    · rw [heq, heq', if_neg (by omega), if_neg (by omega), if_pos (by omega)]
      exact hclosed k' hk' fun j hj => absurd hj (hnone j)
  · rcases @findLastSequenceIndex_spec cfg.endTokenIds recent hend with
      ⟨heq', hnone'⟩ | ⟨k', heq', hk', hlast'⟩
    · rw [heq, heq', if_neg (by omega), if_pos (by omega)]
      exact hopen k hk hlast fun j hj => absurd hj (hnone' j)
    · rw [heq, heq', if_pos (by omega)]
      by_cases hlt : k' < k
      · rw [if_pos (by omega)]
        exact hopen k hk hlast fun j hj => (hlast' j hj).trans_lt hlt
      · rw [if_neg (by omega)]
        exact hclosed k' hk' fun j hj => (hlast j hj).trans (Nat.le_of_not_lt hlt)

end Run

/-! ## Between inspections -/

/-- Nothing is forced. The next inspection comes before the current section, or one that begins in
the meantime, can hold the budget. -/
structure Idle (cfg : ReasoningConfig) (prompt output : List TokenId) (budget : Int) (n : Nat)
    (s : ThinkState) : Prop where
  inEnd : s.inEnd = false
  thinkingTokenBudget : s.thinkingTokenBudget = budget
  seen : s.prevOutputLength ≤ n
  knows : Knows cfg s.inThink s.thinkCount (textAt prompt output s.prevOutputLength)
  skipped : s.prevOutputLength < n → 0 ≤ s.checkCountDown
  thinking : s.inThink = true → s.thinkCount < budget ∧
    s.checkCountDown ≤ budget - s.thinkCount - 1 - (n - s.prevOutputLength)
  notThinking : s.inThink = false → s.checkCountDown ≤ budget - (n - s.prevOutputLength)

/-- The first `k` tokens of the end marker were forced. -/
structure Forcing (cfg : ReasoningConfig) (output : List TokenId) (budget : Int) (n k : Nat)
    (s : ThinkState) : Prop where
  inEnd : s.inEnd = true
  thinkingTokenBudget : s.thinkingTokenBudget = budget
  inThink : s.inThink = false
  endCount : s.endCount = k
  lt : k < cfg.endTokenIds.length
  seen : s.prevOutputLength = n
  forced : cfg.endTokenIds.take k <:+ output.take n

/-- The section is not full where nothing is forced. -/
theorem Idle.not_exhausted (hstart : cfg.startTokenIds ≠ []) (hend : cfg.endTokenIds ≠ [])
    (hn : n ≤ output.length) (h : Idle cfg prompt output budget n s) :
    ¬ ExhaustsBudget cfg (textAt prompt output n) budget := by
  rintro ⟨i, hi, hfull⟩
  have hseen := h.seen
  have hlength := @length_textAt prompt output n hn
  have hlength' := @length_textAt prompt output s.prevOutputLength (hseen.trans hn)
  have happ := @textAt_append prompt output n s.prevOutputLength hseen
  by_cases hold : i + cfg.startTokenIds.length ≤ prompt.length + s.prevOutputLength
  · -- the section was there at the last inspection
    have hat : SectionAt cfg (textAt prompt output s.prevOutputLength) i := by
      refine ⟨(happ ▸ hi.start).of_append (by omega), fun j hj => hi.last j ?_,
        fun j hj => hi.unclosed j ?_⟩
      · have := hj.le_length hstart
        exact happ ▸ hj.append (by omega)
      · have := hj.le_length hend
        exact happ ▸ hj.append (by omega)
    have hthink := h.knows.inThink.mpr ⟨i, hat⟩
    have hcount := h.knows.count i hat
    obtain ⟨hlt, hdown⟩ := h.thinking hthink
    rcases lt_or_eq_of_le hseen with hskip | heq
    · have := h.skipped hskip
      omega
    · omega
  · -- it began later
    have hlen := hi.start.le_length hstart
    have hskip := h.skipped (by omega)
    cases hthink : s.inThink with
    | true =>
      obtain ⟨j, hj⟩ := h.knows.inThink.mp hthink
      have hcount := h.knows.count j hj
      have := hj.start.le_length hstart
      have := (h.thinking hthink).2
      omega
    | false =>
      have := h.notThinking hthink
      omega

/-- A step without a forced token. -/
theorem Idle.step (hstart : cfg.startTokenIds ≠ []) (hend : cfg.endTokenIds ≠ [])
    (hrun : SectionsInOutput cfg prompt budget output) (hn : n < output.length)
    (h : Idle cfg prompt output budget n s) :
    Idle cfg prompt output budget (n + 1) (s.updateThinkState cfg (output.take (n + 1))) ∨
      Forcing cfg output budget (n + 1) 0 (s.updateThinkState cfg (output.take (n + 1))) ∧
        ExhaustsBudget cfg (textAt prompt output (n + 1)) budget := by
  have hseen := h.seen
  have hlen : (output.take (n + 1)).length = n + 1 := by
    rw [length_take, min_eq_left hn]
  unfold ThinkState.updateThinkState
  by_cases hdown : 0 < s.checkCountDown
  · -- the output is not inspected
    rw [if_pos ⟨h.inEnd, hdown⟩]
    refine .inl ⟨h.inEnd, h.thinkingTokenBudget, Nat.le_succ_of_le hseen, h.knows, fun _ => ?_, fun ht => ?_,
      fun hf => ?_⟩
    · dsimp only
      omega
    · have := h.thinking ht
      dsimp only
      omega
    · have := h.notThinking hf
      dsimp only
      omega
  · have hne : ¬ (output.take (n + 1) = [] ∨ (output.take (n + 1)).length ≤ s.prevOutputLength) := by
      rintro (hnil | hle)
      · rw [hnil] at hlen
        cases hlen
      · omega
    rw [if_neg (fun hand => hdown hand.2), if_neg hne]
    dsimp only
    rw [h.inEnd, if_neg Bool.false_ne_true, hlen]
    have hfound := located_knows hstart hend hrun (show n + 1 ≤ output.length from hn)
      (show s.prevOutputLength < n + 1 by omega) h.knows
    dsimp only at hfound
    generalize s.located cfg (n + 1) _ _ _ _ = found at hfound ⊢
    obtain ⟨inThink, thinkCount⟩ := found
    unfold ThinkState.budgeted
    split_ifs with hfull hthink
    · -- the section is full
      obtain ⟨i, hi⟩ := hfound.inThink.mp hfull.1
      refine .inr ⟨⟨rfl, h.thinkingTokenBudget, rfl, rfl, length_pos_iff.mpr hend, rfl, ?_⟩, i, hi, ?_⟩
      · exact nil_suffix
      · rw [← hfound.count i hi, ← h.thinkingTokenBudget]
        exact hfull.2
    · have hlt : thinkCount < budget := by
        by_contra hge
        exact hfull ⟨hthink, h.thinkingTokenBudget ▸ not_lt.mp hge⟩
      refine .inl ⟨rfl, h.thinkingTokenBudget, le_rfl, hfound, fun hlt => absurd hlt (lt_irrefl _),
        fun _ => ⟨hlt, ?_⟩, fun hf => ?_⟩
      · have := h.thinkingTokenBudget
        dsimp only
        omega
      · rw [show inThink = true from hthink] at hf
        cases hf
    · refine .inl ⟨rfl, h.thinkingTokenBudget, le_rfl, hfound, fun hlt => absurd hlt (lt_irrefl _),
        fun ht => absurd ht hthink, fun _ => ?_⟩
      have := h.thinkingTokenBudget
      dsimp only
      omega

/-- A step with a forced token: after the last one the section is closed. -/
theorem Forcing.step (hrun : SectionsInOutput cfg prompt budget output) (h : Forcing cfg output budget n k s)
    (htoken : output[n]? = cfg.endTokenIds[k]?) :
    k + 1 < cfg.endTokenIds.length ∧
        Forcing cfg output budget (n + 1) (k + 1) (s.updateThinkState cfg (output.take (n + 1))) ∨
      ¬ k + 1 < cfg.endTokenIds.length ∧
        Idle cfg prompt output budget (n + 1) (s.updateThinkState cfg (output.take (n + 1))) := by
  have hk := h.lt
  have hn : n < output.length := by
    rw [getElem?_eq_getElem hk] at htoken
    exact lt_of_getElem? htoken
  have hlen : (output.take (n + 1)).length = n + 1 := by
    rw [length_take, min_eq_left hn]
  have hforced : cfg.endTokenIds.take (k + 1) <:+ output.take (n + 1) := by
    obtain ⟨front, hfront⟩ := h.forced
    refine ⟨front, ?_⟩
    rw [take_add_one, take_add_one, ← append_assoc, hfront, htoken]
  have hne : ¬ (output.take (n + 1) = [] ∨ (output.take (n + 1)).length ≤ s.prevOutputLength) := by
    have := h.seen
    rintro (hnil | hle)
    · rw [hnil] at hlen
      cases hlen
    · omega
  unfold ThinkState.updateThinkState
  rw [if_neg (fun hand => by rw [h.inEnd] at hand; cases hand.1), if_neg hne]
  rw [h.inEnd, if_pos rfl, h.endCount, hlen]
  by_cases hlast : cfg.endTokenIds.length ≤ k + 1
  · rw [if_pos hlast]
    refine .inr ⟨not_lt.mpr hlast, rfl, h.thinkingTokenBudget, le_rfl, ?_,
      fun hlt => absurd hlt (lt_irrefl _), fun ht => ?_, fun _ => ?_⟩
    · rw [h.inThink]
      refine knows_closed (fun i hi => ?_) _
      -- the end marker stands at the end of the text
      rw [take_of_length_le hlast] at hforced
      obtain ⟨front, hfront⟩ := hforced
      have htext : textAt prompt output (n + 1) = prompt ++ front ++ cfg.endTokenIds := by
        rw [textAt, ← hfront, append_assoc]
      have hclose : StandsAt cfg.endTokenIds (textAt prompt output (n + 1))
          ((prompt ++ front).length + 0) := by
        rw [htext, StandsAt.length_add_iff]
        exact prefix_refl _
      have hlt := hi.unclosed _ hclose
      refine hrun.apart (i - (prompt ++ front).length) (by omega) ?_
      have hinside := hi.start
      rw [htext, ← Nat.add_sub_cancel' (show (prompt ++ front).length ≤ i by omega),
        StandsAt.length_add_iff] at hinside
      exact hinside
    · exact absurd (h.inThink.symm.trans ht) Bool.false_ne_true
    · have := h.thinkingTokenBudget
      dsimp only
      omega
  · rw [if_neg hlast]
    exact .inl ⟨not_le.mp hlast, rfl, h.thinkingTokenBudget, h.inThink, rfl,
      not_le.mp hlast, rfl, hforced⟩

/-! ## Runs -/

/-- Before the first step nothing is forced. -/
theorem idle_start (hstart : cfg.startTokenIds ≠ []) (hend : cfg.endTokenIds ≠ [])
    {promptTokIds : Option (List TokenId)} (outputTokIds : OutputRef)
    (hrun : SectionsInOutput cfg (promptTokIds.getD []) budget output) :
    Idle cfg (promptTokIds.getD []) output budget 0
      ((ThinkState.initStateEntry cfg promptTokIds budget outputTokIds).after cfg output 0) := by
  have hknows := @initStateEntry_knows _ budget hstart hend promptTokIds outputTokIds
  have htext : textAt (promptTokIds.getD []) output 0 = promptTokIds.getD [] := append_nil _
  have hdown : (ThinkState.initStateEntry cfg promptTokIds budget outputTokIds).checkCountDown =
    budget := rfl
  have hbudget : (ThinkState.initStateEntry cfg promptTokIds budget
    outputTokIds).thinkingTokenBudget = budget := rfl
  have hseen : (ThinkState.initStateEntry cfg promptTokIds budget outputTokIds).prevOutputLength =
    0 := rfl
  have hforces : (ThinkState.initStateEntry cfg promptTokIds budget outputTokIds).inEnd =
      ((ThinkState.initStateEntry cfg promptTokIds budget outputTokIds).inThink &&
        decide (budget = 0)) := rfl
  unfold ThinkState.after
  generalize ThinkState.initStateEntry cfg promptTokIds budget outputTokIds = s at *
  -- an open section is empty, and the budget is positive
  have hopen : s.inThink = true → s.thinkCount = 0 ∧ 0 < budget := by
    intro hthink
    obtain ⟨i, hi⟩ := hknows.inThink.mp hthink
    obtain ⟨hempty, hpos⟩ := hrun.opened i hi
    exact ⟨by rw [hknows.count i hi]; omega, hpos⟩
  have hinEnd : s.inEnd = false := by
    rw [hforces]
    cases hthink : s.inThink with
    | false => rfl
    | true => exact decide_eq_false (hopen hthink).2.ne'
  unfold ThinkState.updateThinkState
  by_cases hpos : 0 < s.checkCountDown
  · rw [if_pos ⟨hinEnd, hpos⟩]
    refine ⟨hinEnd, hbudget, hseen.le, ?_, fun hlt => absurd hlt (by dsimp only; omega),
      fun ht => ?_, fun hf => ?_⟩
    · rw [hseen, htext]
      exact hknows
    · have := hopen ht
      dsimp only
      omega
    · dsimp only
      omega
  · rw [if_neg (fun hand => hpos hand.2), if_pos (.inl rfl)]
    refine ⟨hinEnd, hbudget, hseen.le, ?_, fun hlt => absurd hlt (by omega), fun ht => ?_,
      fun hf => ?_⟩
    · rw [hseen, htext]
      exact hknows
    · have := hopen ht
      omega
    · omega

/-- **The thinking budget** is enforced in every run whose sections begin and end in the output. -/
theorem enforces_budget (cfg : ReasoningConfig) (hstart : cfg.startTokenIds ≠ [])
    (hend : cfg.endTokenIds ≠ []) (promptTokIds : Option (List TokenId)) (budget : Int)
    (outputTokIds : OutputRef) (output : List TokenId)
    (hsamples : (ThinkState.initStateEntry cfg promptTokIds budget outputTokIds).Samples cfg output)
    (hrun : SectionsInOutput cfg (promptTokIds.getD []) budget output) :
    EnforcesBudget cfg promptTokIds budget outputTokIds output := by
  have hidle := idle_start hstart hend outputTokIds hrun
  unfold EnforcesBudget
  generalize ThinkState.initStateEntry cfg promptTokIds budget outputTokIds = s0 at *
  generalize promptTokIds.getD [] = prompt at *
  have hmode : ∀ n ≤ output.length, (forcedAt cfg prompt output budget n = none ∧
        Idle cfg prompt output budget n (s0.after cfg output n)) ∨
      ∃ k, forcedAt cfg prompt output budget n = some k ∧
        Forcing cfg output budget n k (s0.after cfg output n) := by
    intro n hn
    induction n with
    | zero => exact .inl ⟨if_neg (hidle.not_exhausted hstart hend (Nat.zero_le _)), hidle⟩
    | succ n ih =>
      unfold forcedAt
      rcases ih (Nat.le_of_succ_le hn) with ⟨hnone, hs⟩ | ⟨k, hsome, hs⟩
      · rw [hnone]
        rcases hs.step hstart hend hrun hn with hs' | ⟨hs', hfull⟩
        · exact .inl ⟨if_neg (hs'.not_exhausted hstart hend hn), hs'⟩
        · exact .inr ⟨0, if_pos hfull, hs'⟩
      · have hforced : (s0.after cfg output n).forced = some k := by
          unfold ThinkState.forced
          rw [if_pos hs.inEnd, hs.endCount]
        have htoken : output[n]? = cfg.endTokenIds[k]? := by
          have hget := getElem?_eq_getElem hs.lt
          rw [hget]
          exact hsamples n hn _ (by rw [hforced]; exact hget)
        rw [hsome]
        rcases hs.step hrun htoken with ⟨hlt, hs'⟩ | ⟨hlast, hs'⟩
        · rw [Option.filter_some, if_pos (decide_eq_true hlt)]
          exact .inr ⟨k + 1, rfl, hs'⟩
        · rw [Option.filter_some, if_neg (by simpa using hlast)]
          exact .inl ⟨if_neg (hs'.not_exhausted hstart hend hn), hs'⟩
  intro n hn
  unfold ThinkState.forced
  rcases hmode n hn with ⟨hnone, hs⟩ | ⟨k, hsome, hs⟩
  · rw [hnone, if_neg (by rw [hs.inEnd]; exact Bool.false_ne_true)]
  · rw [hsome, if_pos hs.inEnd, hs.endCount]

/-- Sections from token 1 to token 2. -/
def oneTwo : ReasoningConfig := ⟨true, [1], [2]⟩

theorem enforces_budget_twice : EnforcesBudget oneTwo (some [7]) 1 0 [1, 8, 2, 1] := by
  have hnil : ∀ marker : List TokenId, marker ≠ [] → ∀ text : List TokenId, ∀ i,
      text.length ≤ i → ¬ StandsAt marker text i := fun _ hm _ _ hi h => by
    have := h.le_length hm
    have := length_pos_iff.mpr hm
    omega
  refine enforces_budget oneTwo (by decide) (by decide) (some [7]) 1 0 [1, 8, 2, 1] ?_
    ⟨fun i h => ?_, fun i hi h => ?_, fun i hi h => ?_, fun k hk h => ?_⟩
  · -- only the step after the token 8 forces one
    intro n hn t ht
    match n, hn with
    | 0, _ => exact absurd (ht.symm.trans (by decide)) (Option.some_ne_none t)
    | 1, _ => exact absurd (ht.symm.trans (by decide)) (Option.some_ne_none t)
    | 2, _ => exact (Eq.trans (by decide) ht : some 2 = some t)
    | 3, _ => exact absurd (ht.symm.trans (by decide)) (Option.some_ne_none t)
  · match i with
    | 0 => exact absurd h.start (by decide)
    | i + 1 => exact absurd h.start (hnil [1] (by decide) [7] (i + 1) (by simp))
  · obtain rfl : i = 0 := Nat.lt_one_iff.mp hi
    exact absurd h (by decide)
  · obtain rfl : i = 0 := Nat.lt_one_iff.mp hi
    exact absurd h (by decide)
  · exact hnil [1] (by decide) [2] k hk h

/-- The prompt has opened a section with one token. After another one the budget of two is
exhausted, but the countdown still runs. -/
theorem enforces_budget_late : ¬ EnforcesBudget oneTwo (some [1, 7]) 2 0 [7] := by
  intro h
  have hplace : ∀ marker j, StandsAt marker [1, 7, 7] j → marker ≠ [] → j < 3 :=
    fun marker j hj hm => by
      have hle : j + marker.length ≤ 3 := hj.le_length hm
      have := length_pos_iff.mpr hm
      omega
  have hfull : ExhaustsBudget oneTwo (textAt [1, 7] [7] 1) 2 := by
    refine ⟨0, ⟨by decide, fun j hj => ?_, fun j hj => ?_⟩, by decide⟩
    · match j, hplace _ j hj (by decide) with
      | 0, _ => exact le_rfl
      | 1, _ => exact absurd hj (by decide)
      | 2, _ => exact absurd hj (by decide)
    · match j, hplace _ j hj (by decide) with
      | 0, _ => exact absurd hj (by decide)
      | 1, _ => exact absurd hj (by decide)
      | 2, _ => exact absurd hj (by decide)
  have hforced : forcedAt oneTwo [1, 7] [7] 2 1 = some 0 := by
    unfold forcedAt
    rw [if_pos hfull]
    cases forcedAt oneTwo [1, 7] [7] 2 0 with
    | none => rfl
    | some k => rw [Option.filter_some, if_neg (by simp [oneTwo])]
  exact absurd ((h 1 (by decide)).trans hforced) (by decide)

end MyOperator.Worker
