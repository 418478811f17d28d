import MyOperator.Lib.Occurrence

/-!
# The incremental detokenizer

`BaseIncrementalDetokenizer`: tokens come in groups, their text is appended to the
output text, the new text is searched for stop strings, and what may still become
part of a stop string is held back from streaming. `decode_next` belongs to the
subclasses; a token carries the text that it returned for it.
-/

namespace MyOperator.Detok

open Lib List

/-- A string: the list of its code points. -/
abbrev Str := List Char

/-- A generated token with the text that `decode_next` returns for it. -/
structure Token where
  id : Nat
  text : Str
  deriving DecidableEq

/-- The text of a list of tokens. -/
def textOf (tokens : List Token) : Str := tokens.flatMap (·.text)

@[simp] theorem textOf_nil : textOf [] = [] := rfl

@[simp] theorem textOf_append (l l' : List Token) : textOf (l ++ l') = textOf l ++ textOf l' :=
  flatMap_append

theorem textOf_prefix {l l' : List Token} (h : l <+: l') : textOf l <+: textOf l' := by
  obtain ⟨rest, rfl⟩ := h
  rw [textOf_append]
  exact prefix_append _ _

theorem textOf_take_isPrefix (l : List Token) (k : Nat) : textOf (l.take k) <+: textOf l :=
  textOf_prefix ( take_prefix k l)

/-- The `stop` argument of `SamplingParams`. -/
inductive StopArg
  | none
  | str (s : Str)
  | list (l : List Str)

/-- The list that the detokenizer makes of it. -/
def StopArg.toList : StopArg → List Str
  | .none => []
  | .str s => [s]
  | .list l => l

/-- The sampling parameters that the detokenizer reads. `_verify_args` refuses empty strings. -/
structure SamplingParams where
  stop : StopArg
  minTokens : Nat := 0
  includeStopStrInOutput : Bool := false
  stop_ne : ∀ s ∈ stop.toList, s ≠ []

/-- `BaseIncrementalDetokenizer`. Only output tokens are kept in `tokenIds`: the slow
detokenizer's list starts with the prompt, which `num_output_tokens` leaves out. -/
structure BaseIncrementalDetokenizer where
  tokenIds : List Nat
  stop : List Str
  minTokens : Nat
  includeStopStrInOutput : Bool
  stopBufferLength : Nat
  lastOutputTextOffset : Nat
  outputText : Str

def BaseIncrementalDetokenizer.init (params : SamplingParams) : BaseIncrementalDetokenizer where
  tokenIds := []
  stop := params.stop.toList
  minTokens := params.minTokens
  includeStopStrInOutput := params.includeStopStrInOutput
  stopBufferLength :=
    if params.stop.toList ≠ [] ∧ params.includeStopStrInOutput = false then
      (params.stop.toList.map List.length).foldl max 0 - 1
    else 0
  lastOutputTextOffset := 0
  outputText := []

/-- One pass of the loop of `check_stop_strings`: where the text is to be cut if `stopStr` is
found, with `none` for `-1`. -/
def checkStopString (outputText : Str) (newCharCount : Nat) (includeInOutput : Bool)
    (stopStr : Str) : Option (Str × Option Nat) :=
  match strFind outputText stopStr (1 - newCharCount - stopStr.length) with
  | none => none
  | some stopIndex =>
    if includeInOutput then
      if outputText.length ≤ stopIndex + stopStr.length then some (stopStr, none)
      else some (stopStr, some (stopIndex + stopStr.length))
    else some (stopStr, some stopIndex)

def checkStopStrings (outputText : Str) (newCharCount : Nat) (stop : List Str)
    (includeInOutput : Bool) : Option (Str × Option Nat) :=
  if newCharCount = 0 ∨ stop = [] then none
  else stop.findSome? (checkStopString outputText newCharCount includeInOutput)

namespace BaseIncrementalDetokenizer

def numOutputTokens (d : BaseIncrementalDetokenizer) : Nat := d.tokenIds.length

/-- One pass of the detokenization loop, with the offset from which stop strings are searched. -/
def decodeToken (s : BaseIncrementalDetokenizer × Nat) (t : Token) :
    BaseIncrementalDetokenizer × Nat := let d := { s.1 with
    tokenIds := s.1.tokenIds ++ [t.id]
    outputText := s.1.outputText ++ t.text }
  (d, if d.minTokens ≠ 0 ∧ d.numOutputTokens ≤ d.minTokens then d.outputText.length else s.2)

/-- The tokens of a group that are decoded: a stop token is not, unless it is to be in the
output. -/
def decodedPart (includeStopStrInOutput : Bool) (newTokens : List Token) (stopTerminated : Bool) :
    List Token :=
  if stopTerminated ∧ includeStopStrInOutput = false then newTokens.dropLast else newTokens

/-- The skipped stop token. -/
def skippedPart (includeStopStrInOutput : Bool) (newTokens : List Token) (stopTerminated : Bool) :
    List Token :=
  if stopTerminated ∧ includeStopStrInOutput = false then newTokens.getLast?.toList else []

/-- Detokenization: the first half of `update`. -/
def detokenize (d : BaseIncrementalDetokenizer) (newTokens : List Token) (stopTerminated : Bool) :
    BaseIncrementalDetokenizer × Nat :=
  let s := (decodedPart d.includeStopStrInOutput newTokens stopTerminated).foldl decodeToken
    (d, d.outputText.length)
  ({ s.1 with tokenIds := s.1.tokenIds ++
      (skippedPart d.includeStopStrInOutput newTokens stopTerminated).map (·.id) }, s.2)

/-- `self.output_text = self.output_text[:truncate_to]`. -/
def truncate (d : BaseIncrementalDetokenizer) (truncateTo : Nat) : BaseIncrementalDetokenizer :=
  { d with outputText := d.outputText.take truncateTo }

/-- Evaluation of the stop strings: the second half of `update`. -/
def evalStop (d : BaseIncrementalDetokenizer) (stopCheckOffset : Nat) :
    Option Str × BaseIncrementalDetokenizer :=
  if d.stop ≠ [] ∧ d.minTokens < d.numOutputTokens then
    match checkStopStrings d.outputText (d.outputText.length - stopCheckOffset) d.stop
        d.includeStopStrInOutput with
    | none => (none, d)
    | some (stopString, none) => (some stopString, d)
    | some (stopString, some truncateTo) => (some stopString, d.truncate truncateTo)
  else (none, d)

/-- `update`: the stop string that was found, if any. -/
def update (d : BaseIncrementalDetokenizer) (newTokens : List Token) (stopTerminated : Bool) :
    Option Str × BaseIncrementalDetokenizer :=
  if newTokens = [] then (none, d)
  else evalStop (d.detokenize newTokens stopTerminated).1 (d.detokenize newTokens stopTerminated).2

def getNextOutputText (d : BaseIncrementalDetokenizer) (finished delta : Bool) :
    Str × BaseIncrementalDetokenizer :=
  let bufferLength := if finished then 0 else d.stopBufferLength
  if delta = false then
    if bufferLength = 0 then (d.outputText, d)
    else (d.outputText.take (d.outputText.length - bufferLength), d)
  else
    let length := d.outputText.length - bufferLength
    if d.lastOutputTextOffset < length then
      ((d.outputText.take length).drop d.lastOutputTextOffset,
        { d with lastOutputTextOffset := length })
    else ([], d)

end BaseIncrementalDetokenizer

end MyOperator.Detok

/-!
## What one update does

An update appends the text of its decoded tokens and reports the first listed stop
string that the searched part of the text completes. The searched part begins with
the text of this update, or, while `min_tokens` holds, with the first token beyond
them.
-/

namespace MyOperator.Detok

open Lib

variable {stop : List Str} {text s : Str} {lo e n : Nat} {b : Bool}

/-- No listed string is completed after `lo`. -/
def NoStop (stop : List Str) (text : Str) (lo : Nat) : Prop :=
  ∀ s ∈ stop, ∀ e, lo < e → ¬ EndsAt s text e

/-- `s` is the first listed string that is completed after `lo`; `e` completes it first. -/
structure ListedStop (stop : List Str) (text : Str) (lo : Nat) (s : Str) (e : Nat) : Prop where
  first : FirstEnd s text lo e
  listed : ∃ before after, stop = before ++ s :: after ∧ NoStop before text lo

/-- The length to which the text is cut when `e` completes the stop string `s`. -/
def cutAt (includeStopStrInOutput : Bool) (s : Str) (e : Nat) : Nat :=
  if includeStopStrInOutput then e else e - s.length

theorem ListedStop.mem (h : ListedStop stop text lo s e) : s ∈ stop := by
  obtain ⟨before, after, rfl, _⟩ := h.listed
  exact List.mem_append_right _ List.mem_cons_self

theorem noStop_of_length_le (h : text.length ≤ lo) : NoStop stop text lo :=
  fun _ _ _ he hend => absurd (he.trans_le hend.1) (not_lt.mpr h)

/-! ## The check -/

theorem checkStopString_none (hs : s ≠ []) (hn : 0 < n)
    (h : checkStopString text n b s = none) (he : text.length - n < e) : ¬ EndsAt s text e := by
  rw [checkStopString] at h
  cases hfind : strFind text s (1 - n - s.length) with
  | none => exact strFind_window_none hs hn hfind he
  | some i =>
    rw [hfind] at h
    cases b with
    | false => simp at h
    | true =>
      dsimp only at h
      split_ifs at h

/-- A stop string that is found is completed, and the text is cut where it should be. -/
theorem checkStopString_some {s' : Str} {cut : Option Nat} (hs : s ≠ []) (hn : 0 < n)
    (hle : n ≤ text.length) (h : checkStopString text n b s = some (s', cut)) :
    s' = s ∧ ∃ e, FirstEnd s text (text.length - n) e ∧
      (cut = none ∧ cutAt b s e = text.length ∨ cut = some (cutAt b s e)) := by
  rw [checkStopString] at h
  cases hfind : strFind text s (1 - n - s.length) with
  | none => rw [hfind] at h; cases h
  | some i =>
    rw [hfind] at h
    have hfirst := strFind_window_some hs hn hle hfind
    have hend := hfirst.ends.1
    cases b with
    | false =>
      cases h
      exact ⟨rfl, _, hfirst, .inr (by simp [cutAt])⟩
    | true =>
      dsimp only at h
      rw [if_pos rfl] at h
      split_ifs at h with hlen
      · cases h
        exact ⟨rfl, _, hfirst, .inl ⟨rfl, by simp only [cutAt, if_true]; omega⟩⟩
      · cases h
        exact ⟨rfl, _, hfirst, .inr (by simp [cutAt])⟩

theorem checkStopStrings_none (hstop : ∀ s ∈ stop, s ≠ []) (hle : n ≤ text.length)
    (h : checkStopStrings text n stop b = none) : NoStop stop text (text.length - n) := by
  rw [checkStopStrings] at h
  split_ifs at h with hguard
  · rcases hguard with rfl | rfl
    · exact noStop_of_length_le (by omega)
    · intro s hs
      cases hs
  · intro s hs e he
    have hn : 0 < n := Nat.pos_of_ne_zero fun h0 => hguard (.inl h0)
    exact checkStopString_none (hstop s hs) hn (List.findSome?_eq_none_iff.mp h s hs) he

theorem checkStopStrings_some {cut : Option Nat} (hstop : ∀ s ∈ stop, s ≠ [])
    (hle : n ≤ text.length) (h : checkStopStrings text n stop b = some (s, cut)) :
    ∃ e, ListedStop stop text (text.length - n) s e ∧
      (cut = none ∧ cutAt b s e = text.length ∨ cut = some (cutAt b s e)) := by
  rw [checkStopStrings] at h
  split_ifs at h with hguard
  have hn : 0 < n := Nat.pos_of_ne_zero fun h0 => hguard (.inl h0)
  obtain ⟨before, s', after, hsplit, hfound, hbefore⟩ := List.findSome?_eq_some_iff.mp h
  have hs' : s' ∈ stop := hsplit ▸ List.mem_append_right _ List.mem_cons_self
  obtain ⟨rfl, e, hfirst, hcut⟩ := checkStopString_some (hstop s' hs') hn hle hfound
  refine ⟨e, ⟨hfirst, before, after, hsplit, fun t ht e' he' => ?_⟩, hcut⟩
  have ht' : t ∈ stop := hsplit ▸ List.mem_append_left _ ht
  exact checkStopString_none (hstop t ht') hn (hbefore t ht) he'

/-! ## The update -/

namespace BaseIncrementalDetokenizer

variable {d : BaseIncrementalDetokenizer} {newTokens l : List Token} {t : Token}
  {stopTerminated : Bool}

/-- The detokenizer after decoding `l`. -/
def decoded (d : BaseIncrementalDetokenizer) (l : List Token) : BaseIncrementalDetokenizer :=
  { d with
    tokenIds := d.tokenIds ++ l.map (·.id)
    outputText := d.outputText ++ textOf l }

theorem decoded_cons : d.decoded (t :: l) = (d.decoded [t]).decoded l := by
  simp [decoded, textOf]

theorem decodeToken_eq (off : Nat) : decodeToken (d, off) t =
    (d.decoded [t], if d.numOutputTokens < d.minTokens then (d.decoded [t]).outputText.length
      else off) := by
  have hcond : (d.minTokens ≠ 0 ∧ (d.tokenIds ++ [t.id]).length ≤ d.minTokens) ↔
      d.numOutputTokens < d.minTokens := by
    rw [List.length_append, List.length_singleton, numOutputTokens]
    omega
  have hdecoded : d.decoded [t] = { d with
      tokenIds := d.tokenIds ++ [t.id]
      outputText := d.outputText ++ t.text } := by
    simp [decoded, textOf]
  rw [hdecoded]
  exact Prod.ext rfl (if_congr hcond rfl rfl)

theorem foldl_decodeToken_of_le (off : Nat) (h : d.minTokens ≤ d.numOutputTokens) :
    l.foldl decodeToken (d, off) = (d.decoded l, off) := by
  induction l generalizing d with
  | nil => simp [decoded]
  | cons t l ih =>
    have hnext : (d.decoded [t]).minTokens ≤ (d.decoded [t]).numOutputTokens := by
      simp only [decoded, numOutputTokens, List.length_append] at h ⊢
      omega
    rw [List.foldl_cons, decodeToken_eq, if_neg (not_lt.mpr h), ih hnext, ← decoded_cons]

/-- The text in front of the part that is searched for stop strings. -/
def unsearched (d : BaseIncrementalDetokenizer) (l : List Token) : Str :=
  d.outputText ++ textOf (l.take (d.minTokens - d.numOutputTokens))

theorem foldl_decodeToken : l.foldl decodeToken (d, d.outputText.length) =
    (d.decoded l, (d.unsearched l).length) := by
  induction l generalizing d with
  | nil => simp [decoded, unsearched]
  | cons t l ih =>
    by_cases h : d.minTokens ≤ d.numOutputTokens
    · rw [foldl_decodeToken_of_le _ h, unsearched, Nat.sub_eq_zero_of_le h, List.take_zero,
        textOf_nil, List.append_nil]
    · have hsub : d.minTokens - d.numOutputTokens =
          d.minTokens - (d.decoded [t]).numOutputTokens + 1 := by
        simp only [decoded, numOutputTokens, List.length_append, List.map_cons, List.map_nil,
          List.length_singleton] at h ⊢
        omega
      have htext : (d.decoded [t]).unsearched l = d.unsearched (t :: l) := by
        rw [unsearched, unsearched, hsub]
        simp [decoded, textOf]
      rw [List.foldl_cons, decodeToken_eq, if_pos (Nat.lt_of_not_le h), ih, htext, ← decoded_cons]

theorem unsearched_prefix : d.unsearched l <+: (d.decoded l).outputText :=
  (List.prefix_append_right_inj _).mpr (textOf_take_isPrefix l _)

theorem le_unsearched : d.outputText.length ≤ (d.unsearched l).length := by
  rw [unsearched, List.length_append]
  exact Nat.le_add_right _ _

theorem unsearched_eq (h : d.numOutputTokens + l.length ≤ d.minTokens) :
    d.unsearched l = (d.decoded l).outputText := by
  rw [unsearched, List.take_of_length_le (by omega)]
  rfl

theorem decodedPart_append_skippedPart :
    decodedPart b newTokens stopTerminated ++ skippedPart b newTokens stopTerminated =
      newTokens := by
  unfold decodedPart skippedPart
  split_ifs
  · cases hnil : newTokens.getLast? with
    | none => simp [List.getLast?_eq_none_iff.mp hnil]
    | some t => exact List.dropLast_append_getLast? t hnil
  · exact List.append_nil _

theorem detokenize_eq : d.detokenize newTokens stopTerminated =
    ({ d.decoded (decodedPart d.includeStopStrInOutput newTokens stopTerminated) with
        tokenIds := d.tokenIds ++ newTokens.map (·.id) },
      (d.unsearched (decodedPart d.includeStopStrInOutput newTokens stopTerminated)).length) := by
  rw [detokenize, foldl_decodeToken]
  simp only [decoded, List.append_assoc, ← List.map_append, decodedPart_append_skippedPart]

/-- What `evalStop` finds in a text whose first `off` letters are not searched. -/
inductive EvalOutcome (d : BaseIncrementalDetokenizer) (off : Nat) :
    Option Str × BaseIncrementalDetokenizer → Prop
  | none : NoStop d.stop d.outputText off → EvalOutcome d off (none, d)
  | some {s : Str} {e : Nat} : ListedStop d.stop d.outputText off s e →
      EvalOutcome d off (some s, d.truncate (cutAt d.includeStopStrInOutput s e))

theorem evalStop_outcome {off : Nat} (hstop : ∀ s ∈ d.stop, s ≠ [])
    (hoff : off ≤ d.outputText.length)
    (hmin : d.numOutputTokens ≤ d.minTokens → off = d.outputText.length) :
    EvalOutcome d off (d.evalStop off) := by
  have hn : d.outputText.length - off ≤ d.outputText.length := Nat.sub_le _ _
  have hback : d.outputText.length - (d.outputText.length - off) = off := Nat.sub_sub_self hoff
  rw [evalStop]
  split_ifs with hguard
  · cases hcheck : checkStopStrings d.outputText (d.outputText.length - off) d.stop
        d.includeStopStrInOutput with
    | none => exact .none (hback ▸ checkStopStrings_none hstop hn hcheck)
    | some r =>
      obtain ⟨s, cut⟩ := r
      obtain ⟨e, hlisted, hcut⟩ := checkStopStrings_some hstop hn hcheck
      rw [hback] at hlisted
      rcases hcut with ⟨rfl, hwhole⟩ | rfl
      · have htrunc : d.truncate (cutAt d.includeStopStrInOutput s e) = d := by
          rw [truncate, hwhole, List.take_length]
        have hout : EvalOutcome d off (some s, d.truncate (cutAt d.includeStopStrInOutput s e)) :=
          .some hlisted
        rwa [htrunc] at hout
      · exact .some hlisted
  · refine .none ?_
    by_cases hnil : d.stop = []
    · intro s hs
      rw [hnil] at hs
      cases hs
    · have hle : d.numOutputTokens ≤ d.minTokens := not_lt.mp fun hlt => hguard ⟨hnil, hlt⟩
      exact noStop_of_length_le (hmin hle).ge

/-- The detokenizer after an update without a stop string. -/
def extended (d : BaseIncrementalDetokenizer) (newTokens : List Token) (stopTerminated : Bool) :
    BaseIncrementalDetokenizer := { d with
    tokenIds := d.tokenIds ++ newTokens.map (·.id)
    outputText := d.outputText ++
      textOf (decodedPart d.includeStopStrInOutput newTokens stopTerminated) }

theorem update_outcome (hstop : ∀ s ∈ d.stop, s ≠ []) :
    EvalOutcome (d.extended newTokens stopTerminated)
      (d.unsearched (decodedPart d.includeStopStrInOutput newTokens stopTerminated)).length
      (d.update newTokens stopTerminated) := by
  rw [update]
  split_ifs with hnil
  · subst hnil
    have hdec : decodedPart d.includeStopStrInOutput [] stopTerminated = [] := by
      unfold decodedPart
      split_ifs <;> rfl
    have hsame : d.extended [] stopTerminated = d := by simp [extended, hdec]
    have hout : EvalOutcome d d.outputText.length (none, d) := .none (noStop_of_length_le le_rfl)
    rw [hsame, hdec]
    simpa [unsearched] using hout
  · rw [detokenize_eq]
    refine evalStop_outcome hstop unsearched_prefix.length_le fun hmin => ?_
    refine congrArg List.length (unsearched_eq ?_)
    have hlen := congrArg List.length (@decodedPart_append_skippedPart d.includeStopStrInOutput
        newTokens stopTerminated)
    simp only [extended, numOutputTokens, List.length_append, List.length_map] at hmin hlen ⊢
    omega

end BaseIncrementalDetokenizer

end MyOperator.Detok
