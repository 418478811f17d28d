import MyOperator.Lib.RowArray
import MyOperator.Worker.BatchUpdate

/-!
# The sampling arrays of the persistent batch

The arrays and dictionaries of `InputBatch` that hold the sampling parameters of each
row, with the parts of its operations that concern them. The mask of allowed tokens
is a tensor, so reading a row of it gives a view and not a copy.
-/

namespace MyOperator.Worker

open Function Lib

/-- The sampling arrays of `InputBatch`. -/
structure SamplingRows where
  temperatureCpu : Nat → Rat := fun _ => 0
  topPCpu : Nat → Rat := fun _ => 0
  topKCpu : Nat → Int := fun _ => 0
  frequencyPenaltiesCpu : Nat → Rat := fun _ => 0
  presencePenaltiesCpu : Nat → Rat := fun _ => 0
  repetitionPenaltiesCpu : Nat → Rat := fun _ => 0
  numAcceptedTokensCpu : Nat → Nat := fun _ => 1
  generators : Nat → Option Nat := fun _ => none
  allowedTokenIdsMask : Option (Nat → Nat → Bool) := none
  badWordsTokenIds : Nat → Option (List (List TokenId)) := fun _ => none

/-- The value where Python takes it for true: an empty list is none. -/
def truthy {α : Type} (l : Option (List α)) : Option (List α) := l.filter fun l => !l.isEmpty

/-- `top_k`, the size of the vocabulary standing for no limit. -/
def effectiveTopK (vocabSize : Nat) (topK : Int) : Int :=
  if 0 < topK ∧ topK < vocabSize then topK else vocabSize

/-- The mask of a request: true where a token is not allowed. -/
def maskOf (allowedTokenIds : List Nat) (token : Nat) : Bool := !allowedTokenIds.contains token

namespace SamplingRows

/-- `add_request` -/
def addRow (s : SamplingRows) (vocabSize : Nat) (params : SamplingParams) (generator : Option Nat)
    (row : Nat) : SamplingRows := { s with
    temperatureCpu := update s.temperatureCpu row
      (if params.samplingType = .greedy then 0 else params.temperature)
    topPCpu := update s.topPCpu row params.topP
    topKCpu := update s.topKCpu row (effectiveTopK vocabSize params.topK)
    frequencyPenaltiesCpu := update s.frequencyPenaltiesCpu row params.frequencyPenalty
    presencePenaltiesCpu := update s.presencePenaltiesCpu row params.presencePenalty
    repetitionPenaltiesCpu := update s.repetitionPenaltiesCpu row params.repetitionPenalty
    generators :=
      match generator with
      | some g => update s.generators row (some g)
      | none => s.generators
    allowedTokenIdsMask :=
      match truthy params.allowedTokenIds with
      | some ids => some (update (s.allowedTokenIdsMask.getD fun _ _ => false) row (maskOf ids))
      | none => s.allowedTokenIdsMask
    badWordsTokenIds :=
      match truthy params.badWordsTokenIds with
      | some words => update s.badWordsTokenIds row (some words)
      | none => s.badWordsTokenIds }

/-- `add_request`: by default one token is generated. -/
def resetAccepted (s : SamplingRows) (row : Nat) : SamplingRows :=
  { s with numAcceptedTokensCpu := update s.numAcceptedTokensCpu row 1 }

/-- `remove_request` -/
def clearRow (s : SamplingRows) (row : Nat) : SamplingRows := { s with
    generators := update s.generators row none
    allowedTokenIdsMask := s.allowedTokenIdsMask.map fun m => update m row fun _ => false
    badWordsTokenIds := update s.badWordsTokenIds row none }

/-- `mask[i], mask[j] = mask[j], mask[i]` on a tensor: both right-hand sides are views, so
the second assignment copies what the first has written. -/
def swapViews (m : Nat → Nat → Bool) (i j : Nat) : Nat → Nat → Bool :=
  update (update m i (m j)) j (update m i (m j) i)

/-- `swap_states` -/
def swapRows (s : SamplingRows) (i j : Nat) : SamplingRows where
  temperatureCpu := swapRow s.temperatureCpu i j
  topPCpu := swapRow s.topPCpu i j
  topKCpu := swapRow s.topKCpu i j
  frequencyPenaltiesCpu := swapRow s.frequencyPenaltiesCpu i j
  presencePenaltiesCpu := swapRow s.presencePenaltiesCpu i j
  repetitionPenaltiesCpu := swapRow s.repetitionPenaltiesCpu i j
  numAcceptedTokensCpu := swapRow s.numAcceptedTokensCpu i j
  generators := swapEntry s.generators i j
  allowedTokenIdsMask := s.allowedTokenIdsMask.map fun m => swapViews m i j
  badWordsTokenIds := swapEntry s.badWordsTokenIds i j

/-- `condense`: the row `last` moves down to the row `empty`. -/
def moveRow (s : SamplingRows) (last empty : Nat) : SamplingRows where
  temperatureCpu := copyRow s.temperatureCpu last empty
  topPCpu := copyRow s.topPCpu last empty
  topKCpu := copyRow s.topKCpu last empty
  frequencyPenaltiesCpu := copyRow s.frequencyPenaltiesCpu last empty
  presencePenaltiesCpu := copyRow s.presencePenaltiesCpu last empty
  repetitionPenaltiesCpu := copyRow s.repetitionPenaltiesCpu last empty
  numAcceptedTokensCpu := copyRow s.numAcceptedTokensCpu last empty
  generators := moveEntry s.generators last empty
  -- the mask stays at `last` too
  allowedTokenIdsMask := s.allowedTokenIdsMask.map fun m => copyRow m last empty
  badWordsTokenIds := moveEntry s.badWordsTokenIds last empty

/-- The count of accepted tokens is updated. -/
def setAccepted (s : SamplingRows) (row n : Nat) : SamplingRows :=
  { s with numAcceptedTokensCpu := update s.numAcceptedTokensCpu row n }

/-- The mask of a row; before the tensor is allocated nothing is masked. -/
def maskRow (s : SamplingRows) (row : Nat) : Nat → Bool :=
  match s.allowedTokenIdsMask with
  | some m => m row
  | none => fun _ => false

end SamplingRows

/-- What a request owns of the sampling arrays. -/
@[ext] structure SamplingRow where
  temperature : Rat
  topP : Rat
  topK : Int
  frequencyPenalty : Rat
  presencePenalty : Rat
  repetitionPenalty : Rat
  numAccepted : Nat
  generator : Option Nat
  mask : Nat → Bool
  badWords : Option (List (List TokenId))

/-- The sampling row of a request as it is added. -/
def SamplingRow.ofRequest (vocabSize : Nat) (params : SamplingParams) (generator : Option Nat) :
    SamplingRow where
  temperature := if params.samplingType = .greedy then 0 else params.temperature
  topP := params.topP
  topK := effectiveTopK vocabSize params.topK
  frequencyPenalty := params.frequencyPenalty
  presencePenalty := params.presencePenalty
  repetitionPenalty := params.repetitionPenalty
  numAccepted := 1
  generator := generator
  mask := fun token => (truthy params.allowedTokenIds).elim false (maskOf · token)
  badWords := truthy params.badWordsTokenIds

namespace SamplingRows

variable {s : SamplingRows} {r i j last empty vocabSize : Nat} {params : SamplingParams}
  {generator : Option Nat}

/-- What a row holds. -/
def row (s : SamplingRows) (r : Nat) : SamplingRow where
  temperature := s.temperatureCpu r
  topP := s.topPCpu r
  topK := s.topKCpu r
  frequencyPenalty := s.frequencyPenaltiesCpu r
  presencePenalty := s.presencePenaltiesCpu r
  repetitionPenalty := s.repetitionPenaltiesCpu r
  numAccepted := s.numAcceptedTokensCpu r
  generator := s.generators r
  mask := s.maskRow r
  badWords := s.badWordsTokenIds r

/-- The dictionaries have no entry for the row. -/
def NoEntry (s : SamplingRows) (r : Nat) : Prop :=
  s.generators r = none ∧ s.badWordsTokenIds r = none

/-! ## The mask -/

theorem maskRow_addRow_of_ne (h : r ≠ i) :
    (s.addRow vocabSize params generator i).maskRow r = s.maskRow r := by
  simp only [maskRow, addRow]
  cases truthy params.allowedTokenIds with
  | none => rfl
  | some ids =>
    cases s.allowedTokenIdsMask with
    | none => exact update_of_ne h ..
    | some m => exact update_of_ne h ..

theorem maskRow_addRow (h : truthy params.allowedTokenIds = none → s.maskRow i = fun _ => false) :
    (s.addRow vocabSize params generator i).maskRow i =
      fun token => (truthy params.allowedTokenIds).elim false (maskOf · token) := by
  cases hids : truthy params.allowedTokenIds with
  | none =>
    simp only [addRow, hids]
    exact h hids
  | some ids =>
    simp only [addRow, hids]
    exact update_self ..

theorem maskRow_clearRow_of_ne (h : r ≠ i) : (s.clearRow i).maskRow r = s.maskRow r := by
  rw [maskRow, maskRow, clearRow]
  cases s.allowedTokenIdsMask with
  | none => rfl
  | some m => exact update_of_ne h ..

theorem maskRow_moveRow : (s.moveRow last empty).maskRow empty = s.maskRow last := by
  rw [maskRow, maskRow, moveRow]
  cases s.allowedTokenIdsMask with
  | none => rfl
  | some m => exact copyRow_dst

theorem maskRow_moveRow_of_ne (h : r ≠ empty) : (s.moveRow last empty).maskRow r = s.maskRow r := by
  rw [maskRow, maskRow, moveRow]
  cases s.allowedTokenIdsMask with
  | none => rfl
  | some m => exact copyRow_of_ne h

theorem maskRow_swapRows : (s.swapRows i j).maskRow r =
    if r = i ∨ r = j then s.maskRow j else s.maskRow r := by
  rw [maskRow, maskRow, maskRow, swapRows]
  cases s.allowedTokenIdsMask with
  | none => simp
  | some m =>
    show swapViews m i j r = _
    rw [swapViews]
    by_cases hj : r = j
    · simp [hj]
    · rw [update_of_ne hj]
      by_cases hi : r = i
      · simp [hi]
      · simp [hi, hj]

/-! ## The rows -/

/-- A request added to a row without entries gets its own parameters, unless it has no
allowed tokens and a mask was left there. -/
theorem row_addRow (hentry : s.NoEntry i) (hacc : s.numAcceptedTokensCpu i = 1)
    (hmask : truthy params.allowedTokenIds = none → s.maskRow i = fun _ => false) :
    (s.addRow vocabSize params generator i).row i =
      SamplingRow.ofRequest vocabSize params generator := by
  refine SamplingRow.ext (update_self ..) (update_self ..) (update_self ..) (update_self ..)
    (update_self ..) (update_self ..) hacc ?_ (maskRow_addRow hmask) ?_
  · show (match generator with
      | some g => update s.generators i (some g)
      | none => s.generators) i = generator
    cases generator with
    | none => exact hentry.1
    | some g => exact update_self ..
  · show (match truthy params.badWordsTokenIds with
      | some words => update s.badWordsTokenIds i (some words)
      | none => s.badWordsTokenIds) i = truthy params.badWordsTokenIds
    cases truthy params.badWordsTokenIds with
    | none => exact hentry.2
    | some words => exact update_self ..

theorem generators_addRow_of_ne (h : r ≠ i) :
    (s.addRow vocabSize params generator i).generators r = s.generators r := by
  cases generator with
  | none => rfl
  | some g => exact update_of_ne h ..

theorem badWords_addRow_of_ne (h : r ≠ i) :
    (s.addRow vocabSize params generator i).badWordsTokenIds r = s.badWordsTokenIds r := by
  simp only [addRow]
  cases truthy params.badWordsTokenIds with
  | none => rfl
  | some words => exact update_of_ne h ..

theorem row_addRow_of_ne (h : r ≠ i) :
    (s.addRow vocabSize params generator i).row r = s.row r :=
  SamplingRow.ext (update_of_ne h ..) (update_of_ne h ..) (update_of_ne h ..) (update_of_ne h ..)
    (update_of_ne h ..) (update_of_ne h ..) rfl
    (@generators_addRow_of_ne s r i vocabSize params generator h) (maskRow_addRow_of_ne h)
    (@badWords_addRow_of_ne s r i vocabSize params generator h)

theorem row_resetAccepted_of_ne (h : r ≠ i) : (s.resetAccepted i).row r = s.row r :=
  SamplingRow.ext rfl rfl rfl rfl rfl rfl (update_of_ne h ..) rfl rfl rfl

theorem row_setAccepted {n : Nat} :
    (s.setAccepted i n).row i = { s.row i with numAccepted := n } :=
  SamplingRow.ext rfl rfl rfl rfl rfl rfl (update_self ..) rfl rfl rfl

theorem row_setAccepted_of_ne {n : Nat} (h : r ≠ i) : (s.setAccepted i n).row r = s.row r :=
  SamplingRow.ext rfl rfl rfl rfl rfl rfl (update_of_ne h ..) rfl rfl rfl

theorem row_clearRow_of_ne (h : r ≠ i) : (s.clearRow i).row r = s.row r :=
  SamplingRow.ext rfl rfl rfl rfl rfl rfl rfl (update_of_ne h ..) (maskRow_clearRow_of_ne h)
    (update_of_ne h ..)

theorem row_moveRow (hentry : s.NoEntry empty) :
    (s.moveRow last empty).row empty = s.row last :=
  SamplingRow.ext copyRow_dst copyRow_dst copyRow_dst copyRow_dst copyRow_dst copyRow_dst
    copyRow_dst (moveEntry_dst (.inr hentry.1)) maskRow_moveRow (moveEntry_dst (.inr hentry.2))

theorem row_moveRow_of_ne (hl : r ≠ last) (he : r ≠ empty) :
    (s.moveRow last empty).row r = s.row r :=
  SamplingRow.ext (copyRow_of_ne he) (copyRow_of_ne he) (copyRow_of_ne he) (copyRow_of_ne he)
    (copyRow_of_ne he) (copyRow_of_ne he) (copyRow_of_ne he) (moveEntry_of_ne hl he)
    (maskRow_moveRow_of_ne he) (moveEntry_of_ne hl he)

theorem row_swapRows_left : (s.swapRows i j).row i = s.row j := by
  refine SamplingRow.ext swapRow_left swapRow_left swapRow_left swapRow_left swapRow_left
    swapRow_left swapRow_left ?_ ?_ ?_
  · exact (congrFun swapEntry_eq i).trans swapRow_left
  · exact maskRow_swapRows.trans (if_pos (.inl rfl))
  · exact (congrFun swapEntry_eq i).trans swapRow_left

theorem row_swapRows_right (hmask : s.maskRow i = s.maskRow j) :
    (s.swapRows i j).row j = s.row i := by
  refine SamplingRow.ext swapRow_right swapRow_right swapRow_right swapRow_right swapRow_right
    swapRow_right swapRow_right ?_ ?_ ?_
  · exact (congrFun swapEntry_eq j).trans swapRow_right
  · exact (maskRow_swapRows.trans (if_pos (.inr rfl))).trans hmask.symm
  · exact (congrFun swapEntry_eq j).trans swapRow_right

theorem row_swapRows_of_ne (hi : r ≠ i) (hj : r ≠ j) : (s.swapRows i j).row r = s.row r := by
  refine SamplingRow.ext (swapRow_of_ne hi hj) (swapRow_of_ne hi hj) (swapRow_of_ne hi hj)
    (swapRow_of_ne hi hj) (swapRow_of_ne hi hj) (swapRow_of_ne hi hj) (swapRow_of_ne hi hj) ?_ ?_ ?_
  · exact (congrFun swapEntry_eq r).trans (swapRow_of_ne hi hj)
  · exact maskRow_swapRows.trans (if_neg (by simp [hi, hj]))
  · exact (congrFun swapEntry_eq r).trans (swapRow_of_ne hi hj)

/-! ## Rows without entries -/

theorem noEntry_clearRow : (s.clearRow i).NoEntry i := ⟨update_self .., update_self ..⟩

theorem NoEntry.clearRow_of_ne (h : s.NoEntry r) (hr : r ≠ i) : (s.clearRow i).NoEntry r :=
  ⟨(update_of_ne hr ..).trans h.1, (update_of_ne hr ..).trans h.2⟩

theorem NoEntry.addRow_of_ne (h : s.NoEntry r) (hr : r ≠ i) :
    (s.addRow vocabSize params generator i).NoEntry r :=
  ⟨(generators_addRow_of_ne hr).trans h.1, (badWords_addRow_of_ne hr).trans h.2⟩

theorem noEntry_moveRow (h : last ≠ empty) : (s.moveRow last empty).NoEntry last :=
  ⟨moveEntry_src h, moveEntry_src h⟩

theorem NoEntry.moveRow_of_ne (h : s.NoEntry r) (hl : r ≠ last) (he : r ≠ empty) :
    (s.moveRow last empty).NoEntry r :=
  ⟨(moveEntry_of_ne hl he).trans h.1, (moveEntry_of_ne hl he).trans h.2⟩

theorem NoEntry.swapRows_of_ne (h : s.NoEntry r) (hi : r ≠ i) (hj : r ≠ j) :
    (s.swapRows i j).NoEntry r :=
  ⟨((congrFun swapEntry_eq r).trans (swapRow_of_ne hi hj)).trans h.1,
    ((congrFun swapEntry_eq r).trans (swapRow_of_ne hi hj)).trans h.2⟩

end SamplingRows

end MyOperator.Worker
