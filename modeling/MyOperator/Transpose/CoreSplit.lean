import MyOperator.Lib.WorkSplit

/-!
# Which core works on what in Transpose

The tiling on the host sets the number of cores and two factors, the kernel of
each mode turns its block index into a range of work units. In the tensor-move,
cut and gather modes at most `coreNum` cores are set and their ranges take every
unit once. In the small-shape mode the ranges do too, but rounding a core's bytes
down leaves the remainder to one core more than there are, whenever a core's
share is already a whole number of 128-byte lines and the cores do not divide the
volume.
-/

namespace MyOperator.Transpose

open Lib Nat

/-- `Ops::Base::CeilDiv` for a positive divisor. -/
def ceilDiv (x y : Nat) : Nat := (x + y - 1) / y

/-- The modes that set cores: `cut` stands for CUT_ONCE, CUT_TWICE, BIG_DIM and
N_LAST_TRANSPOSE, which share `SetRealCoreNumAndBlkFactor` and their `Process`. -/
inductive SplitMode where
  | tensorMove
  | smallShape
  | cut
  | gather
  deriving DecidableEq, Repr

/-- The fields of the tiling data that the kernels derive their ranges from. -/
structure BlkSplit where
  realCoreNum : Nat
  blkFactor : Nat
  blkTailFactor : Nat
  deriving DecidableEq, Repr

def SMALL_SHAPE_BYTES_THRES_HOLD : Nat := 8000000

def SMALL_SHAPE_SPLIT_BYTES_ALIGN_SIZE : Nat := 128

/-! ## The host -/

def calcBlockSplitInfoForTensorMove (totalVolumeActual coreNum : Nat) : BlkSplit :=
  if totalVolumeActual < coreNum then
    { realCoreNum := 1, blkFactor := totalVolumeActual, blkTailFactor := 0 }
  else
    { realCoreNum := coreNum
      blkFactor := totalVolumeActual / coreNum
      blkTailFactor := totalVolumeActual % coreNum }

/-- The elements of a core, its bytes rounded up to whole lines. -/
def ceilAlignFactor (blkFactor eleLenInBytes : Nat) : Nat :=
  ceilDiv (blkFactor * eleLenInBytes) SMALL_SHAPE_SPLIT_BYTES_ALIGN_SIZE *
    SMALL_SHAPE_SPLIT_BYTES_ALIGN_SIZE / eleLenInBytes

/-- The elements of a core, its bytes rounded down to whole lines. -/
def floorAlignFactor (blkFactor eleLenInBytes : Nat) : Nat :=
  blkFactor * eleLenInBytes / SMALL_SHAPE_SPLIT_BYTES_ALIGN_SIZE *
    SMALL_SHAPE_SPLIT_BYTES_ALIGN_SIZE / eleLenInBytes

/-- `floorAlignFactor * (coreNum - 1)` never exceeds the volume, so the
subtraction of the source does not go below zero. -/
def calcBlockSplitInfoForSmallShape (totalElements eleLenInBytes coreNum : Nat) : BlkSplit :=
  if totalElements < coreNum then
    { realCoreNum := totalElements, blkFactor := 1, blkTailFactor := 0 }
  else
    let blkFactor := totalElements / coreNum
    let ceilAlign := ceilAlignFactor blkFactor eleLenInBytes
    let floorAlign := floorAlignFactor blkFactor eleLenInBytes
    if totalElements - floorAlign * (coreNum - 1) ≤ floorAlign then
      { realCoreNum := coreNum
        blkFactor := floorAlign
        blkTailFactor := totalElements % floorAlign }
    else
      { realCoreNum := ceilDiv totalElements ceilAlign
        blkFactor := ceilAlign
        blkTailFactor := totalElements % ceilAlign }

/-- `work` is the number of outer loops, `coreNum` in the source's argument. -/
def setRealCoreNumAndBlkFactor (work coreNum : Nat) : BlkSplit :=
  if work ≥ coreNum then
    { realCoreNum := coreNum, blkFactor := work / coreNum, blkTailFactor := work % coreNum }
  else
    { realCoreNum := work, blkFactor := 1, blkTailFactor := 0 }

/-- `TransposeGatherTiling::CalcBlockSplitInfo` from the loop over the axes on, which
leaves the number of work units in `totalElems`. `usedCoreCnt` is an `uint32_t`;
`none` is `GRAPH_FAILED`, on which the tiling falls back to the other modes. -/
def calcBlockSplitInfoForGather (totalElems coreNum : Nat) : Option BlkSplit :=
  let usedCoreCnt := ceilDiv totalElems (ceilDiv totalElems coreNum) % 2 ^ 32
  if usedCoreCnt < coreNum / 2 % 2 ^ 32 then none
  else
    let blkFactor := ceilDiv totalElems usedCoreCnt
    some
      { realCoreNum := usedCoreCnt
        blkFactor := blkFactor
        blkTailFactor := totalElems - (usedCoreCnt - 1) * blkFactor }

/-- What the tiling of a mode sets for `work` units (elements in the tensor-move and
small-shape modes, loop steps in the others) of `eleLenInBytes` bytes each. -/
def calcBlockSplitInfo (mode : SplitMode) (work eleLenInBytes coreNum : Nat) : Option BlkSplit :=
  match mode with
  | .tensorMove => some (calcBlockSplitInfoForTensorMove work coreNum)
  | .smallShape => some (calcBlockSplitInfoForSmallShape work eleLenInBytes coreNum)
  | .cut => some (setRealCoreNumAndBlkFactor work coreNum)
  | .gather => calcBlockSplitInfoForGather work coreNum

/-! ## The kernels -/

/-- The first unit of a core and the number of its units. -/
structure CoreRange where
  start : Nat
  num : Nat
  deriving DecidableEq, Repr

/-- `Process` of the tensor-move kernel and, line for line, of the kernels of the cut
modes: the first `blkTailFactor` cores take one unit more. -/
def processTail (t : BlkSplit) (blockIdx : Nat) : Option CoreRange :=
  if blockIdx ≥ t.realCoreNum then none
  else if blockIdx < t.blkTailFactor then
    some { start := blockIdx * t.blkFactor + blockIdx, num := t.blkFactor + 1 }
  else
    some { start := blockIdx * t.blkFactor + t.blkTailFactor, num := t.blkFactor }

/-- `TransposeSmallShape::Process`; offsets and counts are `uint32_t`. -/
def processSmallShape (t : BlkSplit) (blockIdx : Nat) : Option CoreRange :=
  if blockIdx ≥ t.realCoreNum then none
  else
    let blkStartOffset := blockIdx * t.blkFactor % 2 ^ 32
    if blockIdx = t.realCoreNum - 1 ∧ t.blkTailFactor ≠ 0 then
      some { start := blkStartOffset, num := t.blkTailFactor % 2 ^ 32 }
    else
      some { start := blkStartOffset, num := t.blkFactor % 2 ^ 32 }

/-- `TransposeWithGather::Process` with `GetCoreLoopRange`, from `blkBeg` to `blkEnd`. -/
def processGather (t : BlkSplit) (blockIdx : Nat) : Option CoreRange :=
  if blockIdx ≥ t.realCoreNum then none
  else if blockIdx ≠ t.realCoreNum - 1 then
    some { start := blockIdx * t.blkFactor, num := t.blkFactor }
  else
    some { start := blockIdx * t.blkFactor, num := t.blkTailFactor }

def process (mode : SplitMode) (t : BlkSplit) (blockIdx : Nat) : Option CoreRange :=
  match mode with
  | .tensorMove => processTail t blockIdx
  | .smallShape => processSmallShape t blockIdx
  | .cut => processTail t blockIdx
  | .gather => processGather t blockIdx

/-! ## What a split has to do -/

/-- The cores `i < realCoreNum` get ranges of units that are not empty, stay inside the
`work` units and take each of them exactly once; the others get nothing. -/
structure RangesSplit (mode : SplitMode) (work : Nat) (t : BlkSplit) : Prop where
  busy : ∀ i < t.realCoreNum, ∃ r, process mode t i = some r ∧ 0 < r.num ∧ r.start + r.num ≤ work
  idle : ∀ i, t.realCoreNum ≤ i → process mode t i = none
  once : ∀ u < work, ∃! i : Nat, ∃ r, process mode t i = some r ∧ r.start ≤ u ∧ u < r.start + r.num

/-- The split `t` uses between one and `coreNum` cores, and their ranges split the work. -/
structure CoreSplit (mode : SplitMode) (work coreNum : Nat) (t : BlkSplit) : Prop where
  cores_pos : 1 ≤ t.realCoreNum
  cores_le : t.realCoreNum ≤ coreNum
  ranges : RangesSplit mode work t

variable {mode : SplitMode} {work eleLenInBytes coreNum : Nat} {t : BlkSplit}

theorem process_idle (mode : SplitMode) {i : Nat} (hi : t.realCoreNum ≤ i) :
    process mode t i = none := by
  cases mode <;> simp [process, processTail, processSmallShape, processGather, hi]

/-- A split of the units in the sense of the library, computed by the kernel. -/
theorem RangesSplit.of_splits {start len : Nat → Nat} (h : Splits work t.realCoreNum start len)
    (hp : ∀ i < t.realCoreNum, process mode t i = some ⟨start i, len i⟩) :
    RangesSplit mode work t where
  busy := by
    intro i hi
    exact ⟨_, hp i hi, h.pos i hi, h.inside i hi⟩
  idle := by
    intro i hi
    exact process_idle mode hi
  once := by
    intro u hu
    obtain ⟨i, ⟨hi, hin⟩, huniq⟩ := h.once u hu
    refine ⟨i, ⟨_, hp i hi, hin⟩, ?_⟩
    intro j hj
    obtain ⟨r, hr, hjn⟩ := hj
    have hj : j < t.realCoreNum := by
      by_contra hge
      rw [process_idle mode (by omega)] at hr
      cases hr
    rw [hp j hj, Option.some.injEq] at hr
    subst hr
    exact huniq j ⟨hj, hjn⟩

/-! ## The first cores take one unit more -/

theorem processTail_balanced {i : Nat} (hi : i < coreNum) :
    processTail ⟨coreNum, work / coreNum, work % coreNum⟩ i =
      some ⟨i * (work / coreNum) + min i (work % coreNum),
        work / coreNum + if i < work % coreNum then 1 else 0⟩ := by
  unfold processTail
  dsimp only
  rw [if_neg (by omega)]
  by_cases hr : i < work % coreNum
  · rw [if_pos hr, if_pos hr, min_eq_left hr.le]
  · rw [if_neg hr, if_neg hr, min_eq_right (by omega), add_zero]

theorem balanced_split (hmode : mode = .tensorMove ∨ mode = .cut) (hc : 0 < coreNum)
    (hw : coreNum ≤ work) : RangesSplit mode work ⟨coreNum, work / coreNum, work % coreNum⟩ := by
  refine RangesSplit.of_splits (Splits.balanced hc hw) ?_
  intro i hi
  rcases hmode with rfl | rfl <;> exact processTail_balanced hi

theorem single_split (hw : 0 < work) : RangesSplit .tensorMove work ⟨1, work, 0⟩ := by
  have hsum : (1 - 1) * work + work = work := by simp
  refine RangesSplit.of_splits (Splits.blocks one_pos hw hw hsum) ?_
  intro i hi
  have hi : i < 1 := hi
  obtain rfl : i = 0 := by omega
  simp [process, processTail]

theorem unit_split (hw : 0 < work) : RangesSplit .cut work ⟨work, 1, 0⟩ := by
  have hsum : (work - 1) * 1 + 1 = work := by omega
  refine RangesSplit.of_splits (Splits.blocks hw one_pos one_pos hsum) ?_
  intro i hi
  simp [process, processTail, not_le.mpr hi]

theorem tensorMove_split (hw : 0 < work) (hc : 0 < coreNum) :
    CoreSplit .tensorMove work coreNum (calcBlockSplitInfoForTensorMove work coreNum) := by
  unfold calcBlockSplitInfoForTensorMove
  by_cases hlt : work < coreNum
  · rw [if_pos hlt]
    exact ⟨le_refl 1, hc, single_split hw⟩
  · rw [if_neg hlt]
    exact ⟨hc, le_rfl, balanced_split (.inl rfl) hc (by omega)⟩

theorem cut_split (hw : 0 < work) (hc : 0 < coreNum) :
    CoreSplit .cut work coreNum (setRealCoreNumAndBlkFactor work coreNum) := by
  unfold setRealCoreNumAndBlkFactor
  by_cases hge : work ≥ coreNum
  · rw [if_pos hge]
    exact ⟨hc, le_rfl, balanced_split (.inr rfl) hc hge⟩
  · rw [if_neg hge]
    have hle : work ≤ coreNum := by omega
    exact ⟨hw, hle, unit_split hw⟩

/-! ## The last core takes the rest -/

section CeilDiv

variable {x y : Nat}

theorem ceilDiv_le_iff (hy : 0 < y) (z : Nat) : ceilDiv x y ≤ z ↔ x ≤ z * y := by
  rw [ceilDiv, div_le_iff_le_mul_add_pred hy, mul_comm y z]
  omega

theorem le_ceilDiv_mul (hy : 0 < y) : x ≤ ceilDiv x y * y := (ceilDiv_le_iff hy _).mp le_rfl

theorem ceilDiv_pos (hx : 0 < x) (hy : 0 < y) : 0 < ceilDiv x y := by
  rw [pos_iff_ne_zero]
  intro h0
  have := le_ceilDiv_mul (x := x) hy
  rw [h0] at this
  omega

theorem pred_ceilDiv_mul_lt (hx : 0 < x) (hy : 0 < y) : (ceilDiv x y - 1) * y < x := by
  have hpos := ceilDiv_pos hx hy
  have hnot : ¬ ceilDiv x y ≤ ceilDiv x y - 1 := by omega
  rw [ceilDiv_le_iff hy] at hnot
  omega

end CeilDiv

theorem gather_ranges {used fac : Nat} (hu : 0 < used) (hf : 0 < fac)
    (hlast : (used - 1) * fac < work) :
    RangesSplit .gather work ⟨used, fac, work - (used - 1) * fac⟩ := by
  refine RangesSplit.of_splits
    (Splits.blocks hu hf (Nat.sub_pos_of_lt hlast) (Nat.add_sub_cancel' hlast.le)) ?_
  intro i hi
  have hi : i < used := hi
  simp only [process, processGather]
  rw [if_neg (by omega)]
  by_cases hi' : i = used - 1
  · rw [if_neg (by omega), if_pos hi']
  · rw [if_pos hi', if_neg hi']

theorem gather_split (hw : 0 < work) (hc : 0 < coreNum) (hc32 : coreNum < 2 ^ 32)
    (ht : calcBlockSplitInfoForGather work coreNum = some t) : CoreSplit .gather work coreNum t := by
  have hk := ceilDiv_pos hw hc
  have hused := ceilDiv_pos hw hk
  have hle : ceilDiv work (ceilDiv work coreNum) ≤ coreNum := by
    rw [ceilDiv_le_iff hk, mul_comm]
    exact le_ceilDiv_mul hc
  simp only [calcBlockSplitInfoForGather, mod_eq_of_lt (lt_of_le_of_lt hle hc32)] at ht
  split at ht
  · cases ht
  rw [Option.some.injEq] at ht
  subst ht
  -- the recomputed factor is at most the first one, so the last core is not empty
  have hfac : ceilDiv work (ceilDiv work (ceilDiv work coreNum)) ≤ ceilDiv work coreNum := by
    rw [ceilDiv_le_iff hused, mul_comm]
    exact le_ceilDiv_mul hk
  exact ⟨hused, hle, gather_ranges hused (ceilDiv_pos hw hused)
    (Nat.lt_of_le_of_lt (Nat.mul_le_mul_left _ hfac) (pred_ceilDiv_mul_lt hw hk))⟩

/-! ## The small-shape mode -/

theorem smallShape_ranges {used fac : Nat} (hu : 0 < used) (hf : 0 < fac)
    (hlast : (used - 1) * fac < work) (hle : work ≤ used * fac) (h32 : work < 2 ^ 32)
    (hf32 : fac < 2 ^ 32) : RangesSplit .smallShape work ⟨used, fac, work % fac⟩ := by
  obtain ⟨v, rfl⟩ : ∃ v, used = v + 1 := ⟨used - 1, by omega⟩
  rw [Nat.add_sub_cancel] at hlast
  rw [Nat.add_mul] at hle
  have hmod : work % fac = (work - v * fac) % fac := by
    rw [mul_comm v fac] at hlast ⊢
    exact (sub_mul_mod hlast.le).symm
  have hsum : v * fac + (if work % fac ≠ 0 then work % fac else fac) = work := by
    rcases lt_or_ge (work - v * fac) fac with hlt | hge
    · rw [mod_eq_of_lt hlt] at hmod
      rw [if_pos (by omega)]
      omega
    · have hfull : work - v * fac = fac := by omega
      rw [hfull, mod_self] at hmod
      rw [if_neg (by omega)]
      omega
  have hpos : 0 < (if work % fac ≠ 0 then work % fac else fac) := by
    split <;> omega
  refine RangesSplit.of_splits
    (Splits.blocks hu hf hpos (show (v + 1 - 1) * fac + _ = work from hsum)) ?_
  intro i hi
  have hi : i < v + 1 := hi
  have hstart : i * fac % 2 ^ 32 = i * fac := by
    refine mod_eq_of_lt (lt_of_le_of_lt ?_ h32)
    exact (Nat.mul_le_mul_right fac (by omega : i ≤ v)).trans hlast.le
  have htail : work % fac % 2 ^ 32 = work % fac :=
    mod_eq_of_lt (Nat.lt_of_le_of_lt (mod_le _ _) h32)
  simp only [process, processSmallShape, hstart, htail, mod_eq_of_lt hf32]
  rw [if_neg (by omega)]
  by_cases hl : i = v + 1 - 1
  · by_cases h0 : work % fac ≠ 0
    · rw [if_pos ⟨hl, h0⟩, if_pos hl, if_pos h0]
    · rw [if_neg (fun h => h0 h.2), if_pos hl, if_neg h0]
  · rw [if_neg (fun h => hl h.1), if_neg hl]

theorem floorAlignFactor_le (he : 0 < eleLenInBytes) (b : Nat) :
    floorAlignFactor b eleLenInBytes ≤ b := by
  calc b * eleLenInBytes / SMALL_SHAPE_SPLIT_BYTES_ALIGN_SIZE *
        SMALL_SHAPE_SPLIT_BYTES_ALIGN_SIZE / eleLenInBytes
      ≤ b * eleLenInBytes / eleLenInBytes := Nat.div_le_div_right (div_mul_le_self _ _)
    _ = b := Nat.mul_div_cancel b he

theorem le_ceilAlignFactor (he : 0 < eleLenInBytes) (b : Nat) :
    b ≤ ceilAlignFactor b eleLenInBytes := by
  unfold ceilAlignFactor
  rw [Nat.le_div_iff_mul_le he]
  exact le_ceilDiv_mul (by decide)

theorem ceilAlignFactor_le (he : 0 < eleLenInBytes) (b : Nat) :
    ceilAlignFactor b eleLenInBytes ≤ b + 127 := by
  have hup : ceilDiv (b * eleLenInBytes) SMALL_SHAPE_SPLIT_BYTES_ALIGN_SIZE *
      SMALL_SHAPE_SPLIT_BYTES_ALIGN_SIZE ≤ b * eleLenInBytes + 127 := by
    simp only [ceilDiv, SMALL_SHAPE_SPLIT_BYTES_ALIGN_SIZE]
    omega
  calc ceilDiv (b * eleLenInBytes) SMALL_SHAPE_SPLIT_BYTES_ALIGN_SIZE *
        SMALL_SHAPE_SPLIT_BYTES_ALIGN_SIZE / eleLenInBytes
      ≤ (127 + b * eleLenInBytes) / eleLenInBytes := by
        rw [add_comm]
        exact Nat.div_le_div_right hup
    _ = 127 / eleLenInBytes + b := add_mul_div_right 127 b he
    _ ≤ b + 127 := by
        have := div_le_self 127 eleLenInBytes
        omega

/-- Rounding up makes room for another element when the share ends inside a line and
the element fits into the rest of it. -/
theorem lt_ceilAlignFactor_iff (he : 0 < eleLenInBytes) (b : Nat) :
    b < ceilAlignFactor b eleLenInBytes ↔
      0 < b * eleLenInBytes % 128 ∧ b * eleLenInBytes % 128 + eleLenInBytes ≤ 128 := by
  unfold ceilAlignFactor
  rw [← succ_le_iff, Nat.le_div_iff_mul_le he, succ_mul]
  simp only [ceilDiv, SMALL_SHAPE_SPLIT_BYTES_ALIGN_SIZE]
  omega

/-- The test for the rounded-down share passes only when it leaves nothing over. -/
theorem floor_branch_iff {f : Nat} (hc : 0 < coreNum) (hf : f ≤ work / coreNum) :
    work - f * (coreNum - 1) ≤ f ↔ work = f * coreNum := by
  obtain ⟨c, rfl⟩ : ∃ c, coreNum = c + 1 := ⟨coreNum - 1, by omega⟩
  have hle : f * (c + 1) ≤ work := (Nat.le_div_iff_mul_le hc).mp hf
  rw [Nat.add_sub_cancel, Nat.mul_add] at *
  omega

/-- What the small-shape tiling yields from `coreNum` elements on: its ranges are a
split, and the cores suffice when they divide the volume or rounding up helps. -/
theorem smallShape_aligned (hc : 0 < coreNum) (he : 0 < eleLenInBytes)
    (hge : coreNum ≤ work) (hbytes : work * eleLenInBytes ≤ SMALL_SHAPE_BYTES_THRES_HOLD) :
    let t := calcBlockSplitInfoForSmallShape work eleLenInBytes coreNum
    1 ≤ t.realCoreNum ∧ RangesSplit .smallShape work t ∧
      (t.realCoreNum ≤ coreNum ↔
        coreNum ∣ work ∨ work / coreNum < ceilAlignFactor (work / coreNum) eleLenInBytes) := by
  have hw : 0 < work := by omega
  have hsize : work ≤ 8000000 := (Nat.le_mul_of_pos_right work he).trans hbytes
  have hshare : 0 < work / coreNum := Nat.div_pos hge hc
  have hfloor := floorAlignFactor_le he (work / coreNum)
  have hceil := le_ceilAlignFactor he (work / coreNum)
  have hceil' := ceilAlignFactor_le he (work / coreNum)
  have hdiv := div_le_self work coreNum
  simp only [calcBlockSplitInfoForSmallShape, if_neg (Nat.not_lt.mpr hge)]
  generalize floorAlignFactor (work / coreNum) eleLenInBytes = f at *
  generalize ceilAlignFactor (work / coreNum) eleLenInBytes = g at *
  by_cases htest : work - f * (coreNum - 1) ≤ f
  · rw [if_pos htest]
    have hexact := (floor_branch_iff hc hfloor).mp htest
    have hf : 0 < f := Nat.pos_of_mul_pos_right (hexact ▸ hw)
    have hlast : (coreNum - 1) * f < work := by
      rw [hexact, Nat.mul_comm f]
      exact Nat.mul_lt_mul_of_pos_right (by omega) hf
    refine ⟨hc, smallShape_ranges hc hf hlast (by rw [hexact, Nat.mul_comm]) (by omega)
      (by omega), ?_⟩
    exact ⟨fun _ => .inl ⟨f, by rw [hexact, mul_comm]⟩, fun _ => le_rfl⟩
  · rw [if_neg htest]
    have hg : 0 < g := by omega
    have hused := ceilDiv_pos hw hg
    refine ⟨hused, smallShape_ranges hused hg (pred_ceilDiv_mul_lt hw hg) (le_ceilDiv_mul hg)
      (by omega) (by omega), ?_⟩
    show ceilDiv work g ≤ coreNum ↔ _
    rw [ceilDiv_le_iff hg]
    constructor
    · intro hle
      by_cases hroom : work / coreNum < g
      · exact .inr hroom
      · -- a share that is not rounded up covers the work only when nothing is over
        obtain rfl : g = work / coreNum := by omega
        exact .inl ⟨work / coreNum, le_antisymm hle (mul_div_le work coreNum)⟩
    · rintro (hdvd | hroom)
      · calc work = coreNum * (work / coreNum) := (Nat.mul_div_cancel' hdvd).symm
          _ ≤ coreNum * g := Nat.mul_le_mul_left _ hceil
      · calc work ≤ coreNum * (work / coreNum + 1) := (lt_mul_div_succ work hc).le
          _ ≤ coreNum * g := Nat.mul_le_mul_left _ hroom

theorem smallShape_few (hw : 0 < work) (hlt : work < coreNum)
    (hbytes : work ≤ SMALL_SHAPE_BYTES_THRES_HOLD) :
    CoreSplit .smallShape work coreNum
      (calcBlockSplitInfoForSmallShape work eleLenInBytes coreNum) := by
  have h32 : work < 2 ^ 32 := lt_of_le_of_lt hbytes (by decide)
  unfold calcBlockSplitInfoForSmallShape
  rw [if_pos hlt]
  refine ⟨hw, hlt.le, ?_⟩
  have hranges : RangesSplit .smallShape work ⟨work, 1, work % 1⟩ :=
    smallShape_ranges hw one_pos (by omega) (by omega) h32 (by decide)
  rwa [mod_one] at hranges

/-! ## All modes -/

/-- **The core split.** A tiling uses between one and `coreNum` cores, whose ranges are
non-empty, disjoint and cover the work, in every mode but the small-shape one; there it
does when there are fewer elements than cores, or the cores divide the volume, or a
core's share of bytes ends inside a 128-byte line with room for one more element. -/
theorem coreSplit_iff (mode : SplitMode) (work eleLenInBytes coreNum : Nat) (hw : 0 < work)
    (he : 0 < eleLenInBytes) (hc : 0 < coreNum) (hc32 : coreNum < 2 ^ 32)
    (hbytes : mode = .smallShape → work * eleLenInBytes ≤ SMALL_SHAPE_BYTES_THRES_HOLD) :
    (∀ t, calcBlockSplitInfo mode work eleLenInBytes coreNum = some t →
        CoreSplit mode work coreNum t) ↔
      (mode = .smallShape → work < coreNum ∨ coreNum ∣ work ∨
        (0 < work / coreNum * eleLenInBytes % 128 ∧
          work / coreNum * eleLenInBytes % 128 + eleLenInBytes ≤ 128)) := by
  cases mode with
  | tensorMove => simp [calcBlockSplitInfo, tensorMove_split hw hc]
  | cut => simp [calcBlockSplitInfo, cut_split hw hc]
  | gather =>
    simp only [reduceCtorEq, false_implies, iff_true]
    intro t ht
    exact gather_split hw hc hc32 ht
  | smallShape =>
    simp only [calcBlockSplitInfo, Option.some.injEq, forall_eq', true_implies]
    have hbytes := hbytes rfl
    rcases lt_or_ge work coreNum with hlt | hge
    · have hsize : work ≤ SMALL_SHAPE_BYTES_THRES_HOLD :=
        (Nat.le_mul_of_pos_right work he).trans hbytes
      simp [hlt, smallShape_few hw hlt hsize]
    · obtain ⟨hpos, hranges, hle⟩ := smallShape_aligned hc he hge hbytes
      rw [← lt_ceilAlignFactor_iff he, or_iff_right (not_lt.mpr hge), ← hle]
      exact ⟨fun h => h.cores_le, fun h => ⟨hpos, h, hranges⟩⟩

theorem coreSplit_iff_float :
    (∀ t, calcBlockSplitInfo .smallShape 2056 4 64 = some t → CoreSplit .smallShape 2056 64 t) ↔
      (SplitMode.smallShape = .smallShape → 2056 < 64 ∨ 64 ∣ 2056 ∨
        (0 < 2056 / 64 * 4 % 128 ∧ 2056 / 64 * 4 % 128 + 4 ≤ 128)) :=
  coreSplit_iff .smallShape 2056 4 64 (by decide) (by decide) (by decide) (by decide)
    (fun _ => by decide)

/-- A float32 tensor of shape 2 × 5 × 205 transposed by (1, 0, 2) on 64 cores: 2050 elements
are 32 for each core, exactly one line, and two over, which go to a 65th core. -/
theorem coreSplit_overflow :
    ¬ ∀ t, calcBlockSplitInfo .smallShape (2 * 5 * 205) 4 64 = some t →
      CoreSplit .smallShape (2 * 5 * 205) 64 t := by
  intro h
  have ht : calcBlockSplitInfo .smallShape (2 * 5 * 205) 4 64 = some ⟨65, 32, 2⟩ := by decide
  have hle : 65 ≤ 64 := (h _ ht).cores_le
  omega

end MyOperator.Transpose
