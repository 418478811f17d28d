import MyOperator.Lib.Repeats
import MyOperator.Sched.Update

/-!
# Repetitions at the end of a sequence

`check_sequence_repetition` looks for a pattern whose copies the sequence ends with. The
definitions here read the tokens as the source does, from the end and with an error for
an index that is out of range; no such error comes up, so the stop check may use the
definition without them.
-/

namespace MyOperator.Sched

open Lib List

/-- `__post_init__` of `RepetitionDetectionParams`. -/
def RepetitionDetectionParams.postInit (params : RepetitionDetectionParams) : Except PyError Unit :=
  if params.maxPatternSize < 0 ∨ params.minPatternSize < 0 ∨
      params.minPatternSize > params.maxPatternSize then
    .error (.ValueError <| "max_pattern_size, min_pattern_size must be >=0, " ++
      "with min_pattern_size <= max_pattern_size. " ++
      "Set both to 0 to disable repetitive pattern detection.")
  else if params.maxPatternSize > 0 ∧ params.minCount < 2 then
    .error (.ValueError <| "min_count must be >= 2 to detect repetitive patterns " ++
      "in engine output. If you do not wish to detect repetitive " ++
      "patterns, set max_pattern_size to 0.")
  else .ok ()

/-- `l[-k]`. -/
def listIndexFromEnd {α : Type} (l : List α) : Nat → Except PyError α
  | 0 => listIndex l 0
  | k + 1 => listIndex l.reverse k

namespace Indexed

/-- The inner loop of `_has_repeating_pattern`, with the repetitions left. -/
def repeatsTarget (tokenIds : List TokenId) (patternLen n : Nat) (targetToken : TokenId) :
    List Nat → Except PyError Bool
  | [] => .ok true
  | m :: ms => do
      let token ← listIndexFromEnd tokenIds (patternLen * m + n)
      if token ≠ targetToken then .ok false
      else repeatsTarget tokenIds patternLen n targetToken ms

/-- The outer loop of `_has_repeating_pattern`, with the places left. -/
def repeatsTail (tokenIds : List TokenId) (patternLen repetitionMinCount : Nat) :
    List Nat → Except PyError Bool
  | [] => .ok true
  | n :: ns => do
      let targetToken ← listIndexFromEnd tokenIds n
      let same ← repeatsTarget tokenIds patternLen n targetToken
        (List.range' 1 (repetitionMinCount - 1))
      if same then repeatsTail tokenIds patternLen repetitionMinCount ns else .ok false

def hasRepeatingPattern (tokenIds : List TokenId) (patternLen repetitionMinCount : Nat) :
    Except PyError Bool :=
  repeatsTail tokenIds patternLen repetitionMinCount (List.range' 1 patternLen)

/-- The loop of `check_sequence_repetition`, with the pattern lengths left. -/
def searchPattern (tokenIds : List TokenId) (minCount : Int) : List Nat → Except PyError Bool
  | [] => .ok false
  | patternLen :: patternLens =>
    if (patternLen : Int) * minCount > tokenIds.length then .ok false
    else do
      let found ← hasRepeatingPattern tokenIds patternLen minCount.toNat
      if found then .ok true else searchPattern tokenIds minCount patternLens

def checkSequenceRepetition (tokenIds : List TokenId) (params : RepetitionDetectionParams) :
    Except PyError Bool :=
  let minPatternSize := if params.minPatternSize ≤ 0 then 1 else params.minPatternSize
  if params.maxPatternSize ≤ 0 ∨ params.minCount < 2 ∨ minPatternSize > params.maxPatternSize then
    .ok false
  else
    searchPattern tokenIds params.minCount
      ((range (params.maxPatternSize - minPatternSize + 1).toNat).map (minPatternSize.toNat + ·))

variable {tokenIds : List TokenId} {patternLen repetitionMinCount : Nat}

theorem listIndexFromEnd_eq_ok {α : Type} {l : List α} {k : Nat} (h : k < l.length) :
    ∃ a, listIndexFromEnd l (k + 1) = .ok a ∧ l.reverse[k]? = some a := by
  have hk : k < l.reverse.length := by
    rw [length_reverse]
    exact h
  refine ⟨l.reverse[k], ?_, getElem?_eq_getElem hk⟩
  show listIndex l.reverse k = .ok l.reverse[k]
  unfold listIndex
  rw [getElem?_eq_getElem hk]

theorem repeatsTarget_eq {n : Nat} {targetToken : TokenId} {ms : List Nat}
    (h : ∀ m ∈ ms, patternLen * (m + 1) + n < tokenIds.length) :
    repeatsTarget tokenIds patternLen (n + 1) targetToken (ms.map (1 + ·)) = .ok (ms.all fun m =>
        decide (tokenIds.reverse[patternLen * (m + 1) + n]? = some targetToken)) := by
  induction ms with
  | nil => rfl
  | cons m ms ih =>
    obtain ⟨token, hread, hget⟩ := listIndexFromEnd_eq_ok (h m mem_cons_self)
    rw [map_cons, all_cons, hget]
    unfold repeatsTarget
    rw [add_comm 1 m, ← add_assoc, hread, ok_bind]
    by_cases heq : token = targetToken
    · rw [if_neg (not_not.mpr heq), ih fun m hm => h m (mem_cons_of_mem _ hm), heq,
        decide_eq_true rfl, Bool.true_and]
    · rw [if_pos heq, decide_eq_false fun hs => heq (Option.some.inj hs), Bool.false_and]

section

variable (hfit : patternLen * repetitionMinCount ≤ tokenIds.length)
  (hcount : 0 < repetitionMinCount)
include hfit hcount

theorem repeatsTail_eq {ns : List Nat} (h : ∀ n ∈ ns, n < patternLen) :
    repeatsTail tokenIds patternLen repetitionMinCount (ns.map (1 + ·)) =
      .ok (ns.all fun n => (range (repetitionMinCount - 1)).all fun m =>
        decide (tokenIds.reverse[patternLen * (m + 1) + n]? = tokenIds.reverse[n]?)) := by
  -- all copies of the pattern are in the list
  have hin : ∀ n < patternLen, ∀ m < repetitionMinCount, patternLen * m + n < tokenIds.length := by
    intro n hn m hm
    have hmul : patternLen * (m + 1) ≤ patternLen * repetitionMinCount := Nat.mul_le_mul_left _ hm
    rw [Nat.mul_succ] at hmul
    omega
  induction ns with
  | nil => rfl
  | cons n ns ih =>
    have hn := h n mem_cons_self
    have hlt := hin n hn 0 hcount
    rw [Nat.mul_zero, zero_add] at hlt
    obtain ⟨targetToken, hread, hget⟩ := listIndexFromEnd_eq_ok hlt
    rw [map_cons, all_cons, hget]
    unfold repeatsTail
    rw [add_comm 1 n, hread, ok_bind, range'_eq_map_range, repeatsTarget_eq, ok_bind,
      ih fun n hn => h n (mem_cons_of_mem _ hn)]
    · cases (range (repetitionMinCount - 1)).all fun m =>
          decide (tokenIds.reverse[patternLen * (m + 1) + n]? = some targetToken) with
      | true => rfl
      | false => rfl
    · intro m hm
      rw [mem_range] at hm
      exact hin n hn (m + 1) (by omega)

theorem hasRepeatingPattern_eq :
    hasRepeatingPattern tokenIds patternLen repetitionMinCount =
      .ok (Sched.hasRepeatingPattern tokenIds patternLen repetitionMinCount) := by
  unfold hasRepeatingPattern
  rw [range'_eq_map_range]
  exact repeatsTail_eq hfit hcount fun n hn => mem_range.mp hn

end

theorem searchPattern_eq {minCount : Int} (hcount : 2 ≤ minCount) (patternLens : List Nat) :
    searchPattern tokenIds minCount patternLens = .ok ((patternLens.takeWhile
          fun (len : Nat) => decide ((len : Int) * minCount ≤ tokenIds.length)).any
        fun len => Sched.hasRepeatingPattern tokenIds len minCount.toNat) := by
  induction patternLens with
  | nil => rfl
  | cons len patternLens ih =>
    unfold searchPattern
    rw [takeWhile_cons]
    by_cases hfit : (len : Int) * minCount ≤ tokenIds.length
    · rw [if_neg (Int.not_lt.mpr hfit), decide_eq_true hfit, if_pos rfl, any_cons,
        hasRepeatingPattern_eq, ok_bind, ih]
      · cases Sched.hasRepeatingPattern tokenIds len minCount.toNat with
        | true => rfl
        | false => rfl
      · have hnat : (minCount.toNat : Int) = minCount := Int.toNat_of_nonneg (by omega)
        rw [← hnat] at hfit
        exact_mod_cast hfit
      · omega
    · rw [if_pos (Int.not_le.mp hfit), decide_eq_false hfit, if_neg Bool.false_ne_true]
      rfl

theorem checkSequenceRepetition_eq (tokenIds : List TokenId) (params : RepetitionDetectionParams) :
    checkSequenceRepetition tokenIds params =
      .ok (Sched.checkSequenceRepetition tokenIds params) := by
  unfold checkSequenceRepetition Sched.checkSequenceRepetition
  generalize (if params.minPatternSize ≤ 0 then 1 else params.minPatternSize) = minPatternSize
  by_cases hcond : params.maxPatternSize ≤ 0 ∨ params.minCount < 2 ∨
      minPatternSize > params.maxPatternSize
  · rw [if_pos hcond, if_pos hcond]
  · rw [if_neg hcond, if_neg hcond]
    exact searchPattern_eq (by omega) _

end Indexed

variable {tokenIds : List TokenId} {patternLen repetitionMinCount : Nat}

/-- The tail is repeated where the tokens, from the end, have the pattern length as a period. -/
theorem hasRepeatingPattern_iff (hcount : 0 < repetitionMinCount) :
    hasRepeatingPattern tokenIds patternLen repetitionMinCount = true ↔
      ∀ i < patternLen * repetitionMinCount,
        tokenIds.reverse[i]? = tokenIds.reverse[i % patternLen]? := by
  unfold hasRepeatingPattern
  simp only [all_eq_true, mem_range, decide_eq_true_eq]
  constructor
  · intro h i hi
    have hpos : 0 < patternLen := Nat.pos_of_ne_zero fun hz => by
      rw [hz, Nat.zero_mul] at hi
      exact absurd hi (Nat.not_lt_zero i)
    have hdiv := Nat.div_add_mod i patternLen
    have hlt : i / patternLen < repetitionMinCount := Nat.div_lt_of_lt_mul hi
    -- the last copy is the pattern itself
    cases hm : i / patternLen with
    | zero =>
      rw [hm, Nat.mul_zero, zero_add] at hdiv
      rw [hdiv]
    | succ m =>
      rw [hm] at hdiv hlt
      have hrep := h (i % patternLen) (Nat.mod_lt i hpos) m (by omega)
      rw [hdiv] at hrep
      exact hrep
  · intro h n hn m hm
    have hmul : patternLen * (m + 1 + 1) ≤ patternLen * repetitionMinCount :=
      Nat.mul_le_mul_left _ (by omega)
    rw [Nat.mul_succ] at hmul
    have hrep := h (patternLen * (m + 1) + n) (by omega)
    rw [Nat.mul_add_mod, Nat.mod_eq_of_lt hn] at hrep
    exact hrep

/-- The tokens end with `min_count` copies of a pattern of an admitted length. -/
def EndsWithCopies (tokenIds : List TokenId) (params : RepetitionDetectionParams) : Prop :=
  ∃ pattern : List TokenId, 0 < pattern.length ∧
    params.minPatternSize ≤ pattern.length ∧ pattern.length ≤ params.maxPatternSize ∧
    (replicate params.minCount.toNat pattern).flatten <:+ tokenIds

theorem hasRepeatingPattern_iff_suffix (hcount : 0 < repetitionMinCount) :
    patternLen * repetitionMinCount ≤ tokenIds.length ∧
        hasRepeatingPattern tokenIds patternLen repetitionMinCount = true ↔
      ∃ pattern : List TokenId, pattern.length = patternLen ∧
        (replicate repetitionMinCount pattern).flatten <:+ tokenIds := by
  -- a suffix is a prefix of the reversed list, of reversed copies
  have hrev : ∀ pattern : List TokenId,
      (replicate repetitionMinCount pattern).flatten <:+ tokenIds ↔
        (replicate repetitionMinCount pattern.reverse).flatten <+: tokenIds.reverse := by
    intro pattern
    rw [← reverse_prefix, reverse_flatten, map_replicate, reverse_replicate]
  have hblocks : (∃ pattern : List TokenId, pattern.length = patternLen ∧
        (replicate repetitionMinCount pattern).flatten <:+ tokenIds) ↔
      ∃ b : List TokenId, b.length = patternLen ∧
        (replicate repetitionMinCount b).flatten <+: tokenIds.reverse := by
    constructor
    · rintro ⟨pattern, hlen, hsuf⟩
      exact ⟨pattern.reverse, by rw [length_reverse, hlen], (hrev pattern).mp hsuf⟩
    · rintro ⟨b, hlen, hpre⟩
      refine ⟨b.reverse, by rw [length_reverse, hlen], (hrev _).mpr ?_⟩
      rw [reverse_reverse]
      exact hpre
  rw [hblocks, hasRepeatingPattern_iff hcount]
  constructor
  · rintro ⟨hfit, hper⟩
    rw [← length_reverse] at hfit
    exact (replicate_flatten_prefix_iff hcount hfit).mpr hper
  · rintro ⟨b, hlen, hpre⟩
    have hfit := hpre.length_le
    rw [length_flatten_replicate, hlen, mul_comm] at hfit
    refine ⟨by rw [← length_reverse]; exact hfit, ?_⟩
    exact (replicate_flatten_prefix_iff hcount hfit).mp ⟨b, hlen, hpre⟩

/-- With parameters that pass their validation the check is right, and reads no index that is out of
range. -/
theorem check_sequence_repetition (tokenIds : List TokenId) (params : RepetitionDetectionParams)
    (h : params.postInit = .ok ()) :
    ∃ b, Indexed.checkSequenceRepetition tokenIds params = .ok b ∧
      (b = true ↔ EndsWithCopies tokenIds params) := by
  refine ⟨_, Indexed.checkSequenceRepetition_eq tokenIds params, ?_⟩
  obtain ⟨hmin, hcount⟩ : (0 ≤ params.minPatternSize ∧
      params.minPatternSize ≤ params.maxPatternSize) ∧
      (0 < params.maxPatternSize → 2 ≤ params.minCount) := by
    unfold RepetitionDetectionParams.postInit at h
    split at h
    · cases h
    · split at h
      · cases h
      · omega
  unfold checkSequenceRepetition
  -- a pattern has at least one token
  have hsize : ∀ k : Int, (if params.minPatternSize ≤ 0 then 1 else params.minPatternSize) ≤ k ↔
      0 < k ∧ params.minPatternSize ≤ k := by
    intro k
    split
    · omega
    · omega
  have hpos : 0 < (if params.minPatternSize ≤ 0 then 1 else params.minPatternSize) := by
    split
    · omega
    · omega
  generalize (if params.minPatternSize ≤ 0 then 1 else params.minPatternSize) = minPatternSize
    at hsize hpos ⊢
  by_cases hoff : params.maxPatternSize ≤ 0 ∨ params.minCount < 2 ∨
      minPatternSize > params.maxPatternSize
  · rw [if_pos hoff]
    refine ⟨fun hf => (nomatch hf), ?_⟩
    rintro ⟨pattern, hlen, hlo, hhi, -⟩
    have hle := (hsize pattern.length).mpr ⟨by omega, hlo⟩
    omega
  · rw [if_neg hoff]
    have hnat : (params.minCount.toNat : Int) = params.minCount := Int.toNat_of_nonneg (by omega)
    have hcount' : 0 < params.minCount.toNat := by omega
    have hmono : ((range (params.maxPatternSize - minPatternSize + 1).toNat).map
        (minPatternSize.toNat + ·)).Pairwise fun (a b : Nat) =>
          decide ((b : Int) * params.minCount ≤ tokenIds.length) = true →
          decide ((a : Int) * params.minCount ≤ tokenIds.length) = true := by
      rw [pairwise_map]
      refine pairwise_lt_range.imp fun {a b} hlt hb => ?_
      rw [decide_eq_true_eq] at hb ⊢
      refine (Int.mul_le_mul_of_nonneg_right ?_ (by omega)).trans hb
      omega
    simp only [any_eq_true, mem_takeWhile_iff hmono, mem_map, mem_range, decide_eq_true_eq]
    constructor
    · rintro ⟨len, ⟨⟨k, hk, rfl⟩, hfit⟩, hrep⟩
      rw [← hnat] at hfit
      obtain ⟨pattern, hlen, hsuf⟩ := (hasRepeatingPattern_iff_suffix hcount').mp
        ⟨by exact_mod_cast hfit, hrep⟩
      have hle := (hsize pattern.length).mp (by omega)
      exact ⟨pattern, by omega, hle.2, by omega, hsuf⟩
    · rintro ⟨pattern, hlen, hlo, hhi, hsuf⟩
      have hle := (hsize pattern.length).mpr ⟨by omega, hlo⟩
      obtain ⟨hfit, hrep⟩ := (hasRepeatingPattern_iff_suffix hcount').mpr ⟨pattern, rfl, hsuf⟩
      refine ⟨pattern.length, ⟨⟨pattern.length - minPatternSize.toNat, by omega, by omega⟩, ?_⟩,
        hrep⟩
      rw [← hnat]
      exact_mod_cast hfit

theorem check_sequence_repetition_pair :
    ∃ b, Indexed.checkSequenceRepetition [5, 1, 2, 1, 2] ⟨2, 0, 2⟩ = .ok b ∧
      (b = true ↔ EndsWithCopies [5, 1, 2, 1, 2] ⟨2, 0, 2⟩) :=
  check_sequence_repetition [5, 1, 2, 1, 2] ⟨2, 0, 2⟩ rfl

end MyOperator.Sched
