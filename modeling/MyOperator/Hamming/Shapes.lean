import MyOperator.Hamming.ChunkAlign

/-!
# Two copies of the output length

`InferShape` sizes the output tensor from the key shape alone; `TilingFunc` sizes
the rows that the kernel writes, from the block table when there is one. Both
formulas are `max (len / 16) 128 + 2` of their own sequence length as long as the
`uint32_t` product by the ratio does not wrap, so `shapesAgree_iff` reduces the
agreement of the two to the two sequence lengths.
-/

namespace MyOperator.Hamming

/-- The steps of the chunk size never show: below 1024 tokens the floor of 128 wins. -/
theorem outputChunkBase_eq (len : Nat) :
    outputChunkBase len (calcMaxChunkSize len) = max (len / 16) 128 := by
  unfold outputChunkBase calcMaxChunkSize SEQ_FOR_CHUNK16 SEQ_FOR_CHUNK8 MIN_OUTPUT_CHUNK_LEN
  split <;> [skip; split] <;> simp only [if_neg, Nat.one_ne_zero, OfNat.ofNat_ne_zero,
    not_false_eq_true] <;> split <;> omega

/-- The length `CalcMaxOutputChunkLen` returns while its product stays below `2 ^ 32`. -/
theorem calcMaxOutputChunkLen_eq {len : Nat} (h : max (len / 16) 128 * 100 < 4294967296) :
    calcMaxOutputChunkLen len (calcMaxChunkSize len) 100 = max (len / 16) 128 + 2 := by
  simp only [calcMaxOutputChunkLen, outputChunkBase_eq, MIN_OUTPUT_CHUNK_LEN]
  rw [u32_of_lt h, Nat.mul_div_cancel _ (by decide : 0 < 100), u32_of_lt (by omega)]
  split <;> omega

theorem inferShape_dim2 (queryShape keyShape : Shape) :
    (inferShape queryShape keyShape).getDim 2 = max (keyShape.getDim 2 / 16) 128 + 2 := by
  generalize hlen : keyShape.getDim 2 = len
  obtain ⟨q, hq, hle, heq⟩ : ∃ q,
      q = len / (if len ≥ 1024 then 16 else if len ≥ 128 then 8 else 1) ∧
        q ≤ max (len / 16) 128 ∧ (128 < max (len / 16) 128 → q = len / 16) := by
    refine ⟨_, rfl, ?_, ?_⟩ <;> split <;> [skip; split; skip; split] <;> omega
  simp only [inferShape, hlen]
  rw [← hq]
  show (if (if q < 128 then 128 else q) + 2 < 128 then 128 else
    (if q < 128 then 128 else q) + 2) = _
  split <;> split <;> omega

/-- The tokens a batch entry can hold: the key dimension, or in the paged layout
`blockCount * blockSize`, before any narrowing. -/
def seqTokens (keyShape : Shape) : Option Shape → Nat
  | some s => if 2 ≤ s.length then s.getDim 1 * keyShape.getDim 2 else keyShape.getDim 2
  | none => keyShape.getDim 2

theorem u32_mul_u32 {a b : Nat} (h : a * b < 4294967296) : u32 (u32 a * u32 b) = a * b := by
  unfold u32
  rw [← Nat.mul_mod, Nat.mod_eq_of_lt h]

theorem seqLayout_maxSeqLen {keyShape : Shape} {blockTable : Option Shape}
    (h : seqTokens keyShape blockTable < 4294967296) :
    (seqLayout keyShape blockTable).2.2.2 = seqTokens keyShape blockTable := by
  unfold seqLayout seqTokens at *
  rcases blockTable with _ | s
  · exact u32_of_lt h
  · by_cases hs : 2 ≤ s.length
    · simp only [hs, if_true] at h ⊢
      exact u32_mul_u32 h
    · simp only [hs, if_false] at h ⊢
      exact u32_of_lt h

/-- What shape inference owes the kernel: the row length of `indices` is the one the
tiling stores, every row the kernel writes lies in the inferred tensor, and neither
`blockCount * blockSize` nor the product by the ratio leaves `uint32_t`. -/
structure ShapesAgree (queryShape keyShape : Shape) (blockTable : Option Shape)
    (t : TilingData) : Prop where
  rowLen : (inferShape queryShape keyShape).getDim 2 = t.maxOutputChunkLen
  rows : ∀ b < t.batch, ∀ h < t.head,
    (copyOutIndices t b h).1 + (copyOutIndices t b h).2 ≤ (inferShape queryShape keyShape).prod
  tokens : ∀ s, blockTable = some s → 2 ≤ s.length → s.getDim 1 * keyShape.getDim 2 < 4294967296
  product : outputChunkBase t.maxSeqLen (calcMaxChunkSize t.maxSeqLen) * t.topkRatio < 4294967296

/-- Row `(b, h)` of a dense tensor ends inside it, also when its offset wraps. -/
private theorem row_le_prod {batch head batch' head' len b h : Nat} (hb : b < batch)
    (hh : h < head) (hbatch : batch ≤ batch') (hhead : head ≤ head') :
    (b * head + h) * len % 18446744073709551616 + len ≤ batch' * (head' * len) := by
  have hrow : b * head + h + 1 ≤ batch' * head' := by
    calc b * head + h + 1 ≤ b * head + head := by omega
      _ = (b + 1) * head := by ring
      _ ≤ batch' * head' := Nat.mul_le_mul (by omega) hhead
  calc (b * head + h) * len % 18446744073709551616 + len
      ≤ (b * head + h) * len + len := Nat.add_le_add_right (Nat.mod_le _ _) _
    _ = (b * head + h + 1) * len := by ring
    _ ≤ batch' * head' * len := Nat.mul_le_mul_right _ hrow
    _ = batch' * (head' * len) := by ring

/-- Inference and tiling agree exactly when the output length does not wrap and the
block table holds as many tokens as the key dimension, up to the chunk size and the
floor of 128. -/
theorem shapesAgree_iff {getTiling : Nat → Nat → Nat → Int} {coreNum : Nat}
    {queryShape keyShape : Shape} {blockTable : Option Shape} {topkAttr : Option Int}
    {r : TilingResult}
    (h : tilingFunc getTiling coreNum queryShape keyShape blockTable topkAttr = some r) :
    ShapesAgree queryShape keyShape blockTable r.tiling ↔
      seqTokens keyShape blockTable < 687194768 ∧
        max (seqTokens keyShape blockTable / 16) 128 = max (keyShape.getDim 2 / 16) 128 := by
  have hspec := tilingFunc_spec h
  constructor
  · intro hagree
    have hprod := hagree.product
    rw [hspec.topkRatio, outputChunkBase_eq, hspec.maxSeqLen] at hprod
    have hrow := hagree.rowLen
    rw [inferShape_dim2, hspec.maxOutputChunkLen, hspec.maxSeqLen,
      calcMaxOutputChunkLen_eq hprod] at hrow
    -- a key dimension from `2 ^ 32` on would have a longer inferred row
    have htok : seqTokens keyShape blockTable < 4294967296 := by
      have hkey : keyShape.getDim 2 < 4294967296 := by omega
      unfold seqTokens
      split
      · split
        · exact hagree.tokens _ rfl ‹_›
        · exact hkey
      · exact hkey
    rw [seqLayout_maxSeqLen htok] at hprod hrow
    omega
  · rintro ⟨htok, heq⟩
    have hlen : (seqLayout keyShape blockTable).2.2.2 = seqTokens keyShape blockTable :=
      seqLayout_maxSeqLen (by omega)
    have hprod : max (seqTokens keyShape blockTable / 16) 128 * 100 < 4294967296 := by omega
    have hrow : (inferShape queryShape keyShape).getDim 2 = r.tiling.maxOutputChunkLen := by
      rw [inferShape_dim2, hspec.maxOutputChunkLen, hspec.maxSeqLen, hlen,
        calcMaxOutputChunkLen_eq hprod, heq]
    refine ⟨hrow, fun b hb g hg => ?_, fun s hs hs2 => ?_, ?_⟩
    · have hdims : (inferShape queryShape keyShape).prod =
          queryShape.getDim 0 * (keyShape.getDim 1 * r.tiling.maxOutputChunkLen) := by
        rw [← hrow]
        simp [inferShape, Shape.getDim]
      rw [hdims]
      exact row_le_prod hb hg (hspec.batch ▸ Nat.mod_le _ _) (hspec.head ▸ Nat.mod_le _ _)
    · subst hs
      simp only [seqTokens, hs2, if_true] at htok
      omega
    · rw [hspec.topkRatio, outputChunkBase_eq, hspec.maxSeqLen, hlen]
      exact hprod

/-- The contiguous tiling of 1024 tokens. -/
theorem shapesAgree_contiguous :
    ShapesAgree [16, 1, 1, 16] [16, 1, 1024, 16] none
        (contiguousTiling.get contiguousTiling_isSome).tiling ↔
      seqTokens [16, 1, 1024, 16] none < 687194768 ∧
        max (seqTokens [16, 1, 1024, 16] none / 16) 128 =
          max (Shape.getDim [16, 1, 1024, 16] 2 / 16) 128 :=
  shapesAgree_iff (Option.some_get contiguousTiling_isSome).symm

/-- With 32 blocks of 128 tokens the kernel writes rows of 258 indices into an output
inferred with rows of 130. -/
theorem shapes_disagree_paged :
    ∃ r, tilingFunc (fun _ _ _ => 0) 20 [8, 1, 1, 16] [8, 1, 128, 16] (some [8, 32]) none = some r ∧
      r.tiling.maxOutputChunkLen = 258 ∧
      (inferShape [8, 1, 1, 16] [8, 1, 128, 16]).getDim 2 = 130 ∧
      ¬ ShapesAgree [8, 1, 1, 16] [8, 1, 128, 16] (some [8, 32]) r.tiling := by
  refine ⟨_, rfl, by decide, by decide, fun hagree => ?_⟩
  exact absurd hagree.rowLen (by decide)

end MyOperator.Hamming
