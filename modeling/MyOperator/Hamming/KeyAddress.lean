import MyOperator.Lib.Interleave
import MyOperator.Hamming.ChunkAlign

/-!
# Where the kernel reads a key

`KeyPhysOffset` numbers the keys of the key tensor in the order of their dimensions:
`[batch, head, maxSeqLen]`, or `[physBlock, head, blockSize]` with a block table. The
offset is computed in `uint64_t`, the place in the block table in `uint32_t` and the
position in a block in `int32_t`. A tile of the paged layout is one block, so a token
is never read from two.
-/

namespace MyOperator.Hamming

open Lib

/-- Conversion of a `uint32_t` to `int32_t`. -/
def i32 (n : Nat) : Int := if n < 2147483648 then n else n - 4294967296

/-- Conversion to `uint64_t`. -/
def u64 (n : Int) : Nat := (n % 18446744073709551616).toNat

def logicalBlock (t : TilingData) (logicalTok : Int) : Int := logicalTok.tdiv (i32 t.blockSize)

def inBlock (t : TilingData) (logicalTok : Int) : Int := logicalTok.tmod (i32 t.blockSize)

/-- `blockTableGm_.GetValue(b * blockCount + logicalBlock)`. -/
def physBlock (t : TilingData) (blockTable : Nat → Int) (b : Nat) (logicalTok : Int) : Int :=
  blockTable (((b * t.blockCount + logicalBlock t logicalTok : Int) % 4294967296).toNat)

/-- `KeyPhysOffset`; `CONTIN` is the low digit of the tiling key. -/
def keyPhysOffset (t : TilingData) (blockTable : Nat → Int) (b h : Nat) (logicalTok : Int) : Nat :=
  if t.continFlag = 1 then
    u64 (((physBlock t blockTable b logicalTok * t.head + h) * t.blockSize + inBlock t logicalTok) *
      t.dimCompressed)
  else u64 (((b * t.head + h) * t.maxSeqLen + logicalTok) * t.dimCompressed)

/-- The starts of the tiles of `ProcessOne`. A start that leaves `int32_t` is undefined, and
nothing follows it. -/
inductive TileStart (effectLen tileN1 : Int) : Int → Prop
  | first : 0 < effectLen → TileStart effectLen tileN1 0
  | next {n0 : Int} : TileStart effectLen tileN1 n0 → n0 + tileN1 < 2147483648 →
      n0 + tileN1 < effectLen → TileStart effectLen tileN1 (n0 + tileN1)

/-- `UnpackKey` reads token `n0 + i` in the tile that starts at `n0`. -/
def Unpacks (t : TilingData) (effectLen n0 i : Int) : Prop :=
  TileStart effectLen (i32 t.tileN1) n0 ∧ 0 ≤ i ∧
    i < if effectLen - n0 < i32 t.tileN1 then effectLen - n0 else i32 t.tileN1

/-- A byte that is read at both offsets. -/
def SharesBytes (t : TilingData) (off off' : Nat) : Prop :=
  ∃ x, off ≤ x ∧ x < off + t.dimCompressed ∧ off' ≤ x ∧ x < off' + t.dimCompressed

/-- The contiguous layout: every key has bytes of its own in the key tensor. -/
structure ContiguousKeys (t : TilingData) (blockTable : Nat → Int) (keyShape : Shape) : Prop where
  injective : ∀ b < t.batch, ∀ h < t.head, ∀ tok < t.maxSeqLen,
    ∀ b' < t.batch, ∀ h' < t.head, ∀ tok' < t.maxSeqLen,
    keyPhysOffset t blockTable b h tok = keyPhysOffset t blockTable b' h' tok' →
      b = b' ∧ h = h' ∧ tok = tok'
  inside : ∀ b < t.batch, ∀ h < t.head, ∀ tok < t.maxSeqLen,
    keyPhysOffset t blockTable b h tok + t.dimCompressed ≤ keyShape.prod

/-- The paged layout, for a sequence of which `effectLen` tokens are processed. -/
structure PagedKeys (t : TilingData) (blockTable : Nat → Int) (keyShape : Shape)
    (effectLen : Int) : Prop where
  logicalBlock : ∀ n0 i, Unpacks t effectLen n0 i →
    0 ≤ logicalBlock t (n0 + i) ∧ logicalBlock t (n0 + i) < t.blockCount
  inside : ∀ b, ∀ h < t.head, ∀ n0 i, Unpacks t effectLen n0 i →
    keyPhysOffset t blockTable b h (n0 + i) + t.dimCompressed ≤ keyShape.prod
  oneBlock : ∀ b n0 i j, Unpacks t effectLen n0 i → Unpacks t effectLen n0 j →
    physBlock t blockTable b (n0 + i) = physBlock t blockTable b (n0 + j)
  apart : ∀ b b', ∀ h < t.head, ∀ h' < t.head, ∀ n0 i n0' i', Unpacks t effectLen n0 i →
    Unpacks t effectLen n0' i' → SharesBytes t (keyPhysOffset t blockTable b h (n0 + i))
      (keyPhysOffset t blockTable b' h' (n0' + i')) →
    physBlock t blockTable b (n0 + i) = physBlock t blockTable b' (n0' + i') ∧ h = h' ∧
      inBlock t (n0 + i) = inBlock t (n0' + i')

/-! ## Dense numbering -/

variable {a a' h h' p p' n head len width m k : Nat}

/-- The number of a key in a dense tensor. -/
def keySlot (head len a h p : Nat) : Nat := (a * head + h) * len + p

theorem radix_lt (ha : a < n) (hp : p < m) : a * m + p < n * m :=
  calc a * m + p < (a + 1) * m := by rw [Nat.succ_mul]; omega
    _ ≤ n * m := Nat.mul_le_mul_right m ha

theorem keySlot_inj (hh : h < head) (hh' : h' < head) (hp : p < len) (hp' : p' < len)
    (heq : keySlot head len a h p = keySlot head len a' h' p') : a = a' ∧ h = h' ∧ p = p' := by
  obtain ⟨hrow, hpos⟩ := block_inj hp hp' heq
  obtain ⟨hfirst, hhead⟩ := block_inj hh hh' hrow
  exact ⟨hfirst, hhead, hpos⟩

/-- The last byte of a key lies in the tensor, also when its dimensions were narrowed. -/
theorem keySlot_inside {count head' len' width' : Nat} (ha : a < count) (hh : h < head)
    (hp : p < len) (hhead : head ≤ head') (hlen : len ≤ len') (hwidth : width ≤ width') :
    keySlot head len a h p * width + width ≤ List.prod [count, head', len', width'] := by
  have hslot : keySlot head len a h p < count * head * len := radix_lt (radix_lt ha hh) hp
  calc keySlot head len a h p * width + width = (keySlot head len a h p + 1) * width := by ring
    _ ≤ (count * head' * len') * width' :=
      Nat.mul_le_mul (hslot.trans_le (Nat.mul_le_mul (Nat.mul_le_mul_left _ hhead) hlen)) hwidth
    _ = List.prod [count, head', len', width'] := by
      show _ = count * (head' * (len' * (width' * 1)))
      ring

theorem u64_slot (hlt : k * width < 18446744073709551616) :
    u64 ((k : Int) * width) = k * width := by
  unfold u64
  omega

theorem SharesBytes.slot_eq {t : TilingData}
    (h : SharesBytes t (k * t.dimCompressed) (m * t.dimCompressed)) : k = m := by
  obtain ⟨x, hk, hk', hm, hm'⟩ := h
  have hdiv : ∀ {k : Nat}, k * t.dimCompressed ≤ x → x < k * t.dimCompressed + t.dimCompressed →
      x / t.dimCompressed = k := fun hle hlt =>
    Nat.div_eq_of_lt_le hle (by rw [Nat.succ_mul]; exact hlt)
  rw [← hdiv hk hk', hdiv hm hm']

/-! ## Tokens of a tile -/

variable {t : TilingData} {blockTable : Nat → Int} {len' n0 i : Int}

theorem TileStart.multiple {tileN1 : Int} (hstart : TileStart len' tileN1 n0) :
    0 < len' ∧ ∃ q : Nat, n0 = q * tileN1 := by
  induction hstart with
  | first hpos => exact ⟨hpos, 0, (zero_mul _).symm⟩
  | next _ _ _ ih =>
    obtain ⟨hpos, q, rfl⟩ := ih
    exact ⟨hpos, q + 1, by push_cast; ring⟩

/-- A tile of a paged sequence is one of its blocks. -/
theorem Unpacks.place (htile : 0 < t.blockSize → t.tileN1 = t.blockSize)
    (hsize : t.blockSize < 4294967296) (hlen : len' ≤ t.blockCount * t.blockSize)
    (hunpacks : Unpacks t len' n0 i) :
    ∃ q j : Nat, q < t.blockCount ∧ j < t.blockSize ∧ n0 = q * t.blockSize ∧ i = j ∧
      logicalBlock t (n0 + i) = q ∧ inBlock t (n0 + i) = j := by
  obtain ⟨hstart, hi, hcur⟩ := hunpacks
  obtain ⟨hpos, q, hq⟩ := hstart.multiple
  have hblock : 0 < t.blockSize := by
    refine Nat.pos_of_ne_zero fun hzero => ?_
    rw [hzero] at hlen
    omega
  rw [htile hblock] at hq hcur
  have hi32 : i32 t.blockSize = t.blockSize := by
    unfold i32 at *
    split at hcur <;> split at hcur <;> omega
  rw [hi32] at hq hcur
  obtain ⟨j, rfl⟩ := Int.eq_ofNat_of_zero_le hi
  have hj : j < t.blockSize := by split at hcur <;> omega
  have htok : (q * t.blockSize + j : Int) = ((q * t.blockSize + j : Nat) : Int) := by
    rfl
  have hlt : q < t.blockCount := by
    have htoks : q * t.blockSize < t.blockCount * t.blockSize := by
      split at hcur <;> zify <;> omega
    exact Nat.lt_of_mul_lt_mul_right htoks
  have hdiv : (q * t.blockSize + j) / t.blockSize = q := by
    rw [mul_comm, Nat.mul_add_div hblock, Nat.div_eq_of_lt hj, add_zero]
  have hmod : (q * t.blockSize + j) % t.blockSize = j := by
    rw [Nat.mul_add_mod_self_right, Nat.mod_eq_of_lt hj]
  refine ⟨q, j, hlt, hj, hq, rfl, ?_, ?_⟩
  · rw [logicalBlock, hi32, hq, htok, ← Int.ofNat_tdiv, hdiv]
  · rw [inBlock, hi32, hq, htok, ← Int.ofNat_tmod, hmod]

theorem effectLen_le (seqLen chunk : Int) : effectLen seqLen chunk ≤ max 0 seqLen := by
  have hmod : min 0 seqLen ≤ seqLen.tmod chunk := by
    rcases le_total 0 seqLen with hle | hle
    · exact (min_le_left _ _).trans (Int.tmod_nonneg _ hle)
    · have hnat : (seqLen.tmod chunk).natAbs ≤ seqLen.natAbs := by
        rw [Int.natAbs_tmod]
        exact Nat.mod_le _ _
      omega
  unfold effectLen BLOCK_ALIGN
  dsimp only
  split <;> omega

/-! ## The two layouts -/

/-- What `TilingFunc` hands to the addressing, for a key dimension of `len` tokens. -/
structure SeqSpec (len : Nat) (t : TilingData) : Prop where
  contiguous : t.continFlag = 0 → t.maxSeqLen ≤ len
  paged : t.continFlag = 1 → t.maxSeqLen ≤ t.blockCount * t.blockSize
  tile : t.continFlag = 1 → 0 < t.blockSize → t.tileN1 = t.blockSize
  blockSize_le : t.continFlag = 1 → t.blockSize ≤ len
  blockSize_lt : t.blockSize < 4294967296

variable {getTiling : Nat → Nat → Nat → Int} {coreNum batch qHead count len : Nat}
  {tableShape : Option Shape} {topkAttr : Option Int} {r : TilingResult}

theorem tilingFunc_layout
    (h : tilingFunc getTiling coreNum [batch, qHead, 1, width] [count, head, len, width] tableShape
      topkAttr = some r) : r.tiling.dimCompressed ≤ width ∧ SeqSpec len r.tiling := by
  simp only [tilingFunc] at h
  split at h
  · cases h
  · cases h
    refine ⟨Nat.mod_le _ _, ?_⟩
    dsimp only [seqLayout]
    rcases tableShape with _ | s
    · exact ⟨fun _ => Nat.mod_le _ _, (absurd · Nat.zero_ne_one), (absurd · Nat.zero_ne_one),
        (absurd · Nat.zero_ne_one), (show 0 < 4294967296 by decide)⟩
    · by_cases hs : 2 ≤ s.length
      · simp only [hs, if_true]
        exact ⟨(absurd · Nat.one_ne_zero), fun _ => Nat.mod_le _ _, fun _ hpos => if_pos ⟨rfl, hpos⟩,
          fun _ => Nat.mod_le _ _, u32_lt _⟩
      · simp only [hs, if_false]
        exact ⟨fun _ => Nat.mod_le _ _, (absurd · Nat.zero_ne_one), (absurd · Nat.zero_ne_one),
          (absurd · Nat.zero_ne_one), (show 0 < 4294967296 by decide)⟩

theorem Unpacks.offset (hspec : SeqSpec len t) (hcontin : t.continFlag = 1)
    (hhead : t.head ≤ head) (hdim : t.dimCompressed ≤ width)
    (hsize : List.prod [count, head, len, width] < 18446744073709551616)
    (hentries : ∀ k, 0 ≤ blockTable k ∧ blockTable k < count)
    (hlen : len' ≤ t.blockCount * t.blockSize) (b : Nat) (hh : h < t.head)
    (hunpacks : Unpacks t len' n0 i) :
    ∃ block j : Nat, physBlock t blockTable b (n0 + i) = block ∧ inBlock t (n0 + i) = j ∧
      j < t.blockSize ∧ keyPhysOffset t blockTable b h (n0 + i) =
        keySlot t.head t.blockSize block h j * t.dimCompressed ∧
      keySlot t.head t.blockSize block h j * t.dimCompressed + t.dimCompressed ≤
        List.prod [count, head, len, width] := by
  obtain ⟨-, j, -, hj, -, -, -, hin⟩ := hunpacks.place (hspec.tile hcontin) hspec.blockSize_lt hlen
  obtain ⟨hpos, hlt⟩ := hentries (((b * t.blockCount + logicalBlock t (n0 + i) : Int) %
    4294967296).toNat)
  obtain ⟨block, hblock⟩ := Int.eq_ofNat_of_zero_le hpos
  have hle := keySlot_inside (Int.ofNat_lt.mp (hblock ▸ hlt)) hh hj hhead
    (hspec.blockSize_le hcontin) hdim
  refine ⟨block, j, hblock, hin, hj, ?_, hle⟩
  rw [keyPhysOffset, if_pos hcontin, hin, show physBlock t blockTable b (n0 + i) = block from hblock,
    ← u64_slot (by omega)]
  rfl

/-- **Key addressing**: a contiguous key tensor holds a key at a place of its own for every token;
a paged one is read inside the block that the table names. -/
theorem key_addressing
    (h : tilingFunc getTiling coreNum [batch, qHead, 1, width] [count, head, len, width] tableShape
      topkAttr = some r)
    (hwidth : 0 < r.tiling.dimCompressed)
    (hsize : List.prod [count, head, len, width] < 18446744073709551616) (blockTable : Nat → Int) :
    (r.tiling.continFlag = 0 → count = batch →
      ContiguousKeys r.tiling blockTable [count, head, len, width]) ∧
    (r.tiling.continFlag = 1 → (∀ k, 0 ≤ blockTable k ∧ blockTable k < count) →
      ∀ seqLen ≤ (r.tiling.maxSeqLen : Int), ∀ chunk,
        PagedKeys r.tiling blockTable [count, head, len, width] (effectLen seqLen chunk)) := by
  have hhead : r.tiling.head ≤ head := (tilingFunc_spec h).head ▸ Nat.mod_le _ _
  obtain ⟨hdim, hspec⟩ := tilingFunc_layout h
  refine ⟨fun hcontin hbatch => ?_, fun hcontin hentries seqLen hseq chunk => ?_⟩
  · subst hbatch
    have hbatch : r.tiling.batch ≤ count := (tilingFunc_spec h).batch ▸ Nat.mod_le _ _
    have hlen := hspec.contiguous hcontin
    have hin : ∀ b < r.tiling.batch, ∀ h < r.tiling.head, ∀ tok < r.tiling.maxSeqLen,
        keySlot r.tiling.head r.tiling.maxSeqLen b h tok * r.tiling.dimCompressed +
          r.tiling.dimCompressed ≤ List.prod [count, head, len, width] := fun b hb h hh tok htok =>
      keySlot_inside (hb.trans_le hbatch) hh htok hhead hlen hdim
    have hoff : ∀ b < r.tiling.batch, ∀ h < r.tiling.head, ∀ tok < r.tiling.maxSeqLen,
        keyPhysOffset r.tiling blockTable b h tok =
          keySlot r.tiling.head r.tiling.maxSeqLen b h tok * r.tiling.dimCompressed := by
      intro b hb h hh tok htok
      have hle := hin b hb h hh tok htok
      rw [keyPhysOffset, if_neg (by omega), ← u64_slot (by omega)]
      rfl
    refine ⟨?_, ?_⟩
    · intro b hb h hh tok htok b' hb' h' hh' tok' htok' heq
      rw [hoff b hb h hh tok htok, hoff b' hb' h' hh' tok' htok'] at heq
      exact keySlot_inj hh hh' htok htok' (Nat.eq_of_mul_eq_mul_right hwidth heq)
    · intro b hb h hh tok htok
      rw [hoff b hb h hh tok htok]
      exact hin b hb h hh tok htok
  · have hle : effectLen seqLen chunk ≤ r.tiling.blockCount * r.tiling.blockSize := by
      have hmax := hspec.paged hcontin
      have := effectLen_le seqLen chunk
      omega
    have hplace := fun n0 i (hi : Unpacks r.tiling (effectLen seqLen chunk) n0 i) =>
      hi.place (hspec.tile hcontin) hspec.blockSize_lt hle
    have hoff := fun b h hh n0 i (hi : Unpacks r.tiling (effectLen seqLen chunk) n0 i) =>
      hi.offset (h := h) hspec hcontin hhead hdim hsize hentries hle b hh
    refine ⟨?_, ?_, ?_, ?_⟩
    · intro n0 i hunpacks
      obtain ⟨q, -, hq, -, -, -, hblock, -⟩ := hplace n0 i hunpacks
      omega
    · intro b h hh n0 i hunpacks
      obtain ⟨block, j, -, -, -, heq, hinside⟩ := hoff b h hh n0 i hunpacks
      rw [heq]
      exact hinside
    · intro b n0 i j hi hj
      obtain ⟨q, k, -, hk, hq, -, hblock, -⟩ := hplace n0 i hi
      obtain ⟨q', -, -, -, hq', -, hblock', -⟩ := hplace n0 j hj
      have hsame : (q : Int) = q' :=
        Int.eq_of_mul_eq_mul_right (by omega) (hq.symm.trans hq')
      rw [physBlock, physBlock, hblock, hblock', hsame]
    · intro b b' h hh h' hh' n0 i n0' i' hi hi' hshares
      obtain ⟨block, j, hblock, hin, hj, heq, -⟩ := hoff b h hh n0 i hi
      obtain ⟨block', j', hblock', hin', hj', heq', -⟩ := hoff b' h' hh' n0' i' hi'
      rw [heq, heq'] at hshares
      obtain ⟨rfl, rfl, rfl⟩ := keySlot_inj hh hh' hj hj' hshares.slot_eq
      exact ⟨hblock.trans hblock'.symm, rfl, hin.trans hin'.symm⟩

/-- Two sequences of two blocks of 128 tokens, the first of which they share. -/
theorem key_addressing_shared : ∃ r, tilingFunc (fun _ _ _ => 0) 8 [2, 4, 1, 16] [3, 1, 128, 16]
    (some [2, 2]) (some 8) = some r ∧
      PagedKeys r.tiling (fun k => [0, 1, 0, 2].getD k 0) [3, 1, 128, 16] (effectLen 200 1) := by
  have h := Option.some_get (show (tilingFunc (fun _ _ _ => 0) 8 [2, 4, 1, 16] [3, 1, 128, 16]
    (some [2, 2]) (some 8)).isSome by decide)
  refine ⟨_, h.symm, (key_addressing h.symm (by decide) (by decide) _).2 (by decide) (fun k => ?_) 200
    (by decide) 1⟩
  match k with
  | 0 | 1 | 2 | 3 => decide
  | k + 4 =>
    show (0 : Int) ≤ 0 ∧ (0 : Int) < 3
    decide

end MyOperator.Hamming
