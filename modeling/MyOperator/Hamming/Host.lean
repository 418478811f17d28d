import Mathlib

/-!
# HammingDistTopK: the host side

The shape and tiling computations of `op_host/hamming_dist_top_k.cpp`: the
stepped chunk size, the output length, the branch selection, `TilingFunc`, and
the second, independent copy of the output-length formula in `InferShape`.

Shape dimensions are `int64_t` in the source and are natural numbers here (a
dimension is never negative at run time). `TilingFunc` narrows every dimension
to `uint32_t` and computes in that type; each narrowing and each operation that
can leave the type is written with `u32`. `InferShape` stays in `int64_t`, where
nothing can overflow.
-/

namespace MyOperator.Hamming

/-- Conversion to `uint32_t`. -/
def u32 (n : Nat) : Nat := n % 4294967296

theorem u32_of_lt {n : Nat} (h : n < 4294967296) : u32 n = n := Nat.mod_eq_of_lt h

theorem u32_lt (n : Nat) : u32 n < 4294967296 := Nat.mod_lt _ (by decide)

def BITS_PER_BYTE : Nat := 8
def THRESH_SEQ_26K : Nat := 26 * 1024
def THRESH_SEQ_8K : Nat := 8 * 1024
def THRESH_BATCH : Nat := 16
def SPLITS_TILE_N1 : Nat := 128
def SPLITS_TILE_N2 : Nat := 4 * 1024
def BASIC_TILE_N1 : Nat := 254
def BASIC_TILE_N2 : Nat := 3328
def SEQ_FOR_CHUNK16 : Nat := 1024
def SEQ_FOR_CHUNK8 : Nat := 128
def MIN_OUTPUT_CHUNK_LEN : Nat := 128

inductive Branch
  | BASIC
  | SPLITS
  deriving DecidableEq, Repr

/-- `static_cast<uint32_t>(branch)`. -/
def Branch.toNat : Branch → Nat
  | .BASIC => 0
  | .SPLITS => 1

/-- The largest chunk size expected for a sequence length. -/
def calcMaxChunkSize (maxSeqLen : Nat) : Nat :=
  if SEQ_FOR_CHUNK16 ≤ maxSeqLen then 16
  else if SEQ_FOR_CHUNK8 ≤ maxSeqLen then 8
  else 1

/-- `max(maxSeqLen / maxChunkSize, 128)`, the `base` of `CalcMaxOutputChunkLen`. -/
def outputChunkBase (maxSeqLen maxChunkSize : Nat) : Nat :=
  let base := maxSeqLen / (if maxChunkSize = 0 then 1 else maxChunkSize)
  if base > MIN_OUTPUT_CHUNK_LEN then base else MIN_OUTPUT_CHUNK_LEN

/-- `CalcMaxOutputChunkLen`, in `uint32_t` arithmetic: the product by the ratio
and the final `+ 2` both wrap. -/
def calcMaxOutputChunkLen (maxSeqLen maxChunkSize topkRatio : Nat) : Nat :=
  let base := outputChunkBase maxSeqLen maxChunkSize
  let out := u32 (u32 (base * topkRatio) / 100 + 2)
  if out > MIN_OUTPUT_CHUNK_LEN then out else MIN_OUTPUT_CHUNK_LEN

/-- `SelectBranch`: the branch with its `tileN1` and `tileN2`. -/
def selectBranch (batch maxSeqLen continFlag blockSize : Nat) : Branch × Nat × Nat :=
  let splitS : Bool :=
    maxSeqLen > THRESH_SEQ_26K || (batch < THRESH_BATCH && maxSeqLen > THRESH_SEQ_8K)
  let tileN1 := if splitS then SPLITS_TILE_N1 else BASIC_TILE_N1
  let tileN2 := if splitS then SPLITS_TILE_N2 else BASIC_TILE_N2
  -- paged storage forces the tile onto one physical block
  let tileN1 := if continFlag = 1 ∧ blockSize > 0 then blockSize else tileN1
  (if splitS then .SPLITS else .BASIC, tileN1, tileN2)

/-- A tensor shape. -/
abbrev Shape := List Nat

/-- `Shape::GetDim`. -/
def Shape.getDim (s : Shape) (i : Nat) : Nat := List.getD s i 0

/-- `HammingDistTopKTilingData` without the cube tiling of the matmul library. -/
structure TilingData where
  batch : Nat
  qHead : Nat
  head : Nat
  dim : Nat
  dimCompressed : Nat
  dimUnpacked : Nat
  maxSeqLen : Nat
  groupNum : Nat
  topk : Nat
  topkRatio : Nat
  defaultChunkSize : Nat
  maxChunkSize : Nat
  maxOutputChunkLen : Nat
  tileN1 : Nat
  tileN2 : Nat
  branch : Nat
  continFlag : Nat
  blockSize : Nat
  blockCount : Nat
  coreNum : Nat
  usedCoreNum : Nat
  batchPerCore : Nat
  deriving DecidableEq, Repr

/-- What `TilingFunc` leaves in the tiling context. -/
structure TilingResult where
  tiling : TilingData
  tilingKey : Nat
  blockDim : Nat
  deriving DecidableEq, Repr

/-- `continFlag, blockSize, blockCount, maxSeqLen` of `TilingFunc`: a block table
with at least two dimensions selects the paged layout. -/
def seqLayout (keyShape : Shape) (blockTable : Option Shape) : Nat × Nat × Nat × Nat :=
  match blockTable with
  | some s =>
    if 2 ≤ s.length then
      let blockCount := u32 (s.getDim 1)
      let blockSize := u32 (keyShape.getDim 2)
      (1, blockSize, blockCount, u32 (blockCount * blockSize))
    else (0, 0, 0, u32 (keyShape.getDim 2))
  | none => (0, 0, 0, u32 (keyShape.getDim 2))

/-- `TilingFunc`. `getTiling m n k` is the matmul library's `GetTiling` for the
shape `m × n × k` (`-1` on failure), `coreNum` the platform's core count and
`topkAttr` the `topk` attribute (absent when the attribute list is empty). -/
def tilingFunc (getTiling : Nat → Nat → Nat → Int) (coreNum : Nat)
    (queryShape keyShape : Shape) (blockTable : Option Shape) (topkAttr : Option Int) :
    Option TilingResult :=
  let batch := u32 (queryShape.getDim 0)
  let qHead := u32 (queryShape.getDim 1)
  let dimCompressed := u32 (queryShape.getDim 3)
  let head := u32 (keyShape.getDim 1)
  let dim := u32 (dimCompressed * BITS_PER_BYTE)
  let dimUnpacked := dim
  let (continFlag, blockSize, blockCount, maxSeqLen) := seqLayout keyShape blockTable
  let topk := match topkAttr with
    | some t => (t % 4294967296).toNat
    | none => 0
  let topkRatio := 100
  let defaultChunkSize := 1
  let maxChunkSize := calcMaxChunkSize maxSeqLen
  let maxOutputChunkLen := calcMaxOutputChunkLen maxSeqLen maxChunkSize topkRatio
  let (branch, tileN1, tileN2) := selectBranch batch maxSeqLen continFlag blockSize
  let totalTask := u32 (batch * head)
  let usedCoreNum := if totalTask < coreNum then totalTask else coreNum
  let usedCoreNum := if usedCoreNum = 0 then 1 else usedCoreNum
  let batchPerCore := u32 (totalTask + usedCoreNum - 1) / usedCoreNum
  if getTiling 1 tileN1 dimUnpacked = -1 then none
  else some {
    tiling := {
      batch, qHead, head, dim, dimCompressed, dimUnpacked, maxSeqLen
      groupNum := if head = 0 then 1 else qHead / head
      topk, topkRatio, defaultChunkSize, maxChunkSize, maxOutputChunkLen
      tileN1, tileN2, branch := branch.toNat, continFlag, blockSize, blockCount
      coreNum, usedCoreNum, batchPerCore }
    tilingKey := branch.toNat * 10 + continFlag
    blockDim := usedCoreNum }

/-- `InferShape`: the dimensions of `indices`, from the key shape alone. -/
def inferShape (queryShape keyShape : Shape) : Shape :=
  let batch := queryShape.getDim 0
  let head := keyShape.getDim 1
  let maxSeqLen := keyShape.getDim 2
  let maxChunkSize := if maxSeqLen ≥ 1024 then 16 else if maxSeqLen ≥ 128 then 8 else 1
  let base := maxSeqLen / maxChunkSize
  let base := if base < 128 then 128 else base
  let maxOutputChunkLen := base + 2
  let maxOutputChunkLen := if maxOutputChunkLen < 128 then 128 else maxOutputChunkLen
  [batch, head, maxOutputChunkLen]

end MyOperator.Hamming

/-!
## HammingDistTopK: the kernel's tile loop

`ProcessOne` walks the tokens of one `(batch, head)` pair tile by tile and
`ReduceChunk` folds each tile into chunk maxima. The loops are written over a
bound on their number of iterations; the closed form `processOne_spec` in
`ChunkAlign` covers every token below `effectLen`, so the bound is never met.

`int32_t` locals are integers here. The unpacking of queries and keys and the
matmul are the distance sequence `d`: `d t` is the distance of token `t`, and the
`half` buffer of the tile that starts at `n0` holds `d (n0 + i)` at index `i`.
-/

namespace MyOperator.Hamming

variable {α : Type*}

def BLOCK_ALIGN : Int := 16

/-- `hasChunk_ ? chunkSizeGm_.GetValue(b) : defaultChunkSize`, raised to at least 1. -/
def runChunk (chunkSize : Option Int) (defaultChunkSize : Nat) : Int :=
  let chunk := match chunkSize with
    | some c => c
    | none => (defaultChunkSize : Int)
  if chunk ≤ 0 then 1 else chunk

/-- `effectLen`: the tokens that are reduced at all. `%` truncates towards zero. -/
def effectLen (seqLen chunk : Int) : Int :=
  let effectLen := seqLen - (seqLen.tmod chunk + BLOCK_ALIGN)
  if effectLen < 0 then 0 else effectLen

/-- The chunk buffer `chunkBuf_` with the shared output counter. -/
structure ChunkBuf (α : Type*) where
  chunkDist : Nat → α
  chunkCnt : Nat

/-- `chunkDist.SetValue(chunkCnt++, v)`. -/
def ChunkBuf.push (buf : ChunkBuf α) (v : α) : ChunkBuf α where
  chunkDist i := if i = buf.chunkCnt then v else buf.chunkDist i
  chunkCnt := buf.chunkCnt + 1

/-- The copy loop of the branch `chunk <= 1`. -/
def copyLoop (dist : Nat → α) : Nat → Nat → ChunkBuf α → ChunkBuf α
  | 0, _, buf => buf
  | n + 1, i, buf => copyLoop dist n (i + 1) (buf.push (dist i))

variable [LinearOrder α]

/-- The inner maximum: `n` steps from `j` with the running maximum `mx`. -/
def maxLoop (dist : Nat → α) (i : Nat) : Nat → Nat → α → α
  | 0, _, mx => mx
  | n + 1, j, mx =>
    let v := dist (i + j)
    maxLoop dist i n (j + 1) (if v > mx then v else mx)

/-- `for (i = 0; i + chunk <= curN; i += chunk)`. -/
def chunkLoop (dist : Nat → α) (curN chunk : Nat) : Nat → Nat → ChunkBuf α → ChunkBuf α
  | 0, _, buf => buf
  | fuel + 1, i, buf =>
    if i + chunk ≤ curN then
      chunkLoop dist curN chunk fuel (i + chunk) (buf.push (maxLoop dist i (chunk - 1) 1 (dist i)))
    else buf

def reduceChunk (dist : Nat → α) (curN chunk : Nat) (buf : ChunkBuf α) : ChunkBuf α :=
  if chunk ≤ 1 then copyLoop dist curN 0 buf
  else chunkLoop dist curN chunk (curN + 1) 0 buf

/-- `for (n0 = 0; n0 < effectLen; n0 += tileN1)`. -/
def tileLoop (d : Nat → α) (effectLen tileN1 chunk : Nat) :
    Nat → Nat → ChunkBuf α → ChunkBuf α
  | 0, _, buf => buf
  | fuel + 1, n0, buf =>
    if n0 < effectLen then
      let curN := if effectLen - n0 < tileN1 then effectLen - n0 else tileN1
      tileLoop d effectLen tileN1 chunk fuel (n0 + tileN1)
        (reduceChunk (fun i => d (n0 + i)) curN chunk buf)
    else buf

/-- The reduction of `ProcessOne`: from the uninitialised buffer `init`, the chunk
distances and their count that `TopKSmallest` receives. -/
def processOne (d : Nat → α) (init : Nat → α) (seqLen chunk : Int) (tileN1 : Nat) :
    ChunkBuf α :=
  let len := (effectLen seqLen chunk).toNat
  tileLoop d len tileN1 chunk.toNat (len + 1) 0 ⟨init, 0⟩

/-- `CopyOutIndices`: the offset (`uint64_t`) and the length of the row it writes. -/
def copyOutIndices (t : TilingData) (b h : Nat) : Nat × Nat :=
  ((b * t.head + h) * t.maxOutputChunkLen % 18446744073709551616, t.maxOutputChunkLen)

end MyOperator.Hamming
