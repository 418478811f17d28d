import MyOperator.Hamming.Host
import MyOperator.Lib.TileCount

/-!
# What the tile loop leaves in the chunk buffer

`processOne_spec` is the closed form of the two nested loops: they cut the tokens
as `Lib.tileCount` does, one maximum per chunk of a tile, and drop the rest of the
tile. `chunk_alignment` compares this with the token interval that the output
semantics assign to a chunk index, and `chunkCnt_le_buffer_iff` with the size of
the buffer the counter runs through.
-/

namespace MyOperator.Hamming

open Lib

variable {α : Type*}

/-! ## One reduction appends its values -/

/-- `buf'` is `buf` with the `n` values `f 0, …, f (n - 1)` pushed. -/
structure Appends (buf buf' : ChunkBuf α) (n : Nat) (f : Nat → α) : Prop where
  cnt : buf'.chunkCnt = buf.chunkCnt + n
  old : ∀ i < buf.chunkCnt, buf'.chunkDist i = buf.chunkDist i
  new : ∀ k < n, buf'.chunkDist (buf.chunkCnt + k) = f k

theorem Appends.nil (buf : ChunkBuf α) (f : Nat → α) : Appends buf buf 0 f :=
  ⟨rfl, fun _ _ => rfl, fun _ hk => absurd hk (by omega)⟩

theorem Appends.push {buf buf' : ChunkBuf α} {n : Nat} {f : Nat → α}
    (h : Appends (buf.push (f 0)) buf' n (fun k => f (k + 1))) : Appends buf buf' (n + 1) f where
  cnt := by rw [h.cnt]; simp [ChunkBuf.push]; omega
  old i hi := by
    rw [h.old i (by simp [ChunkBuf.push]; omega)]
    simp [ChunkBuf.push, ne_of_lt hi]
  new k hk := by
    cases k with
    | zero =>
      rw [add_zero, h.old _ (by simp [ChunkBuf.push])]
      simp [ChunkBuf.push]
    | succ k =>
      have := h.new k (by omega)
      simp only [ChunkBuf.push] at this
      rw [show buf.chunkCnt + (k + 1) = buf.chunkCnt + 1 + k by omega, this]

theorem copyLoop_appends (dist : Nat → α) (n i : Nat) (buf : ChunkBuf α) :
    Appends buf (copyLoop dist n i buf) n (fun k => dist (i + k)) := by
  induction n generalizing i buf with
  | zero => exact Appends.nil buf _
  | succ n ih =>
    rw [copyLoop]
    refine Appends.push ?_
    simpa only [add_assoc, add_comm 1, add_zero] using ih (i + 1) (buf.push (dist i))

variable [LinearOrder α]

/-- The maximum that `ReduceChunk` computes for the chunk of length `c` at `lo`. -/
def chunkMax (dist : Nat → α) (lo c : Nat) : α := maxLoop dist lo (c - 1) 1 (dist lo)

theorem maxLoop_isGreatest (dist : Nat → α) (i n j : Nat) (mx : α)
    (hmx : IsGreatest (dist '' Set.Ico i (i + j)) mx) :
    IsGreatest (dist '' Set.Ico i (i + (j + n))) (maxLoop dist i n j mx) := by
  induction n generalizing j mx with
  | zero => simpa [maxLoop] using hmx
  | succ n ih =>
    rw [show j + (n + 1) = j + 1 + n by omega]
    refine ih (j + 1) _ ?_
    have hset : Set.Ico i (i + (j + 1)) = insert (i + j) (Set.Ico i (i + j)) := by
      ext t; simp only [Set.mem_Ico, Set.mem_insert_iff]; omega
    rw [hset, Set.image_insert_eq]
    have hmax : (if dist (i + j) > mx then dist (i + j) else mx) = max (dist (i + j)) mx := by
      split
      · rename_i hgt; exact (max_eq_left hgt.le).symm
      · rename_i hle; exact (max_eq_right (not_lt.mp hle)).symm
    rw [hmax]
    exact hmx.insert _

theorem chunkMax_isGreatest (dist : Nat → α) (lo : Nat) {c : Nat} (hc : 0 < c) :
    IsGreatest (dist '' Set.Ico lo (lo + c)) (chunkMax dist lo c) := by
  have hone : IsGreatest (dist '' Set.Ico lo (lo + 1)) (dist lo) := by
    rw [show Set.Ico lo (lo + 1) = {lo} by ext t; simp only [Set.mem_Ico, Set.mem_singleton_iff]; omega]
    simp
  have := maxLoop_isGreatest dist lo (c - 1) 1 _ hone
  rwa [show 1 + (c - 1) = c by omega] at this

theorem chunkMax_shift (d : Nat → α) (n0 lo c : Nat) :
    chunkMax (fun i => d (n0 + i)) lo c = chunkMax d (n0 + lo) c := by
  unfold chunkMax
  generalize c - 1 = n
  suffices h : ∀ j mx, maxLoop (fun i => d (n0 + i)) lo n j mx = maxLoop d (n0 + lo) n j mx from
    h 1 _
  induction n with
  | zero => intro j mx; rfl
  | succ n ih => intro j mx; simp only [maxLoop, add_assoc, ih]

/-- The chunk loop from position `i` pushes one maximum per complete chunk that is left. -/
theorem chunkLoop_appends (dist : Nat → α) (curN : Nat) {c : Nat} (hc : 0 < c) (fuel i : Nat)
    (buf : ChunkBuf α) (hfuel : curN < i + fuel) :
    Appends buf (chunkLoop dist curN c fuel i buf) ((curN - i) / c)
      (fun k => chunkMax dist (i + k * c) c) := by
  induction fuel generalizing i buf with
  | zero =>
    rw [Nat.sub_eq_zero_of_le (by omega), Nat.zero_div]
    exact Appends.nil buf _
  | succ fuel ih =>
    unfold chunkLoop
    split
    · have hdiv : (curN - i) / c = (curN - (i + c)) / c + 1 := by
        rw [Nat.div_eq_sub_div hc (by omega), Nat.sub_sub]
      rw [hdiv]
      refine Appends.push ?_
      have := ih (i + c) (buf.push (chunkMax dist i c)) (by omega)
      simpa [chunkMax, add_mul, add_assoc, add_comm, add_left_comm] using this
    · rw [Nat.div_eq_of_lt (by omega)]
      exact Appends.nil buf _

/-- `ReduceChunk` pushes the maxima of the complete chunks of its tile; both branches. -/
theorem reduceChunk_appends (dist : Nat → α) (curN : Nat) {c : Nat} (hc : 0 < c)
    (buf : ChunkBuf α) :
    Appends buf (reduceChunk dist curN c buf) (curN / c) (fun k => chunkMax dist (k * c) c) := by
  unfold reduceChunk
  split
  · obtain rfl : c = 1 := by omega
    simpa [chunkMax, maxLoop] using copyLoop_appends dist curN 0 buf
  · simpa using chunkLoop_appends dist curN hc (curN + 1) 0 buf (by omega)

/-! ## The tile loop -/

/-- After `t` full tiles: their chunks, in order, each at its `chunkStart`. -/
structure TileInv (d : Nat → α) (T c n : Nat) (buf : ChunkBuf α) : Prop where
  cnt : buf.chunkCnt = n
  val : ∀ i < n, buf.chunkDist i = chunkMax d (chunkStart T c i) c

theorem TileInv.reduce {d : Nat → α} {T c t curN : Nat} {buf : ChunkBuf α} (hc : 0 < c)
    (hcur : curN ≤ T) (h : TileInv d T c (t * (T / c)) buf) :
    TileInv d T c (t * (T / c) + curN / c) (reduceChunk (fun i => d (t * T + i)) curN c buf) := by
  have hap := reduceChunk_appends (fun i => d (t * T + i)) curN hc buf
  refine ⟨by rw [hap.cnt, h.cnt], fun i hi => ?_⟩
  rcases lt_or_ge i (t * (T / c)) with hlt | hge
  · rw [hap.old i (by rw [h.cnt]; exact hlt), h.val i hlt]
  · obtain ⟨k, rfl⟩ := Nat.exists_eq_add_of_le hge
    have hk : k < curN / c := by omega
    have hkp : k < T / c := lt_of_lt_of_le hk (Nat.div_le_div_right hcur)
    rw [← h.cnt, hap.new k hk, h.cnt, chunkStart_add t hkp, chunkMax_shift]

theorem tileLoop_done (d : Nat → α) {len T c n0 : Nat} (h : len ≤ n0) (fuel : Nat)
    (buf : ChunkBuf α) : tileLoop d len T c fuel n0 buf = buf := by
  cases fuel with
  | zero => rfl
  | succ fuel => rw [tileLoop, if_neg (by omega)]

theorem tileLoop_inv (d : Nat → α) (len : Nat) {T c : Nat} (hT : 0 < T) (hc : 0 < c)
    (fuel t : Nat) (buf : ChunkBuf α) (ht : t * T ≤ len) (hfuel : len < t * T + fuel)
    (h : TileInv d T c (t * (T / c)) buf) :
    TileInv d T c (tileCount len T c) (tileLoop d len T c fuel (t * T) buf) := by
  induction fuel generalizing t buf with
  | zero => omega
  | succ fuel ih =>
    have hnext : (t + 1) * T = t * T + T := Nat.succ_mul t T
    by_cases hfull : len - t * T < T
    · -- the last tile, shorter than the others and possibly empty
      have hdiv : len / T = t := (Nat.div_eq_iff hT).mpr ⟨by omega, by omega⟩
      have hmod : len % T = len - t * T := by rw [Nat.mod_eq_sub_mul_div, hdiv, Nat.mul_comm]
      rw [tileCount, hdiv, hmod]
      rw [tileLoop]
      split
      · simp only [tileLoop_done d (show len ≤ t * T + T by omega)]
        exact TileInv.reduce hc hfull.le h
      · rw [show len - t * T = 0 by omega, Nat.zero_div]
        exact h
    · rw [tileLoop, if_pos (by omega), if_neg hfull, ← hnext]
      refine ih (t + 1) _ (by omega) (by omega) ?_
      have hstep := TileInv.reduce hc (le_refl T) h
      rwa [← Nat.succ_mul] at hstep

/-- The chunk buffer after `ProcessOne`'s loops, for every tile and chunk size. -/
theorem processOne_spec (d init : Nat → α) (seqLen : Int) {T c : Nat} (hT : 0 < T) (hc : 0 < c) :
    TileInv d T c (tileCount (effectLen seqLen c).toNat T c) (processOne d init seqLen c T) := by
  have := tileLoop_inv d (effectLen seqLen c).toNat hT hc
    ((effectLen seqLen c).toNat + 1) 0 ⟨init, 0⟩ (by simp) (by omega)
    ⟨by simp, fun i hi => absurd hi (by simp)⟩
  simpa [processOne] using this

/-! ## Chunk indices and token intervals -/

/-- The output semantics: chunk `i` stands for the tokens `[i * chunk, (i + 1) * chunk)`,
and there is one chunk for every complete interval of the effective length. -/
structure ChunkAligned (d : Nat → α) (seqLen : Int) (chunk : Nat) (buf : ChunkBuf α) : Prop where
  count : buf.chunkCnt = (effectLen seqLen chunk).toNat / chunk
  value : ∀ i < buf.chunkCnt,
    IsGreatest (d '' Set.Ico (i * chunk) ((i + 1) * chunk)) (buf.chunkDist i)

/-- Every distance sequence is aligned exactly when the chunk divides the tile or no
complete chunk lies beyond the first tile. -/
theorem chunk_alignment [Nontrivial α] (init : Nat → α) (seqLen : Int) {T c : Nat}
    (hT : 0 < T) (hc : 0 < c) :
    (∀ d : Nat → α, ChunkAligned d seqLen c (processOne d init seqLen c T)) ↔
      c ∣ T ∨ (effectLen seqLen c).toNat / c ≤ T / c := by
  constructor
  · intro haligned
    by_contra hcond
    obtain ⟨hdvd, hbeyond⟩ := not_or.mp hcond
    obtain ⟨a, b, hne⟩ := exists_pair_ne α
    -- the first token that the first tile drops gets the larger of two distances
    let d : Nat → α := fun t => if t = T / c * c then max a b else min a b
    have hspec := processOne_spec d init seqLen hT hc
    have hd := haligned d
    have hcnt : T / c < (processOne d init seqLen c T).chunkCnt := by rw [hd.count]; omega
    have htile : c ≤ T := by
      by_contra hlt
      rw [hspec.cnt, tileCount_of_tile_lt hT (by omega)] at hcnt
      exact absurd hcnt (Nat.not_lt_zero _)
    have hp : 0 < T / c := Nat.div_pos htile hc
    have hstart : chunkStart T c (T / c) = T := by simpa using chunkStart_add 1 hp
    have hdrop : T / c * c < T :=
      lt_of_le_of_ne (Nat.div_mul_le_self T c) (fun h => hdvd (Dvd.intro_left _ h))
    -- the chunk of that index really starts at the second tile and misses the token
    have hval := hspec.val (T / c) (by rw [← hspec.cnt]; exact hcnt)
    rw [hstart] at hval
    have hlow : chunkMax d T c = min a b := by
      obtain ⟨t, ht, hmax⟩ := (chunkMax_isGreatest d T hc).1
      rw [← hmax]
      exact if_neg (by have := ht.1; omega)
    have hhigh : max a b ≤ (processOne d init seqLen c T).chunkDist (T / c) := by
      refine (hd.value _ hcnt).2 ⟨T / c * c, ⟨le_rfl, by rw [Nat.succ_mul]; omega⟩, ?_⟩
      exact if_pos rfl
    rw [hval, hlow] at hhigh
    exact absurd hhigh (not_le.mpr (min_lt_max.mpr hne))
  · intro hcond d
    have hspec := processOne_spec d init seqLen hT hc
    have hcount : tileCount (effectLen seqLen c).toNat T c = (effectLen seqLen c).toNat / c :=
      hcond.elim (fun h => tileCount_of_dvd h hT) (fun h => tileCount_of_le hc h)
    refine ⟨hspec.cnt.trans hcount, fun i hi => ?_⟩
    rw [hspec.cnt] at hi
    have hstart : chunkStart T c i = i * c :=
      hcond.elim (fun h => chunkStart_of_dvd h hT) (fun h => chunkStart_of_lt (by omega))
    rw [hspec.val i hi, hstart, Nat.succ_mul]
    exact chunkMax_isGreatest d (i * c) hc

/-- At the tile size of the Basic branch and a chunk of 16. -/
theorem chunk_alignment_basic :
    (∀ d : Nat → Nat, ChunkAligned d 1040 16 (processOne d (fun _ => 0) 1040 16 254)) ↔
      16 ∣ 254 ∨ (effectLen 1040 16).toNat / 16 ≤ 254 / 16 :=
  chunk_alignment (fun _ => 0) 1040 (T := 254) (c := 16) (by decide) (by decide)

/-- Chunks of 4 in tiles of 254: 284 tokens hold 71 chunks, the kernel counts 70. -/
theorem chunk_misaligned :
    (selectBranch 16 300 0 0).2.1 = 254 ∧
      ¬ ChunkAligned (fun t => t) 300 4 (processOne (fun t => t) (fun _ => 0) 300 4 254) := by
  refine ⟨by decide, fun h => ?_⟩
  have hcount := h.count
  revert hcount
  decide

/-! ## The counter and the buffer size -/

theorem runChunk_pos (chunkSize : Option Int) (defaultChunkSize : Nat) :
    0 < runChunk chunkSize defaultChunkSize := by
  unfold runChunk
  split <;> simp only <;> split <;> omega

theorem selectBranch_tileN1_pos (batch maxSeqLen continFlag blockSize : Nat) :
    0 < (selectBranch batch maxSeqLen continFlag blockSize).2.1 := by
  unfold selectBranch
  simp only
  split
  · rename_i h; exact h.2
  · split <;> decide

/-- What the kernel relies on in a tiling that `TilingFunc` accepted. -/
structure TilingSpec (queryShape keyShape : Shape) (blockTable : Option Shape)
    (t : TilingData) : Prop where
  tileN1 : 0 < t.tileN1
  defaultChunkSize : t.defaultChunkSize = 1
  topkRatio : t.topkRatio = 100
  batch : t.batch = u32 (queryShape.getDim 0)
  head : t.head = u32 (keyShape.getDim 1)
  maxSeqLen : t.maxSeqLen = (seqLayout keyShape blockTable).2.2.2
  maxOutputChunkLen :
    t.maxOutputChunkLen = calcMaxOutputChunkLen t.maxSeqLen (calcMaxChunkSize t.maxSeqLen) 100

theorem tilingFunc_spec {getTiling : Nat → Nat → Nat → Int} {coreNum : Nat}
    {queryShape keyShape : Shape} {blockTable : Option Shape} {topkAttr : Option Int}
    {r : TilingResult}
    (h : tilingFunc getTiling coreNum queryShape keyShape blockTable topkAttr = some r) :
    TilingSpec queryShape keyShape blockTable r.tiling := by
  simp only [tilingFunc] at h
  split at h
  · cases h
  · cases h
    exact ⟨selectBranch_tileN1_pos .., rfl, rfl, rfl, rfl, rfl, rfl⟩

/-- The chunk counter stays within the `maxOutputChunkLen` elements of `chunkBuf_` and
`idxBuf_` exactly when a chunk is longer than a tile or the effective length ends
before the first chunk that no longer fits is complete. -/
theorem chunkCnt_le_buffer_iff {getTiling : Nat → Nat → Nat → Int} {coreNum : Nat}
    {queryShape keyShape : Shape} {blockTable : Option Shape} {topkAttr : Option Int}
    {r : TilingResult}
    (h : tilingFunc getTiling coreNum queryShape keyShape blockTable topkAttr = some r)
    (d init : Nat → α) (seqLen : Int) (chunkSize : Option Int) :
    let chunk := runChunk chunkSize r.tiling.defaultChunkSize
    (processOne d init seqLen chunk r.tiling.tileN1).chunkCnt ≤ r.tiling.maxOutputChunkLen ↔
      r.tiling.tileN1 < chunk.toNat ∨
        (effectLen seqLen chunk).toNat <
          cutEnd r.tiling.tileN1 chunk.toNat r.tiling.maxOutputChunkLen := by
  intro chunk
  have hpos : 0 < chunk := runChunk_pos _ _
  obtain ⟨c, hc⟩ : ∃ c : Nat, chunk = c := ⟨chunk.toNat, by omega⟩
  have hc0 : 0 < c := by omega
  have hT := (tilingFunc_spec h).tileN1
  rw [hc, Int.toNat_natCast, (processOne_spec d init seqLen hT hc0).cnt]
  rcases lt_or_ge r.tiling.tileN1 c with hlt | hge
  · simp [tileCount_of_tile_lt hT hlt, hlt]
  · rw [tileCount_le_iff hc0 hge]
    simp [not_lt.mpr hge]

/-- `TilingFunc` on contiguous keys `[16, 1, 1024, 16]` with twenty cores. -/
def contiguousTiling : Option TilingResult :=
  tilingFunc (fun _ _ _ => 0) 20 [16, 1, 1, 16] [16, 1, 1024, 16] none none

theorem contiguousTiling_isSome : contiguousTiling.isSome := by decide

/-- With a chunk of 16 the 1008 effective tokens of that tiling stay in the buffer. -/
theorem chunkCnt_le_buffer_contiguous :
    let r := contiguousTiling.get contiguousTiling_isSome
    (processOne (fun t => t) (fun _ => 0) 1024 (runChunk (some 16) r.tiling.defaultChunkSize)
        r.tiling.tileN1).chunkCnt ≤ r.tiling.maxOutputChunkLen ↔
      r.tiling.tileN1 < 16 ∨
        (effectLen 1024 16).toNat < cutEnd r.tiling.tileN1 16 r.tiling.maxOutputChunkLen :=
  chunkCnt_le_buffer_iff (Option.some_get contiguousTiling_isSome).symm (fun t => t) (fun _ => 0)
    1024 (some 16)

/-- Without a `chunk_size` input the same tiling counts 1008 chunks into 130 elements. -/
theorem chunkCnt_overflows_buffer :
    ∃ r, contiguousTiling = some r ∧ r.tiling.maxOutputChunkLen = 130 ∧
      ¬ (processOne (fun t => t) (fun _ => 0) 1024 (runChunk none r.tiling.defaultChunkSize)
          r.tiling.tileN1).chunkCnt ≤ r.tiling.maxOutputChunkLen := by
  have hspec := (processOne_spec (fun t => t) (fun _ => 0) 1024
    (show 0 < 254 by decide) (show 0 < 1 by decide)).cnt
  rw [show ((1 : Nat) : Int) = 1 from rfl] at hspec
  refine ⟨contiguousTiling.get contiguousTiling_isSome,
    (Option.some_get contiguousTiling_isSome).symm, by decide, ?_⟩
  change ¬ (processOne (fun t => t) (fun _ => 0) 1024 1 254).chunkCnt ≤ 130
  rw [hspec]
  decide

end MyOperator.Hamming
