import MyOperator.Sched.BlockHasher

/-!
# What the block hasher computes

The hasher walks the multimodal items with an index that it carries from block to
block. `itemsIn` is the same walk without the index: the items of a block are those
that overlap it, up to the first item that does not end inside the block. The hash
list is then a chain over blocks whose keys are functions of the request
(`updateBlockHashes_eq`).
-/

namespace MyOperator.Sched

open Lib List Nat
open KvCache (BlockHash assert)

/-! ## The items of a block -/

/-- The item ends by position `e`. -/
def EndsBy (e : Nat) (f : MultiModalFeatureSpec) : Prop := f.mmPosition.offset < e ∧ f.stop ≤ e

/-- The item has a position in `[s, e)`. -/
def Overlaps (s e : Nat) (f : MultiModalFeatureSpec) : Prop := s < f.stop ∧ f.mmPosition.offset < e

instance (e : Nat) : DecidablePred (EndsBy e) := fun f =>
  inferInstanceAs (Decidable (f.mmPosition.offset < e ∧ f.stop ≤ e))

instance (s e : Nat) : DecidablePred (Overlaps s e) := fun f =>
  inferInstanceAs (Decidable (s < f.stop ∧ f.mmPosition.offset < e))

/-- The items up to the first that does not end by `e`. -/
def reached (e : Nat) (fs : List MultiModalFeatureSpec) : List MultiModalFeatureSpec :=
  fs.takeWhile (EndsBy e ·) ++ (fs.dropWhile (EndsBy e ·)).take 1

/-- The items among `fs` that the keys of block `[s, e)` name. -/
def itemsIn (s e : Nat) (fs : List MultiModalFeatureSpec) : List MultiModalFeatureSpec :=
  (reached e fs).filter (Overlaps s e ·)

variable {s e : Nat} {fs pre : List MultiModalFeatureSpec} {f : MultiModalFeatureSpec}

theorem itemsIn_cons_of_endsBy (h : EndsBy e f) :
    itemsIn s e (f :: fs) = [f].filter (Overlaps s e ·) ++ itemsIn s e fs := by
  unfold itemsIn reached
  rw [takeWhile_cons_of_pos (by simpa using h), dropWhile_cons_of_pos (by simpa using h),
    cons_append, ← singleton_append, filter_append]

theorem itemsIn_cons_of_not_endsBy (h : ¬ EndsBy e f) :
    itemsIn s e (f :: fs) = [f].filter (Overlaps s e ·) := by
  unfold itemsIn reached
  rw [takeWhile_cons_of_neg (by simpa using h), dropWhile_cons_of_neg (by simpa using h),
    nil_append, take_succ_cons, take_zero]

theorem itemsIn_append_of_stop (hse : s < e) (hpre : ∀ f ∈ pre, f.stop ≤ s) :
    itemsIn s e (pre ++ fs) = itemsIn s e fs := by
  induction pre with
  | nil => rfl
  | cons f pre ih =>
    have hf : f.stop ≤ s := hpre f mem_cons_self
    have hoff : f.mmPosition.offset ≤ f.stop := Nat.le_add_right _ _
    have hends : EndsBy e f := ⟨by omega, by omega⟩
    have hno : ¬ Overlaps s e f := fun h => by
      have := h.1
      omega
    rw [cons_append, itemsIn_cons_of_endsBy hends,
      filter_cons_of_neg (by simpa using hno), filter_nil, nil_append,
      ih fun g hg => hpre g (mem_cons_of_mem _ hg)]

/-! ## The walk -/

theorem mmLoop_fst (hse : s < e) (i : Nat) :
    (mmLoop s e fs i).1 = (itemsIn s e fs).map (·.extraKey s) := by
  induction fs generalizing i with
  | nil => rfl
  | cons f fs ih =>
    unfold mmLoop
    split
    · rename_i hoff
      split
      · have hends : EndsBy e f := ⟨hoff, by omega⟩
        have hno : ¬ Overlaps s e f := fun h => by
          have := h.1
          omega
        rw [itemsIn_cons_of_endsBy hends, filter_cons_of_neg (by simpa using hno), ih]
        rfl
      · have hover : Overlaps s e f := ⟨by omega, hoff⟩
        split
        · rename_i hend
          have hends : EndsBy e f := ⟨hoff, hend⟩
          rw [itemsIn_cons_of_endsBy hends, filter_cons_of_pos (by simpa using hover)]
          show f.extraKey s :: (mmLoop s e fs (i + 1)).1 = _
          rw [ih]
          rfl
        · rename_i hend
          have hends : ¬ EndsBy e f := fun h => hend h.2
          rw [itemsIn_cons_of_not_endsBy hends, filter_cons_of_pos (by simpa using hover)]
          rfl
    · rename_i hoff
      have hends : ¬ EndsBy e f := fun h => hoff h.1
      have hno : ¬ Overlaps s e f := fun h => hoff h.2
      rw [itemsIn_cons_of_not_endsBy hends, filter_cons_of_neg (by simpa using hno)]
      rfl

theorem mmLoop_snd (hse : s < e) (i : Nat) :
    ∃ k ≤ fs.length, (mmLoop s e fs i).2 = i + k ∧ ∀ f ∈ fs.take k, f.stop ≤ e := by
  induction fs generalizing i with
  | nil => exact ⟨0, le_rfl, rfl, by simp⟩
  | cons f fs ih =>
    have hnext : f.stop ≤ e → ∃ k ≤ (f :: fs).length,
        (mmLoop s e fs (i + 1)).2 = i + k ∧ ∀ g ∈ (f :: fs).take k, g.stop ≤ e := by
      intro hf
      obtain ⟨k, hk, heq, htake⟩ := ih (i + 1)
      refine ⟨k + 1, succ_le_succ hk, by omega, fun g hg => ?_⟩
      rcases mem_cons.mp hg with rfl | hg
      · exact hf
      · exact htake g hg
    unfold mmLoop
    split
    · split
      · exact hnext (by omega)
      · split
        · rename_i hend
          exact hnext hend
        · exact ⟨0, Nat.zero_le _, rfl, by simp⟩
    · exact ⟨0, Nat.zero_le _, rfl, by simp⟩

/-! ## The keys of a block -/

/-- The items that the keys of block `[s, e)` name when the walk starts at the head of `fs`:
none once the last item is over. -/
def keyedItems (s e : Nat) (fs : List MultiModalFeatureSpec) : List MultiModalFeatureSpec :=
  match fs.getLast? with
  | none => []
  | some last => if last.stop ≤ s then [] else itemsIn s e fs

/-- The multimodal keys of block `[s, e)`. -/
def mmKeys (s e : Nat) (fs : List MultiModalFeatureSpec) : List ExtraKey :=
  (keyedItems s e fs).map (·.extraKey s)

/-- `curr_mm_idx` is -1, or an index from `c` on such that the items passed since `c` end by
`s`. The value -1 stands for the last item. -/
def MmIdxAt (fs : List MultiModalFeatureSpec) (c s : Nat) (idx : Int) : Prop :=
  (idx = -1 ∧ c = fs.length - 1) ∨
    ∃ i : Nat, idx = i ∧ c ≤ i ∧ i ≤ fs.length ∧ ∀ f ∈ (fs.drop c).take (i - c), f.stop ≤ s

theorem MmIdxAt.mono {c s' : Nat} {idx : Int} (h : MmIdxAt fs c s idx) (hs : s ≤ s') :
    MmIdxAt fs c s' idx := by
  rcases h with h | ⟨i, hi, hc, hle, hf⟩
  · exact .inl h
  · exact .inr ⟨i, hi, hc, hle, fun f hmem => le_trans (hf f hmem) hs⟩

theorem mmIdxAt_nat {c i : Nat} (hc : c ≤ i) (hle : i ≤ fs.length)
    (h : ∀ f ∈ (fs.drop c).take (i - c), f.stop ≤ s) : MmIdxAt fs c s i := .inr ⟨i, rfl, hc, hle, h⟩

theorem MmIdxAt.resolve {c : Nat} {idx : Int} (h : MmIdxAt fs c s idx) (hpos : 0 < fs.length) :
    ∃ i : Nat, resolveMmIdx fs.length idx = .ok (i : Int) ∧ c ≤ i ∧ i ≤ fs.length ∧
      ∀ f ∈ (fs.drop c).take (i - c), f.stop ≤ s := by
  unfold resolveMmIdx
  rcases h with ⟨rfl, rfl⟩ | ⟨i, rfl, hci, hle, hpassed⟩
  · refine ⟨fs.length - 1, ?_, le_rfl, Nat.sub_le _ _, by simp⟩
    have hassert : assert (decide (-(-1 : Int) ≤ fs.length)) "" = .ok () := by
      rw [KvCache.assert_eq_ok, decide_eq_true_eq]
      omega
    rw [if_pos (by omega), hassert, ok_bind]
    congr 1
    omega
  · exact ⟨i, if_neg (by omega), hci, hle, hpassed⟩

variable {request : Request} {c : Nat} {idx : Int}

/-- Walking on from the carried index gives the keys of the walk from item `c`. -/
theorem genMmExtraHashKeys_eq (hse : s < e) (hfs : request.mmFeatures = fs)
    (hc : c ≤ fs.length - 1) (hidx : MmIdxAt fs c s idx) :
    ∃ idx', genMmExtraHashKeys request s e idx = .ok (mmKeys s e (fs.drop c), idx') ∧
      MmIdxAt fs c e idx' := by
  unfold genMmExtraHashKeys
  rw [hfs]
  cases hlast : fs.getLast? with
  | none =>
    refine ⟨idx, ?_, hidx.mono (le_of_lt hse)⟩
    rw [getLast?_eq_none_iff.mp hlast, drop_nil]
    rfl
  | some last =>
    have hpos : 0 < fs.length := length_pos_of_ne_nil fun h => by simp [h] at hlast
    have hdrop : (fs.drop c).getLast? = some last := by
      rw [getLast?_drop, if_neg (by omega), hlast]
    have hkeys : mmKeys s e (fs.drop c) =
        if last.stop ≤ s then [] else (itemsIn s e (fs.drop c)).map (·.extraKey s) := by
      unfold mmKeys keyedItems
      rw [hdrop]
      dsimp only
      split <;> rfl
    rw [hkeys]
    show ∃ idx', (if last.stop ≤ s then _ else _) = _ ∧ _
    by_cases hstop : last.stop ≤ s
    · rw [if_pos hstop, if_pos hstop]
      exact ⟨idx, rfl, hidx.mono (le_of_lt hse)⟩
    · rw [if_neg hstop, if_neg hstop]
      obtain ⟨i, hres, hci, hle, hpassed⟩ := hidx.resolve hpos
      rw [hres, ok_bind, Int.toNat_natCast]
      obtain ⟨k, hk, hsnd, hends⟩ := @mmLoop_snd s e (fs.drop i) hse i
      have hsplit : fs.drop c = (fs.drop c).take (i - c) ++ fs.drop i := by
        have hdd : (fs.drop c).drop (i - c) = fs.drop i := by
          rw [drop_drop, Nat.add_sub_cancel' hci]
        rw [← hdd, take_append_drop]
      refine ⟨i + k, ?_, ?_⟩
      · show (Except.ok ((mmLoop s e (fs.drop i) i).1, ((mmLoop s e (fs.drop i) i).2 : Int)) :
          Except PyError _) = _
        rw [mmLoop_fst hse, hsnd, hsplit, itemsIn_append_of_stop hse hpassed]
        rfl
      · rw [length_drop] at hk
        refine mmIdxAt_nat (i := i + k) (by omega) (by omega) fun f hf => ?_
        have htake : (fs.drop c).take (i + k - c) =
            (fs.drop c).take (i - c) ++ (fs.drop i).take k := by
          have hic : i + k - c = (i - c) + k := by omega
          rw [hic, take_add, drop_drop, Nat.add_sub_cancel' hci]
        rw [htake, mem_append] at hf
        rcases hf with hf | hf
        · exact le_trans (hpassed f hf) (le_of_lt hse)
        · exact hends f hf

/-- The digest of the prompt embeddings of block `[s, e)`. -/
def embedKeys (H : BlockHasher) (request : Request) (s e : Nat) : List ExtraKey :=
  match request.promptEmbeds with
  | none => []
  | some rows => [.bytes (H.embedsDigest ((rows.take e).drop s))]

/-- The remembered digests are those of the prompt embeddings. -/
def MemoRight (H : BlockHasher) (request : Request) : Prop :=
  ∀ rows, request.promptEmbeds = some rows → ∀ s e digest,
    request.promptEmbedsPerBlockHashes.get? (s, e) = some digest →
      digest = H.embedsDigest ((rows.take e).drop s)

/-- The request with other remembered digests. -/
def Request.withMemo (request : Request) (memo : Dict (Nat × Nat) (List UInt8)) : Request :=
  { request with promptEmbedsPerBlockHashes := memo }

variable {H : BlockHasher}

theorem genPromptEmbedsExtraHashKeys_eq (hmemo : MemoRight H request) (s e : Nat) :
    ∃ memo, genPromptEmbedsExtraHashKeys H request s e =
        (embedKeys H request s e, request.withMemo memo) ∧ MemoRight H (request.withMemo memo) := by
  unfold genPromptEmbedsExtraHashKeys embedKeys
  cases hrows : request.promptEmbeds with
  | none => exact ⟨request.promptEmbedsPerBlockHashes, rfl, hmemo⟩
  | some rows =>
    dsimp only
    cases hget : request.promptEmbedsPerBlockHashes.get? (s, e) with
    | some digest =>
      refine ⟨request.promptEmbedsPerBlockHashes, ?_, hmemo⟩
      rw [← hmemo rows hrows s e digest hget]
      rfl
    | none =>
      refine ⟨request.promptEmbedsPerBlockHashes.set (s, e)
        (H.embedsDigest ((rows.take e).drop s)), by rw [← hrows]; rfl, ?_⟩
      intro rows' hrows' s' e' digest hget'
      have heq : rows = rows' := Option.some.inj (hrows.symm.trans hrows')
      subst heq
      replace hget' : (request.promptEmbedsPerBlockHashes.set (s, e)
          (H.embedsDigest ((rows.take e).drop s))).get? (s', e') = some digest := hget'
      rw [Dict.get?_set] at hget'
      split at hget'
      · rename_i hse
        obtain ⟨rfl, rfl⟩ := Prod.mk.inj hse
        exact (Option.some.inj hget').symm
      · exact hmemo rows hrows s' e' digest hget'

/-- The extra keys of block `j`, walking the items from item `c` on. -/
def blockKeys (H : BlockHasher) (request : Request) (c j : Nat) : Option (List ExtraKey) :=
  let s := j * H.blockSize
  let e := (j + 1) * H.blockSize
  extraKeysTuple (genLoraExtraHashKeys request ++ mmKeys s e (request.mmFeatures.drop c) ++
    cacheSaltKeys request s ++ embedKeys H request s e)

theorem extraKeysTuple_inj {ks ks' : List ExtraKey} :
    extraKeysTuple ks = extraKeysTuple ks' ↔ ks = ks' := by
  constructor
  · intro h
    unfold extraKeysTuple at h
    split at h <;> split at h
    · simp_all
    · cases h
    · cases h
    · exact Option.some.inj h
  · rintro rfl
    rfl

theorem generateBlockHashExtraKeys_eq {j : Nat} (hbs : 0 < H.blockSize)
    (hmemo : MemoRight H request) (hc : c ≤ request.mmFeatures.length - 1)
    (hidx : MmIdxAt request.mmFeatures c (j * H.blockSize) idx) :
    ∃ memo idx', generateBlockHashExtraKeys H request (j * H.blockSize) ((j + 1) * H.blockSize) idx =
        .ok (blockKeys H request c j, idx', request.withMemo memo) ∧
      MemoRight H (request.withMemo memo) ∧
      MmIdxAt request.mmFeatures c ((j + 1) * H.blockSize) idx' := by
  have hse : j * H.blockSize < (j + 1) * H.blockSize := by
    rw [succ_mul]
    omega
  obtain ⟨idx', hmm, hidx'⟩ := genMmExtraHashKeys_eq hse rfl hc hidx
  obtain ⟨memo, hembeds, hmemo'⟩ :=
    genPromptEmbedsExtraHashKeys_eq hmemo (j * H.blockSize) ((j + 1) * H.blockSize)
  refine ⟨memo, idx', ?_, hmemo', hidx'⟩
  unfold generateBlockHashExtraKeys
  rw [hmm, hembeds]
  rfl

/-! ## The chain -/

/-- The tokens of block `j`. -/
def blockTokens (blockSize : Nat) (tokens : List TokenId) (j : Nat) : List TokenId :=
  (tokens.take ((j + 1) * blockSize)).drop (j * blockSize)

/-- The hashes of `n` blocks from block `j` on, with parent hash `prev`. -/
def chainHashes (H : BlockHasher) (tokens : List TokenId) (keys : Nat → Option (List ExtraKey)) :
    Option BlockHash → Nat → Nat → List BlockHash
  | _, _, 0 => []
  | prev, j, n + 1 =>
    let hash := hashBlockTokens H prev (blockTokens H.blockSize tokens j) (keys j)
    hash :: chainHashes H tokens keys (some hash) (j + 1) n

variable {tokens tokens' : List TokenId} {keys keys' : Nat → Option (List ExtraKey)}

@[simp] theorem length_chainHashes (prev : Option BlockHash) (j n : Nat) :
    (chainHashes H tokens keys prev j n).length = n := by
  induction n generalizing prev j with
  | zero => rfl
  | succ n ih => exact congrArg (· + 1) (ih _ _)

theorem chainHashes_congr {n : Nat} (prev : Option BlockHash) (j : Nat)
    (ht : ∀ k, j ≤ k → k < j + n →
      blockTokens H.blockSize tokens k = blockTokens H.blockSize tokens' k)
    (hk : ∀ k, j ≤ k → k < j + n → keys k = keys' k) :
    chainHashes H tokens keys prev j n = chainHashes H tokens' keys' prev j n := by
  induction n generalizing prev j with
  | zero => rfl
  | succ n ih =>
    unfold chainHashes
    rw [ht j le_rfl (by omega), hk j le_rfl (by omega)]
    dsimp only
    rw [ih _ (j + 1) (fun k h1 h2 => ht k (by omega) (by omega))
      (fun k h1 h2 => hk k (by omega) (by omega))]

theorem chainHashes_add (prev : Option BlockHash) (j n m : Nat) :
    chainHashes H tokens keys prev j (n + m) = chainHashes H tokens keys prev j n ++
        chainHashes H tokens keys (((chainHashes H tokens keys prev j n).getLast?).or prev)
    (j + n) m := by
  induction n generalizing prev j with
  | zero => simp [chainHashes]
  | succ n ih =>
    have hstep : ∀ k, chainHashes H tokens keys prev j (k + 1) =
        hashBlockTokens H prev (blockTokens H.blockSize tokens j) (keys j) ::
          chainHashes H tokens keys
            (some (hashBlockTokens H prev (blockTokens H.blockSize tokens j) (keys j))) (j + 1) k :=
      fun _ => rfl
    have hj : j + (n + 1) = j + 1 + n := by omega
    rw [succ_add, hstep, hstep, ih, getLast?_cons, hj]
    cases (chainHashes H tokens keys (some _) (j + 1) n).getLast? <;> rfl

theorem blockTokens_append {blockSize k : Nat} (more : List TokenId)
    (hk : k < tokens.length / blockSize) :
    blockTokens blockSize (tokens ++ more) k = blockTokens blockSize tokens k := by
  have hle : (k + 1) * blockSize ≤ tokens.length :=
    Nat.le_trans (Nat.mul_le_mul_right _ hk) (div_mul_le_self _ _)
  unfold blockTokens
  rw [take_append_of_le_length hle]

theorem hashLoop_eq {fuel j n : Nat} (prev : Option BlockHash) (hbs : 0 < H.blockSize)
    (hmemo : MemoRight H request) (hc : c ≤ request.mmFeatures.length - 1)
    (hidx : MmIdxAt request.mmFeatures c (j * H.blockSize) idx)
    (hn : j + n = request.numTokens / H.blockSize) (hfuel : n ≤ fuel) :
    ∃ memo, hashLoop H fuel request (j * H.blockSize) idx prev =
        .ok (chainHashes H request.allTokenIds (blockKeys H request c) prev j n,
          request.withMemo memo) ∧ MemoRight H (request.withMemo memo) := by
  induction fuel generalizing request j n idx prev with
  | zero =>
    obtain rfl : n = 0 := by omega
    exact ⟨request.promptEmbedsPerBlockHashes, rfl, hmemo⟩
  | succ fuel ih =>
    unfold hashLoop
    have hend : j * H.blockSize + H.blockSize = (j + 1) * H.blockSize := (succ_mul _ _).symm
    dsimp only
    rw [hend]
    cases n with
    | zero =>
      have hgt : (j + 1) * H.blockSize > request.numTokens := by
        rw [gt_iff_lt, ← div_lt_iff_lt_mul hbs]
        omega
      rw [if_pos hgt]
      exact ⟨request.promptEmbedsPerBlockHashes, rfl, hmemo⟩
    | succ n =>
      have hle : ¬ (j + 1) * H.blockSize > request.numTokens := by
        rw [gt_iff_lt, ← div_lt_iff_lt_mul hbs]
        omega
      rw [if_neg hle]
      obtain ⟨memo, idx', hkeys, hmemo', hidx'⟩ := generateBlockHashExtraKeys_eq hbs hmemo hc hidx
      rw [hkeys, ok_bind]
      have hn' : j + 1 + n = (request.withMemo memo).numTokens / H.blockSize := by
        rw [← add_right_comm]
        exact hn
      obtain ⟨memo', hrec, hmemo''⟩ := ih (some (hashBlockTokens H prev
        (blockTokens H.blockSize request.allTokenIds j) (blockKeys H request c j)))
        hmemo' hc hidx' hn' (by omega)
      refine ⟨memo', ?_, hmemo''⟩
      show (hashLoop H fuel (request.withMemo memo) ((j + 1) * H.blockSize) idx'
        (some (hashBlockTokens H prev (blockTokens H.blockSize request.allTokenIds j)
          (blockKeys H request c j))) >>= _) = _
      rw [hrec, ok_bind]
      rfl

/-- The item that a call of the hasher starts from: the first at the start of the sequence,
else the last. -/
def startItem (request : Request) : Nat :=
  if request.blockHashes.length = 0 then 0 else request.mmFeatures.length - 1

section

variable (hbs : 0 < H.blockSize) (hmemo : MemoRight H request)
  (hlen : request.blockHashes.length ≤ request.numTokens / H.blockSize)
include hbs hmemo hlen

theorem requestBlockHasher_eq :
    ∃ memo, requestBlockHasher H request = .ok (chainHashes H request.allTokenIds
        (blockKeys H request (startItem request)) request.blockHashes.getLast?
        request.blockHashes.length (request.numTokens / H.blockSize - request.blockHashes.length),
        request.withMemo memo) ∧ MemoRight H (request.withMemo memo) := by
  have hend : request.blockHashes.length * H.blockSize + H.blockSize =
      (request.blockHashes.length + 1) * H.blockSize := (succ_mul _ _).symm
  unfold requestBlockHasher
  dsimp only
  rw [hend]
  by_cases hgt : (request.blockHashes.length + 1) * H.blockSize > request.numTokens
  · have hzero : request.numTokens / H.blockSize - request.blockHashes.length = 0 := by
      rw [gt_iff_lt, ← div_lt_iff_lt_mul hbs] at hgt
      omega
    rw [if_pos hgt, hzero]
    exact ⟨request.promptEmbedsPerBlockHashes, rfl, hmemo⟩
  · rw [if_neg hgt]
    have hidx : MmIdxAt request.mmFeatures (startItem request)
        (request.blockHashes.length * H.blockSize)
        (if request.blockHashes.length * H.blockSize > 0 then -1 else 0) := by
      unfold startItem
      by_cases hz : request.blockHashes.length = 0
      · rw [if_pos hz, hz, Nat.zero_mul, if_neg (lt_irrefl 0)]
        exact mmIdxAt_nat (i := 0) (Nat.le_refl _) (Nat.zero_le _) (by simp)
      · rw [if_neg hz, if_pos (Nat.mul_pos (Nat.pos_of_ne_zero hz) hbs)]
        exact .inl ⟨rfl, rfl⟩
    have hc : startItem request ≤ request.mmFeatures.length - 1 := by
      unfold startItem
      split <;> omega
    have hfuel : request.numTokens / H.blockSize ≤ request.numTokens := div_le_self _ _
    have hn : request.blockHashes.length +
        (request.numTokens / H.blockSize - request.blockHashes.length) =
        request.numTokens / H.blockSize := by omega
    have hfuel' : request.numTokens / H.blockSize - request.blockHashes.length ≤
        request.numTokens := by omega
    exact hashLoop_eq request.blockHashes.getLast? hbs hmemo hc hidx hn hfuel'

theorem updateBlockHashes_eq :
    ∃ memo, request.updateBlockHashes (some H) = .ok { request.withMemo memo with
        blockHashes := request.blockHashes ++ chainHashes H request.allTokenIds
          (blockKeys H request (startItem request)) request.blockHashes.getLast?
          request.blockHashes.length
          (request.numTokens / H.blockSize - request.blockHashes.length) } ∧
      MemoRight H (request.withMemo memo) := by
  obtain ⟨memo, hrun, hmemo'⟩ := requestBlockHasher_eq hbs hmemo hlen
  refine ⟨memo, ?_, hmemo'⟩
  show (requestBlockHasher H request >>= _) = _
  rw [hrun]
  rfl

end

end MyOperator.Sched
