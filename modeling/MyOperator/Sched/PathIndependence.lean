import MyOperator.Sched.ExtraKeys

/-!
# Path independence of the block hashes

The block hashes of a request that grew by appends are the chain over all its
blocks; the keys of a block walk all items when the block was completed by the
first call that completed any, and the last item alone afterwards
(`built_hashes`). They are the hashes of the whole sequence in one go exactly when
the last item alone gives the same keys (`block_hashes_path_independent_iff`).
-/

namespace MyOperator.Sched

open Lib List
open KvCache (BlockHash assert)

variable {H : BlockHasher} {r r' r0 args : Request} {fs : List MultiModalFeatureSpec}

/-- Two requests with the same sources of extra keys. -/
structure SameSources (r r' : Request) : Prop where
  loraRequest : r'.loraRequest = r.loraRequest
  mmFeatures : r'.mmFeatures = r.mmFeatures
  cacheSalt : r'.cacheSalt = r.cacheSalt
  promptEmbeds : r'.promptEmbeds = r.promptEmbeds

theorem SameSources.refl (r : Request) : SameSources r r := ⟨rfl, rfl, rfl, rfl⟩

theorem SameSources.trans {r'' : Request} (h : SameSources r r') (h' : SameSources r' r'') :
    SameSources r r'' where
  loraRequest := h'.loraRequest.trans h.loraRequest
  mmFeatures := h'.mmFeatures.trans h.mmFeatures
  cacheSalt := h'.cacheSalt.trans h.cacheSalt
  promptEmbeds := h'.promptEmbeds.trans h.promptEmbeds

theorem SameSources.blockKeys (h : SameSources r r') (c j : Nat) :
    blockKeys H r' c j = blockKeys H r c j := by
  unfold Sched.blockKeys genLoraExtraHashKeys cacheSaltKeys embedKeys
  rw [h.loraRequest, h.mmFeatures, h.cacheSalt, h.promptEmbeds]

/-- The keys of block `j` when the blocks below `m` walk all items and the others the last
item alone. -/
def mixedKeys (H : BlockHasher) (r : Request) (m j : Nat) : Option (List ExtraKey) :=
  blockKeys H r (if j < m then 0 else r.mmFeatures.length - 1) j

/-- The block hashes are the chain over the full blocks, the first `m` of which walked all
items. -/
structure Hashed (H : BlockHasher) (r : Request) (m : Nat) : Prop where
  memo : MemoRight H r
  hashes : r.blockHashes =
    chainHashes H r.allTokenIds (mixedKeys H r m) none 0 (r.numTokens / H.blockSize)

theorem Hashed.length {m : Nat} (h : Hashed H r m) :
    r.blockHashes.length = r.numTokens / H.blockSize := by
  rw [h.hashes, length_chainHashes]

/-- The number of full blocks after the first call that completed one. -/
def firstCall (blockSize : Nat) : Nat → List (List TokenId) → Nat
  | n, [] => n / blockSize
  | n, chunk :: chunks =>
    if n / blockSize > 0 then n / blockSize else firstCall blockSize (n + chunk.length) chunks

/-! ## One append -/

/-- What an append does to a request, the hashes apart. -/
structure Appends (r : Request) (tokens : List TokenId) (r' : Request) : Prop where
  sources : SameSources r r'
  allTokenIds : r'.allTokenIds = r.allTokenIds ++ tokens

/-- The chain over the blocks that were full, then the blocks that the append completes. -/
theorem append_hashed {m : Nat} (m' : Nat) (tokens : List TokenId) (hbs : 0 < H.blockSize)
    (h : Hashed H r m)
    (hold : ∀ j < r.numTokens / H.blockSize, mixedKeys H r m j = mixedKeys H r m' j)
    (hnew : ∀ j, r.numTokens / H.blockSize ≤ j →
      j < (r.numTokens + tokens.length) / H.blockSize →
        blockKeys H r (startItem r) j = mixedKeys H r m' j) :
    ∃ r', r.appendOutputTokenIds (some H) tokens = .ok r' ∧ Appends r tokens r' ∧
      Hashed H r' m' := by
  let q : Request := { r with
    outputTokenIds := r.outputTokenIds ++ tokens
    allTokenIds := r.allTokenIds ++ tokens }
  have hqlen : q.numTokens = r.numTokens + tokens.length := length_append
  have hle : r.numTokens / H.blockSize ≤ q.numTokens / H.blockSize :=
    Nat.div_le_div_right (by omega)
  have hlen : q.blockHashes.length = r.numTokens / H.blockSize := h.length
  have hmemo : MemoRight H q := h.memo
  obtain ⟨memo, hrun, hmemo'⟩ := updateBlockHashes_eq hbs hmemo (hlen ▸ hle)
  refine ⟨_, hrun, ⟨⟨rfl, rfl, rfl, rfl⟩, rfl⟩, ⟨hmemo', ?_⟩⟩
  have hsplit : q.numTokens / H.blockSize = r.numTokens / H.blockSize +
      (q.numTokens / H.blockSize - r.numTokens / H.blockSize) := by omega
  have hbefore : chainHashes H q.allTokenIds (mixedKeys H r m') none 0
      (r.numTokens / H.blockSize) = r.blockHashes := by
    rw [h.hashes]
    refine chainHashes_congr none 0 (fun k _ hk => ?_) fun k _ hk => ?_
    · rw [zero_add] at hk
      exact blockTokens_append tokens hk
    · rw [zero_add] at hk
      exact (hold k hk).symm
  have hsuffix : chainHashes H q.allTokenIds (blockKeys H q (startItem q))
      q.blockHashes.getLast? (r.numTokens / H.blockSize)
      (q.numTokens / H.blockSize - r.numTokens / H.blockSize) =
      chainHashes H q.allTokenIds (mixedKeys H r m') q.blockHashes.getLast?
        (r.numTokens / H.blockSize) (q.numTokens / H.blockSize - r.numTokens / H.blockSize) := by
    refine chainHashes_congr _ _ (fun _ _ _ => rfl) fun k hk1 hk2 => ?_
    exact hnew k hk1 (by rw [← hqlen]; omega)
  have hchain := @chainHashes_add H q.allTokenIds (mixedKeys H r m') none 0
    (r.numTokens / H.blockSize) (q.numTokens / H.blockSize - r.numTokens / H.blockSize)
  rw [← hsplit, hbefore, zero_add, Option.or_none] at hchain
  show q.blockHashes ++ chainHashes H q.allTokenIds (blockKeys H q (startItem q))
      q.blockHashes.getLast? q.blockHashes.length
      (q.numTokens / H.blockSize - q.blockHashes.length) =
    chainHashes H q.allTokenIds (mixedKeys H r m') none 0 (q.numTokens / H.blockSize)
  rw [hlen, hsuffix, hchain]

/-! ## Appends one after the other -/

/-- Appending chunk by chunk. -/
def Request.appendAll (H : Option BlockHasher) : List (List TokenId) → Request →
    Except PyError Request
  | [], r => .ok r
  | chunk :: chunks, r => do
      let r ← r.appendOutputTokenIds H chunk
      appendAll H chunks r

theorem appendAll_hashed_of_pos {m : Nat} (chunks : List (List TokenId)) (hbs : 0 < H.blockSize)
    (h : Hashed H r m) (hpos : 0 < r.numTokens / H.blockSize) (hm : m ≤ r.numTokens / H.blockSize) :
    ∃ r', Request.appendAll (some H) chunks r = .ok r' ∧ Appends r chunks.flatten r' ∧
      Hashed H r' m := by
  induction chunks generalizing r with
  | nil => exact ⟨r, rfl, ⟨.refl r, by simp⟩, h⟩
  | cons chunk chunks ih =>
    have hstart : startItem r = r.mmFeatures.length - 1 := by
      unfold startItem
      rw [if_neg (by rw [h.length]; omega)]
    obtain ⟨r1, hrun, happ, h1⟩ := append_hashed m chunk hbs h (fun _ _ => rfl) fun j hj _ => by
        unfold mixedKeys
        rw [hstart, if_neg (by omega)]
    have hle : r.numTokens / H.blockSize ≤ r1.numTokens / H.blockSize := Nat.div_le_div_right (by
        unfold Request.numTokens
        rw [happ.allTokenIds, length_append]
        omega)
    obtain ⟨r2, hrun', happ', h2⟩ := ih h1 (by omega) (by omega)
    refine ⟨r2, ?_, ⟨happ.sources.trans happ'.sources, ?_⟩, h2⟩
    · rw [Request.appendAll, hrun, ok_bind, hrun']
    · rw [happ'.allTokenIds, happ.allTokenIds, flatten_cons, append_assoc]

theorem appendAll_hashed (chunks : List (List TokenId)) (hbs : 0 < H.blockSize)
    (h : Hashed H r (r.numTokens / H.blockSize)) :
    ∃ r', Request.appendAll (some H) chunks r = .ok r' ∧ Appends r chunks.flatten r' ∧
      Hashed H r' (firstCall H.blockSize r.numTokens chunks) := by
  induction chunks generalizing r with
  | nil => exact ⟨r, rfl, ⟨.refl r, by simp⟩, h⟩
  | cons chunk chunks ih =>
    unfold firstCall
    by_cases hpos : r.numTokens / H.blockSize > 0
    · rw [if_pos hpos]
      exact appendAll_hashed_of_pos (chunk :: chunks) hbs h hpos le_rfl
    · rw [if_neg hpos]
      have hzero : r.numTokens / H.blockSize = 0 := Nat.eq_zero_of_not_pos hpos
      have hstart : startItem r = 0 := by
        unfold startItem
        rw [if_pos (by rw [h.length, hzero])]
      obtain ⟨r1, hrun, happ, h1⟩ := append_hashed
        ((r.numTokens + chunk.length) / H.blockSize) chunk hbs h
        (fun j hj => absurd hj (by rw [hzero]; exact Nat.not_lt_zero j)) fun j _ hj => by
          unfold mixedKeys
          rw [hstart, if_pos hj]
      have hlen : r1.numTokens = r.numTokens + chunk.length := by
        unfold Request.numTokens
        rw [happ.allTokenIds, length_append]
      obtain ⟨r2, hrun', happ', h2⟩ := ih (hlen ▸ h1)
      refine ⟨r2, ?_, ⟨happ.sources.trans happ'.sources, ?_⟩, hlen ▸ h2⟩
      · rw [Request.appendAll, hrun, ok_bind, hrun']
      · rw [happ'.allTokenIds, happ.allTokenIds, flatten_cons, append_assoc]

/-! ## Construction -/

/-- A request as `__init__` builds it, before it is hashed: no hash, no remembered digest. -/
theorem init_unhashed (h : Request.init none args = .ok r0) :
    Request.init (some H) args = r0.updateBlockHashes (some H) ∧
      r0.blockHashes = [] ∧ r0.promptEmbedsPerBlockHashes = .empty ∧
      r0.mmFeatures = args.mmFeatures := by
  unfold Request.init at h ⊢
  obtain ⟨⟨maxTokens, status⟩, hp, h⟩ := bind_ok h
  obtain ⟨n, hn, h⟩ := bind_ok h
  rw [hp]
  dsimp only
  rw [hn]
  cases h
  exact ⟨rfl, rfl, rfl, rfl⟩

/-- A request constructed from `args` that grew by `chunks`. -/
def built (H : BlockHasher) (args : Request) (chunks : List (List TokenId)) :
    Except PyError Request := do
  let r ← Request.init (some H) args
  r.appendAll (some H) chunks

/-- The hashes of the sequence that `r` holds, computed from scratch. -/
def hashesInOneGo (H : BlockHasher) (r : Request) : Except PyError (List BlockHash) :=
  (requestBlockHasher H { r with
    blockHashes := []
    promptEmbedsPerBlockHashes := .empty }).map Prod.fst

theorem memoRight_empty (h : r.promptEmbedsPerBlockHashes = .empty) : MemoRight H r := by
  intro rows _ s e digest hget
  rw [h] at hget
  cases hget

theorem unhashed_hashed (hbs : 0 < H.blockSize) (hnil : r.blockHashes = [])
    (hmemo : r.promptEmbedsPerBlockHashes = .empty) :
    ∃ r', r.updateBlockHashes (some H) = .ok r' ∧ SameSources r r' ∧
      r'.allTokenIds = r.allTokenIds ∧ Hashed H r' (r.numTokens / H.blockSize) := by
  obtain ⟨memo, hrun, hmemo'⟩ :=
    updateBlockHashes_eq hbs (memoRight_empty hmemo) (by rw [hnil]; exact Nat.zero_le _)
  refine ⟨_, hrun, ⟨rfl, rfl, rfl, rfl⟩, rfl, ⟨hmemo', ?_⟩⟩
  have hstart : startItem r = 0 := by
    unfold startItem
    rw [if_pos (by rw [hnil]; rfl)]
  show r.blockHashes ++ chainHashes H r.allTokenIds (blockKeys H r (startItem r))
      r.blockHashes.getLast? r.blockHashes.length
      (r.numTokens / H.blockSize - r.blockHashes.length) =
    chainHashes H r.allTokenIds (mixedKeys H r (r.numTokens / H.blockSize)) none 0
      (r.numTokens / H.blockSize)
  rw [hnil, hstart]
  refine chainHashes_congr none 0 (fun _ _ _ => rfl) fun k _ hk => ?_
  rw [length_nil, Nat.sub_zero, Nat.zero_add] at hk
  unfold mixedKeys
  rw [if_pos hk]

theorem hashesInOneGo_eq (hbs : 0 < H.blockSize) :
    hashesInOneGo H r = .ok (chainHashes H r.allTokenIds (blockKeys H r 0) none 0
      (r.numTokens / H.blockSize)) := by
  let q : Request := { r with blockHashes := [], promptEmbedsPerBlockHashes := .empty }
  have hmemo : MemoRight H q := memoRight_empty rfl
  obtain ⟨memo, hrun, -⟩ := requestBlockHasher_eq hbs hmemo (Nat.zero_le _)
  unfold hashesInOneGo
  rw [hrun]
  rfl

theorem built_hashes (chunks : List (List TokenId)) (hbs : 0 < H.blockSize)
    (hinit : Request.init none args = .ok r0) :
    ∃ r, built H args chunks = .ok r ∧ Appends r0 chunks.flatten r ∧
      Hashed H r (firstCall H.blockSize r0.numTokens chunks) := by
  obtain ⟨hrun, hnil, hmemo, -⟩ := @init_unhashed H r0 args hinit
  obtain ⟨r1, hhash, hsame, hall, h1⟩ := unhashed_hashed hbs hnil hmemo
  have hlen : r1.numTokens = r0.numTokens := congrArg List.length hall
  obtain ⟨r2, hrun', happ, h2⟩ := appendAll_hashed chunks hbs (hlen ▸ h1)
  refine ⟨r2, ?_, ⟨hsame.trans happ.sources, ?_⟩, hlen ▸ h2⟩
  · rw [built, hrun, hhash, ok_bind, hrun']
  · rw [happ.allTokenIds, hall]

/-! ## The exact condition -/

/-- What distinguishes two extra keys of one block: the identifier and the position. -/
def MultiModalFeatureSpec.place (f : MultiModalFeatureSpec) : String × Nat :=
  (f.identifier, f.mmPosition.offset)

/-- In block `[s, e)` the last item alone gives the same keys as the walk over all items. -/
def LastItemOnly (fs : List MultiModalFeatureSpec) (s e : Nat) : Prop :=
  ∀ last ∈ fs.getLast?, last.stop ≤ s ∨
    (itemsIn s e fs).map (·.place) = (itemsIn s e [last]).map (·.place)

theorem map_extraKey_inj {s : Nat} {fs gs : List MultiModalFeatureSpec} :
    fs.map (·.extraKey s) = gs.map (·.extraKey s) ↔ fs.map (·.place) = gs.map (·.place) := by
  let key : String × Nat → ExtraKey := fun p => .item p.1 ((p.2 : Int) - s)
  have hkey : Function.Injective key := by
    intro p q h
    injection h with h1 h2
    exact Prod.ext h1 (by omega)
  have hmap : ∀ l : List MultiModalFeatureSpec, l.map (·.extraKey s) = (l.map (·.place)).map key :=
    fun l => by rw [map_map]; rfl
  rw [hmap, hmap, hkey.list_map.eq_iff]

/-- The keys of all items and of the last item alone agree exactly when `LastItemOnly` says. -/
theorem mmKeys_last_iff {s e : Nat} :
    mmKeys s e (fs.drop (fs.length - 1)) = mmKeys s e fs ↔ LastItemOnly fs s e := by
  rcases eq_nil_or_concat fs with rfl | ⟨pre, last, rfl⟩
  · exact ⟨fun _ last h => (nomatch h), fun _ => rfl⟩
  · rw [concat_eq_append]
    have hdrop : (pre ++ [last]).drop ((pre ++ [last]).length - 1) = [last] := by simp
    have hlast : (pre ++ [last]).getLast? = some last := by simp
    rw [hdrop]
    unfold mmKeys keyedItems LastItemOnly
    rw [hlast]
    simp only [getLast?_singleton, Option.mem_def, Option.some.injEq, forall_eq']
    by_cases hstop : last.stop ≤ s
    · simp [hstop]
    · rw [if_neg hstop, if_neg hstop, map_extraKey_inj, eq_comm]
      exact ⟨.inr, fun h => h.resolve_left hstop⟩

theorem blockKeys_last_iff {j : Nat} :
    blockKeys H r (r.mmFeatures.length - 1) j = blockKeys H r 0 j ↔
      LastItemOnly r.mmFeatures (j * H.blockSize) ((j + 1) * H.blockSize) := by
  rw [← mmKeys_last_iff]
  unfold blockKeys
  rw [drop_zero]
  constructor
  · intro h
    exact append_cancel_left (append_cancel_right (append_cancel_right (extraKeysTuple_inj.mp h)))
  · intro h
    dsimp only
    rw [h]

/-- A hasher that tells one extra-keys tuple from all others. -/
def probe (blockSize : Nat) (keys : Option (List ExtraKey)) : BlockHasher where
  blockSize
  cachingHashFn := fun (_, _, extraKeys) => if extraKeys = keys then [1] else [0]
  noneHash := [0]
  embedsDigest := fun _ => []

theorem probe_hash (blockSize : Nat) (keys keys' : Option (List ExtraKey))
    (prev : Option BlockHash) (tokens : List TokenId) :
    hashBlockTokens (probe blockSize keys) prev tokens keys' =
      if keys' = keys then [1] else [0] := rfl

theorem getElem?_chainHashes {tokens : List TokenId} {keys : Nat → Option (List ExtraKey)}
    (prev : Option BlockHash) (j : Nat) {n k : Nat} (hk : k < n) :
    ∃ prev', (chainHashes H tokens keys prev j n)[k]? =
      some (hashBlockTokens H prev' (blockTokens H.blockSize tokens (j + k)) (keys (j + k))) := by
  induction n generalizing prev j k with
  | zero => omega
  | succ n ih =>
    unfold chainHashes
    cases k with
    | zero => exact ⟨prev, rfl⟩
    | succ k =>
      obtain ⟨prev', h⟩ := ih (some (hashBlockTokens H prev
        (blockTokens H.blockSize tokens j) (keys j))) (j + 1) (k := k) (by omega)
      refine ⟨prev', ?_⟩
      have hjk : j + (k + 1) = j + 1 + k := by omega
      rw [hjk, ← h]
      rfl

/-- However a request grows, its hash list has one hash per full block; and for every hash
function it is the list of the final sequence hashed in one go exactly when each full block
that no call before the second completed takes the same keys from the last item alone as
from all items. -/
theorem block_hashes_path_independent_iff {blockSize : Nat} (hbs : 0 < blockSize)
    (hinit : Request.init none args = .ok r0) (chunks : List (List TokenId)) :
    (∀ H : BlockHasher, H.blockSize = blockSize → ∃ r, built H args chunks = .ok r ∧
      r.allTokenIds = r0.allTokenIds ++ chunks.flatten ∧
      r.blockHashes.length = r.numTokens / blockSize ∧ hashesInOneGo H r = .ok r.blockHashes) ↔
    ∀ j, firstCall blockSize r0.numTokens chunks ≤ j →
      j < (r0.numTokens + chunks.flatten.length) / blockSize →
        LastItemOnly args.mmFeatures (j * blockSize) ((j + 1) * blockSize) := by
  obtain ⟨-, -, -, hfs⟩ := @init_unhashed (probe blockSize none) r0 args hinit
  have hnum : ∀ {H r}, Appends r0 chunks.flatten r → H = blockSize →
      r.numTokens / H = (r0.numTokens + chunks.flatten.length) / blockSize := by
    rintro H r happ rfl
    rw [Request.numTokens, happ.allTokenIds, length_append]
    rfl
  constructor
  · intro h j hj hlt
    -- the hash function that singles out the keys of block `j` in one go
    let H := probe blockSize (blockKeys (probe blockSize none) r0 0 j)
    obtain ⟨r, hbuilt, -, -, hgo⟩ := h H rfl
    obtain ⟨r', hbuilt', happ, hr⟩ := @built_hashes H r0 args chunks hbs hinit
    obtain rfl : r = r' := Except.ok.inj (hbuilt.symm.trans hbuilt')
    have hchain : chainHashes H r.allTokenIds (blockKeys H r 0) none 0 (r.numTokens / blockSize) =
        chainHashes H r.allTokenIds (mixedKeys H r (firstCall blockSize r0.numTokens chunks))
          none 0 (r.numTokens / blockSize) := by
      have hall := @hashesInOneGo_eq H r hbs
      rw [hgo] at hall
      exact (Except.ok.inj hall).symm.trans hr.hashes
    have hlt' : j < r.numTokens / blockSize := by rwa [hnum happ rfl]
    obtain ⟨prev, h0⟩ := @getElem?_chainHashes H r.allTokenIds (blockKeys H r 0) none 0 _ j hlt'
    obtain ⟨prev', h1⟩ := @getElem?_chainHashes H r.allTokenIds
      (mixedKeys H r (firstCall blockSize r0.numTokens chunks)) none 0 _ j hlt'
    rw [hchain, h1, zero_add] at h0
    have hkey : blockKeys H r 0 j = blockKeys (probe blockSize none) r0 0 j :=
      happ.sources.blockKeys 0 j
    have hhash := Option.some.inj h0
    rw [probe_hash, probe_hash, if_pos hkey] at hhash
    have hmixed : mixedKeys H r (firstCall blockSize r0.numTokens chunks) j =
        blockKeys (probe blockSize none) r0 0 j := by
      by_contra hne
      rw [if_neg hne] at hhash
      cases hhash
    unfold mixedKeys at hmixed
    rw [if_neg (by omega), ← hkey, blockKeys_last_iff, happ.sources.mmFeatures, hfs] at hmixed
    exact hmixed
  · rintro h H rfl
    obtain ⟨r, hbuilt, happ, hr⟩ := built_hashes chunks hbs hinit
    refine ⟨r, hbuilt, happ.allTokenIds, hr.length, ?_⟩
    rw [hashesInOneGo_eq hbs, hr.hashes]
    refine congrArg Except.ok (chainHashes_congr none 0 (fun _ _ _ => rfl) fun k _ hk => ?_)
    rw [zero_add, hnum happ rfl] at hk
    unfold mixedKeys
    split
    · rfl
    · rename_i hm
      rw [eq_comm, blockKeys_last_iff, happ.sources.mmFeatures, hfs]
      exact h k (Nat.le_of_not_lt hm) hk

/-- Two items in the last, partial block of a prompt of six tokens, in blocks of four. -/
def sampleArgs : Request where
  requestId := 0
  samplingParams := some { maxTokens := 8 }
  promptTokenIds := some [1, 2, 3, 4, 5, 6]
  mmFeatures := [⟨"a", { offset := 4, length := 1 }⟩, ⟨"b", { offset := 5, length := 1 }⟩]

/-- A hash function that counts the extra keys. -/
def countingHasher : BlockHasher where
  blockSize := 4
  cachingHashFn := fun (_, _, extraKeys) => [UInt8.ofNat (extraKeys.getD []).length]
  noneHash := [0]
  embedsDigest := fun _ => []

/-- Two generated tokens complete the second block: its hash has one key, in one go two. -/
theorem block_hashes_depend_on_path :
    ¬ ∀ H : BlockHasher, H.blockSize = 4 → ∃ r, built H sampleArgs [[7, 8]] = .ok r ∧
      r.allTokenIds = [1, 2, 3, 4, 5, 6] ++ [[7, 8]].flatten ∧
      r.blockHashes.length = r.numTokens / 4 ∧ hashesInOneGo H r = .ok r.blockHashes := by
  intro h
  obtain ⟨r, hbuilt, -, -, hgo⟩ := h countingHasher rfl
  have hr : r.blockHashes = [[0], [1]] := by
    have := congrArg (fun x : Except PyError Request => x.toOption.map Request.blockHashes) hbuilt
    exact (Option.some.inj this).symm
  have hall : (hashesInOneGo countingHasher r).toOption = some [[0], [2]] := by
    cases hbuilt
    rfl
  rw [hgo, hr] at hall
  exact absurd hall (by decide)

/-- With the same items inside the prompt's first block the paths agree. -/
theorem block_hashes_path_independent_prompt :
    ∃ r, built { countingHasher with blockSize := 6 } sampleArgs [[7, 8, 9], [10, 11, 12]] = .ok r ∧
      r.allTokenIds = [1, 2, 3, 4, 5, 6] ++ [[7, 8, 9], [10, 11, 12]].flatten ∧
      r.blockHashes.length = r.numTokens / 6 ∧
      hashesInOneGo { countingHasher with blockSize := 6 } r = .ok r.blockHashes := by
  refine (@block_hashes_path_independent_iff _ sampleArgs 6 (by decide) rfl _).mpr ?_
    { countingHasher with blockSize := 6 } rfl
  intro j hj hlt last hlast
  obtain rfl : j = 1 := by
    replace hj : 1 ≤ j := hj
    replace hlt : j < 2 := hlt
    omega
  cases hlast
  exact .inl (by decide)

end MyOperator.Sched
