import MyOperator.KvCache.BlockPool

/-!
# Block hashes

The hash of a block is computed from the hash of the block before it, so the hashes of a
request form a chain from `NONE_HASH`. While no two inputs that were hashed collide, a hash
stands at one place only: wherever two chains have the same hash, they have it at the same
position, and so do the lists that join several hashes for a greater block size.
-/

namespace MyOperator.KvCache

open Lib List Nat

/-- What is hashed for a block: the parent hash, the tokens and the extra keys. -/
abbrev HashInput (ε : Type) := BlockHash × List Nat × ε

/-- The hash function of the prefix cache and `NONE_HASH`. -/
structure BlockHashing (ε : Type) where
  hashFunction : HashInput ε → BlockHash
  noneHash : BlockHash

variable {ε : Type} (H : BlockHashing ε)

/-- What `hash_block_tokens` hashes. -/
def hashInput (parentBlockHash : Option BlockHash) (currBlockTokenIds : List Nat) (extraKeys : ε) :
    HashInput ε :=
  let parentBlockHash :=
    match parentBlockHash with
    | none | some [] => H.noneHash
    | some hash => hash
  (parentBlockHash, currBlockTokenIds, extraKeys)

def hashBlockTokens (parentBlockHash : Option BlockHash) (currBlockTokenIds : List Nat)
    (extraKeys : ε) : BlockHash :=
  H.hashFunction (hashInput H parentBlockHash currBlockTokenIds extraKeys)

/-- What the loop of `request_block_hasher` hashes for the next full blocks.
`generateBlockHashExtraKeys` gives the extra keys of the tokens from `start` to `end` and the next
`curr_mm_idx`. -/
def hasherLoop (blockSize : Nat) (allTokenIds : List Nat)
    (generateBlockHashExtraKeys : Nat → Nat → Int → ε × Int) :
    (blocks startTokenIdx : Nat) → (currMmIdx : Int) → Option BlockHash → List (HashInput ε)
  | 0, _, _, _ => []
  | blocks + 1, startTokenIdx, currMmIdx, prevBlockHashValue =>
    let endTokenIdx := startTokenIdx + blockSize
    let (extraKeys, currMmIdx) := generateBlockHashExtraKeys startTokenIdx endTokenIdx currMmIdx
    let input := hashInput H prevBlockHashValue
      ((allTokenIds.take endTokenIdx).drop startTokenIdx) extraKeys
    input :: hasherLoop blockSize allTokenIds generateBlockHashExtraKeys blocks endTokenIdx
      currMmIdx (some (H.hashFunction input))

/-- What `request_block_hasher` hashes: the full blocks that have no hash yet. -/
def hasherInputs (blockSize : Nat) (allTokenIds : List Nat) (blockHashes : List BlockHash)
    (generateBlockHashExtraKeys : Nat → Nat → Int → ε × Int) : List (HashInput ε) :=
  let startTokenIdx := blockHashes.length * blockSize
  let currMmIdx := if startTokenIdx > 0 then -1 else 0
  hasherLoop H blockSize allTokenIds generateBlockHashExtraKeys
    ((allTokenIds.length - startTokenIdx) / blockSize) startTokenIdx currMmIdx blockHashes.getLast?

def requestBlockHasher (blockSize : Nat) (allTokenIds : List Nat) (blockHashes : List BlockHash)
    (generateBlockHashExtraKeys : Nat → Nat → Int → ε × Int) : List BlockHash :=
  (hasherInputs H blockSize allTokenIds blockHashes generateBlockHashExtraKeys).map H.hashFunction

/-! ## Chains -/

/-- No two of the inputs that were hashed collide, none hashes to `NONE_HASH`, and all digests have
one size. -/
structure CollisionFree (inputs : Set (HashInput ε)) (digestSize : Nat) : Prop where
  inj : ∀ x ∈ inputs, ∀ y ∈ inputs, H.hashFunction x = H.hashFunction y → x = y
  root : ∀ x ∈ inputs, H.hashFunction x ≠ H.noneHash
  size : ∀ x ∈ inputs, (H.hashFunction x).length = digestSize
  pos : 0 < digestSize

/-- The hash before position `i`. -/
def parentAt (blockHashes : List BlockHash) (i : Nat) : BlockHash :=
  if i = 0 then H.noneHash else blockHashes.getD (i - 1) H.noneHash

/-- Every hash was computed from the one before it. -/
def Chained (inputs : Set (HashInput ε)) (blockHashes : List BlockHash) : Prop :=
  ∀ (i : Nat) (hash : BlockHash), blockHashes[i]? = some hash →
    ∃ x ∈ inputs, x.1 = parentAt H blockHashes i ∧ hash = H.hashFunction x

variable {H} {inputs : Set (HashInput ε)} {digestSize : Nat} {hs hs' : List BlockHash}

theorem chained_nil : Chained H inputs [] := nofun

theorem Chained.concat (h : Chained H inputs hs) {x : HashInput ε} (hx : x ∈ inputs)
    (hparent : x.1 = parentAt H hs hs.length) : Chained H inputs (hs ++ [H.hashFunction x]) := by
  have hsame : ∀ i ≤ hs.length, parentAt H (hs ++ [H.hashFunction x]) i = parentAt H hs i := by
    intro i hi
    unfold parentAt
    split
    · rfl
    · rw [getD_eq_getElem?_getD, getD_eq_getElem?_getD, getElem?_append_left (by omega)]
  intro i hash hget
  rcases Nat.lt_trichotomy i hs.length with hlt | rfl | hgt
  · rw [getElem?_append_left hlt] at hget
    rw [hsame i (Nat.le_of_lt hlt)]
    exact h i hash hget
  · rw [getElem?_append_right (Nat.le_refl _), Nat.sub_self] at hget
    cases hget
    exact ⟨x, hx, by rw [hparent, hsame _ (Nat.le_refl _)], rfl⟩
  · rw [getElem?_eq_none (by rw [length_append]; exact hgt)] at hget
    cases hget

theorem Chained.hashInput_parent (h : Chained H inputs hs) (hfree : CollisionFree H inputs digestSize)
    (tokens : List Nat) (extra : ε) :
    (hashInput H hs.getLast? tokens extra).1 = parentAt H hs hs.length := by
  unfold parentAt
  cases hs using List.reverseRecOn with
  | nil => rfl
  | append_singleton hs hash _ =>
    rw [getLast?_concat, if_neg (by rw [length_append]; exact succ_ne_zero _),
      length_append, length_singleton, Nat.add_sub_cancel, getD_eq_getElem?_getD,
      getElem?_concat_length]
    obtain ⟨x, hx, -, rfl⟩ := h hs.length hash getElem?_concat_length
    -- a digest is not empty
    have hsize := hfree.size x hx
    have hpos := hfree.pos
    cases hhash : H.hashFunction x with
    | nil =>
      rw [hhash] at hsize
      exact absurd hsize hpos.ne
    | cons a l => rfl

variable {blockSize j i : Nat} {hash : BlockHash}

theorem chained_hasherLoop (hfree : CollisionFree H inputs digestSize) {allTokenIds : List Nat}
    {extra : Nat → Nat → Int → ε × Int} (blocks start : Nat) (mm : Int) (hs : List BlockHash)
    (h : Chained H inputs hs)
    (hinputs : ∀ x ∈ hasherLoop H blockSize allTokenIds extra blocks start mm hs.getLast?, x ∈ inputs) :
    Chained H inputs (hs ++
      (hasherLoop H blockSize allTokenIds extra blocks start mm hs.getLast?).map H.hashFunction) := by
  induction blocks generalizing start mm hs with
  | zero =>
    rw [hasherLoop, map_nil, append_nil]
    exact h
  | succ blocks ih =>
    have hfirst := h.concat (hinputs _ mem_cons_self) (h.hashInput_parent hfree _ _)
    have hrest := ih (start + blockSize) (extra start (start + blockSize) mm).2 _ hfirst
    rw [getLast?_concat, append_assoc] at hrest
    exact hrest fun x hx => hinputs x (mem_cons_of_mem _ hx)

theorem chained_requestBlockHasher (hfree : CollisionFree H inputs digestSize)
    {allTokenIds : List Nat} {extra : Nat → Nat → Int → ε × Int} (h : Chained H inputs hs)
    (hinputs : ∀ x ∈ hasherInputs H blockSize allTokenIds hs extra, x ∈ inputs) :
    Chained H inputs (hs ++ requestBlockHasher H blockSize allTokenIds hs extra) :=
  chained_hasherLoop hfree _ _ _ _ h hinputs

/-! ## Positions -/

theorem getElem?_parentAt (hlt : j < hs.length) : hs[j]? = some (parentAt H hs (j + 1)) := by
  rw [parentAt, if_neg (succ_ne_zero j), Nat.add_sub_cancel, getD_eq_getElem?_getD,
    getElem?_eq_getElem hlt]
  rfl

theorem Chained.parentAt_ne (hfree : CollisionFree H inputs digestSize) (h : Chained H inputs hs)
    (hlt : j < hs.length) : parentAt H hs (j + 1) ≠ H.noneHash := by
  obtain ⟨x, hx, -, heq⟩ := h j _ (getElem?_parentAt hlt)
  rw [heq]
  exact hfree.root x hx

theorem Chained.position (hfree : CollisionFree H inputs digestSize) (h : Chained H inputs hs)
    (h' : Chained H inputs hs') (hi : hs[i]? = some hash) (hj : hs'[j]? = some hash) : i = j := by
  induction i generalizing j hash with
  | zero =>
    cases j with
    | zero => rfl
    | succ j =>
      obtain ⟨x, hx, hparent, rfl⟩ := h 0 hash hi
      obtain ⟨y, hy, hparent', heq⟩ := h' (j + 1) _ hj
      obtain rfl := hfree.inj x hx y hy heq
      have hlt : j < hs'.length := lt_of_succ_lt (lt_of_getElem? hj)
      exact absurd (hparent'.symm.trans hparent) (h'.parentAt_ne hfree hlt)
  | succ i ih =>
    have hlt : i < hs.length := lt_of_succ_lt (lt_of_getElem? hi)
    obtain ⟨x, hx, hparent, rfl⟩ := h (i + 1) hash hi
    obtain ⟨y, hy, hparent', heq⟩ := h' j _ hj
    obtain rfl := hfree.inj x hx y hy heq
    have hsame : parentAt H hs (i + 1) = parentAt H hs' j := hparent.symm.trans hparent'
    cases j with
    | zero => exact absurd hsame (h.parentAt_ne hfree hlt)
    | succ j =>
      have hlt' : j < hs'.length := lt_of_succ_lt (lt_of_getElem? hj)
      have hget := getElem?_parentAt (H := H) hlt
      rw [hsame] at hget
      exact congrArg Nat.succ (ih hget (getElem?_parentAt hlt'))

/-- The hashes of a request at a block size that `hash_block_size` divides. -/
def hashesAt (hashBlockSize blockSize : Nat) (blockHashes : List BlockHash) :
    Except PyError (List BlockHash) :=
  if blockSize = hashBlockSize then .ok blockHashes
  else blockHashListWithBlockSize blockHashes hashBlockSize blockSize

/-- `hash` is the hash of position `i` of some request, at a block size. -/
def HashAt (H : BlockHashing ε) (inputs : Set (HashInput ε)) (hashBlockSize blockSize i : Nat)
    (hash : BlockHash) : Prop :=
  ∃ blockHashes l, Chained H inputs blockHashes ∧ hashesAt hashBlockSize blockSize blockHashes = .ok l ∧
    l[i]? = some hash

theorem take_joined (hfree : CollisionFree H inputs digestSize) (h : Chained H inputs hs)
    {hashBlockSize : Nat} {l : List BlockHash}
    (hl : blockHashListWithBlockSize hs hashBlockSize blockSize = .ok l) (hi : l[i]? = some hash) :
    0 < blockSize / hashBlockSize ∧
      hs[i * (blockSize / hashBlockSize)]? = some (hash.take digestSize) := by
  obtain ⟨-, -, hl⟩ := bind_ok hl
  generalize blockSize / hashBlockSize = scale at hl ⊢
  obtain rfl := Except.ok.inj hl
  have hlt : i < hs.length / scale := by
    have := lt_of_getElem? hi
    rwa [length_map, length_range] at this
  rw [getElem?_map, getElem?_range hlt] at hi
  obtain rfl := Option.some.inj hi
  have hpos : 0 < scale := Nat.pos_of_ne_zero fun h0 => by
    rw [h0, Nat.div_zero] at hlt
    exact Nat.not_lt_zero i hlt
  have hstart : i * scale < hs.length :=
    Nat.lt_of_lt_of_le (Nat.mul_lt_mul_of_pos_right hlt hpos) (div_mul_le_self _ _)
  obtain ⟨n, rfl⟩ := exists_eq_add_one.mpr hpos
  obtain ⟨x, hx, -, heq⟩ := h (i * (n + 1)) _ (getElem?_eq_getElem hstart)
  have hdigest : (hs[i * (n + 1)]).length = digestSize := by
    rw [heq]
    exact hfree.size x hx
  refine ⟨hpos, ?_⟩
  show hs[i * (n + 1)]? = some (((hs.drop (i * (n + 1))).take (n + 1)).flatten.take digestSize)
  rw [drop_eq_getElem_cons hstart, take_succ_cons, flatten_cons, ← hdigest, take_left]
  exact getElem?_eq_getElem hstart

theorem HashAt.position (hfree : CollisionFree H inputs digestSize) {hashBlockSize : Nat}
    (hi : HashAt H inputs hashBlockSize blockSize i hash)
    (hj : HashAt H inputs hashBlockSize blockSize j hash) : i = j := by
  obtain ⟨hs, l, h, hl, hi⟩ := hi
  obtain ⟨hs', l', h', hl', hj⟩ := hj
  unfold hashesAt at hl hl'
  by_cases hsize : blockSize = hashBlockSize
  · rw [if_pos hsize] at hl hl'
    cases hl
    cases hl'
    exact h.position hfree h' hi hj
  · rw [if_neg hsize] at hl hl'
    obtain ⟨hpos, hfirst⟩ := take_joined hfree h hl hi
    obtain ⟨-, hfirst'⟩ := take_joined hfree h' hl' hj
    exact Nat.eq_of_mul_eq_mul_right hpos (h.position hfree h' hfirst hfirst')

end MyOperator.KvCache
