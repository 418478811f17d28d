import MyOperator.Sched.PathIndependence

/-!
# Isolation of the prefix cache

What equal block hashes of two requests say about the requests, for a hash function
without collisions. Equal hashes mean equal tokens and equal extra keys all along the
chain (`getElem?_chainHashes_inj`). The extra keys are one flat tuple without tags:
a LoRA name and a cache salt are both strings, and where no multimodal item stands
between them a tuple does not say which of the two it holds (`flatKeys_eq_iff`).
-/

namespace MyOperator.Sched

open Lib List Nat
open KvCache (BlockHash assert)

variable {H : BlockHasher} {r r' r0 r0' args args' : Request}

/-! ## The chain without collisions -/

/-- The parent hash that `hash_block_tokens` passes to the hash function. -/
def parentHash (H : BlockHasher) (prev : Option BlockHash) : BlockHash :=
  match prev with
  | none => H.noneHash
  | some hash => if hash = [] then H.noneHash else hash

theorem hashBlockTokens_eq (prev : Option BlockHash) (tokens : List TokenId)
    (keys : Option (List ExtraKey)) :
    hashBlockTokens H prev tokens keys = H.cachingHashFn (parentHash H prev, tokens, keys) := by
  cases prev <;> rfl

theorem parentHash_some (hne : ∀ x, H.cachingHashFn x ≠ []) (x : HashInput) :
    parentHash H (some (H.cachingHashFn x)) = H.cachingHashFn x := if_neg (hne x)

theorem getElem?_chainHashes_inj {tokens tokens' : List TokenId}
    {keys keys' : Nat → Option (List ExtraKey)} (hinj : Function.Injective H.cachingHashFn)
    (hne : ∀ x, H.cachingHashFn x ≠ []) {prev prev' : Option BlockHash} {j n n' i : Nat}
    (hn : i < n) (hn' : i < n') :
    (chainHashes H tokens keys prev j n)[i]? = (chainHashes H tokens' keys' prev' j n')[i]? ↔
      parentHash H prev = parentHash H prev' ∧ ∀ k ≤ i,
        blockTokens H.blockSize tokens (j + k) = blockTokens H.blockSize tokens' (j + k) ∧
          keys (j + k) = keys' (j + k) := by
  induction i generalizing prev prev' j n n' with
  | zero =>
    obtain ⟨n, rfl⟩ := exists_eq_succ_of_ne_zero (ne_of_gt hn)
    obtain ⟨n', rfl⟩ := exists_eq_succ_of_ne_zero (ne_of_gt hn')
    show some (hashBlockTokens H prev _ _) = some (hashBlockTokens H prev' _ _) ↔ _
    rw [Option.some_inj, hashBlockTokens_eq, hashBlockTokens_eq, hinj.eq_iff, Prod.mk.injEq,
      Prod.mk.injEq]
    constructor
    · rintro ⟨hp, ht, hk⟩
      refine ⟨hp, fun k hk0 => ?_⟩
      obtain rfl := Nat.le_zero.mp hk0
      exact ⟨ht, hk⟩
    · rintro ⟨hp, h⟩
      exact ⟨hp, h 0 (le_refl 0)⟩
  | succ i ih =>
    obtain ⟨n, rfl⟩ := exists_eq_succ_of_ne_zero (ne_of_gt (lt_of_le_of_lt (Nat.zero_le _) hn))
    obtain ⟨n', rfl⟩ := exists_eq_succ_of_ne_zero (Nat.ne_of_gt (Nat.lt_of_le_of_lt
      (Nat.zero_le _) hn'))
    show (chainHashes H tokens keys (some (hashBlockTokens H prev _ _)) (j + 1) n)[i]? =
      (chainHashes H tokens' keys' (some (hashBlockTokens H prev' _ _)) (j + 1) n')[i]? ↔ _
    rw [ih (lt_of_succ_lt_succ hn) (lt_of_succ_lt_succ hn'), hashBlockTokens_eq, hashBlockTokens_eq,
      parentHash_some hne, parentHash_some hne, hinj.eq_iff, Prod.mk.injEq, Prod.mk.injEq]
    -- the parents' equality is the statement about block `j`
    constructor
    · rintro ⟨⟨hp, ht, hk⟩, h⟩
      refine ⟨hp, fun k hki => ?_⟩
      cases k with
      | zero => exact ⟨ht, hk⟩
      | succ k =>
        have hjk : j + (k + 1) = j + 1 + k := by omega
        rw [hjk]
        exact h k (le_of_succ_le_succ hki)
    · rintro ⟨hp, h⟩
      refine ⟨⟨hp, h 0 (Nat.zero_le _)⟩, fun k hki => ?_⟩
      have hjk : j + 1 + k = j + (k + 1) := by omega
      rw [hjk]
      exact h (k + 1) (succ_le_succ hki)

/-! ## The flat tuple -/

/-- The extra keys before `tuple(..)`: names, then items, then salts, then digests. -/
def flatKeys (names : List String) (items : List (String × Int)) (salts : List String)
    (digests : List (List UInt8)) : List ExtraKey :=
  names.map .str ++ items.map (fun p => .item p.1 p.2) ++ salts.map .str ++ digests.map .bytes

namespace ExtraKey

def str? : ExtraKey → Option String
  | .str s => some s
  | _ => none

def item? : ExtraKey → Option (String × Int)
  | .item mmHash startOffset => some (mmHash, startOffset)
  | _ => none

def bytes? : ExtraKey → Option (List UInt8)
  | .bytes digest => some digest
  | _ => none

end ExtraKey

section
variable {names names' salts salts' : List String} {items items' : List (String × Int)}
  {digests digests' : List (List UInt8)}

theorem filterMap_str?_flatKeys :
    (flatKeys names items salts digests).filterMap ExtraKey.str? = names ++ salts := by
  simp [flatKeys, filterMap_map, Function.comp_def, ExtraKey.str?]

theorem filterMap_item?_flatKeys :
    (flatKeys names items salts digests).filterMap ExtraKey.item? = items := by
  simp [flatKeys, filterMap_map, Function.comp_def, ExtraKey.item?]

theorem filterMap_bytes?_flatKeys :
    (flatKeys names items salts digests).filterMap ExtraKey.bytes? = digests := by
  simp [flatKeys, filterMap_map, Function.comp_def, ExtraKey.bytes?]

theorem takeWhile_flatKeys (h : items ≠ []) :
    (flatKeys names items salts digests).takeWhile (·.str?.isSome) = names.map .str := by
  obtain ⟨p, items, rfl⟩ := exists_cons_of_ne_nil h
  unfold flatKeys
  rw [append_assoc, append_assoc, takeWhile_append_of_pos]
  · rw [map_cons, cons_append, takeWhile_cons_of_neg (by simp [ExtraKey.str?]),
      append_nil]
  · intro key hkey
    obtain ⟨name, -, rfl⟩ := mem_map.mp hkey
    rfl

/-- What a tuple tells: the items, the digests, and the strings; which string is a name and
which a salt only where an item stands between them. -/
theorem flatKeys_eq_iff :
    flatKeys names items salts digests = flatKeys names' items' salts' digests' ↔
      items = items' ∧ digests = digests' ∧ names ++ salts = names' ++ salts' ∧
        (items = [] ∨ names = names') := by
  have hstr : Function.Injective ExtraKey.str := fun _ _ h => ExtraKey.str.inj h
  constructor
  · intro h
    have hitems : items = items' := by
      rw [← @filterMap_item?_flatKeys names salts items digests, h, filterMap_item?_flatKeys]
    refine ⟨hitems, ?_, ?_, ?_⟩
    · rw [← @filterMap_bytes?_flatKeys names salts items digests, h, filterMap_bytes?_flatKeys]
    · rw [← @filterMap_str?_flatKeys names salts items digests, h, filterMap_str?_flatKeys]
    · rcases eq_or_ne items [] with hnil | hcons
      · exact .inl hnil
      · refine .inr (hstr.list_map ?_)
        rw [← @takeWhile_flatKeys names salts items digests hcons, h,
          takeWhile_flatKeys (hitems ▸ hcons)]
  · rintro ⟨rfl, rfl, hstrs, rfl | rfl⟩
    · have hflat : ∀ ns ss : List String, flatKeys ns [] ss digests =
          (ns ++ ss).map .str ++ digests.map .bytes := fun ns ss => by
        unfold flatKeys
        rw [map_nil, append_nil, map_append]
      rw [hflat, hflat, hstrs]
    · rw [append_cancel_left hstrs]

end

/-! ## What two requests agree on -/

namespace Request

/-- The name of the adapter; `LoRARequest.__eq__` compares names. -/
def adapterName (r : Request) : Option String := r.loraRequest.map (·.loraName)

/-- The salt as the hasher sees it: an empty salt is no salt. -/
def effectiveSalt (r : Request) : Option String := r.cacheSalt.filter (· ≠ "")

/-- The prompt embeddings of positions `[s, e)`. -/
def embedsIn (r : Request) (s e : Nat) : Option (List EmbedRow) :=
  r.promptEmbeds.map fun rows => (rows.take e).drop s

/-- Identifier and offset, relative to `s`, of an item. -/
def relPlace (s : Nat) (f : MultiModalFeatureSpec) : String × Int :=
  (f.identifier, (f.mmPosition.offset : Int) - s)

/-- The places of the items that overlap `[s, e)`. -/
def overlapping (r : Request) (s e : Nat) : List (String × Int) :=
  (r.mmFeatures.filter (Overlaps s e ·)).map (relPlace s)

/-- The places of the items that the keys of block `j` name when the first call hashed `m`
blocks: the walk over all items below `m`, over the last item alone from `m` on. -/
def keyed (r : Request) (blockSize m j : Nat) : List (String × Int) :=
  (keyedItems (j * blockSize) ((j + 1) * blockSize)
    (r.mmFeatures.drop (if j < m then 0 else r.mmFeatures.length - 1))).map (relPlace (j * blockSize))

end Request

/-- Blocks `0` to `i` hold the same tokens and the same prompt embeddings. -/
structure SameContent (blockSize : Nat) (r r' : Request) (i : Nat) : Prop where
  tokens : ∀ j ≤ i, blockTokens blockSize r.allTokenIds j = blockTokens blockSize r'.allTokenIds j
  promptEmbeds : ∀ j ≤ i, r.embedsIn (j * blockSize) ((j + 1) * blockSize) =
    r'.embedsIn (j * blockSize) ((j + 1) * blockSize)

/-- What two requests that share block `i` should agree on. -/
structure AgreeUpTo (blockSize : Nat) (r r' : Request) (i : Nat) : Prop where
  content : SameContent blockSize r r' i
  adapter : r.adapterName = r'.adapterName
  cacheSalt : r.cacheSalt = r'.cacheSalt
  items : ∀ j ≤ i, r.overlapping (j * blockSize) ((j + 1) * blockSize) =
    r'.overlapping (j * blockSize) ((j + 1) * blockSize)

/-- The adapter of `r`, which has no salt, is named like the salt of `r'`, which has no
adapter. -/
def SaltNamesAdapter (r r' : Request) : Prop :=
  r.adapterName.isSome ∧ r.effectiveSalt = none ∧ r'.adapterName = none ∧
    r'.effectiveSalt = r.adapterName

theorem SaltNamesAdapter.adapter_ne (h : SaltNamesAdapter r r') :
    r.adapterName ≠ r'.adapterName := by
  intro heq
  have hsome := h.1
  rw [heq, h.2.2.1] at hsome
  cases hsome

theorem toList_append_eq_iff {a s a' s' : Option String} :
    a.toList ++ s.toList = a'.toList ++ s'.toList ↔
      (a = a' ∧ s = s') ∨ (a.isSome ∧ s = none ∧ a' = none ∧ s' = a) ∨
        (a'.isSome ∧ s' = none ∧ a = none ∧ s = a') := by
  cases a <;> cases s <;> cases a' <;> cases s' <;> grind

theorem mixedKeys_eq_flatKeys (m j : Nat) (hbs : 0 < H.blockSize) :
    mixedKeys H r m j = extraKeysTuple (flatKeys r.adapterName.toList (r.keyed H.blockSize m j)
      (if j = 0 then r.effectiveSalt.toList else [])
      ((r.embedsIn (j * H.blockSize) ((j + 1) * H.blockSize)).map H.embedsDigest).toList) := by
  have hlora : genLoraExtraHashKeys r = r.adapterName.toList.map .str := by
    unfold genLoraExtraHashKeys Request.adapterName
    cases r.loraRequest <;> rfl
  have hsalt : cacheSaltKeys r (j * H.blockSize) =
      (if j = 0 then r.effectiveSalt.toList else []).map .str := by
    have hj : j * H.blockSize = 0 ↔ j = 0 := by
      rw [Nat.mul_eq_zero]
      omega
    unfold cacheSaltKeys Request.effectiveSalt
    cases r.cacheSalt with
    | none => simp
    | some salt =>
      simp only [hj, Option.filter_some]
      by_cases hzero : j = 0 <;> by_cases hempty : salt = "" <;> simp [hzero, hempty]
  have hembed : embedKeys H r (j * H.blockSize) ((j + 1) * H.blockSize) =
      ((r.embedsIn (j * H.blockSize) ((j + 1) * H.blockSize)).map H.embedsDigest).toList.map
        .bytes := by
    unfold embedKeys Request.embedsIn
    cases r.promptEmbeds <;> rfl
  unfold mixedKeys blockKeys flatKeys
  dsimp only
  rw [hlora, hsalt, hembed]
  unfold mmKeys Request.keyed
  rw [map_map]
  rfl

/-! ## Equal hashes -/

/-- Rows of one width, as the prompt embeddings of one model have. -/
def RowsOfWidth (width : Nat) : Set (List EmbedRow) := fun rows => ∀ row ∈ rows, row.length = width

/-- The hash functions have no collisions, and no block hash is empty. -/
structure CollisionFree (H : BlockHasher) (width : Nat) : Prop where
  blockSize : 0 < H.blockSize
  hash : Function.Injective H.cachingHashFn
  hash_ne_nil : ∀ x, H.cachingHashFn x ≠ []
  digest : Set.InjOn H.embedsDigest (RowsOfWidth width)

variable {width m m' i : Nat}

theorem embedsIn_width (hr : ∀ rows ∈ r.promptEmbeds, rows ∈ RowsOfWidth width) {s e : Nat} :
    ∀ rows ∈ r.embedsIn s e, rows ∈ RowsOfWidth width := by
  intro rows hrows
  obtain ⟨all, hall, rfl⟩ := Option.map_eq_some_iff.mp hrows
  exact fun row hrow => hr all hall row (mem_of_mem_take (mem_of_mem_drop hrow))

section

variable (hH : CollisionFree H width) (hr : ∀ rows ∈ r.promptEmbeds, rows ∈ RowsOfWidth width)
  (hr' : ∀ rows ∈ r'.promptEmbeds, rows ∈ RowsOfWidth width)
include hH hr hr'

theorem digests_inj {s e : Nat} :
    ((r.embedsIn s e).map H.embedsDigest).toList = ((r'.embedsIn s e).map H.embedsDigest).toList ↔
      r.embedsIn s e = r'.embedsIn s e := by
  have hw := @embedsIn_width r width hr s e
  have hw' := @embedsIn_width r' width hr' s e
  cases hrows : r.embedsIn s e with
  | none => cases r'.embedsIn s e <;> simp
  | some rows =>
    cases hrows' : r'.embedsIn s e with
    | none => simp
    | some rows' =>
      show [_] = [_] ↔ _
      rw [singleton_inj, Option.some_inj]
      exact hH.digest.eq_iff (hw rows hrows) (hw' rows' hrows')

theorem mixedKeys_inj {j : Nat} :
    mixedKeys H r m j = mixedKeys H r' m' j ↔
      r.keyed H.blockSize m j = r'.keyed H.blockSize m' j ∧
        r.embedsIn (j * H.blockSize) ((j + 1) * H.blockSize) =
          r'.embedsIn (j * H.blockSize) ((j + 1) * H.blockSize) ∧
        r.adapterName.toList ++ (if j = 0 then r.effectiveSalt.toList else []) =
          r'.adapterName.toList ++ (if j = 0 then r'.effectiveSalt.toList else []) ∧
        (r.keyed H.blockSize m j = [] ∨ r.adapterName = r'.adapterName) := by
  have hname : r.adapterName.toList = r'.adapterName.toList ↔ r.adapterName = r'.adapterName := by
    cases r.adapterName <;> cases r'.adapterName <;> simp
  rw [mixedKeys_eq_flatKeys m j hH.blockSize, mixedKeys_eq_flatKeys m' j hH.blockSize,
    extraKeysTuple_inj, flatKeys_eq_iff, digests_inj hH hr hr', hname]

end

theorem names_and_salts_iff {k : List (String × Int)} :
    (∀ j ≤ i, r.adapterName.toList ++ (if j = 0 then r.effectiveSalt.toList else []) =
        r'.adapterName.toList ++ (if j = 0 then r'.effectiveSalt.toList else [])) ∧
      (k = [] ∨ r.adapterName = r'.adapterName) ↔
    (r.adapterName = r'.adapterName ∧ r.effectiveSalt = r'.effectiveSalt) ∨
      (i = 0 ∧ k = [] ∧ (SaltNamesAdapter r r' ∨ SaltNamesAdapter r' r)) := by
  constructor
  · rintro ⟨h, hk⟩
    have h0 := h 0 (Nat.zero_le i)
    rw [if_pos rfl, if_pos rfl, toList_append_eq_iff] at h0
    rcases h0 with hsame | hswap
    · exact .inl hsame
    · -- the second block has names only
      have hne : r.adapterName ≠ r'.adapterName := by
        rcases hswap with hswap | hswap
        · exact SaltNamesAdapter.adapter_ne hswap
        · exact (SaltNamesAdapter.adapter_ne hswap).symm
      refine .inr ⟨?_, hk.resolve_right hne, hswap⟩
      by_contra hi
      refine hne ?_
      cases hr : r.adapterName <;> cases hr' : r'.adapterName <;> simp_all
  · rintro (⟨hname, hsalt⟩ | ⟨rfl, hk, hswap⟩)
    · exact ⟨fun j _ => by rw [hname, hsalt], .inr hname⟩
    · refine ⟨fun j hj => ?_, .inl hk⟩
      obtain rfl := Nat.le_zero.mp hj
      rw [if_pos rfl, if_pos rfl, toList_append_eq_iff]
      exact .inr hswap

/-- Two requests have the same hash of block `i` exactly when their blocks up to `i` hold the
same tokens, embeddings and keyed items, and the strings of the keys agree. -/
theorem Hashed.blockHashes_eq_iff (hH : CollisionFree H width) (h : Hashed H r m)
    (h' : Hashed H r' m') (hr : ∀ rows ∈ r.promptEmbeds, rows ∈ RowsOfWidth width)
    (hr' : ∀ rows ∈ r'.promptEmbeds, rows ∈ RowsOfWidth width)
    (hi : i < r.blockHashes.length) (hi' : i < r'.blockHashes.length) :
    r.blockHashes[i]? = r'.blockHashes[i]? ↔
      SameContent H.blockSize r r' i ∧
        (∀ j ≤ i, r.keyed H.blockSize m j = r'.keyed H.blockSize m' j) ∧
        ((r.adapterName = r'.adapterName ∧ r.effectiveSalt = r'.effectiveSalt) ∨
          (i = 0 ∧ r.keyed H.blockSize m 0 = [] ∧
            (SaltNamesAdapter r r' ∨ SaltNamesAdapter r' r))) := by
  rw [h.length] at hi
  rw [h'.length] at hi'
  rw [h.hashes, h'.hashes, getElem?_chainHashes_inj hH.hash hH.hash_ne_nil hi hi',
    ← names_and_salts_iff]
  simp only [zero_add, mixedKeys_inj hH hr hr']
  constructor
  · rintro ⟨-, hall⟩
    exact ⟨⟨fun j hj => (hall j hj).1, fun j hj => (hall j hj).2.2.1⟩,
      fun j hj => (hall j hj).2.1, fun j hj => (hall j hj).2.2.2.1,
      (hall 0 (Nat.zero_le i)).2.2.2.2⟩
  · rintro ⟨hc, hk, hs⟩
    have hs' := hs
    rw [names_and_salts_iff] at hs'
    refine ⟨trivial, fun j hj => ⟨hc.tokens j hj, hk j hj, hc.promptEmbeds j hj, hs.1 j hj, ?_⟩⟩
    rcases hs' with ⟨hname, -⟩ | ⟨rfl, hnil, -⟩
    · exact .inr hname
    · obtain rfl := Nat.le_zero.mp hj
      exact .inl hnil

/-! ## The exact condition -/

/-- Block `i` of two requests has one hash though the requests differ: the content and the
items that the hasher looks at agree, and either one request's adapter is named like the
other's salt, or an empty salt stands for none, or items that the hasher does not look at
differ. -/
def Confused (blockSize m m' : Nat) (r r' : Request) (i : Nat) : Prop :=
  SameContent blockSize r r' i ∧ (∀ j ≤ i, r.keyed blockSize m j = r'.keyed blockSize m' j) ∧
    ((i = 0 ∧ r.keyed blockSize m 0 = [] ∧ (SaltNamesAdapter r r' ∨ SaltNamesAdapter r' r)) ∨
      (r.adapterName = r'.adapterName ∧ r.effectiveSalt = r'.effectiveSalt ∧
        (r.cacheSalt ≠ r'.cacheSalt ∨
          ∃ j ≤ i, r.overlapping (j * blockSize) ((j + 1) * blockSize) ≠
            r'.overlapping (j * blockSize) ((j + 1) * blockSize))))

/-- For hash functions without collisions, equal hashes of block `i` say that two requests
agree up to block `i` exactly when the two are not confused. -/
theorem same_block_hash_agree_iff (hH : CollisionFree H width)
    (hinit : Request.init none args = .ok r0) (hinit' : Request.init none args' = .ok r0')
    (chunks chunks' : List (List TokenId)) (hr : built H args chunks = .ok r)
    (hr' : built H args' chunks' = .ok r')
    (hrows : ∀ rows ∈ r.promptEmbeds, rows ∈ RowsOfWidth width)
    (hrows' : ∀ rows ∈ r'.promptEmbeds, rows ∈ RowsOfWidth width)
    (hi : i < r.blockHashes.length) (hi' : i < r'.blockHashes.length) :
    (r.blockHashes[i]? = r'.blockHashes[i]? → AgreeUpTo H.blockSize r r' i) ↔
      ¬ Confused H.blockSize (firstCall H.blockSize r0.numTokens chunks)
        (firstCall H.blockSize r0'.numTokens chunks') r r' i := by
  obtain ⟨q, hbuilt, -, hhash⟩ := built_hashes chunks hH.blockSize hinit
  obtain rfl : r = q := Except.ok.inj (hr.symm.trans hbuilt)
  obtain ⟨q', hbuilt', -, hhash'⟩ := built_hashes chunks' hH.blockSize hinit'
  obtain rfl : r' = q' := Except.ok.inj (hr'.symm.trans hbuilt')
  rw [hhash.blockHashes_eq_iff hH hhash' hrows hrows' hi hi']
  constructor
  · rintro hagree ⟨hc, hk, hwhy⟩
    rcases hwhy with hswap | ⟨hname, hsalt, hdiff⟩
    · have h := (hagree ⟨hc, hk, .inr hswap⟩).adapter
      rcases hswap.2.2 with hs | hs
      · exact hs.adapter_ne h
      · exact hs.adapter_ne h.symm
    · have h := hagree ⟨hc, hk, .inl ⟨hname, hsalt⟩⟩
      rcases hdiff with hne | ⟨j, hj, hne⟩
      · exact hne h.cacheSalt
      · exact hne (h.items j hj)
  · rintro hnot ⟨hc, hk, ⟨hname, hsalt⟩ | hswap⟩
    · refine ⟨hc, hname, ?_, fun j hj => ?_⟩
      · by_contra hne
        exact hnot ⟨hc, hk, .inr ⟨hname, hsalt, .inl hne⟩⟩
      · by_contra hne
        exact hnot ⟨hc, hk, .inr ⟨hname, hsalt, .inr ⟨j, hj, hne⟩⟩⟩
    · exact absurd ⟨hc, hk, .inl hswap⟩ hnot

/-! ## Samples -/

/-- Four tokens, with an adapter and a salt. -/
def promptArgs (adapter salt : Option String) : Request where
  requestId := 0
  samplingParams := some { maxTokens := 8 }
  promptTokenIds := some [1, 2, 3, 4]
  loraRequest := adapter.map (⟨·, 1⟩)
  cacheSalt := salt

instance instCountableUInt8 : Countable UInt8 := Function.Injective.countable (f := UInt8.toNat) fun _ _ h =>
  UInt8.toNat_inj.mp h

instance : Countable ExtraKey := by
  let code : ExtraKey → List Char ⊕ (List Char × Int) ⊕ List UInt8
    | .str s => .inl s.toList
    | .item mmHash startOffset => .inr (.inl (mmHash.toList, startOffset))
    | .bytes digest => .inr (.inr digest)
  have hcode : Function.Injective code := by
    intro a b h
    cases a <;> cases b <;> simp_all [code, String.ext_iff]
  have hchar : Countable Char := Function.Injective.countable (f := Char.toNat) fun _ _ h =>
    Char.toNat_inj.mp h
  exact hcode.countable

/-- A hasher without collisions: inputs are numbered, and a hash is as long as its number. -/
noncomputable def numberingHasher : BlockHasher where
  blockSize := 4
  cachingHashFn := fun input =>
    List.replicate (Classical.choose (Countable.exists_injective_nat HashInput) input + 1) 0
  noneHash := [1]
  embedsDigest := List.flatten

theorem numberingHasher_collisionFree : CollisionFree numberingHasher 1 where
  blockSize := by decide
  hash := fun a b h => Classical.choose_spec (Countable.exists_injective_nat HashInput) (by
    have hlen := congrArg List.length h
    simpa [numberingHasher] using hlen)
  hash_ne_nil := fun x => cons_ne_nil _ _
  digest := by
    intro rows hrows rows' hrows' h
    replace h : rows.flatten = rows'.flatten := h
    induction rows generalizing rows' with
    | nil =>
      cases rows' with
      | nil => rfl
      | cons row' rows' =>
        have hw : row'.length = 1 := hrows' row' mem_cons_self
        have hlen := congrArg List.length h
        rw [flatten_cons, length_append, hw, flatten_nil, length_nil] at hlen
        omega
    | cons row rows ih =>
      have hw : row.length = 1 := hrows row mem_cons_self
      cases rows' with
      | nil =>
        have hlen := congrArg List.length h
        rw [flatten_cons, length_append, hw, flatten_nil, length_nil] at hlen
        omega
      | cons row' rows' =>
        have hw' : row'.length = 1 := hrows' row' mem_cons_self
        obtain ⟨rfl, hrest⟩ := append_inj h (hw.trans hw'.symm)
        have htail := ih (fun x hx => hrows x (mem_cons_of_mem _ hx))
          (fun x hx => hrows' x (mem_cons_of_mem _ hx)) hrest
        rw [htail]

theorem built_promptArgs (adapter salt : Option String) :
    ∃ r, built numberingHasher (promptArgs adapter salt) [] = .ok r ∧ r.promptEmbeds = none ∧
      r.allTokenIds = [1, 2, 3, 4] ∧ r.adapterName = adapter ∧ r.cacheSalt = salt ∧
      r.mmFeatures = [] ∧ r.blockHashes.length = 1 := by
  cases adapter <;> exact ⟨_, rfl, rfl, rfl, rfl, rfl, rfl, rfl⟩

/-- Two requests with different salts share no block. -/
theorem same_block_hash_agree_salts : ∃ r r',
    built numberingHasher (promptArgs none (some "a")) [] = .ok r ∧
      built numberingHasher (promptArgs none (some "b")) [] = .ok r' ∧
      ((r.blockHashes[0]? = r'.blockHashes[0]? → AgreeUpTo 4 r r' 0) ↔
        ¬ Confused 4 1 1 r r' 0) := by
  obtain ⟨r, hr, hrows, -, -, -, -, hlen⟩ := built_promptArgs none (some "a")
  obtain ⟨r', hr', hrows', -, -, -, -, hlen'⟩ := built_promptArgs none (some "b")
  refine ⟨r, r', hr, hr', ?_⟩
  exact same_block_hash_agree_iff numberingHasher_collisionFree rfl rfl [] [] hr hr'
    (by rw [hrows]; exact fun _ h => nomatch h) (by rw [hrows']; exact fun _ h => nomatch h)
    (by rw [hlen]; exact one_pos) (by rw [hlen']; exact one_pos)

/-- A request for adapter `x` and one that is salted with `x` have the same hash. -/
theorem block_hash_shared_by_adapter_and_salt :
    ¬ ∀ (H : BlockHasher) (width : Nat), CollisionFree H width →
      ∀ (args args' r r' : Request) (chunks chunks' : List (List TokenId)),
        built H args chunks = .ok r → built H args' chunks' = .ok r' →
        (∀ rows ∈ r.promptEmbeds, rows ∈ RowsOfWidth width) →
        (∀ rows ∈ r'.promptEmbeds, rows ∈ RowsOfWidth width) →
        ∀ i, i < r.blockHashes.length → i < r'.blockHashes.length →
          r.blockHashes[i]? = r'.blockHashes[i]? → AgreeUpTo H.blockSize r r' i := by
  intro h
  obtain ⟨r, hr, hrows, -, hname, -, -, hlen⟩ := built_promptArgs (some "x") none
  obtain ⟨r', hr', hrows', -, hname', -, -, hlen'⟩ := built_promptArgs none (some "x")
  have hagree := h numberingHasher 1 numberingHasher_collisionFree _ _ r r' [] [] hr hr'
    (by rw [hrows]; exact fun _ h => nomatch h) (by rw [hrows']; exact fun _ h => nomatch h) 0
    (by rw [hlen]; exact one_pos) (by rw [hlen']; exact one_pos)
    (by cases hr; cases hr'; rfl)
  have hadapter := hagree.adapter
  rw [hname, hname'] at hadapter
  cases hadapter

end MyOperator.Sched
