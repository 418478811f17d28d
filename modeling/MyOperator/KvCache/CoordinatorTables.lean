import MyOperator.KvCache.CachedColumns
import MyOperator.KvCache.ComputedTables

/-!
# The coordinator keeps the tables

A loop over the managers keeps `TablesInv` when the call of each manager does. For the computed blocks
this takes a condition: where blocks are allocated for tokens that are computed elsewhere, the hits of
every group must still be cached when the manager of the group is called.
-/

namespace MyOperator.KvCache

open Lib BlockPool SingleTypeKVCacheManager List

variable {L : Layout} {p p' : BlockPool} {managers managers' : List SingleTypeKVCacheManager}
  {m m' : SingleTypeKVCacheManager} {β : Type} {rs : List β}
  {f : Nat → SingleTypeKVCacheManager → BlockPool →
    Except PyError (β × SingleTypeKVCacheManager × BlockPool)}

/-! ## Loops over the managers -/

/-- One call after the other keeps the tables, and what `Q` says of the managers to come. -/
theorem TablesInv.eachManager_keeps {Q : Nat → List SingleTypeKVCacheManager → BlockPool → Prop}
    (hstep : ∀ {all rest : List SingleTypeKVCacheManager} {i : Nat} {m m' : SingleTypeKVCacheManager}
      {p p' : BlockPool} {r : β}, TablesInv L p all → all[i]? = some m → Q i (m :: rest) p →
      f i m p = .ok (r, m', p') → TablesInv L p' (all.set i m') ∧ Q (i + 1) rest p')
    (done : List SingleTypeKVCacheManager) {i : Nat} (hi : done.length = i)
    (h : TablesInv L p (done ++ managers)) (hq : Q i managers p)
    (hrun : eachManager f i managers p = .ok (rs, managers', p')) :
    TablesInv L p' (done ++ managers') := by
  induction managers generalizing done i p rs managers' with
  | nil =>
    cases hrun
    exact h
  | cons m managers ih =>
    obtain ⟨⟨r, m1, p1⟩, hf, hrun⟩ := bind_ok hrun
    obtain ⟨⟨rs1, managers1, p2⟩, hrest, hrun⟩ := bind_ok hrun
    cases hrun
    have hget : (done ++ m :: managers)[i]? = some m := by
      rw [← hi, getElem?_append_right (Nat.le_refl _), Nat.sub_self]
      rfl
    obtain ⟨h1, hq1⟩ := hstep h hget hq hf
    have hset : (done ++ m :: managers).set i m1 = (done ++ [m1]) ++ managers := by
      rw [← hi, set_append_right _ _ (Nat.le_refl _), Nat.sub_self, set_cons_zero, append_assoc]
      rfl
    rw [hset] at h1
    have h2 := ih (done ++ [m1]) (by rw [length_append, hi]; rfl) h1 hq1 hrest
    rwa [append_assoc] at h2

theorem eachManager_rel {R : BlockPool → BlockPool → Prop} (hrefl : ∀ p, R p p)
    (htrans : ∀ {p p' p''}, R p p' → R p' p'' → R p p'')
    (hstep : ∀ {i : Nat} {m m' : SingleTypeKVCacheManager} {p p' : BlockPool} {r : β},
      f i m p = .ok (r, m', p') → R p p') {i : Nat}
    (hrun : eachManager f i managers p = .ok (rs, managers', p')) : R p p' := by
  induction managers generalizing i p rs managers' with
  | nil =>
    cases hrun
    exact hrefl _
  | cons m managers ih =>
    obtain ⟨⟨r, m1, p1⟩, hf, hrun⟩ := bind_ok hrun
    obtain ⟨⟨rs1, managers1, p2⟩, hrest, hrun⟩ := bind_ok hrun
    cases hrun
    exact htrans (hstep hf) (ih hrest)

theorem KVCacheCoordinator.forEach_inv {c c' : KVCacheCoordinator} (hrun : c.forEach f = .ok (rs, c')) :
    ∃ managers p, c' = c.put managers p ∧
      eachManager f 0 c.singleTypeManagers c.blockPool = .ok (rs, managers, p) := by
  obtain ⟨⟨rs1, managers, p⟩, heach, hrun⟩ := bind_ok hrun
  cases hrun
  exact ⟨managers, p, rfl, heach⟩

theorem TablesInv.map (h : TablesInv L p managers) {f : SingleTypeKVCacheManager → SingleTypeKVCacheManager}
    (hf : ∀ m : SingleTypeKVCacheManager, m.AlignOk → SameTables m (f m)) :
    TablesInv L p (managers.map f) := by
  have hall : ∀ done rest : List SingleTypeKVCacheManager, TablesInv L p (done ++ rest) →
      TablesInv L p (done ++ rest.map f) := by
    intro done rest
    induction rest generalizing done with
    | nil => exact id
    | cons m rest ih =>
      intro h
      have hget : (done ++ m :: rest)[done.length]? = some m := by
        rw [getElem?_append_right (Nat.le_refl _), Nat.sub_self]
        rfl
      have hkeep := h.keep hget (hf m (h.manager hget).2.2)
      rw [set_append_right _ _ (Nat.le_refl _), Nat.sub_self, set_cons_zero, append_cons] at hkeep
      have := ih _ hkeep
      rwa [append_assoc] at this
  exact hall [] managers h

/-! ## The calls of a coordinator -/

/-- What `__init__` promises of the kind of a coordinator. -/
def Layout.KindOk (L : Layout) : CoordinatorKind → Prop
  | .noPrefixCache => True
  | .unitary => ∃ spec, L.groups = [(spec, L.hashBlockSize)]
  | .hybrid c => c.Valid ∧ c.hashBlockSize = L.hashBlockSize ∧
      L.groups = c.kvCacheGroups.map fun spec => (spec, spec.blockSize)

/-- The invariant of a coordinator. -/
structure CoordinatorInv (L : Layout) (c : KVCacheCoordinator) : Prop where
  kind : L.KindOk c.kind
  tables : TablesInv L c.blockPool c.singleTypeManagers

namespace CoordinatorInv

variable {c c' : KVCacheCoordinator} {r : Nat}

section

variable (h : CoordinatorInv L c)
include h

theorem forEach
    (hstep : ∀ {all : List SingleTypeKVCacheManager} {i : Nat} {m m' : SingleTypeKVCacheManager} {p p' : BlockPool} {r : β}, TablesInv L p all → all[i]? = some m → f i m p = .ok (r, m', p') → TablesInv L p' (all.set i m'))
    (hrun : c.forEach f = .ok (rs, c')) : CoordinatorInv L c' := by
  obtain ⟨managers, p, rfl, heach⟩ := KVCacheCoordinator.forEach_inv hrun
  exact ⟨h.kind, TablesInv.eachManager_keeps (Q := fun _ _ _ => True)
    (fun h1 hm _ hf => ⟨hstep h1 hm hf, trivial⟩) [] rfl h.tables trivial heach⟩

theorem getNumBlocksToAllocate {numTokens enc total main : Nat} {blocks : List (List BlockRef)}
    {n : Int} (hrun : c.getNumBlocksToAllocate r numTokens blocks enc total main = .ok (n, c')) :
    CoordinatorInv L c' ∧ c'.blockPool = c.blockPool := by
  obtain ⟨⟨ns, c1⟩, heach, hrun⟩ := bind_ok hrun
  cases hrun
  refine ⟨h.forEach (fun h1 hm hf => ?_) heach, ?_⟩
  · dsimp only at hf
    split at hf
    · obtain ⟨⟨n1, m1⟩, hcall, hret⟩ := bind_ok hf
      cases hret
      exact h1.getNumBlocksToAllocate hm hcall
    · obtain ⟨⟨n1, m1⟩, hcall, hret⟩ := bind_ok hf
      cases hret
      exact h1.getNumBlocksToAllocate hm hcall
  · obtain ⟨managers, p, rfl, hloop⟩ := KVCacheCoordinator.forEach_inv heach
    refine eachManager_rel (R := fun p p' => p' = p) (fun _ => rfl) (fun h1 h2 => h2.trans h1)
      (fun hf => ?_) hloop
    dsimp only at hf
    split at hf
    · obtain ⟨⟨n1, m1⟩, -, hret⟩ := bind_ok hf
      cases hret
      rfl
    · obtain ⟨⟨n1, m1⟩, -, hret⟩ := bind_ok hf
      cases hret
      rfl

theorem allocateNewBlocks {numTokens main enc : Nat} {ret : List (List BlockRef)}
    (hrun : c.allocateNewBlocks r numTokens main enc = .ok (ret, c')) : CoordinatorInv L c' :=
  h.forEach (fun h1 hm hf => h1.allocateNewBlocks hm hf) hrun

theorem cacheBlocks (hcaching : L.enableCaching = true) {request : Request}
    (hhashed : L.Hashed request.blockHashes) {n : Nat} (hrun : c.cacheBlocks request n = .ok c') :
    CoordinatorInv L c' := by
  obtain ⟨⟨rs, c1⟩, heach, hrun⟩ := bind_ok hrun
  cases hrun
  refine h.forEach (fun h1 hm hf => ?_) heach
  obtain ⟨⟨m1, p1⟩, hf, hret⟩ := bind_ok hf
  cases hret
  exact h1.cacheBlocks hm hcaching hhashed hf

theorem free (hrun : c.free r = .ok c') : CoordinatorInv L c' := by
  obtain ⟨⟨rs, c1⟩, heach, hrun⟩ := bind_ok hrun
  cases hrun
  refine h.forEach (fun h1 hm hf => ?_) heach
  obtain ⟨⟨m1, p1⟩, hf, hret⟩ := bind_ok hf
  cases hret
  exact h1.free hm hf

theorem removeSkippedBlocks {n : Nat} (hrun : c.removeSkippedBlocks r n = .ok c') :
    CoordinatorInv L c' ∧ SameConfig c.blockPool c'.blockPool ∧
      KeepsHashes c.blockPool c'.blockPool := by
  obtain ⟨⟨rs, c1⟩, heach, hrun⟩ := bind_ok hrun
  cases hrun
  refine ⟨h.forEach (fun h1 hm hf => ?_) heach, ?_⟩
  · obtain ⟨⟨m1, p1⟩, hf, hret⟩ := bind_ok hf
    cases hret
    exact h1.removeSkippedBlocks hm hf
  · obtain ⟨managers, p, rfl, hloop⟩ := KVCacheCoordinator.forEach_inv heach
    refine eachManager_rel (R := fun p p' => SameConfig p p' ∧ KeepsHashes p p')
      (fun p => ⟨.refl p, .refl p⟩) (fun h1 h2 => ⟨h1.1.trans h2.1, h1.2.trans h2.2⟩)
      (fun hf => ?_) hloop
    obtain ⟨⟨m1, p1⟩, hf, hret⟩ := bind_ok hf
    cases hret
    exact removeSkippedBlocks_effect hf

theorem newStepStarts : CoordinatorInv L c.newStepStarts := ⟨h.kind, h.tables.map fun m hm => by
    unfold SingleTypeKVCacheManager.newStepStarts
    split
    · exact ⟨⟨rfl, rfl, rfl, rfl⟩, hm.nodup, fun _ hr => hr, fun _ => rfl, fun _ => rfl⟩
    · exact ⟨⟨rfl, rfl, rfl, rfl⟩, hm.nodup, fun _ hr => hr, fun _ => rfl, fun _ => rfl⟩⟩

theorem getNumCommonPrefixBlocks (r : Nat) : CoordinatorInv L (c.getNumCommonPrefixBlocks r).2 := by
  unfold KVCacheCoordinator.getNumCommonPrefixBlocks
  split
  · exact h
  · refine ⟨h.kind, h.tables.map fun m hm => ?_⟩
    split
    · exact TablesInv.sameTables_setTable hm r
    · exact ⟨.refl m, hm.nodup, fun _ hr => hr, fun _ => rfl, fun _ => rfl⟩

end

/-! ## Computed blocks -/

/-- The hits of every group that are not skipped are still cached when the manager of the group is
called, and the hits are not more than the blocks of the computed tokens. -/
def hitsStay (requestId : Nat) (newComputedBlocks : List (List BlockRef))
    (numLocalComputedTokens numExternalComputedTokens : Nat) :
    Nat → List SingleTypeKVCacheManager → BlockPool → Bool
  | _, [], _ => true
  | i, m :: managers, p =>
    let hits := newComputedBlocks.getD i []
    let numTotalComputedTokens := numLocalComputedTokens + numExternalComputedTokens
    (hits.drop (m.skippedBlocks numTotalComputedTokens)).all
        (fun b => b = p.nullBlock || (p.heap b).blockHash.isSome) &&
      decide (HitsFit m hits numTotalComputedTokens) &&
      match m.allocateNewComputedBlocks p requestId hits numLocalComputedTokens
        numExternalComputedTokens with
      | .ok (_, p) => hitsStay requestId newComputedBlocks numLocalComputedTokens
          numExternalComputedTokens (i + 1) managers p
      | .error _ => true

theorem allocateNewComputedBlocks (h : CoordinatorInv L c) {blocks : List (List BlockRef)}
    {loc ext : Nat} (hhits : ∀ g, HitsOk L c.blockPool g 0 (blocks.getD g []))
    (hstay : 0 < ext → hitsStay r blocks loc ext 0 c.singleTypeManagers c.blockPool = true)
    (hrun : c.allocateNewComputedBlocks r blocks loc ext = .ok c') : CoordinatorInv L c' := by
  obtain ⟨⟨rs, c1⟩, heach, hrun⟩ := bind_ok hrun
  cases hrun
  obtain ⟨managers, p, rfl, hloop⟩ := KVCacheCoordinator.forEach_inv heach
  refine ⟨h.kind, ?_⟩
  -- the pool has forgotten no hit that is still to be touched
  let Q : Nat → List SingleTypeKVCacheManager → BlockPool → Prop := fun i managers p =>
    SameConfig c.blockPool p ∧ Forgets c.blockPool p ∧ (ext = 0 → KeepsHashes c.blockPool p) ∧
      (0 < ext → hitsStay r blocks loc ext i managers p = true)
  have hstart : Q 0 c.singleTypeManagers c.blockPool :=
    ⟨.refl _, fun _ _ hkey => hkey, fun _ => .refl _, hstay⟩
  refine TablesInv.eachManager_keeps (Q := Q) (fun h1 hm hq hf => ?_) [] rfl h.tables hstart hloop
  rename_i all rest i m m' p1 p2 u
  obtain ⟨hc, hforget, hkeep, hstay⟩ := hq
  obtain ⟨⟨m1, p3⟩, hf, hret⟩ := bind_ok hf
  cases hret
  obtain ⟨hc', hforget', hkeep'⟩ := allocateNewComputedBlocks_effect h1.coherent hf
  have hnow : 0 < ext → (((blocks.getD i []).drop (m.skippedBlocks (loc + ext))).all (fun b =>
      b = p1.nullBlock || (p1.heap b).blockHash.isSome) = true ∧ HitsFit m (blocks.getD i []) (loc + ext)) ∧
      hitsStay r blocks loc ext (i + 1) rest p2 = true := by
    intro hpos
    have hstay := hstay hpos
    unfold hitsStay at hstay
    dsimp only at hstay
    rw [hf] at hstay
    simpa only [Bool.and_eq_true, decide_eq_true_eq] using hstay
  have hok : HitsOk L p1 i (m.skippedBlocks (loc + ext)) (blocks.getD i []) := by
    refine ((hhits i).drop _).keep hc.nullBlock fun b hb hne => ?_
    rcases Nat.eq_zero_or_pos ext with hzero | hpos
    · exact (hkeep hzero).hash b
    · have hall := all_eq_true.mp (hnow hpos).1.1 b hb
      rw [hc.nullBlock, decide_eq_false hne, Bool.false_or] at hall
      obtain ⟨key, hkey⟩ := Option.isSome_iff_exists.mp hall
      rw [hkey, hforget b key hkey]
  refine ⟨h1.allocateNewComputedBlocks hm hok (fun hpos => (hnow hpos).1.2) hf, hc.trans hc',
    fun b key hkey => hforget b key (hforget' b key hkey), fun hzero => (hkeep hzero).trans (hkeep' hzero),
    fun hpos => (hnow hpos).2⟩

end CoordinatorInv

end MyOperator.KvCache
