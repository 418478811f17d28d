import MyOperator.Eplb.ExecuteRanks
import MyOperator.Lib.Writes

/-!
# The weights follow the map

For each ordered pair of ranks the sends and the receives are those of one list of experts
(`sends_experts`, `recvs_experts`), so that they are posted in one order. The buffers then hold the
weights of every row that changes (`moveToBuffer_local`, `moveToBuffer_primary`), and after the
exchange every slot holds the weights of its new expert (`rearrange_sound`).
-/

namespace MyOperator.Eplb

open Lib List

/-! ## The operations of a pair of ranks -/

/-- What an operation is about: the expert and the tensor. -/
def P2POp.key (op : P2POp) : Int × Nat := (op.expert, op.tensor)

/-- The tensors of an expert. -/
def keys (tensors : Nat) (expert : Int) : List (Int × Nat) := (range tensors).map fun t => (expert, t)

section Pairs

variable {tensors n ranks : Nat} {old new : List Int} {src dst : Nat}

theorem lookup_batch {expertIds : List Int} {expert : Int} (h : expert ∈ expertIds) :
    (getEpRanksWithExpertsBatch expertIds n old new).lookup expert =
      some (expertRanks n old new expert) := by
  unfold getEpRanksWithExpertsBatch
  rw [lookup_map, if_pos (mem_dedup.mpr h)]

theorem postSends_eq (rank : Nat) : postSends tensors n old new rank =
    (sendRows n old rank).flatMap fun x => (recvRanks (expertRanks n old new x.1) rank).flatMap fun dst =>
      (range tensors).map fun t => ⟨x.1, x.2, t, dst⟩ := by
  refine flatMap_congr fun x hx => ?_
  rw [lookup_batch (mem_map_of_mem hx)]

theorem postRecvs_eq (rank : Nat) : postRecvs tensors n old new rank =
    (recvRows n old new rank).flatMap fun x =>
      (sendRank (expertRanks n old new x.1) rank).toList.flatMap fun src =>
        (range tensors).map fun t => ⟨x.1, x.2, t, src⟩ := by
  refine flatMap_congr fun x hx => ?_
  rw [lookup_batch (mem_map_of_mem hx)]

theorem filter_peer_map (expert : Int) (row peer peer' : Nat) :
    ((((range tensors).map fun t => (⟨expert, row, t, peer⟩ : P2POp)).filter
      fun op => op.peer = peer').map P2POp.key) = if peer = peer' then keys tensors expert else [] := by
  by_cases heq : peer = peer'
  · rw [if_pos heq, filter_eq_self.mpr fun op hop => ?_]
    · rw [map_map]
      rfl
    · obtain ⟨t, -, rfl⟩ := mem_map.mp hop
      exact decide_eq_true heq
  · rw [if_neg heq, filter_eq_nil_iff.mpr fun op hop => ?_]
    · rfl
    · obtain ⟨t, -, rfl⟩ := mem_map.mp hop
      exact fun h => heq (of_decide_eq_true h)

theorem filter_peer_flatMap (rows : List (Int × Nat)) (peers : Int → List Nat) (peer : Nat)
    (hnodup : ∀ x ∈ rows, (peers x.1).Nodup) : (((rows.flatMap fun x => (peers x.1).flatMap fun p =>
      (range tensors).map fun t => (⟨x.1, x.2, t, p⟩ : P2POp)).filter
        fun op => op.peer = peer).map P2POp.key) =
      ((rows.map Prod.fst).filter fun expert => peer ∈ peers expert).flatMap (keys tensors) := by
  have hblock : ∀ x ∈ rows, ((((peers x.1).flatMap fun p =>
      (range tensors).map fun t => (⟨x.1, x.2, t, p⟩ : P2POp)).filter
        fun op => op.peer = peer).map P2POp.key) =
      if peer ∈ peers x.1 then keys tensors x.1 else [] := by
    intro x hx
    rw [filter_flatMap, map_flatMap]
    have hone : ∀ p ∈ peers x.1, (((range tensors).map fun t => (⟨x.1, x.2, t, p⟩ : P2POp)).filter
        fun op => op.peer = peer).map P2POp.key = if p = peer then keys tensors x.1 else [] :=
      fun p _ => filter_peer_map x.1 x.2 p peer
    rw [flatMap_congr hone]
    exact flatMap_eq_of_nodup (fun _ => keys tensors x.1) (hnodup x hx) peer
  rw [filter_flatMap, map_flatMap, flatMap_congr hblock,
    ← flatMap_ite (fun expert => peer ∈ peers expert), flatMap_map]

theorem nodup_ranksToRecv (expert : Int) : (expertRanks n old new expert).ranksToRecv.Nodup :=
  (nodup_ranksWith _ _).filter _

theorem mem_ranksToRecv (hold : old.length = ranks * n) (hnew : new.length = ranks * n) {expert : Int}
    {rank : Nat} : rank ∈ (expertRanks n old new expert).ranksToRecv ↔
      rank < ranks ∧ (∃ row < n, localId n new rank row = expert) ∧
        ¬ ∃ row < n, localId n old rank row = expert := by
  unfold expertRanks
  rw [mem_filter, decide_eq_true_eq, mem_ranksWith hnew, mem_ranksWith hold]
  constructor
  · rintro ⟨⟨hlt, hneeds⟩, hnot⟩
    exact ⟨hlt, hneeds, fun hhas => hnot ⟨hlt, hhas⟩⟩
  · rintro ⟨hlt, hneeds, hnot⟩
    exact ⟨⟨hlt, hneeds⟩, fun hhas => hnot hhas.2⟩

theorem sends_experts (src dst : Nat) (hold : old.length = ranks * n) (hsrc : src < ranks) :
    (((postSends tensors n old new src).filter fun op => op.peer = dst).map P2POp.key) =
      (((sendRows n old src).map Prod.fst).filter fun expert =>
        dst ∈ recvRanks (expertRanks n old new expert) src).flatMap (keys tensors) := by
  rw [postSends_eq]
  refine filter_peer_flatMap (sendRows n old src)
    (fun expert => recvRanks (expertRanks n old new expert) src) dst fun x hx => ?_
  refine nodup_recvRanks (nodup_ranksToRecv x.1) ((mem_ranksWith hold).mpr ⟨hsrc, ?_⟩)
  exact (mem_sendExperts.mp (mem_map_of_mem hx)).2

theorem recvs_experts (src dst : Nat) :
    (((postRecvs tensors n old new dst).filter fun op => op.peer = src).map P2POp.key) =
      (((recvRows n old new dst).map Prod.fst).filter fun expert =>
        src ∈ (sendRank (expertRanks n old new expert) dst).toList).flatMap (keys tensors) := by
  rw [postRecvs_eq]
  refine filter_peer_flatMap (recvRows n old new dst)
    (fun expert => (sendRank (expertRanks n old new expert) dst).toList) src fun x _ => ?_
  cases sendRank (expertRanks n old new x.1) dst with
  | none => exact nodup_nil
  | some p => exact nodup_singleton p

theorem mem_of_sendRank {r : ExpertRanks} (h : sendRank r dst = some src) : src ∈ r.ranksToSend := by
  unfold sendRank at h
  split at h
  · cases h
  · dsimp only at h
    split at h
    · exact mem_of_getElem? h
    · exact mem_of_getElem? h

theorem pair_experts (hold : old.length = ranks * n) (hnew : new.length = ranks * n) (hsrc : src < ranks)
    (hdst : dst < ranks) :
    (((sendRows n old src).map Prod.fst).filter fun expert =>
      dst ∈ recvRanks (expertRanks n old new expert) src) =
    ((recvRows n old new dst).map Prod.fst).filter fun expert =>
      src ∈ (sendRank (expertRanks n old new expert) dst).toList := by
  have hsorted : ∀ (rank : Nat) (p : Int → Bool),
      (((sendRows n old rank).map Prod.fst).filter p).Pairwise (· < ·) := fun rank p =>
    sorted_uniqueRows.sublist filter_sublist
  refine (hsorted src _).eq_of_mem_iff (sorted_uniqueRows.sublist filter_sublist) fun expert => ?_
  rw [mem_filter, mem_filter, decide_eq_true_eq, decide_eq_true_eq, Option.mem_toList,
    mem_sendExperts, mem_recvExperts]
  constructor
  · rintro ⟨⟨hne, hhas⟩, hin⟩
    have hrecv := recvRanks_subset hin
    have hsend : src ∈ ranksWith n old expert := (mem_ranksWith hold).mpr ⟨hsrc, hhas⟩
    refine ⟨⟨hne, ((mem_ranksToRecv hold hnew).mp hrecv).2⟩, ?_⟩
    exact (mem_recvRanks_iff (nodup_ranksWith _ _) (nodup_ranksToRecv expert) hsend hrecv).mp hin
  · rintro ⟨⟨hne, hneeds⟩, hin⟩
    have hsend := mem_of_sendRank hin
    have hrecv := (mem_ranksToRecv hold hnew).mpr ⟨hdst, hneeds⟩
    refine ⟨⟨hne, ((mem_ranksWith hold).mp hsend).2⟩, ?_⟩
    exact (mem_recvRanks_iff (nodup_ranksWith _ _) (nodup_ranksToRecv expert) hsend hrecv).mpr hin

/-- For an ordered pair of ranks the sends and the receives are posted in one order. -/
theorem pair_order (tensors : Nat) (hold : old.length = ranks * n) (hnew : new.length = ranks * n) (hsrc : src < ranks)
    (hdst : dst < ranks) :
    (((postSends tensors n old new src).filter fun op => op.peer = dst).map P2POp.key) =
      (((postRecvs tensors n old new dst).filter fun op => op.peer = src).map P2POp.key) := by
  rw [sends_experts src dst hold hsrc, recvs_experts, pair_experts hold hnew hsrc hdst]

theorem nodup_keys {experts : List Int} (h : experts.Nodup) : (experts.flatMap (keys tensors)).Nodup := by
  refine nodup_flatMap.mpr ⟨fun expert _ => ?_, h.imp fun {a b} hne => ?_⟩
  · exact nodup_range.map fun t t' heq => (Prod.mk.inj heq).2
  · intro x hx hx'
    obtain ⟨t, -, rfl⟩ := mem_map.mp hx
    obtain ⟨t', -, heq⟩ := mem_map.mp hx'
    exact hne (Prod.mk.inj heq).1.symm

theorem recv_once (hold : old.length = ranks * n) (hnew : new.length = ranks * n) (hdst : dst < ranks)
    {op : P2POp} (hop : op ∈ postRecvs tensors n old new dst) :
    op.peer < ranks ∧ ((postSends tensors n old new op.peer).countP fun send =>
      send.peer = dst ∧ send.key = op.key) = 1 := by
  have hpeer : op.peer < ranks := by
    rw [postRecvs_eq] at hop
    obtain ⟨x, -, hop⟩ := mem_flatMap.mp hop
    obtain ⟨src, hsrc, hop⟩ := mem_flatMap.mp hop
    obtain ⟨t, -, rfl⟩ := mem_map.mp hop
    exact ((mem_ranksWith hold).mp (mem_of_sendRank (Option.mem_toList.mp hsrc))).1
  refine ⟨hpeer, ?_⟩
  have hcount : ((postSends tensors n old new op.peer).countP fun send =>
      send.peer = dst ∧ send.key = op.key) =
      ((((postSends tensors n old new op.peer).filter fun send => send.peer = dst).map
        P2POp.key).count op.key) := by
    rw [List.count, countP_map, countP_filter]
    refine countP_congr fun send _ => ?_
    simp only [Function.comp_apply, Bool.and_eq_true, beq_iff_eq, decide_eq_true_eq]
    exact and_comm
  have hnodup : (((postRecvs tensors n old new dst).filter fun recv => recv.peer = op.peer).map
      P2POp.key).Nodup := by
    rw [recvs_experts]
    exact nodup_keys ((sorted_uniqueRows.imp fun h => ne_of_lt h).filter _)
  rw [hcount, pair_order tensors hold hnew hpeer hdst, hnodup.count, if_pos]
  exact mem_map_of_mem (mem_filter.mpr ⟨hop, decide_eq_true rfl⟩)

end Pairs

/-! ## The buffers -/

section Weights

variable {α : Type} {tensors n ranks : Nat} {old new : List Int}

theorem mem_postSends {rank : Nat} {op : P2POp} (h : op ∈ postSends tensors n old new rank) :
    (op.expert, op.row) ∈ sendRows n old rank ∧ op.tensor < tensors := by
  rw [postSends_eq] at h
  obtain ⟨x, hx, h⟩ := mem_flatMap.mp h
  obtain ⟨dst, -, h⟩ := mem_flatMap.mp h
  obtain ⟨t, ht, rfl⟩ := mem_map.mp h
  exact ⟨hx, mem_range.mp ht⟩

theorem mem_postRecvs {rank : Nat} {op : P2POp} (h : op ∈ postRecvs tensors n old new rank) :
    (op.expert, op.row) ∈ recvRows n old new rank ∧ op.tensor < tensors := by
  rw [postRecvs_eq] at h
  obtain ⟨x, hx, h⟩ := mem_flatMap.mp h
  obtain ⟨src, -, h⟩ := mem_flatMap.mp h
  obtain ⟨t, ht, rfl⟩ := mem_map.mp h
  exact ⟨hx, mem_range.mp ht⟩

theorem mem_rowCopies {rows : List (Nat × Nat)} {x : (Nat × Nat) × (Nat × Nat)} :
    x ∈ rowCopies tensors rows ↔ ∃ dst src t, (dst, src) ∈ rows ∧ t < tensors ∧ x = ((dst, t), (src, t)) := by
  unfold rowCopies
  simp only [mem_flatMap, mem_map, mem_range, Prod.exists]
  constructor
  · rintro ⟨dst, src, hrow, t, ht, rfl⟩
    exact ⟨dst, src, t, hrow, ht, rfl⟩
  · rintro ⟨dst, src, t, hrow, ht, rfl⟩
    exact ⟨dst, src, hrow, t, ht, rfl⟩

/-- What the exchange brings: a row of the expert, from the first row of it on the sender. -/
theorem mem_delivered (hold : old.length = ranks * n) (hnew : new.length = ranks * n) {dst : Nat}
    (hdst : dst < ranks) {x : (Nat × Nat) × Nat × (Nat × Nat)}
    (hx : x ∈ delivered ranks (postSends tensors n old new) (postRecvs tensors n old new) dst) :
    ∃ expert row t srcRow, (expert, row) ∈ recvRows n old new dst ∧ t < tensors ∧ x.2.1 < ranks ∧
      (expert, srcRow) ∈ sendRows n old x.2.1 ∧ x.1 = (row, t) ∧ x.2.2 = (srcRow, t) := by
  obtain ⟨src, hsrc, hx⟩ := mem_flatMap.mp hx
  obtain ⟨pair, hpair, rfl⟩ := mem_map.mp hx
  have hsrc := mem_range.mp hsrc
  obtain ⟨hrecv, hsend, hkey⟩ :=
    (zip_of_map_eq (pair_order tensors hold hnew hsrc hdst).symm).1 pair hpair
  obtain ⟨hrow, ht⟩ := mem_postRecvs (mem_filter.mp hrecv).1
  obtain ⟨hsrcRow, -⟩ := mem_postSends (mem_filter.mp hsend).1
  obtain ⟨hexpert, htensor⟩ := Prod.mk.inj hkey
  rw [← hexpert] at hsrcRow
  exact ⟨pair.1.expert, pair.1.row, pair.1.tensor, pair.2.row, hrow, ht, hsrc, hsrcRow, rfl,
    congrArg (Prod.mk pair.2.row) htensor.symm⟩

theorem ranksWith_ne_nil {indices : List Int} {expert : Int} (h : expert ∈ indices) :
    ranksWith n indices expert ≠ [] := by
  obtain ⟨p, hp⟩ := mem_iff_getElem?.mp h
  have hlt := (List.getElem?_eq_some_iff.mp hp).1
  refine ne_nil_of_mem (a := p / n) (mem_eraseDups.mpr ?_)
  exact mem_map_of_mem (mem_filter.mpr ⟨mem_range.mpr hlt, decide_eq_true hp⟩)

theorem localId_mem {indices : List Int} (hlen : indices.length = ranks * n) {rank row : Nat}
    (hrank : rank < ranks) (hrow : row < n) : localId n indices rank row ∈ indices := by
  have hp : rank * n + row < indices.length := by
    have hle : (rank + 1) * n ≤ ranks * n := Nat.mul_le_mul_right n hrank
    rw [Nat.succ_mul] at hle
    omega
  unfold localId
  rw [getD_eq_getElem?_getD, getElem?_eq_getElem hp]
  exact getElem_mem hp

theorem exists_delivered (hold : old.length = ranks * n) (hnew : new.length = ranks * n)
    (hpresent : ∀ expert ∈ new, expert ≠ -1 → expert ∈ old) {dst : Nat} (hdst : dst < ranks)
    {expert : Int} {row t : Nat} (hrow : (expert, row) ∈ recvRows n old new dst) (ht : t < tensors) :
    ∃ x ∈ delivered ranks (postSends tensors n old new) (postRecvs tensors n old new) dst,
      x.1 = (row, t) := by
  obtain ⟨hlt, hid, hne, -⟩ := mem_recvRows hrow
  have hin : expert ∈ old := hpresent expert (hid ▸ localId_mem hnew hdst hlt) hne
  have hrecv : dst ∈ (expertRanks n old new expert).ranksToRecv :=
    (mem_ranksToRecv hold hnew).mpr ⟨hdst, (mem_recvExperts.mp (mem_map_of_mem hrow)).2⟩
  obtain ⟨src, hsend, hsrc⟩ : ∃ src ∈ (expertRanks n old new expert).ranksToSend,
      sendRank (expertRanks n old new expert) dst = some src :=
    exists_sendRank (ranksWith_ne_nil hin) hrecv
  have hsrcLt : src < ranks := ((mem_ranksWith hold).mp hsend).1
  have hop : (⟨expert, row, t, src⟩ : P2POp) ∈ postRecvs tensors n old new dst := by
    rw [postRecvs_eq]
    refine mem_flatMap.mpr ⟨(expert, row), hrow, mem_flatMap.mpr ⟨src, ?_, ?_⟩⟩
    · exact Option.mem_toList.mpr hsrc
    · exact mem_map_of_mem (mem_range.mpr ht)
  obtain ⟨send, hzip⟩ := (zip_of_map_eq (pair_order tensors hold hnew hsrcLt hdst).symm).2 _
    (mem_filter.mpr ⟨hop, decide_eq_true rfl⟩)
  exact ⟨_, mem_flatMap.mpr ⟨src, mem_range.mpr hsrcLt, mem_map_of_mem hzip⟩, rfl⟩

/-- Every old slot holds the weights of its old expert. -/
def Holds (tensors n ranks : Nat) (indices : List Int) (experts : Int → Nat → α)
    (weights : Nat → RankWeights α) : Prop :=
  ∀ rank < ranks, ∀ row < n, ∀ t < tensors, localId n indices rank row ≠ -1 →
    weights rank (row, t) = experts (localId n indices rank row) t

variable {experts : Int → Nat → α} {weights buffers : Nat → RankWeights α} {rank row t : Nat}

section

variable (h : Holds tensors n ranks old experts weights)
include h

theorem Holds.sendRow (hrank : rank < ranks) (ht : t < tensors) {expert : Int}
    (hrow : (expert, row) ∈ sendRows n old rank) : weights rank (row, t) = experts expert t := by
  obtain ⟨hlt, hid, hne⟩ := mem_sendRows hrow
  rw [h rank hrank row hlt t ht (hid.symm ▸ hne), hid]

theorem moveToBuffer_primary (hold : old.length = ranks * n) (hnew : new.length = ranks * n)
    (hpresent : ∀ expert ∈ new, expert ≠ -1 → expert ∈ old) (hrank : rank < ranks) {expert : Int}
    (hrow : (expert, row) ∈ recvRows n old new rank) (ht : t < tensors) :
    moveToBuffer tensors n old new ranks weights buffers rank (row, t) = experts expert t := by
  refine foldl_update_apply (fun x hx hkey => ?_)
    (.inr (exists_delivered hold hnew hpresent hrank hrow ht))
  obtain ⟨expert', row', t', srcRow, hrow', ht', hsrc, hsrcRow, hdst, hentry⟩ :=
    mem_delivered hold hnew hrank hx
  obtain ⟨rfl, rfl⟩ := Prod.mk.inj (hdst.symm.trans hkey)
  rw [hentry, h.sendRow hsrc ht' hsrcRow]
  have hsame : expert' = expert := (mem_recvRows hrow').2.1.symm.trans (mem_recvRows hrow).2.1
  rw [hsame]

theorem moveToBuffer_local (hold : old.length = ranks * n) (hnew : new.length = ranks * n)
    (hrank : rank < ranks) (hrow : row < n) (ht : t < tensors)
    (hchanged : isUnchanged n old new rank row = false)
    (hlocal : isReceivedLocally n old new rank row = true) (hid : localId n new rank row ≠ -1) :
    moveToBuffer tensors n old new ranks weights buffers rank (row, t) =
      experts (localId n new rank row) t := by
  obtain ⟨src, hsrc, hsame⟩ := (isReceivedLocally_iff hrow hid).mp hlocal
  obtain ⟨srcRow, hlookup⟩ : ∃ srcRow, (sendRows n old rank).lookup (localId n new rank row) =
      some srcRow := exists_lookup_uniqueRows ⟨src, hsrc, decide_eq_true (hsame.symm ▸ hid), hsame⟩
  have hmove : (row, srcRow) ∈ localMoves n old new rank := by
    refine mem_flatMap.mpr ⟨row, mem_filter.mpr ⟨mem_range.mpr hrow, ?_⟩, ?_⟩
    · rw [hchanged, hlocal]
      rfl
    · rw [hlookup]
      exact mem_singleton.mpr rfl
  unfold moveToBuffer
  rw [foldl_update_apply_of_ne fun x hx hkey => ?_]
  · refine foldl_update_apply (fun x hx hkey => ?_)
      (.inr ⟨((row, t), (srcRow, t)), mem_rowCopies.mpr ⟨row, srcRow, t, hmove, ht, rfl⟩, rfl⟩)
    obtain ⟨dst, src', t', hmove', ht', rfl⟩ := mem_rowCopies.mp hx
    obtain ⟨rfl, rfl⟩ := Prod.mk.inj hkey
    obtain ⟨dst', hdst', hin⟩ := mem_flatMap.mp hmove'
    obtain ⟨src0, hsrc0, heq⟩ := mem_map.mp hin
    obtain ⟨rfl, rfl⟩ := Prod.mk.inj heq
    exact h.sendRow hrank ht' (lookup_uniqueRows (Option.mem_toList.mp hsrc0))
  · -- the exchange writes the rows that are not received locally
    obtain ⟨expert, row', t', srcRow', hrow', -, -, -, hdst, -⟩ := mem_delivered hold hnew hrank hx
    obtain ⟨rfl, rfl⟩ := Prod.mk.inj (hdst.symm.trans hkey)
    exact (mem_recvRows hrow').2.2.2 hlocal

end

/-! ## The rows -/

theorem isPrimary_iff : isPrimary n old new rank row = true ↔
    ∃ expert, (expert, row) ∈ recvRows n old new rank := by
  unfold isPrimary
  rw [any_eq_true]
  constructor
  · rintro ⟨⟨expert, row'⟩, hin, heq⟩
    have heq : row' = row := of_decide_eq_true heq
    exact ⟨expert, heq ▸ hin⟩
  · rintro ⟨expert, hin⟩
    exact ⟨(expert, row), hin, decide_eq_true rfl⟩

theorem copied_apply {w buffer : RankWeights α} (hrow : row < n) (ht : t < tensors)
    (hchanged : isUnchanged n old new rank row = false)
    (hcopy : isReceivedLocally n old new rank row = true ∨ isPrimary n old new rank row = true) :
    (rowCopies tensors (copyBack n old new rank)).foldl
      (fun w x => Function.update w x.1 (buffer x.2)) w (row, t) = buffer (row, t) := by
  have hin : (row, row) ∈ copyBack n old new rank := by
    refine mem_map.mpr ⟨row, mem_filter.mpr ⟨mem_range.mpr hrow, ?_⟩, rfl⟩
    rw [hchanged, Bool.not_false, Bool.true_and, Bool.or_eq_true]
    exact hcopy
  refine foldl_update_apply (fun x hx hkey => ?_)
    (.inr ⟨((row, t), (row, t)), mem_rowCopies.mpr ⟨row, row, t, hin, ht, rfl⟩, rfl⟩)
  obtain ⟨dst, src, t', hback, -, rfl⟩ := mem_rowCopies.mp hx
  obtain ⟨row', -, heq⟩ := mem_map.mp hback
  obtain ⟨rfl, rfl⟩ := Prod.mk.inj heq
  exact congrArg buffer hkey

theorem copied_apply_of_unchanged {w buffer : RankWeights α}
    (hunchanged : isUnchanged n old new rank row = true) :
    (rowCopies tensors (copyBack n old new rank)).foldl
      (fun w x => Function.update w x.1 (buffer x.2)) w (row, t) = w (row, t) := by
  refine foldl_update_apply_of_ne fun x hx hkey => ?_
  obtain ⟨dst, src, t', hback, -, rfl⟩ := mem_rowCopies.mp hx
  obtain ⟨row', hfilter, heq⟩ := mem_map.mp hback
  obtain ⟨rfl, rfl⟩ := Prod.mk.inj heq
  obtain ⟨rfl, rfl⟩ := Prod.mk.inj hkey
  have hchanged := (mem_filter.mp hfilter).2
  rw [hunchanged] at hchanged
  exact nomatch hchanged

theorem mem_duplicateMoves {dst src : Nat} (h : (dst, src) ∈ duplicateMoves n old new rank) :
    isUnchanged n old new rank dst = false ∧ isReceivedLocally n old new rank dst = false ∧
      isPrimary n old new rank dst = false ∧
      (localId n new rank dst, src) ∈ recvRows n old new rank := by
  obtain ⟨dst', hdst', hin⟩ := mem_flatMap.mp h
  obtain ⟨src', hsrc', heq⟩ := mem_map.mp hin
  obtain ⟨rfl, rfl⟩ := Prod.mk.inj heq
  have hmask := (mem_filter.mp hdst').2
  simp only [Bool.and_eq_true, Bool.not_eq_true'] at hmask
  exact ⟨hmask.1.1, hmask.1.2, hmask.2.1, lookup_uniqueRows (Option.mem_toList.mp hsrc')⟩

theorem rearrange_holds (h : Holds tensors n ranks old experts weights)
    (hold : old.length = ranks * n) (hnew : new.length = ranks * n)
    (hpresent : ∀ expert ∈ new, expert ≠ -1 → expert ∈ old) :
    Holds tensors n ranks new experts (rearrange tensors n old new ranks weights buffers) := by
  intro rank hrank row hrow t ht hid
  unfold rearrange moveFromBuffer
  -- a duplicate is never a primary
  rw [foldl_copy_eq fun x hx y hy heq => ?_]
  · cases hunchanged : isUnchanged n old new rank row with
    | true =>
      rw [foldl_update_apply_of_ne fun x hx hkey => ?_, copied_apply_of_unchanged hunchanged]
      · have hsame : localId n old rank row = localId n new rank row := of_decide_eq_true hunchanged
        rw [h rank hrank row hrow t ht (hsame.symm ▸ hid), hsame]
      · obtain ⟨dst, src, t', hmove, -, rfl⟩ := mem_rowCopies.mp hx
        obtain ⟨rfl, rfl⟩ := Prod.mk.inj hkey
        exact nomatch hunchanged.symm.trans (mem_duplicateMoves hmove).1
    | false =>
      cases hlocal : isReceivedLocally n old new rank row with
      | true =>
        rw [foldl_update_apply_of_ne fun x hx hkey => ?_,
          copied_apply hrow ht hunchanged (.inl hlocal)]
        · exact moveToBuffer_local h hold hnew hrank hrow ht hunchanged hlocal hid
        · obtain ⟨dst, src, t', hmove, -, rfl⟩ := mem_rowCopies.mp hx
          obtain ⟨rfl, rfl⟩ := Prod.mk.inj hkey
          exact nomatch hlocal.symm.trans (mem_duplicateMoves hmove).2.1
      | false =>
        cases hprimary : isPrimary n old new rank row with
        | true =>
          obtain ⟨expert, hrecv⟩ := isPrimary_iff.mp hprimary
          rw [foldl_update_apply_of_ne fun x hx hkey => ?_,
            copied_apply hrow ht hunchanged (.inr hprimary)]
          · rw [moveToBuffer_primary h hold hnew hpresent hrank hrecv ht, (mem_recvRows hrecv).2.1]
          · obtain ⟨dst, src, t', hmove, -, rfl⟩ := mem_rowCopies.mp hx
            obtain ⟨rfl, rfl⟩ := Prod.mk.inj hkey
            exact nomatch hprimary.symm.trans (mem_duplicateMoves hmove).2.2.1
        | false =>
          -- the row is a duplicate
          obtain ⟨src, hlookup⟩ : ∃ src, (recvRows n old new rank).lookup
              (localId n new rank row) = some src :=
            exists_lookup_uniqueRows ⟨row, hrow, needRecv_iff.mpr
              ⟨hid, by rw [hlocal]; exact Bool.false_ne_true⟩, rfl⟩
          have hmove : (row, src) ∈ duplicateMoves n old new rank := by
            refine mem_flatMap.mpr ⟨row, mem_filter.mpr ⟨mem_range.mpr hrow, ?_⟩, ?_⟩
            · rw [hunchanged, hlocal, hprimary, decide_eq_true hid]
              rfl
            · rw [hlookup]
              exact mem_singleton.mpr rfl
          refine foldl_update_apply (fun x hx hkey => ?_)
            (.inr ⟨((row, t), (src, t)), mem_rowCopies.mpr ⟨row, src, t, hmove, ht, rfl⟩, rfl⟩)
          obtain ⟨dst, src', t', hmove', ht', rfl⟩ := mem_rowCopies.mp hx
          obtain ⟨rfl, rfl⟩ := Prod.mk.inj hkey
          have hrecv := (mem_duplicateMoves hmove').2.2.2
          obtain ⟨hsrcRow, hsrcId, hsrcNe, hsrcLocal⟩ := mem_recvRows hrecv
          have hsrcChanged : isUnchanged n old new rank src' = false := by
            rw [Bool.eq_false_iff]
            intro hsame
            refine hsrcLocal ?_
            unfold isReceivedLocally
            rw [hsame]
            rfl
          refine (copied_apply hsrcRow ht' hsrcChanged (.inr (isPrimary_iff.mpr ⟨_, hrecv⟩))).trans ?_
          exact moveToBuffer_primary h hold hnew hpresent hrank hrecv ht'
  · obtain ⟨dst, src, t1, hmove, -, rfl⟩ := mem_rowCopies.mp hx
    obtain ⟨dst', src', t2, hmove', -, rfl⟩ := mem_rowCopies.mp hy
    obtain ⟨rfl, rfl⟩ := Prod.mk.inj heq
    have hprimary := isPrimary_iff.mpr ⟨_, (mem_duplicateMoves hmove').2.2.2⟩
    exact nomatch hprimary.symm.trans (mem_duplicateMoves hmove).2.2.1

/-- The exchange loads the experts of the new map, and the ranks agree on it. -/
structure ExchangeSound (tensors n ranks : Nat) (old new : List Int) (experts : Int → Nat → α)
    (weights buffers : Nat → RankWeights α) : Prop where
  holds : Holds tensors n ranks new experts (rearrange tensors n old new ranks weights buffers)
  /-- A posted receive has one posted send. -/
  once : ∀ dst < ranks, ∀ op ∈ postRecvs tensors n old new dst, op.peer < ranks ∧
    ((postSends tensors n old new op.peer).countP fun send =>
      send.peer = dst ∧ send.key = op.key) = 1
  /-- Sends and receives of an ordered pair of ranks are posted in one order. -/
  order : ∀ src < ranks, ∀ dst < ranks,
    (((postSends tensors n old new src).filter fun op => op.peer = dst).map P2POp.key) =
      (((postRecvs tensors n old new dst).filter fun op => op.peer = src).map P2POp.key)

/-- If every slot holds the weights of its old expert, and every expert of the new map is in the old
one, then every slot holds the weights of its new expert after the exchange. -/
theorem rearrange_sound (h : Holds tensors n ranks old experts weights)
    (hold : old.length = ranks * n) (hnew : new.length = ranks * n)
    (hpresent : ∀ expert ∈ new, expert ≠ -1 → expert ∈ old) :
    ExchangeSound tensors n ranks old new experts weights buffers where
  holds := rearrange_holds h hold hnew hpresent
  once _ hdst _ hop := recv_once hold hnew hdst hop
  order _ hsrc _ hdst := pair_order tensors hold hnew hsrc hdst

/-- The first rank gets expert 2 from the second, which gets expert 0 into both of its slots. -/
theorem rearrange_sound_two :
    ExchangeSound 1 2 2 [0, 1, 2, -1] [1, 2, 0, 0] (fun expert _ => expert)
      (fun rank x => localId 2 [0, 1, 2, -1] rank x.1) (fun _ _ => 7) :=
  rearrange_sound (fun _ _ _ _ _ _ _ => rfl) rfl rfl (by decide)

end Weights

end MyOperator.Eplb
