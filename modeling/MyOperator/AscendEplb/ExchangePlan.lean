import MyOperator.Eplb.Numpy
import MyOperator.Lib.Dict
import MyOperator.Lib.Writes

/-!
# The expert exchange

`EplbWorker.compose_expert_update_info_greedy` of the expert load balancer for Ascend: which
ranks send an expert to which, for every layer whose placement changes. An expert map has a
row for each rank: the slot of every expert on the rank, -1 for an expert that the rank does
not hold.
-/

namespace MyOperator.AscendEplb

open Lib List
open Eplb (NumpyError)

/-- The expert map of a layer. -/
abbrev ExpertMap := List (List Int)

/-- `expert_map[rank, expert]`. -/
def ExpertMap.entry (m : ExpertMap) (rank expert : Nat) : Int := (m.getD rank []).getD expert (-1)

/-- `torch.where(condition)` on two axes. -/
def whereTrue (ranks experts : Nat) (condition : Nat → Nat → Bool) : List (Nat × Nat) :=
  (range ranks).flatMap fun r => ((range experts).filter (condition r)).map fun e => (r, e)

/-- For each rank what it sends, or what it receives: the other rank and the expert. -/
abbrev Transfers := Dict Nat (List (Nat × Nat))

/-- `transfers.get(rank, [])`. -/
def transfersOf (transfers : Transfers) (rank : Nat) : List (Nat × Nat) :=
  (transfers.get? rank).getD []

/-- "if rank not in transfers: transfers[rank] = []", `transfers[rank].append(transfer)`. -/
def addTransfer (transfers : Transfers) (rank : Nat) (transfer : Nat × Nat) : Transfers :=
  transfers.set rank (transfersOf transfers rank ++ [transfer])

/-- What is yielded for a layer. -/
structure UpdateInfo where
  expertSendInfo : Transfers
  expertRecvInfo : Transfers
  updatedExpertMap : ExpertMap
  layerId : Nat

/-- `candidate_src_rank_indices`. -/
def candidateSrcRanks (ranks : Nat) (current : ExpertMap) (send : List (Nat × Nat)) (expertId : Nat) :
    List Nat :=
  if ¬ send.any (fun x => x.2 = expertId) then
    -- "it will be copied from one npu holding this expert"
    (range ranks).filter fun r => current.entry r expertId ≠ -1
  else (send.filter fun x => x.2 = expertId).map Prod.fst

/-- The body of the loop over the experts to receive. -/
def exchangeExpert (ranks : Nat) (current : ExpertMap) (send : List (Nat × Nat))
    (info : Transfers × Transfers) (recv : Nat × Nat) : Except NumpyError (Transfers × Transfers) :=
  match (candidateSrcRanks ranks current send recv.2).head? with
  | none => .error .IndexError
  | some src => .ok (addTransfer info.1 src (recv.1, recv.2), addTransfer info.2 recv.1 (src, recv.2))

/-- The number of experts of a map. -/
def ExpertMap.experts (m : ExpertMap) : Nat := (m.headD []).length

/-- "Parse expert_ids each rank needs to receive from other ranks". -/
def expertsToRecv (updated current : ExpertMap) : List (Nat × Nat) :=
  whereTrue current.length current.experts fun r e => current.entry r e = -1 ∧ updated.entry r e ≠ -1

/-- "Parse expert_ids each rank needs to send to other ranks". -/
def expertsToSend (updated current : ExpertMap) : List (Nat × Nat) :=
  whereTrue current.length current.experts fun r e => current.entry r e ≠ -1 ∧ updated.entry r e = -1

/-- What the loop yields for a layer. -/
def composeLayer (updated current : ExpertMap) (layerId : Nat) : Except NumpyError (List UpdateInfo) := do
  -- "Guard Clause: if there is no expert weight update": the loop body goes on after this `yield`
  let unchanged : List UpdateInfo :=
    if updated = current then [⟨.empty, .empty, updated, layerId⟩] else []
  let info ← (expertsToRecv updated current).foldlM
    (exchangeExpert current.length current (expertsToSend updated current)) (.empty, .empty)
  .ok (unchanged ++ [⟨info.1, info.2, updated, layerId⟩])

/-- `compose_expert_update_info_greedy`: all that the generator yields. -/
def composeExpertUpdateInfoGreedy (updatedExpertMaps currentExpertMaps : List ExpertMap) :
    Except NumpyError (List UpdateInfo) :=
  (range currentExpertMaps.length).foldlM (fun infos layerId => do
    match updatedExpertMaps[layerId]?, currentExpertMaps[layerId]? with
    | some updated, some current => do
        let infosThisLayer ← composeLayer updated current layerId
        .ok (infos ++ infosThisLayer)
    | _, _ => .error .IndexError) []

/-! ## The weights -/

/-- The expert whose weights are in each slot of each rank. -/
abbrev Weights := Nat → Int → Option Nat

/-- `update_expert_map_and_weight` of the rank: each expert that it receives goes to the slot that the
updated map gives it. It comes from the slot that the sender has it in by the current map. -/
def loadExperts (updated current : ExpertMap) (recv : Transfers) (weights : Weights) : Weights := fun r =>
  (transfersOf recv r).foldl
    (fun slots x => Function.update slots (updated.entry r x.2) (weights x.1 (current.entry x.1 x.2)))
    (weights r)

end MyOperator.AscendEplb

/-!
## The plan of the expert exchange

For valid placements the transfers of a layer are matched and turn the current map into the
updated one (`composeLayer_correct`). A layer that does not change is yielded twice, so that
there is one update for each layer if and only if all of them change (`compose_iff`).
-/

namespace MyOperator.AscendEplb

open Lib
open Eplb (NumpyError)

/-! ## Placements -/

/-- Every rank has an expert in each of its slots, and every expert is on a rank. -/
structure ValidMap (ranks experts slots : Nat) (m : ExpertMap) : Prop where
  length : m.length = ranks
  rows : ∀ row ∈ m, row.length = experts
  range : ∀ r < ranks, ∀ e < experts, m.entry r e = -1 ∨ (0 ≤ m.entry r e ∧ m.entry r e < slots)
  inj : ∀ r < ranks, ∀ e < experts, ∀ e' < experts, m.entry r e = m.entry r e' →
    m.entry r e ≠ -1 → e = e'
  surj : ∀ r < ranks, ∀ s : Nat, s < slots → ∃ e < experts, m.entry r e = s
  held : ∀ e < experts, ∃ r < ranks, m.entry r e ≠ -1

/-- Placements of the same shape, and no "expert movement inside NPU". -/
structure ValidExchange (ranks experts slots : Nat) (updated current : ExpertMap) : Prop where
  validUpdated : ValidMap ranks experts slots updated
  validCurrent : ValidMap ranks experts slots current
  stay : ∀ r < ranks, ∀ e < experts, current.entry r e ≠ -1 → updated.entry r e ≠ -1 →
    updated.entry r e = current.entry r e

/-- The weights are in the slots that the map says. -/
def Holds (ranks experts : Nat) (m : ExpertMap) (weights : Weights) : Prop :=
  ∀ r < ranks, ∀ e < experts, ∀ s : Int, 0 ≤ s → (weights r s = some e ↔ m.entry r e = s)

/-- The transfers of a layer. -/
structure LayerCorrect (ranks experts : Nat) (updated current : ExpertMap) (info : UpdateInfo) : Prop where
  /-- Each receive is matched by a send, and each send by a receive. -/
  matched : ∀ dst src e, (transfersOf info.expertRecvInfo dst).count (src, e) =
    (transfersOf info.expertSendInfo src).count (dst, e)
  /-- A rank receives the experts that it gains, each once, and no others. -/
  gained : ∀ dst < ranks, ∀ e < experts,
    (transfersOf info.expertRecvInfo dst).countP (fun x => x.2 = e) =
      if current.entry dst e = -1 ∧ updated.entry dst e ≠ -1 then 1 else 0
  /-- The sender holds the expert. -/
  held : ∀ dst src e, (src, e) ∈ transfersOf info.expertRecvInfo dst →
    src < ranks ∧ dst < ranks ∧ e < experts ∧ current.entry src e ≠ -1
  map : info.updatedExpertMap = updated
  /-- The transfers turn the current map into the updated map. -/
  applied : ∀ weights, Holds ranks experts current weights →
    Holds ranks experts updated (loadExperts updated current info.expertRecvInfo weights)

/-- One update for each layer in layer order, each with the transfers of its layer. -/
def PlanCorrect (ranks experts : Nat) (updatedMaps currentMaps : List ExpertMap)
    (infos : List UpdateInfo) : Prop :=
  infos.map UpdateInfo.layerId = List.range currentMaps.length ∧
    ∀ info ∈ infos, ∃ updated current, updatedMaps[info.layerId]? = some updated ∧
      currentMaps[info.layerId]? = some current ∧ LayerCorrect ranks experts updated current info

/-! ## `torch.where` -/

theorem mem_whereTrue {ranks experts : Nat} {condition : Nat → Nat → Bool} {r e : Nat} :
    (r, e) ∈ whereTrue ranks experts condition ↔ r < ranks ∧ e < experts ∧ condition r e = true := by
  unfold whereTrue
  simp only [List.mem_flatMap, List.mem_map, List.mem_filter, List.mem_range, Prod.mk.injEq]
  constructor
  · rintro ⟨r', hr', e', ⟨he', hcond⟩, rfl, rfl⟩
    exact ⟨hr', he', hcond⟩
  · rintro ⟨hr, he, hcond⟩
    exact ⟨r, hr, e, ⟨he, hcond⟩, rfl, rfl⟩

theorem nodup_whereTrue (ranks experts : Nat) (condition : Nat → Nat → Bool) :
    (whereTrue ranks experts condition).Nodup := by
  refine List.nodup_flatMap.mpr ⟨fun r _ => ?_, ?_⟩
  · exact (List.nodup_range.filter _).map fun e e' heq => (Prod.mk.inj heq).2
  · refine List.nodup_range.imp fun {r r'} hne => ?_
    intro x hx hx'
    obtain ⟨e, -, rfl⟩ := List.mem_map.mp hx
    obtain ⟨e', -, heq⟩ := List.mem_map.mp hx'
    exact hne (Prod.mk.inj heq).1.symm

/-! ## The loop over the experts -/

variable {ranks experts slots : Nat} {updated current : ExpertMap}

theorem transfersOf_addTransfer (transfers : Transfers) (rank rank' : Nat) (transfer : Nat × Nat) :
    transfersOf (addTransfer transfers rank transfer) rank' =
      transfersOf transfers rank' ++ if rank' = rank then [transfer] else [] := by
  unfold transfersOf addTransfer
  rw [Dict.get?_set]
  split
  · rename_i heq
    rw [heq]
    rfl
  · rw [List.append_nil]

/-- The rank that sends an expert. -/
def sourceOf (updated current : ExpertMap) (expertId : Nat) : Nat :=
  ((candidateSrcRanks current.length current (expertsToSend updated current) expertId).head?).getD 0

theorem exchange_spec {todo : List (Nat × Nat)} (info : Transfers × Transfers)
    (hsource : ∀ x ∈ todo, (candidateSrcRanks current.length current (expertsToSend updated current)
      x.2).head? = some (sourceOf updated current x.2)) :
    ∃ info', todo.foldlM (exchangeExpert current.length current (expertsToSend updated current)) info =
        .ok info' ∧
      (∀ src, transfersOf info'.1 src = transfersOf info.1 src ++
        todo.filter fun x => sourceOf updated current x.2 = src) ∧
      ∀ dst, transfersOf info'.2 dst = transfersOf info.2 dst ++
        (todo.filter fun x => x.1 = dst).map fun x => (sourceOf updated current x.2, x.2) := by
  induction todo generalizing info with
  | nil => exact ⟨info, rfl, fun _ => (List.append_nil _).symm, fun _ => (List.append_nil _).symm⟩
  | cons x todo ih =>
    have hstep : exchangeExpert current.length current (expertsToSend updated current) info x =
        .ok (addTransfer info.1 (sourceOf updated current x.2) x,
          addTransfer info.2 x.1 (sourceOf updated current x.2, x.2)) := by
      unfold exchangeExpert
      rw [hsource x List.mem_cons_self]
    obtain ⟨info', hok, hsend, hrecv⟩ := ih _ fun y hy => hsource y (List.mem_cons_of_mem _ hy)
    refine ⟨info', ?_, fun src => ?_, fun dst => ?_⟩
    · rw [List.foldlM_cons, hstep]
      exact hok
    · rw [hsend, transfersOf_addTransfer, List.append_assoc, List.filter_cons]
      refine congrArg (transfersOf info.1 src ++ ·) ?_
      by_cases heq : sourceOf updated current x.2 = src
      · rw [if_pos heq.symm, if_pos (decide_eq_true heq)]
        rfl
      · rw [if_neg (Ne.symm heq), if_neg (by simpa using heq)]
        rfl
    · rw [hrecv, transfersOf_addTransfer, List.append_assoc, List.filter_cons]
      refine congrArg (transfersOf info.2 dst ++ ·) ?_
      by_cases heq : x.1 = dst
      · rw [if_pos heq.symm, if_pos (decide_eq_true heq)]
        rfl
      · rw [if_neg (Ne.symm heq), if_neg (by simpa using heq)]
        rfl

theorem ValidMap.experts_eq {m : ExpertMap} (h : ValidMap ranks experts slots m) :
    m.experts = experts := by
  cases m with
  | cons row m => exact h.rows row List.mem_cons_self
  | nil =>
    -- without ranks no expert is held
    by_contra hne
    obtain ⟨r, hr, -⟩ := h.held 0 (Nat.pos_of_ne_zero (Ne.symm hne))
    rw [← h.length] at hr
    exact absurd hr (Nat.not_lt_zero r)

section

variable (h : ValidExchange ranks experts slots updated current)
include h

theorem mem_expertsToRecv {r e : Nat} :
    (r, e) ∈ expertsToRecv updated current ↔
      r < ranks ∧ e < experts ∧ current.entry r e = -1 ∧ updated.entry r e ≠ -1 := by
  unfold expertsToRecv
  rw [mem_whereTrue, h.validCurrent.length, h.validCurrent.experts_eq, decide_eq_true_eq]

theorem mem_expertsToSend {r e : Nat} :
    (r, e) ∈ expertsToSend updated current ↔
      r < ranks ∧ e < experts ∧ current.entry r e ≠ -1 ∧ updated.entry r e = -1 := by
  unfold expertsToSend
  rw [mem_whereTrue, h.validCurrent.length, h.validCurrent.experts_eq, decide_eq_true_eq]

theorem mem_candidateSrcRanks {r e : Nat}
    (hr : r ∈ candidateSrcRanks current.length current (expertsToSend updated current) e) :
    r < ranks ∧ current.entry r e ≠ -1 := by
  unfold candidateSrcRanks at hr
  split at hr
  · obtain ⟨hr, hheld⟩ := List.mem_filter.mp hr
    rw [List.mem_range, h.validCurrent.length] at hr
    exact ⟨hr, of_decide_eq_true hheld⟩
  · obtain ⟨⟨r', e'⟩, hmem, rfl⟩ := List.mem_map.mp hr
    obtain ⟨hmem, he⟩ := List.mem_filter.mp hmem
    obtain ⟨hr, -, hheld, -⟩ := (mem_expertsToSend h).mp hmem
    have he : e' = e := of_decide_eq_true he
    exact ⟨hr, he ▸ hheld⟩

theorem source_spec {e : Nat} (he : e < experts) :
    (candidateSrcRanks current.length current (expertsToSend updated current) e).head? =
      some (sourceOf updated current e) ∧
    sourceOf updated current e < ranks ∧ current.entry (sourceOf updated current e) e ≠ -1 := by
  have hne : candidateSrcRanks current.length current (expertsToSend updated current) e ≠ [] := by
    unfold candidateSrcRanks
    split
    · obtain ⟨r, hr, hheld⟩ := h.validCurrent.held e he
      refine List.ne_nil_of_mem (List.mem_filter.mpr ⟨?_, decide_eq_true hheld⟩)
      rw [h.validCurrent.length]
      exact List.mem_range.mpr hr
    · rename_i hany
      obtain ⟨x, hx, hxe⟩ := List.any_eq_true.mp (not_not.mp hany)
      exact List.ne_nil_of_mem (List.mem_map_of_mem (List.mem_filter.mpr ⟨hx, hxe⟩))
  have hhead : (candidateSrcRanks current.length current (expertsToSend updated current) e).head? =
      some (sourceOf updated current e) := by
    unfold sourceOf
    rw [List.head?_eq_some_head hne]
    rfl
  exact ⟨hhead, mem_candidateSrcRanks h (List.mem_of_mem_head? hhead)⟩

/-! ## The transfers of a layer -/

theorem loadExperts_holds {recv : Transfers}
    (hrecv : ∀ dst src e, (src, e) ∈ transfersOf recv dst → src < ranks ∧ dst < ranks ∧ e < experts ∧ current.entry src e ≠ -1)
    (hgained : ∀ dst < ranks, ∀ e < experts, (∃ src, (src, e) ∈ transfersOf recv dst) ↔ current.entry dst e = -1 ∧ updated.entry dst e ≠ -1)
    {weights : Weights} (hweights : Holds ranks experts current weights) :
    Holds ranks experts updated (loadExperts updated current recv weights) := by
  intro r hr e he s hs
  -- what a transfer brings
  have hbrings : ∀ x ∈ transfersOf recv r, weights x.1 (current.entry x.1 x.2) = some x.2 := by
    rintro ⟨src, e'⟩ hx
    obtain ⟨hsrc, -, he', hheld⟩ := hrecv r src e' hx
    refine (hweights src hsrc e' he' _ ?_).mpr rfl
    rcases h.validCurrent.range src hsrc e' he' with hnone | ⟨hge, -⟩
    · exact absurd hnone hheld
    · exact hge
  unfold loadExperts
  by_cases hover : ∃ x ∈ transfersOf recv r, updated.entry r x.2 = s
  · -- the slot gets an expert, the one that the updated map has there
    obtain ⟨⟨src, e'⟩, hx, hslot⟩ := hover
    obtain ⟨-, -, he', -⟩ := hrecv r src e' hx
    have hslot : updated.entry r e' = s := hslot
    have hsame : ∀ y ∈ transfersOf recv r, updated.entry r y.2 = s →
        weights y.1 (current.entry y.1 y.2) = some e' := by
      rintro ⟨src', e''⟩ hy hyslot
      have hyslot : updated.entry r e'' = s := hyslot
      obtain ⟨-, -, he'', -⟩ := hrecv r src' e'' hy
      have heq : e'' = e' :=
        h.validUpdated.inj r hr e'' he'' e' he' (hyslot.trans hslot.symm) (by omega)
      have hb := hbrings _ hy
      rw [heq] at hb ⊢
      exact hb
    rw [foldl_update_apply hsame (.inr ⟨_, hx, hslot⟩)]
    constructor
    · intro heq
      rw [← Option.some.inj heq]
      exact hslot
    · intro heq
      exact congrArg some (h.validUpdated.inj r hr e' he' e he (hslot.trans heq.symm) (by omega))
  · -- the slot keeps its expert
    have hkeep : ∀ x ∈ transfersOf recv r, updated.entry r x.2 ≠ s := fun x hx hslot =>
      hover ⟨x, hx, hslot⟩
    have hnot : ∀ e' < experts, updated.entry r e' = s → current.entry r e' ≠ -1 := by
      intro e' he' hslot hnone
      obtain ⟨src, hx⟩ := (hgained r hr e' he').mpr ⟨hnone, by omega⟩
      exact hkeep _ hx hslot
    rw [foldl_update_apply_of_ne hkeep, hweights r hr e he s hs]
    constructor
    · intro heq
      by_cases hdropped : updated.entry r e = -1
      · -- the expert that takes the place of a dropped one is received
        obtain ⟨-, hlt⟩ := (h.validCurrent.range r hr e he).resolve_left (by omega)
        obtain ⟨e', he', hslot⟩ := h.validUpdated.surj r hr s.toNat (by omega)
        have hslot : updated.entry r e' = s := by omega
        have hheld := hnot e' he' hslot
        have hstay := h.stay r hr e' he' hheld (by omega)
        have hsame : e' = e := h.validCurrent.inj r hr e' he' e he (by omega) hheld
        rw [hsame] at hslot
        omega
      · rw [h.stay r hr e he (by omega) hdropped]
        exact heq
    · intro heq
      rw [← h.stay r hr e he (hnot e he heq) (by omega)]
      exact heq

theorem composeLayer_correct (layerId : Nat) :
    ∃ info, composeLayer updated current layerId =
        .ok (if updated = current then [⟨.empty, .empty, updated, layerId⟩, info] else [info]) ∧
      info.layerId = layerId ∧ LayerCorrect ranks experts updated current info := by
  have hsource : ∀ x ∈ expertsToRecv updated current,
      (candidateSrcRanks current.length current (expertsToSend updated current) x.2).head? =
        some (sourceOf updated current x.2) := by
    rintro ⟨r, e⟩ hx
    exact (source_spec h ((mem_expertsToRecv h).mp hx).2.1).1
  obtain ⟨info, hok, hsend, hrecv⟩ := exchange_spec (.empty, .empty) hsource
  have hsend : ∀ src, transfersOf info.1 src =
      (expertsToRecv updated current).filter fun x => sourceOf updated current x.2 = src := fun src =>
    (hsend src).trans (List.nil_append _)
  have hrecv : ∀ dst, transfersOf info.2 dst = ((expertsToRecv updated current).filter
      fun x => x.1 = dst).map fun x => (sourceOf updated current x.2, x.2) := fun dst =>
    (hrecv dst).trans (List.nil_append _)
  have hmem : ∀ dst src e, (src, e) ∈ transfersOf info.2 dst ↔
      (dst, e) ∈ expertsToRecv updated current ∧ sourceOf updated current e = src := by
    intro dst src e
    rw [hrecv]
    constructor
    · intro hx
      obtain ⟨⟨r, e'⟩, hfilter, heq⟩ := List.mem_map.mp hx
      obtain ⟨hin, hr⟩ := List.mem_filter.mp hfilter
      have hr : r = dst := of_decide_eq_true hr
      obtain ⟨hsrc, he⟩ := Prod.mk.inj heq
      have he : e' = e := he
      rw [hr] at hin
      rw [← he]
      exact ⟨he ▸ hin, hsrc⟩
    · rintro ⟨hx, rfl⟩
      exact List.mem_map.mpr ⟨(dst, e), List.mem_filter.mpr ⟨hx, decide_eq_true rfl⟩, rfl⟩
  have hheld : ∀ dst src e, (src, e) ∈ transfersOf info.2 dst →
      src < ranks ∧ dst < ranks ∧ e < experts ∧ current.entry src e ≠ -1 := by
    intro dst src e hx
    obtain ⟨hin, heq⟩ := (hmem dst src e).mp hx
    obtain ⟨hdst, he, -, -⟩ := (mem_expertsToRecv h).mp hin
    obtain ⟨-, hsrc, hhas⟩ := source_spec h he
    rw [heq] at hsrc hhas
    exact ⟨hsrc, hdst, he, hhas⟩
  refine ⟨⟨info.1, info.2, updated, layerId⟩, ?_, rfl, ?_, fun dst hdst e he => ?_, hheld, rfl,
    fun weights hweights => loadExperts_holds h hheld (fun dst hdst e he => ?_) hweights⟩
  · unfold composeLayer
    rw [hok]
    split <;> rfl
  · intro dst src e
    show (transfersOf info.2 dst).count (src, e) = (transfersOf info.1 src).count (dst, e)
    rw [hrecv, hsend, List.count, List.count, List.countP_map, List.countP_filter, List.countP_filter]
    refine List.countP_congr fun x _ => ?_
    simp only [Function.comp_apply, Bool.and_eq_true, beq_iff_eq, Prod.ext_iff, decide_eq_true_eq]
    constructor
    · rintro ⟨⟨hsrc, he⟩, hdst⟩
      exact ⟨⟨hdst, he⟩, hsrc⟩
    · rintro ⟨⟨hdst, he⟩, hsrc⟩
      exact ⟨⟨hsrc, he⟩, hdst⟩
  · show (transfersOf info.2 dst).countP (fun x => x.2 = e) = _
    have hcount : (transfersOf info.2 dst).countP (fun x => decide (x.2 = e)) =
        (expertsToRecv updated current).count (dst, e) := by
      rw [hrecv, List.countP_map, List.countP_filter]
      refine List.countP_congr fun x _ => ?_
      simp only [Function.comp_apply, Bool.and_eq_true, beq_iff_eq, Prod.ext_iff, decide_eq_true_eq]
      exact and_comm
    have hnodup : (expertsToRecv updated current).Nodup := nodup_whereTrue _ _ _
    rw [hcount, hnodup.count]
    refine if_congr ((mem_expertsToRecv h).trans ?_) rfl rfl
    exact ⟨fun hx => hx.2.2, fun hx => ⟨hdst, he, hx⟩⟩
  · constructor
    · rintro ⟨src, hx⟩
      exact ((mem_expertsToRecv h).mp ((hmem dst src e).mp hx).1).2.2
    · intro hx
      exact ⟨_, (hmem dst _ e).mpr ⟨(mem_expertsToRecv h).mpr ⟨hdst, he, hx⟩, rfl⟩⟩

end

theorem unchanged_correct (m : ExpertMap) (layerId : Nat) :
    LayerCorrect ranks experts m m ⟨.empty, .empty, m, layerId⟩ where
  matched _ _ _ := rfl
  gained _ _ _ _ := (if_neg fun hx => hx.2 hx.1).symm
  held _ _ _ hx := nomatch hx
  map := rfl
  applied _ hweights := hweights

/-! ## The plan -/

/-- The layer ids of what is yielded for a layer. -/
def layerIds (updatedMaps currentMaps : List ExpertMap) (layerId : Nat) : List Nat :=
  if updatedMaps[layerId]? = currentMaps[layerId]? then [layerId, layerId] else [layerId]

/-- The layers of the maps are valid exchanges. -/
structure ValidMaps (ranks experts slots : Nat) (updatedMaps currentMaps : List ExpertMap) : Prop where
  length : updatedMaps.length = currentMaps.length
  layers : ∀ (layer : Nat) (updated current : ExpertMap), updatedMaps[layer]? = some updated →
    currentMaps[layer]? = some current → ValidExchange ranks experts slots updated current

variable {updatedMaps currentMaps : List ExpertMap}

theorem compose_layer_step (h : ValidMaps ranks experts slots updatedMaps currentMaps) {k : Nat}
    (hk : k < currentMaps.length) (infos : List UpdateInfo) :
    ∃ infosThisLayer, (match updatedMaps[k]?, currentMaps[k]? with
        | some updated, some current => do
            let infosThisLayer ← composeLayer updated current k
            .ok (infos ++ infosThisLayer)
        | _, _ => .error NumpyError.IndexError) = .ok (infos ++ infosThisLayer) ∧
      infosThisLayer.map UpdateInfo.layerId = layerIds updatedMaps currentMaps k ∧
      ∀ info ∈ infosThisLayer, ∃ updated current, updatedMaps[info.layerId]? = some updated ∧
        currentMaps[info.layerId]? = some current ∧ LayerCorrect ranks experts updated current info := by
  obtain ⟨current, hcurrent⟩ : ∃ current, currentMaps[k]? = some current :=
    ⟨_, List.getElem?_eq_getElem hk⟩
  obtain ⟨updated, hupdated⟩ : ∃ updated, updatedMaps[k]? = some updated :=
    ⟨_, List.getElem?_eq_getElem (h.length.symm ▸ hk)⟩
  obtain ⟨info, hlayer, hid, hinfo⟩ := composeLayer_correct (h.layers k _ _ hupdated hcurrent) k
  refine ⟨if updated = current then [⟨.empty, .empty, updated, k⟩, info] else [info], ?_, ?_, ?_⟩
  · rw [hupdated, hcurrent]
    dsimp only
    rw [hlayer]
    rfl
  · unfold layerIds
    rw [hupdated, hcurrent]
    by_cases heq : updated = current
    · rw [if_pos heq, if_pos (congrArg some heq), List.map_cons, List.map_singleton, hid]
    · rw [if_neg heq, if_neg fun hsome => heq (Option.some.inj hsome), List.map_singleton, hid]
  · intro info' hinfo'
    have hlast : info' = info → ∃ updated current, updatedMaps[info'.layerId]? = some updated ∧
        currentMaps[info'.layerId]? = some current ∧
        LayerCorrect ranks experts updated current info' := by
      rintro rfl
      rw [hid]
      exact ⟨updated, current, hupdated, hcurrent, hinfo⟩
    by_cases heq : updated = current
    · rw [if_pos heq] at hinfo'
      rcases List.mem_cons.mp hinfo' with rfl | hinfo'
      · refine ⟨updated, current, hupdated, hcurrent, ?_⟩
        rw [← heq]
        exact unchanged_correct updated k
      · exact hlast (List.mem_singleton.mp hinfo')
    · rw [if_neg heq] at hinfo'
      exact hlast (List.mem_singleton.mp hinfo')

theorem compose_layers (h : ValidMaps ranks experts slots updatedMaps currentMaps) {k : Nat}
    (hk : k ≤ currentMaps.length) :
    ∃ infos, (List.range k).foldlM (fun (infos : List UpdateInfo) layerId => do
        match updatedMaps[layerId]?, currentMaps[layerId]? with
        | some updated, some current => do
            let infosThisLayer ← composeLayer updated current layerId
            .ok (infos ++ infosThisLayer)
        | _, _ => .error NumpyError.IndexError) [] = .ok infos ∧
      infos.map UpdateInfo.layerId = (List.range k).flatMap (layerIds updatedMaps currentMaps) ∧
      ∀ info ∈ infos, ∃ updated current, updatedMaps[info.layerId]? = some updated ∧
        currentMaps[info.layerId]? = some current ∧ LayerCorrect ranks experts updated current info := by
  induction k with
  | zero => exact ⟨[], rfl, rfl, fun info hinfo => (nomatch hinfo)⟩
  | succ k ih =>
    obtain ⟨infos, hok, hids, hcorrect⟩ := ih (Nat.le_of_succ_le hk)
    obtain ⟨new, hstep, hnewIds, hnew⟩ := compose_layer_step h hk infos
    rw [List.range_succ, List.foldlM_append, hok]
    refine ⟨infos ++ new, ?_, ?_, fun info hinfo => ?_⟩
    · rw [ok_bind, List.foldlM_cons, hstep]
      rfl
    · rw [List.map_append, hids, hnewIds, List.flatMap_append, List.flatMap_singleton]
    · rcases List.mem_append.mp hinfo with hold | hin
      · exact hcorrect info hold
      · exact hnew info hin

theorem flatMap_layerIds (n : Nat) :
    (List.range n).flatMap (layerIds updatedMaps currentMaps) = List.range n ↔
      ∀ layer < n, updatedMaps[layer]? ≠ currentMaps[layer]? := by
  constructor
  · intro heq layer hlayer hsame
    have hnodup : ((List.range n).flatMap (layerIds updatedMaps currentMaps)).Nodup := by
      rw [heq]
      exact List.nodup_range
    have htwice := (List.nodup_flatMap.mp hnodup).1 layer (List.mem_range.mpr hlayer)
    unfold layerIds at htwice
    rw [if_pos hsame, List.nodup_cons] at htwice
    exact htwice.1 (List.mem_singleton.mpr rfl)
  · intro hall
    have hsingle : ∀ layer ∈ List.range n, layerIds updatedMaps currentMaps layer = [layer] :=
      fun layer hlayer => if_neg (hall layer (List.mem_range.mp hlayer))
    rw [List.flatMap_congr hsingle, List.flatMap_singleton']

/-- The plan is correct, with one update for each layer, if and only if every layer changes. -/
theorem compose_iff (h : ValidMaps ranks experts slots updatedMaps currentMaps) :
    ∃ infos, composeExpertUpdateInfoGreedy updatedMaps currentMaps = .ok infos ∧
      (PlanCorrect ranks experts updatedMaps currentMaps infos ↔
        ∀ layer < currentMaps.length, updatedMaps[layer]? ≠ currentMaps[layer]?) := by
  obtain ⟨infos, hok, hids, hcorrect⟩ := compose_layers h (le_refl _)
  refine ⟨infos, hok, ?_⟩
  rw [← flatMap_layerIds, ← hids]
  exact ⟨fun hplan => hplan.1, fun heq => ⟨heq, hcorrect⟩⟩

/-! ## Two ranks -/

/-- Two ranks with two slots and three experts. -/
def currentMap : ExpertMap := [[0, 1, -1], [-1, 0, 1]]

/-- The first rank gets expert 2 in place of expert 1. -/
def updatedMap : ExpertMap := [[0, -1, 1], [-1, 0, 1]]

theorem currentMap_valid : ValidMap 2 3 2 currentMap where
  length := rfl
  rows := by decide
  range := by decide
  inj := by
    intro r hr
    interval_cases r <;> decide
  surj := by decide
  held := by decide

theorem updatedMap_valid : ValidMap 2 3 2 updatedMap where
  length := rfl
  rows := by decide
  range := by decide
  inj := by
    intro r hr
    interval_cases r <;> decide
  surj := by decide
  held := by decide

theorem twoRanks_valid : ValidMaps 2 3 2 [updatedMap] [currentMap] where
  length := rfl
  layers
    | 0, _, _, rfl, rfl => ⟨updatedMap_valid, currentMap_valid, by decide⟩
    | _ + 1, _, _, h, _ => (nomatch h)

theorem compose_iff_twoRanks :
    ∃ infos, composeExpertUpdateInfoGreedy [updatedMap] [currentMap] = .ok infos ∧
      (PlanCorrect 2 3 [updatedMap] [currentMap] infos ↔
        ∀ layer < [currentMap].length, [updatedMap][layer]? ≠ [currentMap][layer]?) :=
  compose_iff twoRanks_valid

/-- For a layer that does not change there are two updates. -/
theorem compose_unchanged_twice :
    ValidMaps 2 3 2 [currentMap] [currentMap] ∧
      ∃ infos, composeExpertUpdateInfoGreedy [currentMap] [currentMap] = .ok infos ∧
        infos.map UpdateInfo.layerId = [0, 0] ∧ ¬ PlanCorrect 2 3 [currentMap] [currentMap] infos := by
  refine ⟨⟨rfl, ?_⟩, _, rfl, rfl, fun hplan => ?_⟩
  · rintro (_ | _) updated current hupdated hcurrent
    · cases hupdated
      cases hcurrent
      exact ⟨currentMap_valid, currentMap_valid, by decide⟩
    · cases hupdated
  · exact absurd hplan.1 (by decide)

end MyOperator.AscendEplb
