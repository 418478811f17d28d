import Mathlib

/-!
# The rearrangement of the expert weights

`move_to_buffer` and `move_from_buffer` of the expert load balancer: every rank gets from the old
and the new physical-to-logical map what it copies by itself, what it sends and what it receives.
The ranks hold `n` experts each; -1 is the expert of a slot without one. The ranks do not agree on
anything before the exchange.
-/

namespace MyOperator.Eplb

open Function List

/-- `indices[ep_rank * num_local_experts + row]`. -/
def localId (n : Nat) (indices : List Int) (rank row : Nat) : Int := indices.getD (rank * n + row) (-1)

/-! ## Ranks -/

/-- The ranks of the positions of an expert, "unique ranks in order of first appearance". -/
def ranksWith (n : Nat) (indices : List Int) (expert : Int) : List Nat :=
  (((range indices.length).filter fun p => indices[p]? = some expert).map (· / n)).eraseDups

/-- What the two maps say of an expert. -/
structure ExpertRanks where
  ranksToSend : List Nat
  ranksToRecv : List Nat
  deriving DecidableEq, Repr

/-- The ranks that have the expert, and those that need it: "remove ranks that have local copies". -/
def expertRanks (n : Nat) (old new : List Int) (expert : Int) : ExpertRanks where
  ranksToSend := ranksWith n old expert
  ranksToRecv := (ranksWith n new expert).filter fun r => r ∉ ranksWith n old expert

def getEpRanksWithExpertsBatch (expertIds : List Int) (n : Nat) (old new : List Int) :
    List (Int × ExpertRanks) :=
  expertIds.dedup.map fun expert => (expert, expertRanks n old new expert)

/-- `recv_ranks`: the ranks that a rank sends the expert to. -/
def recvRanks (ranks : ExpertRanks) (rank : Nat) : List Nat :=
  if ranks.ranksToSend = [] ∨ ranks.ranksToRecv = [] then []
  else
    let numDstPerSender := ranks.ranksToRecv.length / ranks.ranksToSend.length
    let senderPos := ranks.ranksToSend.idxOf rank
    let recverPos := ranks.ranksToSend.length * numDstPerSender + senderPos
    (ranks.ranksToRecv.drop (senderPos * numDstPerSender)).take numDstPerSender ++
      (ranks.ranksToRecv[recverPos]?).toList

/-- `src`: the rank that a rank receives the expert from. -/
def sendRank (ranks : ExpertRanks) (rank : Nat) : Option Nat :=
  if ranks.ranksToSend = [] ∨ ranks.ranksToRecv = [] then none
  else
    let numDstPerSender := ranks.ranksToRecv.length / ranks.ranksToSend.length
    let recverPos := ranks.ranksToRecv.idxOf rank
    let remainderStart := ranks.ranksToSend.length * numDstPerSender
    if recverPos < remainderStart then ranks.ranksToSend[recverPos / numDstPerSender]?
    else ranks.ranksToSend[recverPos - remainderStart]?

/-! ## Rows -/

/-- `np.unique(ids[mask], return_index=True)`: the experts, sorted, with their first rows. They are
sorted already when `np.argsort` is called on them. -/
def uniqueRows (n : Nat) (mask : Nat → Bool) (ids : Nat → Int) : List (Int × Nat) :=
  ((((range n).filter mask).map ids).dedup.insertionSort (· ≤ ·)).map fun expert =>
    (expert, ((range n).find? fun row => mask row && decide (ids row = expert)).getD 0)

section Rows

variable (n : Nat) (old new : List Int) (rank : Nat)

def isUnchanged (row : Nat) : Bool := localId n old rank row = localId n new rank row

def isReceivedLocally (row : Nat) : Bool :=
  isUnchanged n old new rank row || (decide (localId n new rank row ≠ -1) &&
      (range n).any fun src => localId n old rank src = localId n new rank row)

/-- `send_expert_ids` and `send_src_rows`: "first src row per unique expert". -/
def sendRows : List (Int × Nat) :=
  uniqueRows n (fun row => localId n old rank row ≠ -1) (localId n old rank)

/-- `need_recv_mask`. -/
def needRecv (row : Nat) : Bool :=
  !isReceivedLocally n old new rank row && decide (localId n new rank row ≠ -1)

/-- `recv_expert_ids` and `recv_dst_rows`: "primary dst per unique expert". -/
def recvRows : List (Int × Nat) := uniqueRows n (needRecv n old new rank) (localId n new rank)

/-- `recv_primary_mask`. -/
def isPrimary (row : Nat) : Bool := (recvRows n old new rank).any fun x => x.2 = row

end Rows

/-! ## Operations -/

/-- A posted send or receive of a row of a tensor, for an expert. -/
structure P2POp where
  expert : Int
  row : Nat
  tensor : Nat
  peer : Nat
  deriving DecidableEq, Repr

section Ops

variable (tensors n : Nat) (old new : List Int) (rank : Nat)

/-- "Post sends". -/
def postSends : List P2POp :=
  let batch := getEpRanksWithExpertsBatch ((sendRows n old rank).map Prod.fst) n old new
  (sendRows n old rank).flatMap fun x =>
    match batch.lookup x.1 with
    | none => []
    | some ranks => (recvRanks ranks rank).flatMap fun dst =>
      (range tensors).map fun t => ⟨x.1, x.2, t, dst⟩

/-- "Post recvs". -/
def postRecvs : List P2POp :=
  let batch := getEpRanksWithExpertsBatch ((recvRows n old new rank).map Prod.fst) n old new
  (recvRows n old new rank).flatMap fun x =>
    match batch.lookup x.1 with
    | none => []
    | some ranks => (sendRank ranks rank).toList.flatMap fun src =>
      (range tensors).map fun t => ⟨x.1, x.2, t, src⟩

/-- The rows that are copied onto others, tensor by tensor. -/
def rowCopies (rows : List (Nat × Nat)) : List ((Nat × Nat) × (Nat × Nat)) :=
  rows.flatMap fun x => (range tensors).map fun t => ((x.1, t), (x.2, t))

/-- "Local moves into tmp buffers": the rows of the buffers, with the rows that they are copied
from. -/
def localMoves : List (Nat × Nat) := ((range n).filter fun row =>
      !isUnchanged n old new rank row && isReceivedLocally n old new rank row).flatMap fun dst =>
    (((sendRows n old rank).lookup (localId n new rank dst)).toList).map fun src => (dst, src)

/-- "Mask for rows to copy back from buffers". -/
def copyBack : List (Nat × Nat) :=
  ((range n).filter fun row => !isUnchanged n old new rank row &&
      (isReceivedLocally n old new rank row || isPrimary n old new rank row)).map fun row => (row, row)

/-- "Duplicate remote received rows to non-primary duplicate dsts". -/
def duplicateMoves : List (Nat × Nat) := ((range n).filter fun row =>
      (!isUnchanged n old new rank row && !isReceivedLocally n old new rank row) &&
        (!isPrimary n old new rank row && decide (localId n new rank row ≠ -1))).flatMap fun dst =>
    (((recvRows n old new rank).lookup (localId n new rank dst)).toList).map fun src => (dst, src)

end Ops

/-! ## Weights -/

/-- The weights of a rank: the value of a row in each tensor. -/
abbrev RankWeights (α : Type) := Nat × Nat → α

section Weights

variable {α : Type} (tensors n : Nat) (old new : List Int)

/-- `batch_isend_irecv`: the receives of `dst` from each rank get what this rank sends to `dst`, in
the order of the operations. The entry of the buffer, the rank and its entry. -/
def delivered (ranks : Nat) (sends recvs : Nat → List P2POp) (dst : Nat) :
    List ((Nat × Nat) × Nat × (Nat × Nat)) := (range ranks).flatMap fun src =>
    (((recvs dst).filter fun op => op.peer = src).zip ((sends src).filter fun op => op.peer = dst)).map
      fun x => ((x.1.row, x.1.tensor), src, (x.2.row, x.2.tensor))

/-- `move_to_buffer`: the buffers of the rank after it. -/
def moveToBuffer (ranks : Nat) (weights buffers : Nat → RankWeights α) (rank : Nat) : RankWeights α :=
  let moved := (rowCopies tensors (localMoves n old new rank)).foldl
    (fun b x => update b x.1 (weights rank x.2)) (buffers rank)
  (delivered ranks (postSends tensors n old new) (postRecvs tensors n old new) rank).foldl
    (fun b x => update b x.1 (weights x.2.1 x.2.2)) moved

/-- `move_from_buffer`: the weights of the rank after it. -/
def moveFromBuffer (weights buffer : RankWeights α) (rank : Nat) : RankWeights α :=
  let copied := (rowCopies tensors (copyBack n old new rank)).foldl
    (fun w x => update w x.1 (buffer x.2)) weights
  (rowCopies tensors (duplicateMoves n old new rank)).foldl (fun w x => update w x.1 (w x.2)) copied

/-- The weights after the exchange. -/
def rearrange (ranks : Nat) (weights buffers : Nat → RankWeights α) (rank : Nat) : RankWeights α :=
  moveFromBuffer tensors n old new (weights rank)
    (moveToBuffer tensors n old new ranks weights buffers rank) rank

end Weights

end MyOperator.Eplb
