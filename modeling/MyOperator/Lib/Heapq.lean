import Mathlib

/-!
# Binary heaps in a list

The algorithms of a list-based priority queue for an arbitrary comparison. A sift
moves one element by swaps, so every operation permutes what is in the heap. That is
all that holds when elements change their order while they are in it, which is why
no operation assumes a heap.
-/

namespace MyOperator.Lib

open List

namespace Heapq

variable {α : Type*} (lt : α → α → Bool)

/-- The list with places `i` and `j` exchanged. -/
def swapAt (l : List α) (i j : Nat) : List α :=
  match l[i]?, l[j]? with
  | some a, some b => (l.set i b).set j a
  | _, _ => l

/-- Move the element at `pos` towards `startpos` while it is smaller than its parent. Each pass
lowers `pos`, so `pos` is enough fuel. -/
def siftdown (startpos : Nat) : Nat → Nat → List α → List α
  | 0, _, heap => heap
  | fuel + 1, pos, heap =>
    if pos ≤ startpos then heap
    else
      let parentpos := (pos - 1) / 2
      match heap[pos]?, heap[parentpos]? with
      | some newitem, some parent =>
        if lt newitem parent then siftdown startpos fuel parentpos (swapAt heap pos parentpos)
        else heap
      | _, _ => heap

/-- The smaller child of `pos`, the right one where they are equal. -/
def smallerChild (heap : List α) (pos : Nat) : Nat :=
  let childpos := 2 * pos + 1
  match heap[childpos]?, heap[childpos + 1]? with
  | some left, some right => if lt left right then childpos else childpos + 1
  | _, _ => childpos

/-- Move the element at `pos` to a leaf. Each pass raises `pos`, so the length is enough fuel. -/
def sinkToLeaf : Nat → Nat → List α → Nat × List α
  | 0, pos, heap => (pos, heap)
  | fuel + 1, pos, heap =>
    if 2 * pos + 1 < heap.length then
      let childpos := smallerChild lt heap pos
      sinkToLeaf fuel childpos (swapAt heap pos childpos)
    else (pos, heap)

/-- Sink the element at `pos` to a leaf and let it rise again. -/
def siftup (pos : Nat) (heap : List α) : List α :=
  let (leaf, heap) := sinkToLeaf lt heap.length pos heap
  siftdown lt pos leaf leaf heap

def heappush (heap : List α) (item : α) : List α :=
  siftdown lt 0 heap.length heap.length (heap ++ [item])

/-- The first element, and the heap without it: the last element takes its place. -/
def heappop : List α → Option (α × List α)
  | [] => none
  | item :: rest =>
    match rest.getLast? with
    | none => some (item, [])
    | some lastelt => some (item, siftup lt 0 (lastelt :: rest.dropLast))

def heapify (heap : List α) : List α :=
  (List.range (heap.length / 2)).reverse.foldl (fun heap pos => siftup lt pos heap) heap

/-- The elements in the order in which they are popped. -/
def popAll : Nat → List α → List α
  | 0, _ => []
  | fuel + 1, heap =>
    match heappop lt heap with
    | none => []
    | some (item, heap) => item :: popAll fuel heap

/-! ## Every operation permutes -/

variable {lt}

theorem swapAt_perm (l : List α) (i j : Nat) : (swapAt l i j).Perm l := by
  unfold swapAt
  split
  · rename_i a b hi hj
    obtain ⟨hi', rfl⟩ := List.getElem?_eq_some_iff.mp hi
    obtain ⟨hj', rfl⟩ := List.getElem?_eq_some_iff.mp hj
    exact set_set_perm hi' hj'
  · exact .refl l

theorem siftdown_perm (startpos fuel pos : Nat) (heap : List α) :
    (siftdown lt startpos fuel pos heap).Perm heap := by
  induction fuel generalizing pos heap with
  | zero => exact .refl heap
  | succ fuel ih =>
    unfold siftdown
    split
    · exact .refl heap
    · dsimp only
      split
      · split
        · exact (ih _ _).trans (swapAt_perm heap _ _)
        · exact .refl heap
      · exact .refl heap

theorem sinkToLeaf_perm (fuel pos : Nat) (heap : List α) :
    (sinkToLeaf lt fuel pos heap).2.Perm heap := by
  induction fuel generalizing pos heap with
  | zero => exact .refl heap
  | succ fuel ih =>
    unfold sinkToLeaf
    split
    · exact (ih _ _).trans (swapAt_perm heap _ _)
    · exact .refl heap

theorem siftup_perm (pos : Nat) (heap : List α) : (siftup lt pos heap).Perm heap :=
  (siftdown_perm _ _ _ _).trans (sinkToLeaf_perm _ _ _)

theorem heappush_perm (heap : List α) (item : α) : (heappush lt heap item).Perm (item :: heap) :=
  (siftdown_perm _ _ _ _).trans (perm_append_singleton item heap)

theorem heappop_perm {heap rest : List α} {item : α} (h : heappop lt heap = some (item, rest)) :
    heap.head? = some item ∧ heap.Perm (item :: rest) := by
  cases heap with
  | nil => cases h
  | cons a l =>
    unfold heappop at h
    rcases eq_nil_or_concat l with rfl | ⟨l, b, rfl⟩
    · cases h
      exact ⟨rfl, .refl _⟩
    · dsimp only at h
      rw [concat_eq_append, getLast?_concat] at h
      rw [dropLast_concat] at h
      cases h
      rw [concat_eq_append]
      exact ⟨rfl, ((perm_append_singleton b l).trans (siftup_perm 0 (b :: l)).symm).cons item⟩

theorem heappop_isSome {heap : List α} (h : heap ≠ []) : (heappop lt heap).isSome := by
  cases heap with
  | nil => exact absurd rfl h
  | cons a l =>
    unfold heappop
    dsimp only
    split <;> rfl

theorem heapify_perm (heap : List α) : (heapify lt heap).Perm heap := by
  have hfold : ∀ (ps : List Nat) (l : List α),
      (ps.foldl (fun heap pos => siftup lt pos heap) l).Perm l := by
    intro ps
    induction ps with
    | nil => exact fun l => .refl l
    | cons pos ps ih => exact fun l => (ih (siftup lt pos l)).trans (siftup_perm pos l)
  exact hfold _ heap

theorem popAll_perm {fuel : Nat} {heap : List α} (h : heap.length ≤ fuel) :
    (popAll lt fuel heap).Perm heap := by
  induction fuel generalizing heap with
  | zero =>
    rw [length_eq_zero_iff.mp (Nat.le_zero.mp h)]
    exact .refl _
  | succ fuel ih =>
    unfold popAll
    cases hpop : heappop lt heap with
    | none =>
      by_cases hnil : heap = []
      · rw [hnil]
      · have hsome : (heappop lt heap).isSome := heappop_isSome hnil
        rw [hpop] at hsome
        cases hsome
    | some p =>
      obtain ⟨item, rest⟩ := p
      obtain ⟨-, hperm⟩ := heappop_perm hpop
      have hlen := hperm.length_eq
      rw [length_cons] at hlen
      exact ((ih (by omega)).cons item).trans hperm.symm

end Heapq

end MyOperator.Lib
