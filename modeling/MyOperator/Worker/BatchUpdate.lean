import Mathlib

/-!
# The changes of a step

The parameters that requests bring into the persistent batch, and
`BatchUpdateBuilder`, which collects the rows removed, added and moved in a step
for the logits processors. A request's running list of output tokens is shared by
reference: it is modelled by its identity, and what the list holds by a heap.
-/

namespace MyOperator.Worker

open List

abbrev TokenId := Int

/-- The identity of a request's list of output tokens. -/
abbrev OutputRef := Nat

/-- What the lists of output tokens hold. -/
abbrev Outputs := OutputRef → List TokenId

inductive SamplingType
  | greedy
  | random
  | randomSeed
  deriving DecidableEq, Repr

/-- `SamplingParams`, the fields that the persistent batch and the logits processors
read. `minP` is the number that the single-precision array of the processor holds. -/
structure SamplingParams where
  samplingType : SamplingType := .greedy
  temperature : Rat := 0
  topP : Rat := 1
  topK : Int := 0
  frequencyPenalty : Rat := 0
  presencePenalty : Rat := 0
  repetitionPenalty : Rat := 1
  allowedTokenIds : Option (List Nat) := none
  badWordsTokenIds : Option (List (List TokenId)) := none
  minP : Rat := 0
  logitBias : Option (List (TokenId × Rat)) := none
  minTokens : Nat := 0
  allStopTokenIds : List TokenId := []
  thinkingTokenBudget : Option Int := none
  deriving DecidableEq

structure PoolingParams where
  requiresTokenIds : Bool := false
  deriving DecidableEq

/-- The rows of a prompt that is given as embeddings. -/
abbrev Embeds := List (List Rat)

structure LoRARequest where
  loraIntId : Nat
  deriving DecidableEq

/-- `CachedRequestState`, the fields that `InputBatch` reads; `G` are the groups of the
KV cache, a generator is its identity. -/
structure CachedRequestState (G : Type) where
  reqId : String
  promptTokenIds : Option (List TokenId) := none
  promptEmbeds : Option Embeds := none
  samplingParams : Option SamplingParams := none
  poolingParams : Option PoolingParams := none
  generator : Option Nat := none
  blockIds : G → List Nat
  numComputedTokens : Nat := 0
  outputTokenIds : OutputRef
  loraRequest : Option LoRARequest := none

inductive MoveDirectionality
  | unidirectional
  | swap
  deriving DecidableEq, Repr

/-- An entry of `BatchUpdate.added`. -/
structure AddedRequest where
  index : Nat
  params : SamplingParams
  promptTokenIds : Option (List TokenId)
  outputTokenIds : OutputRef
  deriving DecidableEq

/-- An entry of `BatchUpdate.moved`. -/
structure MovedRequest where
  src : Nat
  dst : Nat
  direction : MoveDirectionality
  deriving DecidableEq

structure BatchUpdate where
  batchSize : Nat
  removed : List Nat
  added : List AddedRequest
  moved : List MovedRequest
  deriving DecidableEq

/-- What the worker raises. -/
inductive BatchError
  | assertion
  | valueError
  | runtimeError
  | notImplemented
  deriving DecidableEq, Repr

def lengthFromPromptTokenIdsOrEmbeds (promptTokenIds : Option (List TokenId))
    (promptEmbeds : Option Embeds) : Except BatchError Nat :=
  match promptTokenIds, promptEmbeds with
  | none, none => .error .valueError
  | none, some embeds => .ok embeds.length
  | some ids, none => .ok ids.length
  | some ids, some embeds =>
    if embeds.length ≠ ids.length then .error .valueError else .ok ids.length

/-- `BatchUpdateBuilder`; `removedRaw` is the attribute `_removed`. -/
structure BatchUpdateBuilder where
  removedRaw : List Nat := []
  isRemovedSorted : Bool := false
  added : List AddedRequest := []
  moved : List MovedRequest := []
  batchChanged : Bool := false
  deriving DecidableEq

namespace BatchUpdateBuilder

/-- `_ensure_removed_sorted`: descending. -/
def ensureRemovedSorted (b : BatchUpdateBuilder) : BatchUpdateBuilder :=
  if b.isRemovedSorted then b
  else { b with removedRaw := b.removedRaw.insertionSort (· ≥ ·), isRemovedSorted := true }

def removedAppend (b : BatchUpdateBuilder) (index : Nat) : Except BatchError BatchUpdateBuilder :=
  if b.isRemovedSorted then .error .runtimeError
  else .ok { b with removedRaw := b.removedRaw ++ [index], batchChanged := true }

def hasRemoved (b : BatchUpdateBuilder) : Bool := !b.removedRaw.isEmpty

/-- `peek_removed`: the lowest removed index. -/
def peekRemoved (b : BatchUpdateBuilder) : Option Nat × BatchUpdateBuilder :=
  if b.hasRemoved then
    (b.ensureRemovedSorted.removedRaw.getLast?, b.ensureRemovedSorted)
  else (none, b)

/-- `pop_removed`: the lowest removed index is taken off. -/
def popRemoved (b : BatchUpdateBuilder) : Option Nat × BatchUpdateBuilder :=
  if b.hasRemoved then
    (b.ensureRemovedSorted.removedRaw.getLast?,
      { b.ensureRemovedSorted with removedRaw := b.ensureRemovedSorted.removedRaw.dropLast })
  else (none, b)

def reset (_ : BatchUpdateBuilder) : BatchUpdateBuilder := {}

def getAndReset (b : BatchUpdateBuilder) (batchSize : Nat) :
    Option BatchUpdate × BatchUpdateBuilder :=
  if b.removedRaw.isEmpty && b.moved.isEmpty && b.added.isEmpty then
    (none, { b with isRemovedSorted := false, batchChanged := false })
  else
    (some { batchSize := batchSize, removed := b.removedRaw, added := b.added, moved := b.moved },
      {})

variable {b b' : BatchUpdateBuilder} {i : Nat}

/-- The rows removed so far, as they are read off: sorted once the list has been read. -/
def SortedIfRead (b : BatchUpdateBuilder) : Prop :=
  b.isRemovedSorted = true → b.removedRaw.Pairwise (· ≥ ·)

theorem ensureRemovedSorted_removedRaw (h : b.SortedIfRead) :
    b.ensureRemovedSorted.removedRaw.Pairwise (· ≥ ·) ∧
      b.ensureRemovedSorted.removedRaw.Perm b.removedRaw := by
  rw [ensureRemovedSorted]
  split_ifs with hs
  · exact ⟨h hs, List.Perm.refl _⟩
  · exact ⟨pairwise_insertionSort _ _, perm_insertionSort _ _⟩

@[simp] theorem ensureRemovedSorted_added : b.ensureRemovedSorted.added = b.added := by
  rw [ensureRemovedSorted]
  split_ifs <;> rfl

@[simp] theorem ensureRemovedSorted_moved : b.ensureRemovedSorted.moved = b.moved := by
  rw [ensureRemovedSorted]
  split_ifs <;> rfl

@[simp] theorem ensureRemovedSorted_isRemovedSorted :
    b.ensureRemovedSorted.isRemovedSorted = true := by
  rw [ensureRemovedSorted]
  split_ifs with h
  · exact h
  · rfl

theorem le_of_getLast? {l : List Nat} (h : l.Pairwise (· ≥ ·)) (hi : l.getLast? = some i) :
    ∀ x ∈ l, i ≤ x := by
  intro x hx
  obtain ⟨l', rfl⟩ := getLast?_eq_some_iff.mp hi
  rcases mem_append.mp hx with hx | hx
  · exact (pairwise_append.mp h).2.2 x hx i mem_cons_self
  · rw [mem_singleton.mp hx]

theorem dropLast_perm_erase {l : List Nat} (hi : l.getLast? = some i) :
    l.dropLast.Perm (l.erase i) := by
  obtain ⟨l', rfl⟩ := getLast?_eq_some_iff.mp hi
  have h : (l' ++ [i]).Perm (i :: l') := perm_append_singleton i l'
  simpa using (h.erase i).symm

theorem popRemoved_some (h : b.SortedIfRead) (hp : b.popRemoved = (some i, b')) :
    i ∈ b.removedRaw ∧ (∀ x ∈ b.removedRaw, i ≤ x) ∧ b'.removedRaw.Perm (b.removedRaw.erase i) ∧
      b'.SortedIfRead ∧ b'.added = b.added ∧ b'.moved = b.moved := by
  obtain ⟨hsort, hperm⟩ := ensureRemovedSorted_removedRaw h
  rw [popRemoved] at hp
  split_ifs at hp with hhas
  · obtain ⟨hlast, rfl⟩ := Prod.mk.inj hp
    refine ⟨?_, ?_, ?_, ?_, ?_, ?_⟩
    · exact hperm.mem_iff.mp (mem_of_getLast? hlast)
    · intro x hx
      exact le_of_getLast? hsort hlast x (hperm.mem_iff.mpr hx)
    · exact (dropLast_perm_erase hlast).trans (hperm.erase i)
    · intro _
      exact hsort.sublist (dropLast_sublist _)
    · exact ensureRemovedSorted_added
    · exact ensureRemovedSorted_moved
  · cases hp

theorem popRemoved_none (hp : b.popRemoved = (none, b')) : b.removedRaw = [] ∧ b' = b := by
  rw [popRemoved] at hp
  split_ifs at hp with hhas
  · have hlast := (Prod.mk.inj hp).1
    rw [getLast?_eq_none_iff] at hlast
    rw [ensureRemovedSorted] at hlast
    rw [hasRemoved, Bool.not_eq_true', isEmpty_eq_false_iff] at hhas
    split_ifs at hlast
    · exact absurd hlast hhas
    · have hnil : b.removedRaw.insertionSort (· ≥ ·) = [] := hlast
      have hlen := length_insertionSort (· ≥ ·) b.removedRaw
      rw [hnil] at hlen
      exact absurd (length_eq_zero_iff.mp hlen.symm) hhas
  · refine ⟨?_, (Prod.mk.inj hp).2.symm⟩
    simpa [hasRemoved] using hhas

end BatchUpdateBuilder

end MyOperator.Worker
