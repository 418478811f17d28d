import MyOperator.Lib.Heapq
import MyOperator.Sched.Request

/-!
# Request queues

`FCFSRequestQueue` and `PriorityRequestQueue`. A queue holds references to request
objects: two entries are the same when they are the same object. The order of the
priority queue is the order of the objects as they are when two are compared.
-/

namespace MyOperator.Sched

open Lib

/-- A reference to a `Request` object. -/
abbrev Ref := Nat

inductive SchedulingPolicy
  | fcfs
  | priority
  deriving DecidableEq, Repr

/-- `Request.__lt__`. `idLt` compares `id(self)` with `id(other)`. -/
def Request.lt (a b : Request) (idLt : Bool) : Bool :=
  if a.priority ≠ b.priority then a.priority < b.priority
  else if a.arrivalTime ≠ b.arrivalTime then a.arrivalTime < b.arrivalTime
  else if a.requestId ≠ b.requestId then a.requestId < b.requestId
  else idLt

/-- A queue: the deque of `FCFSRequestQueue`, or the heap of `PriorityRequestQueue`. -/
abbrev RequestQueue := List Ref

namespace RequestQueue

variable (policy : SchedulingPolicy) (lt : Ref → Ref → Bool)

def addRequest (q : RequestQueue) (r : Ref) : RequestQueue :=
  match policy with
  | .fcfs => q ++ [r]
  | .priority => Heapq.heappush lt q r

def peekRequest (q : RequestQueue) : Except PyError Ref :=
  match q with
  | [] => .error (.IndexError (match policy with
      | .fcfs => "peek from an empty queue"
      | .priority => "peek from empty heap"))
  | r :: _ => .ok r

/-- `pop_request`, the queue left. -/
def popRequest (q : RequestQueue) : Except PyError RequestQueue :=
  match policy, q with
  | .fcfs, [] => .error (.IndexError "pop from an empty deque")
  | .fcfs, _ :: rest => .ok rest
  | .priority, q =>
    match Heapq.heappop lt q with
    | none => .error (.IndexError "pop from empty heap")
    | some (_, rest) => .ok rest

def prependRequest (q : RequestQueue) (r : Ref) : RequestQueue :=
  match policy with
  | .fcfs => r :: q
  | .priority => Heapq.heappush lt q r

def iter (q : RequestQueue) : List Ref :=
  match policy with
  | .fcfs => q
  | .priority => Heapq.popAll lt q.length q

/-- `prepend_requests`. `extendleft` reverses the order. -/
def prependRequests (q requests : RequestQueue) : RequestQueue :=
  (iter policy lt requests).foldl (fun q r => prependRequest policy lt q r) q

def removeRequests (q : RequestQueue) (requests : List Ref) : RequestQueue :=
  match policy with
  | .fcfs => q.filter (· ∉ requests)
  | .priority => Heapq.heapify lt (q.filter (· ∉ requests))

/-! ## What the operations do to the members -/

variable {policy lt} {q q' : RequestQueue} {r : Ref}

theorem addRequest_perm : (addRequest policy lt q r).Perm (r :: q) := by
  cases policy with
  | fcfs => exact List.perm_append_singleton r q
  | priority => exact Heapq.heappush_perm q r

theorem prependRequest_perm : (prependRequest policy lt q r).Perm (r :: q) := by
  cases policy with
  | fcfs => exact .refl _
  | priority => exact Heapq.heappush_perm q r

theorem popRequest_perm (hpeek : peekRequest policy q = .ok r)
    (hpop : popRequest policy lt q = .ok q') : q.Perm (r :: q') := by
  cases q with
  | nil => cases hpeek
  | cons a rest =>
    cases hpeek
    cases policy with
    | fcfs =>
      cases hpop
      exact .refl _
    | priority =>
      unfold popRequest at hpop
      dsimp only at hpop
      split at hpop
      · cases hpop
      · rename_i item left hheap
        cases hpop
        obtain ⟨hhead, hperm⟩ := Heapq.heappop_perm hheap
        cases hhead
        exact hperm

theorem popRequest_ok (hpeek : peekRequest policy q = .ok r) :
    ∃ q', popRequest policy lt q = .ok q' := by
  cases q with
  | nil => cases hpeek
  | cons a rest =>
    cases policy with
    | fcfs => exact ⟨rest, rfl⟩
    | priority =>
      unfold popRequest
      dsimp only
      cases hheap : Heapq.heappop lt (a :: rest) with
      | none =>
        have hsome : (Heapq.heappop lt (a :: rest)).isSome :=
          Heapq.heappop_isSome (List.cons_ne_nil a rest)
        rw [hheap] at hsome
        cases hsome
      | some p => exact ⟨p.2, rfl⟩

theorem iter_perm : (iter policy lt q).Perm q := by
  cases policy with
  | fcfs => exact .refl q
  | priority => exact Heapq.popAll_perm (Nat.le_refl _)

theorem prependRequests_perm {requests : RequestQueue} :
    (prependRequests policy lt q requests).Perm (requests ++ q) := by
  have hfold : ∀ (rs : List Ref) (q : RequestQueue),
      (rs.foldl (fun q r => prependRequest policy lt q r) q).Perm (rs ++ q) := by
    intro rs
    induction rs with
    | nil => exact fun q => .refl q
    | cons r rs ih =>
      exact fun q => (ih _).trans ((prependRequest_perm.append_left rs).trans List.perm_middle)
  exact (hfold _ q).trans (iter_perm.append_right q)

theorem removeRequests_perm {requests : List Ref} :
    (removeRequests policy lt q requests).Perm (q.filter (· ∉ requests)) := by
  cases policy with
  | fcfs => exact .refl _
  | priority => exact Heapq.heapify_perm _

end RequestQueue

/-- `remove_all`: for one item only its first occurrence goes. -/
def removeAll (l : List Ref) (itemsToRemove : List Ref) : List Ref :=
  match itemsToRemove with
  | [] => l
  | [item] => l.erase item
  | items => l.filter (· ∉ items)

theorem mem_of_mem_removeAll {l items : List Ref} {r : Ref} (h : r ∈ removeAll l items) : r ∈ l := by
  unfold removeAll at h
  split at h
  · exact h
  · exact List.mem_of_mem_erase h
  · exact List.mem_of_mem_filter h

theorem removeAll_eq_filter {l items : List Ref} (h : l.Nodup) :
    removeAll l items = l.filter (· ∉ items) := by
  unfold removeAll
  split
  · simp
  · rw [h.erase_eq_filter]
    exact List.filter_congr fun a _ => by grind
  · rfl

end MyOperator.Sched
