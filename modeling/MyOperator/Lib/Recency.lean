import Mathlib

/-!
# Recency orders

The order in which a least-recently-used store keeps its keys, oldest first:
what using a key does to it, what using a list of keys does, and which keys stay
when the oldest ones leave until the rest has room.
-/

namespace MyOperator.Lib

open List

variable {K : Type*}

section Uses

variable [DecidableEq K]

/-- A use of `k`: it becomes the newest key. -/
def useKey (l : List K) (k : K) : List K := l.erase k ++ [k]

variable {l older mid : List K} {k x : K}

@[simp] theorem mem_useKey : x ∈ useKey l k ↔ x ∈ l ∨ x = k := by
  by_cases hx : x = k
  · simp [useKey, hx]
  · simp [useKey, hx, mem_erase_of_ne hx]

theorem nodup_useKey (h : l.Nodup) : (useKey l k).Nodup := by
  have hk : k ∉ l.erase k := h.not_mem_erase
  rw [useKey, ← concat_eq_append]
  exact (h.erase k).concat hk

theorem useKey_perm (h : k ∈ l) : (useKey l k).Perm l :=
  (perm_append_singleton k (l.erase k)).trans (perm_cons_erase h).symm

theorem useKey_append (h : k ∉ older) : useKey (older ++ mid) k = older ++ useKey mid k := by
  rw [useKey, useKey, erase_append_right _ h, append_assoc]

theorem erase_useKey (h : l.Nodup) : (useKey l k).erase k = l.erase k := by
  have hk : k ∉ l.erase k := h.not_mem_erase
  rw [useKey, erase_append_right _ hk]
  simp

/-- After the uses of the keys of `ks`, these are the newest, in the order of their last uses. -/
theorem foldl_useKey (h : l.Nodup) (ks : List K) :
    ks.foldl useKey l = l.filter (fun x => decide (x ∉ ks)) ++ ks.dedup := by
  induction ks generalizing l with
  | nil => simp
  | cons k ks ih =>
    have herase : (l.erase k).filter (fun x => decide (x ∉ ks)) =
        l.filter (fun x => decide (x ∉ k :: ks)) := by
      rw [h.erase_eq_filter, filter_filter]
      refine filter_congr fun x _ => ?_
      simp [bne, Bool.and_comm, Bool.beq_eq_decide_eq]
    rw [foldl_cons, ih (nodup_useKey h), useKey, filter_append, herase]
    by_cases hks : k ∈ ks
    · simp [hks]
    · simp [hks]

end Uses

/-- The keys that stay when the oldest ones leave until the rest fits into `room`. -/
def keepNewest (size : K → Nat) (room : Nat) : List K → List K
  | [] => []
  | k :: l => if ((k :: l).map size).sum ≤ room then k :: l else keepNewest size room l

variable {l : List K} {k x : K} {size size' : K → Nat} {room room' : Nat}

theorem keepNewest_of_le (h : (l.map size).sum ≤ room) : keepNewest size room l = l := by
  cases l with
  | nil => rfl
  | cons k l => exact if_pos h

theorem keepNewest_of_lt (h : room < ((k :: l).map size).sum) :
    keepNewest size room (k :: l) = keepNewest size room l := if_neg (Nat.not_le.mpr h)

theorem keepNewest_suffix : keepNewest size room l <:+ l := by
  induction l with
  | nil => exact suffix_rfl
  | cons k l ih =>
    unfold keepNewest
    split
    · exact suffix_rfl
    · exact ih.trans (suffix_cons k l)

theorem mem_of_mem_keepNewest (h : x ∈ keepNewest size room l) : x ∈ l := keepNewest_suffix.subset h

theorem keepNewest_congr (h : ∀ k ∈ l, size k = size' k) :
    keepNewest size room l = keepNewest size' room l := by
  induction l with
  | nil => rfl
  | cons k l ih =>
    have hmap : (k :: l).map size = (k :: l).map size' := map_congr_left h
    simp only [keepNewest, hmap, ih fun x hx => h x (mem_cons_of_mem k hx)]

theorem keepNewest_keepNewest (h : room' ≤ room) :
    keepNewest size room' (keepNewest size room l) = keepNewest size room' l := by
  induction l with
  | nil => rfl
  | cons k l ih =>
    by_cases hfit : ((k :: l).map size).sum ≤ room
    · rw [keepNewest_of_le hfit]
    · have hroom : room < ((k :: l).map size).sum := Nat.not_le.mp hfit
      rw [keepNewest_of_lt hroom, ih, keepNewest_of_lt (Nat.lt_of_le_of_lt h hroom)]

end MyOperator.Lib
