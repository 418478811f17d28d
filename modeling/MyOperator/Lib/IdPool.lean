import Mathlib

/-!
# Pools of ids

An allocator that hands out `0, 1, 2, …` and keeps returned ids for reuse. `Covers`
says that every id handed out so far is either free or out, and only once.
-/

namespace MyOperator.Lib

open List

/-- The ids below `n` are divided between `free` and `out`. -/
def Covers (free out : List Nat) (n : Nat) : Prop := (free ++ out).Perm (range n)

namespace Covers

variable {free free' out out' taken : List Nat} {n i : Nat}

theorem empty : Covers [] [] 0 := .refl _

theorem nodup (h : Covers free out n) : (free ++ out).Nodup := h.symm.nodup nodup_range

theorem mem_iff (h : Covers free out n) : i ∈ free ∨ i ∈ out ↔ i < n := by
  rw [← mem_append, Perm.mem_iff h, mem_range]

theorem congr (hfree : free'.Perm free) (hout : out'.Perm out) (h : Covers free out n) :
    Covers free' out' n := (hfree.append hout).trans h

theorem grow (k : Nat) (h : Covers free out n) : Covers free (List.range' n k ++ out) (n + k) := by
  unfold Covers at h ⊢
  rw [range_eq_range'] at h ⊢
  have happend : List.range' 0 (n + k) = List.range' 0 n ++ List.range' n k := by
    rw [← range'_append_1, Nat.zero_add]
  rw [happend]
  refine Perm.trans ?_ (h.append_right (List.range' n k))
  rw [append_assoc]
  exact perm_append_comm.append_left free

theorem take (hfree : free.Perm (taken ++ free')) (h : Covers free out n) :
    Covers free' (taken ++ out) n := by
  refine Perm.trans ?_ ((hfree.append_right out).symm.trans h)
  rw [← append_assoc]
  exact perm_append_comm.append_right out

theorem give (h : Covers free (i :: out) n) : Covers (free ++ [i]) out n := by
  refine Perm.trans ?_ h
  rw [append_assoc]
  exact .refl _

end Covers

end MyOperator.Lib
