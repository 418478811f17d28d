import MyOperator.Lib.Dict

/-!
# Reordering dictionaries

What an ordered dictionary adds to `Dict`: moving a key to the end, dropping the oldest
entry, changing a value in place. The lemmas say what each operation does to the entries
up to their order.
-/

namespace MyOperator.Lib

open List

variable {K V : Type*} [DecidableEq K]

theorem assocGet?_append (k : K) (l l' : List (K × V)) :
    assocGet? k (l ++ l') = (assocGet? k l).or (assocGet? k l') := by
  induction l with
  | nil => rfl
  | cons e l ih =>
    by_cases he : e.1 = k
    · simp [assocGet?, he]
    · simp [assocGet?, he, ih]

theorem assocGet?_eq_none {k : K} {l : List (K × V)} :
    assocGet? k l = none ↔ k ∉ l.map Prod.fst := by
  induction l with
  | nil => simp [assocGet?]
  | cons e l ih =>
    by_cases he : e.1 = k
    · simp [assocGet?, he]
    · simp [assocGet?, he, Ne.symm he, ih]

theorem assocSet_of_not_mem {k : K} {v : V} {l : List (K × V)} (h : k ∉ l.map Prod.fst) :
    assocSet k v l = l ++ [(k, v)] := by
  induction l with
  | nil => rfl
  | cons e l ih =>
    rw [map_cons, mem_cons, not_or] at h
    rw [assocSet, if_neg (Ne.symm h.1), ih h.2, cons_append]

theorem assocGet?_perm {l l' : List (K × V)} (hl : (l.map Prod.fst).Nodup) (h : l.Perm l') (k : K) :
    assocGet? k l = assocGet? k l' := by
  have hl' : (l'.map Prod.fst).Nodup := (h.map _).nodup hl
  cases hget : assocGet? k l with
  | some v => exact ((mem_iff_assocGet? hl').mp (h.subset ((mem_iff_assocGet? hl).mpr hget))).symm
  | none =>
    rw [assocGet?_eq_none] at hget
    exact (assocGet?_eq_none.mpr fun hmem => hget ((h.map Prod.fst).symm.subset hmem)).symm

theorem perm_cons_filter {l : List (K × V)} (hl : (l.map Prod.fst).Nodup) {k : K} {v : V}
    (h : assocGet? k l = some v) : l.Perm ((k, v) :: l.filter fun e => e.1 ≠ k) := by
  induction l with
  | nil => cases h
  | cons e l ih =>
    rw [map_cons, nodup_cons] at hl
    by_cases he : e.1 = k
    · rw [assocGet?, if_pos he] at h
      have hrest : l.filter (fun e => e.1 ≠ k) = l := by
        refine filter_eq_self.mpr fun a ha => ?_
        have hne : a.1 ≠ k := fun hak => hl.1 (he ▸ hak ▸ mem_map_of_mem ha)
        simpa using hne
      rw [filter_cons_of_neg (by simpa using he), hrest]
      cases he
      cases h
      exact .refl _
    · rw [assocGet?, if_neg he] at h
      rw [filter_cons_of_pos (by simpa using he)]
      exact ((ih hl.2 h).cons e).trans (.swap _ _ _)

namespace Dict

variable (d : Dict K V) (k : K)

/-- `d.move_to_end(k)` of a present key. -/
def moveToEnd : Dict K V :=
  match d.get? k with
  | some v => (d.erase k).set k v
  | none => d

omit [DecidableEq K] in
/-- `d.popitem(last=False)`, the dictionary left. -/
def popFirst : Dict K V where
  entries := d.entries.tail
  nodupKeys := d.nodupKeys.sublist ((tail_sublist _).map _)

/-- The object stored under `k` changes. -/
def modify (f : V → V) : Dict K V :=
  match d.get? k with
  | some v => d.set k (f v)
  | none => d

variable {d k} {v : V}

theorem get?_eq_none_iff : d.get? k = none ↔ k ∉ d.entries.map Prod.fst := assocGet?_eq_none

theorem entries_set (h : d.get? k = none) : (d.set k v).entries = d.entries ++ [(k, v)] :=
  assocSet_of_not_mem (get?_eq_none_iff.mp h)

theorem entries_perm_erase (h : d.get? k = some v) :
    d.entries.Perm ((k, v) :: (d.erase k).entries) := perm_cons_filter d.nodupKeys h

theorem entries_erase_set (v : V) :
    ((d.erase k).set k v).entries = (d.erase k).entries ++ [(k, v)] :=
  entries_set (get?_erase_self d k)

theorem erase_set (v : V) : ((d.set k v).erase k).entries = (d.erase k).entries := by
  show (assocSet k v d.entries).filter (fun e => e.1 ≠ k) = d.entries.filter fun e => e.1 ≠ k
  generalize d.entries = l
  induction l with
  | nil => simp [assocSet]
  | cons e l ih =>
    by_cases he : e.1 = k
    · simp [assocSet, he]
    · rw [assocSet, if_neg he, filter_cons_of_pos (by simpa using he),
        filter_cons_of_pos (by simpa using he), ih]

theorem entries_set_perm (v : V) : (d.set k v).entries.Perm ((k, v) :: (d.erase k).entries) := by
  rw [← erase_set v]
  exact entries_perm_erase (get?_set_self d k v)

theorem entries_moveToEnd : (d.moveToEnd k).entries.Perm d.entries := by
  unfold moveToEnd
  cases h : d.get? k with
  | none => exact .refl _
  | some v =>
    show ((d.erase k).set k v).entries.Perm _
    rw [entries_erase_set]
    exact (perm_append_singleton _ _).trans (entries_perm_erase h).symm

theorem keySet_moveToEnd : (d.moveToEnd k).keySet = d.keySet := by
  exact toFinset_eq_of_perm _ _ (entries_moveToEnd.map _)

theorem entries_modify {f : V → V} (h : d.get? k = some v) :
    (d.modify k f).entries.Perm ((k, f v) :: (d.erase k).entries) := by
  unfold modify
  rw [h]
  exact entries_set_perm (f v)

theorem keySet_modify (f : V → V) : (d.modify k f).keySet = d.keySet := by
  unfold modify
  cases h : d.get? k with
  | none => rfl
  | some v =>
    show (d.set k (f v)).keySet = d.keySet
    rw [keySet_set, Finset.insert_eq_self, mem_keySet]
    exact ⟨v, h⟩

theorem length_modify (f : V → V) : (d.modify k f).entries.length = d.entries.length := by
  unfold modify
  cases h : d.get? k with
  | none => rfl
  | some v =>
    have hset := (entries_set_perm (d := d) (k := k) (f v)).length_eq
    exact hset.trans (entries_perm_erase h).length_eq.symm

theorem length_erase_le : (d.erase k).entries.length ≤ d.entries.length := length_filter_le _ _

end Dict

end MyOperator.Lib
