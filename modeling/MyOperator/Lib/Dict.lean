import Mathlib

/-!
# Insertion-ordered dictionaries

A dictionary as a list of entries with distinct keys, in the order of first
insertion: assigning to a present key keeps its place, a popped and reinserted
key moves to the end. Lookups determine everything except that order, so the
lemmas say what each operation does to `get?`, and `sumBy` what it does to a sum
over the values.
-/

namespace MyOperator.Lib

open List

variable {K V : Type*} [DecidableEq K]

/-- Assignment on the entries. -/
def assocSet (k : K) (v : V) : List (K × V) → List (K × V)
  | [] => [(k, v)]
  | e :: l => if e.1 = k then (k, v) :: l else e :: assocSet k v l

/-- Lookup on the entries. -/
def assocGet? (k : K) : List (K × V) → Option V
  | [] => none
  | e :: l => if e.1 = k then some e.2 else assocGet? k l

theorem map_fst_assocSet (k : K) (v : V) (l : List (K × V)) :
    (assocSet k v l).map Prod.fst =
      if k ∈ l.map Prod.fst then l.map Prod.fst else l.map Prod.fst ++ [k] := by
  induction l with
  | nil => simp [assocSet]
  | cons e l ih =>
    by_cases he : e.1 = k
    · simp [assocSet, he]
    · simp only [assocSet, he, if_false, map_cons, ih, mem_cons, Ne.symm he, false_or]
      split <;> simp

theorem assocGet?_assocSet (k k' : K) (v : V) (l : List (K × V)) :
    assocGet? k' (assocSet k v l) = if k' = k then some v else assocGet? k' l := by
  induction l with
  | nil => simp only [assocSet, assocGet?, eq_comm]
  | cons e l ih =>
    by_cases he : e.1 = k
    · by_cases h : k' = k
      · simp [assocSet, assocGet?, he, h]
      · simp [assocSet, assocGet?, he, h, Ne.symm h]
    · simp only [assocSet, he, if_false, assocGet?, ih]
      by_cases h : k' = k
      · rw [if_neg (h ▸ he), if_pos h, if_pos h]
      · rw [if_neg h, if_neg h]

theorem assocGet?_filter (k k' : K) (l : List (K × V)) :
    assocGet? k' (l.filter fun e => e.1 ≠ k) = if k' = k then none else assocGet? k' l := by
  induction l with
  | nil => simp [assocGet?]
  | cons e l ih =>
    by_cases he : e.1 = k
    · rw [filter_cons_of_neg (by simpa using he), ih]
      by_cases h : k' = k
      · simp [h]
      · simp [h, assocGet?, he, Ne.symm h]
    · rw [filter_cons_of_pos (by simpa using he)]
      simp only [assocGet?, ih]
      by_cases h : k' = k
      · rw [if_neg (h ▸ he), if_pos h, if_pos h]
      · rw [if_neg h, if_neg h]

theorem mem_iff_assocGet? {l : List (K × V)} (hl : (l.map Prod.fst).Nodup) {k : K} {v : V} :
    (k, v) ∈ l ↔ assocGet? k l = some v := by
  induction l with
  | nil => simp [assocGet?]
  | cons e l ih =>
    simp only [map_cons, nodup_cons] at hl
    by_cases he : e.1 = k
    · have hk : (k, v) ∉ l := fun h => hl.1 (he ▸ mem_map_of_mem h)
      simp only [mem_cons, hk, or_false, assocGet?, he, if_true, Option.some.injEq]
      constructor
      · rintro rfl
        rfl
      · rintro rfl
        exact Prod.ext he.symm rfl
    · have hne : (k, v) ≠ e := fun h => he (h ▸ rfl)
      simp [assocGet?, he, ih hl.2, hne]

/-- A dictionary: entries in insertion order, no key twice. -/
structure Dict (K V : Type*) where
  entries : List (K × V)
  nodupKeys : (entries.map Prod.fst).Nodup
  deriving DecidableEq

namespace Dict

/-- `{}`. -/
def empty : Dict K V := ⟨[], nodup_nil⟩

/-- `d.get(k)`. -/
def get? (d : Dict K V) (k : K) : Option V := assocGet? k d.entries

/-- `d[k] = v`. -/
def set (d : Dict K V) (k : K) (v : V) : Dict K V where
  entries := assocSet k v d.entries
  nodupKeys := by
    rw [map_fst_assocSet]
    split
    · exact d.nodupKeys
    · rw [← concat_eq_append]
      exact d.nodupKeys.concat ‹_›

/-- `d.pop(k, None)`, the dictionary left. -/
def erase (d : Dict K V) (k : K) : Dict K V where
  entries := d.entries.filter fun e => e.1 ≠ k
  nodupKeys := d.nodupKeys.sublist (filter_sublist.map _)

def values (d : Dict K V) : List V := d.entries.map Prod.snd

/-- `k in d`. -/
def contains (d : Dict K V) (k : K) : Bool := (d.get? k).isSome

variable (d : Dict K V) (k k' : K) (v : V)

theorem get?_set : (d.set k v).get? k' = if k' = k then some v else d.get? k' :=
  assocGet?_assocSet k k' v d.entries

theorem get?_erase : (d.erase k).get? k' = if k' = k then none else d.get? k' :=
  assocGet?_filter k k' d.entries

@[simp] theorem get?_set_self : (d.set k v).get? k = some v := by rw [get?_set, if_pos rfl]

@[simp] theorem get?_erase_self : (d.erase k).get? k = none := by rw [get?_erase, if_pos rfl]

theorem get?_set_of_ne {k k' : K} (h : k' ≠ k) : (d.set k v).get? k' = d.get? k' := by
  rw [get?_set, if_neg h]

theorem get?_erase_of_ne {k k' : K} (h : k' ≠ k) : (d.erase k).get? k' = d.get? k' := by
  rw [get?_erase, if_neg h]

theorem mem_entries_iff {d : Dict K V} {k : K} {v : V} :
    (k, v) ∈ d.entries ↔ d.get? k = some v := mem_iff_assocGet? d.nodupKeys

theorem mem_values_iff {d : Dict K V} {v : V} : v ∈ d.values ↔ ∃ k, d.get? k = some v := by
  simp only [values, mem_map, Prod.exists, exists_eq_right, mem_entries_iff]

/-- The keys as a set. -/
def keySet : Finset K := (d.entries.map Prod.fst).toFinset

variable {d k k' v} in
theorem mem_keySet : k ∈ d.keySet ↔ ∃ v, d.get? k = some v := by
  simp only [keySet, mem_toFinset, mem_map, Prod.exists, exists_and_right,
    exists_eq_right, mem_entries_iff]

theorem not_mem_keySet {d : Dict K V} {k : K} : k ∉ d.keySet ↔ d.get? k = none := by
  rw [mem_keySet, ← Option.isSome_iff_exists, Bool.not_eq_true, Option.isSome_eq_false_iff,
    Option.isNone_iff_eq_none]

theorem keySet_set : (d.set k v).keySet = insert k d.keySet := by
  ext k'
  rw [Finset.mem_insert, mem_keySet, mem_keySet, get?_set]
  by_cases h : k' = k <;> simp [h]

theorem keySet_erase : (d.erase k).keySet = d.keySet.erase k := by
  ext k'
  rw [Finset.mem_erase, mem_keySet, mem_keySet, get?_erase]
  by_cases h : k' = k <;> simp [h]

/-- The sum of `f` over the values. -/
def sumBy (f : V → Nat) : Nat := (d.entries.map fun e => f e.2).sum

omit [DecidableEq K] in
/-- `f` at a key, 0 when it is absent. -/
def valueAt (f : V → Nat) : Nat := (d.get? k).elim 0 f

theorem sumBy_set (f : V → Nat) : (d.set k v).sumBy f + d.valueAt k f = d.sumBy f + f v := by
  obtain ⟨l, hl⟩ := d
  show ((assocSet k v l).map fun e => f e.2).sum + (assocGet? k l).elim 0 f =
    (l.map fun e => f e.2).sum + f v
  clear hl
  induction l with
  | nil => simp [assocSet, assocGet?]
  | cons e l ih =>
    by_cases he : e.1 = k
    · simp only [assocSet, assocGet?, he, if_true, map_cons, sum_cons, Option.elim_some]
      omega
    · simp only [assocSet, assocGet?, he, if_false, map_cons, sum_cons]
      omega

theorem sumBy_erase (f : V → Nat) : (d.erase k).sumBy f + d.valueAt k f = d.sumBy f := by
  obtain ⟨l, hl⟩ := d
  show ((l.filter fun e => e.1 ≠ k).map fun e => f e.2).sum + (assocGet? k l).elim 0 f =
    (l.map fun e => f e.2).sum
  induction l with
  | nil => simp [assocGet?]
  | cons e l ih =>
    simp only [map_cons, nodup_cons] at hl
    have ih := ih hl.2
    by_cases he : e.1 = k
    · have hk : assocGet? k l = none := by
        cases h : assocGet? k l with
        | none => rfl
        | some w =>
          exact absurd (mem_map_of_mem ((mem_iff_assocGet? hl.2).mpr h)) (he ▸ hl.1)
      rw [filter_cons_of_neg (by simpa using he)]
      rw [hk] at ih
      simp only [assocGet?, he, if_true, map_cons, sum_cons, Option.elim_some]
      simp only [Option.elim_none] at ih
      omega
    · rw [filter_cons_of_pos (by simpa using he)]
      simp only [assocGet?, he, if_false, map_cons, sum_cons]
      omega

theorem valueAt_le_sumBy (f : V → Nat) : d.valueAt k f ≤ d.sumBy f := by
  have := d.sumBy_erase k f
  omega

omit [DecidableEq K] in
theorem sumBy_le_length {d : Dict K V} {f : V → Nat} (h : ∀ e ∈ d.entries, f e.2 ≤ 1) :
    d.sumBy f ≤ d.entries.length := by
  obtain ⟨l, hl⟩ := d
  show (l.map fun e => f e.2).sum ≤ l.length
  replace h : ∀ e ∈ l, f e.2 ≤ 1 := h
  clear hl
  induction l with
  | nil => exact Nat.le_refl 0
  | cons e l ih =>
    have hfirst := h e mem_cons_self
    have hrest := ih fun e he => h e (mem_cons_of_mem _ he)
    rw [map_cons, sum_cons, length_cons]
    omega

theorem eq_one_of_sumBy {d : Dict K V} {f : V → Nat} (h : ∀ e ∈ d.entries, f e.2 ≤ 1)
    (hsum : d.sumBy f = d.entries.length) {k : K} {v : V} (hk : d.get? k = some v) : f v = 1 := by
  have hone : f v ≤ 1 := h _ (mem_entries_iff.mpr hk)
  have herase := d.sumBy_erase k f
  have hle : (d.erase k).sumBy f ≤ (d.erase k).entries.length :=
    sumBy_le_length fun e he => h e (mem_of_mem_filter he)
  have hlength : (d.erase k).entries.length < d.entries.length :=
    length_filter_lt_length_iff_exists.mpr ⟨_, mem_entries_iff.mpr hk, by simp⟩
  rw [valueAt, hk, Option.elim_some] at herase
  omega

/-- The sum of `f` over the entries. -/
def total (f : K → V → Int) : Int := (d.entries.map fun e => f e.1 e.2).sum

theorem total_set_new (f : K → V → Int) {d : Dict K V} {k : K} (h : d.get? k = none) :
    (d.set k v).total f = d.total f + f k v := by
  obtain ⟨l, hl⟩ := d
  show ((assocSet k v l).map fun e => f e.1 e.2).sum = (l.map fun e => f e.1 e.2).sum + f k v
  replace h : assocGet? k l = none := h
  clear hl
  induction l with
  | nil => simp [assocSet]
  | cons e l ih =>
    unfold assocGet? at h
    split at h
    · cases h
    · rename_i hne
      unfold assocSet
      rw [if_neg hne, map_cons, map_cons, sum_cons, sum_cons, ih h, Int.add_assoc]

theorem total_erase (f : K → V → Int) {d : Dict K V} {k : K} {v : V} (h : d.get? k = some v) :
    (d.erase k).total f + f k v = d.total f := by
  obtain ⟨l, hl⟩ := d
  show ((l.filter fun e => e.1 ≠ k).map fun e => f e.1 e.2).sum + f k v =
    (l.map fun e => f e.1 e.2).sum
  replace h : assocGet? k l = some v := h
  induction l with
  | nil => cases h
  | cons e l ih =>
    obtain ⟨hnot, hnodup⟩ := nodup_cons.mp hl
    rw [map_cons, sum_cons]
    unfold assocGet? at h
    split at h
    · rename_i hkey
      cases h
      have hrest : l.filter (fun e => e.1 ≠ k) = l := by
        refine filter_eq_self.mpr fun a ha => decide_eq_true fun hak => hnot ?_
        rw [hkey, ← hak]
        exact mem_map_of_mem ha
      rw [filter_cons_of_neg (by simpa using hkey), hrest, ← hkey, Int.add_comm]
    · rename_i hne
      rw [filter_cons_of_pos (by simpa using hne), map_cons, sum_cons,
        Int.add_assoc, ih hnodup h]

theorem total_congr {f g : K → V → Int} {d : Dict K V}
    (h : ∀ k v, d.get? k = some v → f k v = g k v) : d.total f = d.total g := by
  refine congrArg List.sum (map_congr_left fun e he => h e.1 e.2 ?_)
  exact mem_entries_iff.mp he

theorem erase_of_get?_eq_none {d : Dict K V} {k : K} (h : d.get? k = none) : d.erase k = d := by
  obtain ⟨l, hl⟩ := d
  simp only [erase, mk.injEq]
  refine filter_eq_self.mpr fun e he => ?_
  have hne : e.1 ≠ k := by
    rintro rfl
    rw [get?, (mem_iff_assocGet? hl).mp he] at h
    cases h
  simpa using hne

/-- The values are replaced, the keys keep their places. -/
def mapValues {W : Type*} (f : V → W) (d : Dict K V) : Dict K W where
  entries := d.entries.map fun e => (e.1, f e.2)
  nodupKeys := by
    rw [map_map]
    exact d.nodupKeys

theorem get?_mapValues {W : Type*} (f : V → W) (d : Dict K V) (k : K) :
    (d.mapValues f).get? k = (d.get? k).map f := by
  obtain ⟨l, hl⟩ := d
  show assocGet? k (l.map fun e => (e.1, f e.2)) = (assocGet? k l).map f
  clear hl
  induction l with
  | nil => rfl
  | cons e l ih =>
    rw [map_cons, assocGet?, assocGet?, ih]
    split_ifs <;> rfl

theorem get?_foldl_erase (l : List K) (d : Dict K V) (k : K) :
    (l.foldl erase d).get? k = if k ∈ l then none else d.get? k := by
  induction l generalizing d with
  | nil => simp
  | cons a l ih =>
    rw [foldl_cons, ih, get?_erase]
    by_cases hl : k ∈ l
    · simp [hl]
    · by_cases ha : k = a
      · simp [ha]
      · simp [hl, ha]

end Dict

end MyOperator.Lib
