import MyOperator.Lib.Dict

/-!
# A table of rows and its index

A table whose rows are occupied or free, with the row of every occupant in a
dictionary. Occupants come into a free row or behind the last one, leave their
row free, move down into a free row, or exchange their rows. `Rows` is what all of
these keep: table and index are inverse to each other, and the free rows below the
bound are the ones on the list.
-/

namespace MyOperator.Lib

open Function List

variable {ι : Type*} [DecidableEq ι]

/-- The updated place has not got the value, so it was there before. -/
theorem of_update_ne {α β : Type*} [DecidableEq α] {f : α → β} {i r : α} {a b : β}
    (h : update f i a r = b) (hab : a ≠ b) : r ≠ i ∧ f r = b := by
  have hne : r ≠ i := by
    rintro rfl
    exact hab ((update_self ..).symm.trans h)
  exact ⟨hne, (update_of_ne hne ..).symm.trans h⟩

/-- The rows below `n` that `occ` leaves empty are on the list `free`; the index is
the inverse of `occ`. -/
structure Rows (occ : Nat → Option ι) (index : Dict ι Nat) (free : List Nat) (n : Nat) : Prop where
  inverse : ∀ r k, occ r = some k ↔ index.get? k = some r
  below : ∀ r k, occ r = some k → r < n
  free_iff : ∀ r, r < n → (occ r = none ↔ r ∈ free)
  nodup : free.Nodup

namespace Rows

variable {occ : Nat → Option ι} {index : Dict ι Nat} {free free' : List Nat} {n r i j : Nat}
  {k a b : ι}

section

variable (h : Rows occ index free n)
include h

theorem size (hfree : ∀ r ∈ free, r < n) : index.entries.length + free.length = n := by
  have hval : ∀ r, r ∈ index.values ↔ ∃ k, occ r = some k := by
    intro r
    rw [Dict.mem_values_iff]
    exact exists_congr fun k => (h.inverse r k).symm
  have hnodup : index.values.Nodup := by
    rw [Dict.values]
    refine Nodup.map_on ?_ (Nodup.of_map _ index.nodupKeys)
    intro e he e' he' heq
    have h1 := (h.inverse e.2 e.1).mpr (Dict.mem_entries_iff.mp he)
    have h2 := (h.inverse e'.2 e'.1).mpr (Dict.mem_entries_iff.mp he')
    rw [heq, h2] at h1
    exact Prod.ext (Option.some.inj h1).symm heq
  have hdisj : List.Disjoint index.values free := by
    intro r hr hf
    obtain ⟨k, hk⟩ := (hval r).mp hr
    have := (h.free_iff r (hfree r hf)).mpr hf
    rw [hk] at this
    cases this
  have hperm : (index.values ++ free).Perm (range n) := by
    refine (perm_ext_iff_of_nodup (hnodup.append h.nodup hdisj) nodup_range).mpr ?_
    intro r
    rw [mem_append, mem_range, hval]
    constructor
    · rintro (⟨k, hk⟩ | hf)
      · exact h.below r k hk
      · exact hfree r hf
    · intro hr
      cases ho : occ r with
      | none => exact .inr ((h.free_iff r hr).mp ho)
      | some k => exact .inl ⟨k, rfl⟩
  have hlen := hperm.length_eq
  simpa [Dict.values] using hlen

theorem congr_free (hp : free.Perm free') : Rows occ index free' n where
  inverse := h.inverse
  below := h.below
  free_iff := fun r hr => (h.free_iff r hr).trans hp.mem_iff
  nodup := hp.nodup_iff.mp h.nodup

theorem occ_inj (hi : occ i = some k) (hj : occ j = some k) : i = j := by
  have h1 := (h.inverse i k).mp hi
  rw [(h.inverse j k).mp hj] at h1
  exact (Option.some.inj h1).symm

theorem vacate (hr : occ r = some k) : Rows (update occ r none) (index.erase k) (r :: free) n where
  inverse := by
    intro r' k'
    rw [Dict.get?_erase, update_apply]
    by_cases hrr : r' = r
    · subst hrr
      rw [if_pos rfl]
      refine ⟨fun h => (by cases h), fun hk' => ?_⟩
      split_ifs at hk' with hkk
      have := (h.inverse r' k').mpr hk'
      rw [hr] at this
      exact absurd (Option.some.inj this).symm hkk
    · rw [if_neg hrr]
      by_cases hkk : k' = k
      · subst hkk
        rw [if_pos rfl]
        exact ⟨fun hk => absurd (h.occ_inj hk hr) hrr, fun hk => by cases hk⟩
      · rw [if_neg hkk]
        exact h.inverse r' k'
  below := by
    intro r' k' hk
    rw [update_apply] at hk
    split_ifs at hk
    exact h.below r' k' hk
  free_iff := by
    intro r' hr'
    rw [update_apply, mem_cons]
    by_cases hrr : r' = r
    · simp [hrr]
    · simp [hrr, h.free_iff r' hr']
  nodup := by
    refine nodup_cons.mpr ⟨fun hmem => ?_, h.nodup⟩
    have := (h.free_iff r (h.below r k hr)).mpr hmem
    rw [hr] at this
    cases this

end

/-- Writing an occupant that is new into a row keeps table and index inverse. -/
theorem inverse_set (hinv : ∀ r k, occ r = some k ↔ index.get? k = some r)
    (hr : occ r = none) (hk : index.get? k = none) (r' : Nat) (k' : ι) :
    update occ r (some k) r' = some k' ↔ (index.set k r).get? k' = some r' := by
  rw [Dict.get?_set, update_apply]
  by_cases hrr : r' = r
  · subst hrr
    rw [if_pos rfl]
    by_cases hkk : k' = k
    · simp [hkk]
    · rw [if_neg hkk, Option.some.injEq]
      constructor
      · intro he
        exact absurd he.symm hkk
      · intro he
        rw [(hinv r' k').mpr he] at hr
        cases hr
  · rw [if_neg hrr]
    by_cases hkk : k' = k
    · subst hkk
      rw [if_pos rfl, Option.some.injEq]
      constructor
      · intro he
        rw [(hinv r' k').mp he] at hk
        cases hk
      · intro he
        exact absurd he.symm hrr
    · rw [if_neg hkk]
      exact hinv r' k'

theorem fill (h : Rows occ index free n) (hr : r ∈ free) (hn : r < n) (hk : index.get? k = none) :
    Rows (update occ r (some k)) (index.set k r) (free.erase r) n where
  inverse := inverse_set h.inverse ((h.free_iff r hn).mpr hr) hk
  below := by
    intro r' k' hk'
    rw [update_apply] at hk'
    split_ifs at hk' with hrr
    · rw [hrr]
      exact hn
    · exact h.below r' k' hk'
  free_iff := by
    intro r' hr'
    rw [h.nodup.mem_erase_iff]
    by_cases hrr : r' = r
    · simp [hrr]
    · simp [hrr, h.free_iff r' hr']
  nodup := h.nodup.erase r

theorem extend (h : Rows occ index [] n) (hk : index.get? k = none) :
    Rows (update occ n (some k)) (index.set k n) [] (n + 1) where
  inverse := by
    refine inverse_set h.inverse ?_ hk
    cases ho : occ n with
    | none => rfl
    | some k => exact absurd (h.below n k ho) (Nat.lt_irrefl n)
  below := by
    intro r' k' hk'
    rw [update_apply] at hk'
    split_ifs at hk' with hrr
    · omega
    · exact Nat.lt_succ_of_lt (h.below r' k' hk')
  free_iff := by
    intro r' hr'
    by_cases hrr : r' = n
    · simp [hrr]
    · simp [hrr, h.free_iff r' (by omega)]
  nodup := nodup_nil

theorem shrink (h : Rows occ index free (n + 1)) (hn : n ∈ free) : Rows occ index free n where
  inverse := h.inverse
  below := by
    intro r k hk
    have hr := h.below r k hk
    rcases Nat.lt_succ_iff_lt_or_eq.mp hr with hr | hr
    · exact hr
    · subst hr
      rw [(h.free_iff r (Nat.lt_succ_self r)).mpr hn] at hk
      cases hk
  free_iff := fun r hr => h.free_iff r (Nat.lt_succ_of_lt hr)
  nodup := h.nodup

theorem slide (h : Rows occ index free (n + 1)) (hr : r ∈ free) (hrn : r < n)
    (hk : occ n = some k) :
    Rows (update (update occ r (some k)) n none) (index.set k r) (free.erase r) n := by
  have hne : r ≠ n := Nat.ne_of_lt hrn
  have herased : (index.erase k).get? k = none := by
    rw [Dict.get?_erase, if_pos rfl]
  have hlist : (n :: free).erase r = n :: free.erase r := erase_cons_tail (by simpa using hne.symm)
  have hfilled := (h.vacate hk).fill (mem_cons_of_mem n hr) (Nat.lt_succ_of_lt hrn) herased
  rw [hlist] at hfilled
  have hmoved := hfilled.shrink mem_cons_self
  rw [update_comm hne]
  exact { hmoved with
    inverse := fun r' k' => by
      rw [hmoved.inverse, Dict.get?_set, Dict.get?_set, Dict.get?_erase]
      split_ifs <;> rfl
    free_iff := fun r' hr' => by
      rw [hmoved.free_iff r' hr', mem_cons]
      exact or_iff_right (Nat.ne_of_lt hr')
    nodup := h.nodup.erase r }

theorem swap (h : Rows occ index free n) (hi : occ i = some a) (hj : occ j = some b) :
    Rows (update (update occ i (some b)) j (some a)) ((index.set a j).set b i) free n where
  inverse := by
    intro r' k'
    rw [Dict.get?_set, Dict.get?_set, update_apply]
    have hij : a = b ↔ i = j :=
      ⟨fun he => h.occ_inj (he ▸ hi) hj, fun he => Option.some.inj (hi.symm.trans (he ▸ hj))⟩
    have hinv := h.inverse r' k'
    have ha : occ r' = some a ↔ r' = i := ⟨fun he => h.occ_inj he hi, fun he => he ▸ hi⟩
    have hb : occ r' = some b ↔ r' = j := ⟨fun he => h.occ_inj he hj, fun he => he ▸ hj⟩
    -- an occupant other than the two keeps its row, so only these four rows and keys matter
    by_cases hka : k' = a
    · grind
    · by_cases hkb : k' = b
      · grind
      · grind
  below := by
    intro r' k' hk'
    rw [update_apply, update_apply] at hk'
    split_ifs at hk' with hrj hri
    · rw [hrj]
      exact h.below j b hj
    · rw [hri]
      exact h.below i a hi
    · exact h.below r' k' hk'
  free_iff := by
    intro r' hr'
    rw [update_apply, update_apply, ← h.free_iff r' hr']
    by_cases hrj : r' = j
    · simp [hrj, hj]
    · rw [if_neg hrj]
      by_cases hri : r' = i
      · simp [hri, hi]
      · rw [if_neg hri]
  nodup := h.nodup

end Rows

end MyOperator.Lib
