import Mathlib

/-!
# Segments laid out one after the other

A list of items of which each brings a list of its own, laid out without gaps. An item's
segment begins where those of the items before it end; every place belongs to the
segment of exactly one item.
-/

namespace MyOperator.Lib

open List

variable {α β : Type*} {f : α → List β} {l : List α} {i j k k' t : Nat} {a b : α} {x : β}

/-- Where the segment of item `i` begins. -/
def segmentStart (f : α → List β) (l : List α) (i : Nat) : Nat := ((l.take i).flatMap f).length

theorem segmentStart_succ (h : l[i]? = some a) :
    segmentStart f l (i + 1) = segmentStart f l i + (f a).length := by
  unfold segmentStart
  rw [take_add_one, h]
  simp

theorem segmentStart_cons :
    segmentStart f (a :: l) (i + 1) = (f a).length + segmentStart f l i := by
  unfold segmentStart
  rw [take_succ_cons, flatMap_cons, length_append]

theorem segmentStart_mono (h : i ≤ j) : segmentStart f l i ≤ segmentStart f l j := by
  obtain ⟨t, ht⟩ : l.take i <+: l.take j := take_prefix_take_left h
  unfold segmentStart
  rw [← ht, flatMap_append, length_append]
  exact Nat.le_add_right _ _

theorem getElem?_flatMap_segment (h : l[i]? = some a) (hk : (f a)[k]? = some x) :
    (l.flatMap f)[segmentStart f l i + k]? = some x := by
  obtain ⟨hlt, ha⟩ := List.getElem?_eq_some_iff.mp h
  have hsplit : l.flatMap f = (l.take i).flatMap f ++ (f a ++ (l.drop (i + 1)).flatMap f) := by
    have hl : l = l.take i ++ a :: l.drop (i + 1) := by
      rw [← ha, ← drop_eq_getElem_cons hlt, take_append_drop]
    conv_lhs => rw [hl]
    rw [flatMap_append, flatMap_cons]
  unfold segmentStart
  rw [hsplit, getElem?_append_right (Nat.le_add_right _ _), Nat.add_sub_cancel_left,
    getElem?_append_left (List.getElem?_eq_some_iff.mp hk).1, hk]

theorem exists_segment (ht : t < (l.flatMap f).length) :
    ∃ i a k, l[i]? = some a ∧ k < (f a).length ∧ t = segmentStart f l i + k := by
  induction l generalizing t with
  | nil => exact absurd ht (Nat.not_lt_zero t)
  | cons a l ih =>
    rw [flatMap_cons, length_append] at ht
    rcases Nat.lt_or_ge t (f a).length with hlt | hge
    · exact ⟨0, a, t, rfl, hlt, (Nat.zero_add t).symm⟩
    · obtain ⟨i, b, k, hb, hk, hsum⟩ := @ih (t - (f a).length) (by omega)
      exact ⟨i + 1, b, k, hb, hk, by rw [segmentStart_cons]; omega⟩

theorem segment_unique (hi : l[i]? = some a) (hj : l[j]? = some b) (hk : k < (f a).length)
    (hk' : k' < (f b).length) (h : segmentStart f l i + k = segmentStart f l j + k') : i = j := by
  have hnexti := @segmentStart_succ _ _ f _ _ _ hi
  have hnextj := @segmentStart_succ _ _ f _ _ _ hj
  rcases Nat.lt_trichotomy i j with hlt | heq | hlt
  · have := @segmentStart_mono _ _ f l _ _ (show i + 1 ≤ j from hlt)
    omega
  · exact heq
  · have := @segmentStart_mono _ _ f l _ _ (show j + 1 ≤ i from hlt)
    omega

end MyOperator.Lib
