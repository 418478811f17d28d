import MyOperator.Lib.Heapq

/-!
# The order of a binary heap

The operations of a heap keep it ordered by a key that the comparison respects. A key
may leave elements undecided, the comparison then decides them as it likes. Both sifts
have an invariant of their own: all pairs of parent and child are in order but those of
the element that moves, and its children stand above its parent.
-/

namespace MyOperator.Lib

open List

namespace Heapq

/-- The comparison decides by the key, and by something else between equal keys. -/
structure Respects {α κ : Type*} [Preorder κ] (lt : α → α → Bool) (key : α → κ) : Prop where
  of_true : ∀ a b, lt a b = true → key a ≤ key b
  of_false : ∀ a b, lt a b = false → key b ≤ key a

def parent (i : Nat) : Nat := (i - 1) / 2

/-- What stands at place `p` is not above what stands at place `c`. -/
def InOrder {α κ : Type*} [Preorder κ] (key : α → κ) (l : List α) (p c : Nat) : Prop :=
  ∀ a b, l[p]? = some a → l[c]? = some b → key a ≤ key b

/-- Every parent from place `start` on is in order with its children. -/
def HeapFrom {α κ : Type*} [Preorder κ] (key : α → κ) (l : List α) (start : Nat) : Prop :=
  ∀ c, 0 < c → start ≤ parent c → InOrder key l (parent c) c

/-- A heap. -/
abbrev IsHeap {α κ : Type*} [Preorder κ] (key : α → κ) (l : List α) : Prop := HeapFrom key l 0

/-- The place `pos` is in the subtree of `start`. -/
inductive Under (start : Nat) : Nat → Prop
  | root : Under start start
  | child {pos} : 0 < pos → Under start (parent pos) → Under start pos

theorem parent_lt {i : Nat} (h : 0 < i) : parent i < i := by
  unfold parent
  omega

theorem Under.le {start pos : Nat} (h : Under start pos) : start ≤ pos := by
  induction h with
  | root => exact Nat.le_refl _
  | child hpos _ ih => exact Nat.le_trans ih (Nat.le_of_lt (parent_lt hpos))

theorem Under.up {start pos : Nat} (h : Under start pos) (hlt : start < pos) :
    Under start (parent pos) := by
  cases h with
  | root => exact absurd hlt (Nat.lt_irrefl _)
  | child _ h => exact h

theorem under_zero (pos : Nat) : Under 0 pos := by
  induction pos using Nat.strongRecOn with
  | _ pos ih =>
    cases pos with
    | zero => exact .root
    | succ n => exact .child (Nat.succ_pos n) (ih _ (parent_lt (Nat.succ_pos n)))

variable {α κ : Type*} [Preorder κ] {lt : α → α → Bool} {key : α → κ} {l : List α}
  {start pos i j p c : Nat}

theorem inOrder_of_length_le (h : l.length ≤ c) : InOrder key l p c := by
  intro a b _ hb
  rw [getElem?_eq_none h] at hb
  cases hb

theorem InOrder.trans (h : InOrder key l i j) (h' : InOrder key l j c) (hj : j < l.length) :
    InOrder key l i c := fun a b ha hb =>
  le_trans (h a l[j] ha (getElem?_eq_getElem hj)) (h' l[j] b (getElem?_eq_getElem hj) hb)

theorem IsHeap.root_le (h : IsHeap key l) {a b : α} (ha : l.head? = some a) (hb : b ∈ l) :
    key a ≤ key b := by
  have hall : ∀ i, InOrder key l 0 i := by
    intro i
    induction i using Nat.strongRecOn with
    | _ i ih =>
      rcases Nat.eq_zero_or_pos i with rfl | hi
      · intro x y hx hy
        rw [hx] at hy
        cases hy
        exact le_refl _
      · by_cases hlen : l.length ≤ i
        · exact inOrder_of_length_le hlen
        · have hp := parent_lt hi
          exact (ih _ hp).trans (h i hi (Nat.zero_le _)) (by omega)
  obtain ⟨i, hi⟩ := mem_iff_getElem?.mp hb
  exact hall i a b (by rw [← head?_eq_getElem?, ha]) hi

theorem HeapFrom.congr {key' : α → κ} (h : HeapFrom key l start)
    (hkey : ∀ a ∈ l, key' a = key a) : HeapFrom key' l start := by
  intro c hc hstart a b ha hb
  rw [hkey a (mem_of_getElem? ha), hkey b (mem_of_getElem? hb)]
  exact h c hc hstart a b ha hb

/-! ## Exchanging two places -/

/-- The place whose element comes to place `k`. -/
def moved (i j k : Nat) : Nat := if k = i then j else if k = j then i else k

theorem moved_of_ne {k : Nat} (hi : k ≠ i) (hj : k ≠ j) : moved i j k = k := by
  rw [moved, if_neg hi, if_neg hj]

theorem moved_left : moved i j i = j := if_pos rfl

theorem moved_right : moved i j j = i := by
  unfold moved
  split
  · assumption
  · exact if_pos rfl

theorem getElem?_swapAt (hi : i < l.length) (hj : j < l.length) (k : Nat) :
    (swapAt l i j)[k]? = l[moved i j k]? := by
  unfold swapAt moved
  rw [getElem?_eq_getElem hi, getElem?_eq_getElem hj]
  by_cases hkj : k = j
  · subst hkj
    rw [getElem?_set_self (by rw [length_set]; exact hj)]
    split
    · rename_i hki
      subst hki
      rw [getElem?_eq_getElem hi]
    · rw [if_pos rfl, getElem?_eq_getElem hi]
  · rw [getElem?_set_ne (Ne.symm hkj)]
    by_cases hki : k = i
    · subst hki
      rw [getElem?_set_self hi, if_pos rfl, getElem?_eq_getElem hj]
    · rw [getElem?_set_ne (Ne.symm hki), if_neg hki, if_neg hkj]

theorem inOrder_swapAt (hi : i < l.length) (hj : j < l.length) :
    InOrder key (swapAt l i j) p c ↔ InOrder key l (moved i j p) (moved i j c) := by
  unfold InOrder
  rw [getElem?_swapAt hi hj, getElem?_swapAt hi hj]

/-! ## Rising -/

/-- All is in order but the element at `pos`, which may belong above its parent. -/
structure Rising (key : α → κ) (l : List α) (start pos : Nat) : Prop where
  under : Under start pos
  except : ∀ c, 0 < c → start ≤ parent c → c ≠ pos → InOrder key l (parent c) c
  bridge : start < pos → ∀ c, 0 < c → parent c = pos → InOrder key l (parent pos) c

theorem Rising.done (h : Rising key l start pos)
    (hpos : start < pos → InOrder key l (parent pos) pos) : HeapFrom key l start := by
  intro c hc hstart
  by_cases hcp : c = pos
  · subst hcp
    exact hpos (Nat.lt_of_le_of_lt hstart (parent_lt hc))
  · exact h.except c hc hstart hcp

theorem Rising.swap (h : Rising key l start pos) (hlt : start < pos) (hlen : pos < l.length)
    (hle : InOrder key l pos (parent pos)) :
    Rising key (swapAt l pos (parent pos)) start (parent pos) := by
  have hpos : 0 < pos := by omega
  have hq : parent pos < pos := parent_lt hpos
  have hqlen : parent pos < l.length := by omega
  have hup : Under start (parent pos) := h.under.up hlt
  refine ⟨hup, ?_, ?_⟩
  · intro c hc hstart hcq
    rw [inOrder_swapAt hlen hqlen]
    by_cases hcp : c = pos
    · subst hcp
      rw [moved_right, moved_left]
      exact hle
    · rw [moved_of_ne hcp hcq]
      by_cases hpp : parent c = pos
      · rw [hpp, moved_left]
        exact h.bridge hlt c hc hpp
      · have hold := h.except c hc hstart hcp
        by_cases hpq : parent c = parent pos
        · rw [hpq] at hold ⊢
          rw [moved_right]
          exact hle.trans hold hqlen
        · rw [moved_of_ne hpp hpq]
          exact hold
  · intro hltq c hc hcq
    have hq0 : 0 < parent pos := by omega
    have hqq := parent_lt hq0
    have habove : InOrder key l (parent (parent pos)) (parent pos) :=
      h.except _ hq0 (hup.up hltq).le (by omega)
    rw [inOrder_swapAt hlen hqlen, moved_of_ne (by omega) (by omega)]
    by_cases hcp : c = pos
    · subst hcp
      rw [moved_left]
      exact habove
    · have hcc : c ≠ parent pos := by
        have := parent_lt hc
        omega
      rw [moved_of_ne hcp hcc]
      have hold := h.except c hc (by rw [hcq]; exact hup.le) hcp
      rw [hcq] at hold
      exact habove.trans hold hqlen

theorem siftdown_heapFrom (hkey : Respects lt key) {fuel : Nat} (hfuel : pos ≤ fuel)
    (h : Rising key l start pos) : HeapFrom key (siftdown lt start fuel pos l) start := by
  induction fuel generalizing pos l with
  | zero => exact h.done fun hlt => absurd hlt (by omega)
  | succ fuel ih =>
    unfold siftdown
    split
    · exact h.done fun hlt => absurd hlt (by omega)
    · have hlt : start < pos := by omega
      have hq := parent_lt (show 0 < pos by omega)
      dsimp only
      split
      · rename_i newitem par hnew hpar
        have hlen : pos < l.length := (List.getElem?_eq_some_iff.mp hnew).1
        split
        · rename_i hless
          refine ih (by unfold parent at hq; omega) (h.swap hlt hlen ?_)
          intro a b ha hb
          rw [hnew] at ha
          rw [show parent pos = (pos - 1) / 2 from rfl, hpar] at hb
          cases ha
          cases hb
          exact hkey.of_true _ _ hless
        · rename_i hless
          refine h.done fun _ a b ha hb => ?_
          rw [show parent pos = (pos - 1) / 2 from rfl, hpar] at ha
          rw [hnew] at hb
          cases ha
          cases hb
          exact hkey.of_false _ _ (Bool.eq_false_iff.mpr hless)
      · rename_i hnone
        exact h.done fun _ a b ha hb => (hnone b a hb ha).elim

/-! ## Sinking -/

/-- All is in order but the element at `pos`, which may belong anywhere in its subtree or above
it. -/
structure Sinking (key : α → κ) (l : List α) (start pos : Nat) : Prop where
  under : Under start pos
  except : ∀ c, 0 < c → start ≤ parent c → c ≠ pos → parent c ≠ pos → InOrder key l (parent c) c
  bridge : start < pos → ∀ c, 0 < c → parent c = pos → InOrder key l (parent pos) c

theorem Sinking.atLeaf (h : Sinking key l start pos) (hleaf : l.length ≤ 2 * pos + 1) :
    Rising key l start pos where
  under := h.under
  except c hc hstart hcp := by
    by_cases hpp : parent c = pos
    · unfold parent at hpp
      exact inOrder_of_length_le (by omega)
    · exact h.except c hc hstart hcp hpp
  bridge := h.bridge

theorem smallerChild_spec (hkey : Respects lt key) (hlen : 2 * pos + 1 < l.length) :
    parent (smallerChild lt l pos) = pos ∧ pos < smallerChild lt l pos ∧
      smallerChild lt l pos < l.length ∧
      ∀ c, 0 < c → parent c = pos → InOrder key l (smallerChild lt l pos) c := by
  have hself : ∀ i, InOrder key l i i := fun i a b ha hb => by
    rw [ha] at hb
    cases hb
    exact le_refl _
  have hchild : ∀ c, 0 < c → parent c = pos → c = 2 * pos + 1 ∨ c = 2 * pos + 2 := by
    intro c hc hpc
    unfold parent at hpc
    omega
  unfold smallerChild
  dsimp only
  split
  · rename_i left right hleft hright
    have hrlen : 2 * pos + 1 + 1 < l.length := (List.getElem?_eq_some_iff.mp hright).1
    split
    · rename_i hless
      refine ⟨by unfold parent; omega, by omega, hlen, fun c hc hpc => ?_⟩
      rcases hchild c hc hpc with rfl | rfl
      · exact hself _
      · intro a b ha hb
        rw [hleft] at ha
        rw [hright] at hb
        cases ha
        cases hb
        exact hkey.of_true _ _ hless
    · rename_i hless
      refine ⟨by unfold parent; omega, by omega, hrlen, fun c hc hpc => ?_⟩
      rcases hchild c hc hpc with rfl | rfl
      · intro a b ha hb
        rw [hright] at ha
        rw [hleft] at hb
        cases ha
        cases hb
        exact hkey.of_false _ _ (Bool.eq_false_iff.mpr hless)
      · exact hself _
  · rename_i hnone
    refine ⟨by unfold parent; omega, by omega, hlen, fun c hc hpc => ?_⟩
    rcases hchild c hc hpc with rfl | rfl
    · exact hself _
    · -- there is no right child
      intro a b ha hb
      exact (hnone a b ha hb).elim

theorem Sinking.swap (h : Sinking key l start pos) (hc0 : parent c = pos) (hlt : pos < c)
    (hlen : c < l.length) (hsmall : ∀ d, 0 < d → parent d = pos → InOrder key l c d) :
    Sinking key (swapAt l pos c) start c := by
  have hplen : pos < l.length := by omega
  refine ⟨.child (by omega) (by rw [hc0]; exact h.under), ?_, ?_⟩
  · intro d hd hstart hdc hpdc
    have hpd := parent_lt hd
    rw [inOrder_swapAt hplen hlen]
    by_cases hdp : d = pos
    · subst hdp
      rw [moved_left, moved_of_ne (by omega) hpdc]
      exact h.bridge (by omega) c (by omega) hc0
    · rw [moved_of_ne hdp hdc]
      by_cases hpp : parent d = pos
      · rw [hpp, moved_left]
        exact hsmall d hd hpp
      · rw [moved_of_ne hpp hpdc]
        exact h.except d hd hstart hdp hpp
  · intro _ d hd hpd
    have hdc := parent_lt hd
    rw [inOrder_swapAt hplen hlen, hc0, moved_left, moved_of_ne (by omega) (by omega)]
    have hold := h.except d hd (by have := h.under.le; omega) (by omega) (by omega)
    rw [hpd] at hold
    exact hold

section

variable (hkey : Respects lt key)
include hkey

theorem sinkToLeaf_rising {fuel : Nat} (hfuel : l.length ≤ pos + fuel)
    (h : Sinking key l start pos) :
    Rising key (sinkToLeaf lt fuel pos l).2 start (sinkToLeaf lt fuel pos l).1 := by
  induction fuel generalizing pos l with
  | zero => exact h.atLeaf (by omega)
  | succ fuel ih =>
    unfold sinkToLeaf
    split
    · rename_i hlen
      obtain ⟨hparent, hlt, hclen, hsmall⟩ := smallerChild_spec hkey hlen
      refine ih ?_ (h.swap hparent hlt hclen hsmall)
      have := (swapAt_perm l pos (smallerChild lt l pos)).length_eq
      omega
    · exact h.atLeaf (by omega)

/-- A sift makes the subtree of its place a heap when the subtrees below are heaps. -/
theorem siftup_heapFrom (h : HeapFrom key l (start + 1)) :
    HeapFrom key (siftup lt start l) start := by
  have hsink : Sinking key l start start := by
    refine ⟨.root, fun c hc hstart _ hpp => h c hc (by omega), fun hlt => ?_⟩
    exact absurd hlt (Nat.lt_irrefl _)
  exact siftdown_heapFrom hkey (Nat.le_refl _) (sinkToLeaf_rising hkey (by omega) hsink)

/-! ## The operations -/

theorem heappush_isHeap (h : IsHeap key l) (item : α) : IsHeap key (heappush lt l item) := by
  refine siftdown_heapFrom hkey (Nat.le_refl _) ⟨under_zero _, ?_, ?_⟩
  · intro c hc _ hcl a b ha hb
    have hlen := (List.getElem?_eq_some_iff.mp hb).1
    rw [length_append, length_singleton] at hlen
    have hp := parent_lt hc
    rw [getElem?_append_left (by omega)] at ha hb
    exact h c hc (Nat.zero_le _) a b ha hb
  · intro _ c hc hp
    have := parent_lt hc
    exact inOrder_of_length_le (by rw [length_append, length_singleton]; omega)

theorem heappop_isHeap (h : IsHeap key l) {item : α} {rest : List α}
    (hpop : heappop lt l = some (item, rest)) : IsHeap key rest := by
  cases l with
  | nil => cases hpop
  | cons a l =>
    unfold heappop at hpop
    rcases eq_nil_or_concat l with rfl | ⟨l, b, rfl⟩
    · cases hpop
      exact fun c _ _ => inOrder_of_length_le (Nat.zero_le c)
    · dsimp only at hpop
      rw [concat_eq_append, getLast?_concat] at hpop
      rw [dropLast_concat] at hpop
      cases hpop
      refine siftup_heapFrom hkey fun c hc hstart x y hx hy => ?_
      have hlen := (List.getElem?_eq_some_iff.mp hy).1
      have hp := parent_lt hc
      rw [length_cons] at hlen
      -- behind the root the elements stand as before
      have hsame : ∀ i, 0 < i → i < l.length + 1 → (b :: l)[i]? = (item :: l.concat b)[i]? := by
        intro i hi hil
        obtain ⟨i, rfl⟩ := Nat.exists_eq_succ_of_ne_zero (Nat.pos_iff_ne_zero.mp hi)
        rw [getElem?_cons_succ, getElem?_cons_succ, concat_eq_append,
          getElem?_append_left (by omega)]
      rw [hsame _ (by omega) (by omega)] at hx hy
      exact h c hc (Nat.zero_le _) x y hx hy

theorem heapify_isHeap (l : List α) : IsHeap key (heapify lt l) := by
  have hfold : ∀ (n : Nat) (l : List α), HeapFrom key l n →
      HeapFrom key ((List.range n).reverse.foldl (fun heap pos => siftup lt pos heap) l) 0 := by
    intro n
    induction n with
    | zero => exact fun l h => h
    | succ n ih =>
      intro l h
      rw [range_succ, reverse_append]
      exact ih _ (siftup_heapFrom hkey h)
  refine hfold _ l fun c hc hstart => inOrder_of_length_le ?_
  unfold parent at hstart
  omega

end

end Heapq

end MyOperator.Lib
