import Mathlib

/-!
# Doubly linked segments

A heap of nodes with a next and a previous link is seen through two functions
`n p : P → Option P`. `Seg n p u l v` says that from `u` one reaches `v` through
exactly the nodes of `l`, with both links in agreement at every hop. The lemmas
are the frame rule, the split rule and the two pointer surgeries of a doubly
linked list: unlinking a node and linking nodes in before the end.
-/

namespace MyOperator.Lib

open List

variable {P : Type*}

/-- The nodes `l` lie between `u` and `v`, doubly linked. -/
def Seg (n p : P → Option P) : P → List P → P → Prop
  | u, [], v => n u = some v ∧ p v = some u
  | u, x :: l, v => n u = some x ∧ p x = some u ∧ Seg n p x l v

namespace Seg

variable {n p n' p' : P → Option P} {u v x y : P} {l m : List P}

theorem append_iff : Seg n p u (l ++ x :: m) v ↔ Seg n p u l x ∧ Seg n p x m v := by
  induction l generalizing u with
  | nil => simp [Seg, and_assoc]
  | cons a l ih => simp [Seg, ih, and_assoc]

/-- Only the next links of `u :: l` and the previous links of `l ++ [v]` are read. -/
theorem frame (h : Seg n p u l v) (hn : ∀ w ∈ u :: l, n' w = n w)
    (hp : ∀ w ∈ l ++ [v], p' w = p w) : Seg n' p' u l v := by
  induction l generalizing u with
  | nil =>
    obtain ⟨h1, h2⟩ := h
    exact ⟨(hn u (by simp)).trans h1, (hp v (by simp)).trans h2⟩
  | cons a l ih =>
    obtain ⟨h1, h2, h3⟩ := h
    exact ⟨(hn u (by simp)).trans h1, (hp a (by simp)).trans h2,
      ih h3 (fun w hw => hn w (mem_cons_of_mem _ hw)) (fun w hw => hp w (mem_cons_of_mem _ hw))⟩

theorem next_head (h : Seg n p u l v) : n u = (l ++ [v]).head? := by
  cases l with
  | nil => exact h.1
  | cons a l => exact h.1

theorem prev_last (h : Seg n p u l v) : p v = (u :: l).getLast? := by
  induction l generalizing u with
  | nil => exact h.2
  | cons a l ih => rw [getLast?_cons_cons]; exact ih h.2.2

theorem mem_links (h : Seg n p u l v) (hx : x ∈ l) :
    ∃ px ∈ u :: l, ∃ nx ∈ l ++ [v], p x = some px ∧ n px = some x ∧
      n x = some nx ∧ p nx = some x := by
  obtain ⟨A, B, rfl⟩ := append_of_mem hx
  obtain ⟨hA, hB⟩ := append_iff.mp h
  refine ⟨(u :: A).getLast (by simp), ?_, (B ++ [v]).head (by simp), ?_, ?_, ?_, ?_, ?_⟩
  · have := getLast_mem (show u :: A ≠ [] by simp)
    simp only [mem_cons, mem_append] at this ⊢
    tauto
  · have := List.head_mem (show B ++ [v] ≠ [] by simp)
    simp only [mem_append, mem_cons] at this ⊢
    tauto
  · rw [hA.prev_last, getLast?_eq_getLast_of_ne_nil]
  · clear h hx hB
    induction A generalizing u with
    | nil => exact hA.1
    | cons a A ih => rw [getLast_cons (by simp)]; exact ih hA.2.2
  · rw [hB.next_head, head?_eq_some_head]
  · cases B with
    | nil => exact hB.2
    | cons b B => exact hB.2.1

/-- The two links of a hop agree, read along it or against it. -/
theorem prev_of_next (h : Seg n p u l v) (hx : x ∈ u :: l) (hy : n x = some y) : p y = some x := by
  induction l generalizing u with
  | nil =>
    obtain ⟨huv, hvu⟩ := h
    obtain rfl := mem_singleton.mp hx
    rwa [Option.some.inj (hy.symm.trans huv)]
  | cons a l ih =>
    obtain ⟨hua, hau, hal⟩ := h
    rcases mem_cons.mp hx with rfl | hx
    · rwa [Option.some.inj (hy.symm.trans hua)]
    · exact ih hal hx

theorem next_of_prev (h : Seg n p u l v) (hx : x ∈ l ++ [v]) (hy : p x = some y) :
    n y = some x := by
  induction l generalizing u with
  | nil =>
    obtain ⟨huv, hvu⟩ := h
    obtain rfl := mem_singleton.mp hx
    rwa [Option.some.inj (hy.symm.trans hvu)]
  | cons a l ih =>
    obtain ⟨hua, hau, hal⟩ := h
    rcases mem_cons.mp hx with rfl | hx
    · rwa [Option.some.inj (hy.symm.trans hau)]
    · exact ih hal hx

/-- Unlinking `x`: its neighbours are joined, every other link stays. The links of `x`
itself may end up anywhere. -/
theorem unlink [DecidableEq P] (h : Seg n p u (l ++ x :: m) v)
    (hd : (u :: (l ++ x :: m) ++ [v]).Nodup)
    (hn : ∀ w, w ≠ x → n' w = if p x = some w then n x else n w)
    (hp : ∀ w, w ≠ x → p' w = if n x = some w then p x else p w) : Seg n' p' u (l ++ m) v := by
  induction l generalizing u with
  | nil =>
    obtain ⟨hux, hxu, hxm⟩ := h
    have hne : u ≠ x := by rintro rfl; simp at hd
    cases m with
    | nil =>
      have hvx : v ≠ x := by rintro rfl; simp at hd
      obtain ⟨hxv, -⟩ := hxm
      exact ⟨by rw [hn u hne, if_pos hxu, hxv], by rw [hp v hvx, if_pos hxv, hxu]⟩
    | cons b m =>
      obtain ⟨hxb, hbx, hbm⟩ := hxm
      simp only [nil_append, cons_append, nodup_cons, mem_cons,
        mem_append, not_mem_nil, or_false, not_or] at hd
      refine ⟨by rw [hn u hne, if_pos hxu, hxb],
        by rw [hp b (Ne.symm hd.2.1.1), if_pos hxb, hxu], hbm.frame (fun w hw => ?_) fun w hw => ?_⟩
      · have hwx : w ≠ x := by
          rintro rfl
          rcases mem_cons.mp hw with h | h
          · exact hd.2.1.1 h
          · exact hd.2.1.2.1 h
        have hwu : w ≠ u := by
          rintro rfl
          rcases mem_cons.mp hw with h | h
          · exact hd.1.2.1 h
          · exact hd.1.2.2.1 h
        rw [hn w hwx, hxu, if_neg (fun h => hwu (Option.some.inj h).symm)]
      · have hwx : w ≠ x := by
          rintro rfl
          rcases mem_append.mp hw with h | h
          · exact hd.2.1.2.1 h
          · exact hd.2.1.2.2 (by simpa using h)
        have hwb : w ≠ b := by
          rintro rfl
          rcases mem_append.mp hw with h | h
          · exact hd.2.2.1.1 h
          · exact hd.2.2.1.2 (by simpa using h)
        rw [hp w hwx, hxb, if_neg (fun h => hwb (Option.some.inj h).symm)]
  | cons a l ih =>
    obtain ⟨hua, hau, hal⟩ := h
    change Seg n p a (l ++ x :: m) v at hal
    change (u :: (a :: (l ++ x :: m) ++ [v])).Nodup at hd
    obtain ⟨hu, hd⟩ := nodup_cons.mp hd
    obtain ⟨px, hpx, nx, hnx, hpxx, -, hnxx, -⟩ := hal.mem_links (x := x) (by simp)
    have ha : a ∉ l ++ x :: m ++ [v] := (nodup_cons.mp hd).1
    have hux : u ≠ x := by rintro rfl; exact hu (by simp)
    have hax : a ≠ x := by rintro rfl; exact ha (by simp)
    have hupx : ¬ p x = some u := by
      rw [hpxx]
      rintro ⟨⟩
      exact hu (mem_append_left _ hpx)
    have hanx : ¬ n x = some a := by
      rw [hnxx]
      rintro ⟨⟩
      exact ha hnx
    exact ⟨by rw [hn u hux, if_neg hupx, hua], by rw [hp a hax, if_neg hanx, hau], ih hal hd⟩

theorem link_last [DecidableEq P] (h : Seg n p u l v) (hd : (u :: l).Nodup) (hv : v ∉ l)
    (hn : ∀ w ∈ u :: l, n' w = if p v = some w then some x else n w)
    (hp : ∀ w ∈ l, p' w = p w) (hpx : p' x = p v) : Seg n' p' u l x := by
  induction l generalizing u with
  | nil =>
    obtain ⟨-, hvu⟩ := h
    exact ⟨by rw [hn u (by simp), if_pos hvu], hpx.trans hvu⟩
  | cons a l ih =>
    obtain ⟨hua, hau, hal⟩ := h
    obtain ⟨hul, hd⟩ := nodup_cons.mp hd
    have hvu : ¬ p v = some u := by
      rw [hal.prev_last]
      intro h
      exact hul (mem_of_getLast? h)
    refine ⟨by rw [hn u (by simp), if_neg hvu, hua], by rw [hp a (by simp), hau], ?_⟩
    exact ih hal hd (fun h => hv (mem_cons_of_mem _ h))
      (fun w hw => hn w (mem_cons_of_mem _ hw)) (fun w hw => hp w (mem_cons_of_mem _ hw))

end Seg

end MyOperator.Lib
