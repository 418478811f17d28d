import Mathlib

/-!
# Descending to a common bound

A family of predicates on an order, and one search for each that lowers a
candidate: it never passes an element where its predicate holds, and leaves a
candidate alone only if the predicate holds there. Asking all of them in rounds,
until a round changes nothing, ends at the greatest element below the start where
all predicates hold, whatever the searches answer in between.
-/

namespace MyOperator.Lib

variable {α : Type*} [PartialOrder α] {P : α → Prop} {Ps : List (α → Prop)} {a b c : α}

/-- One search from `a` that ends at `b`. -/
structure Descends (P : α → Prop) (a b : α) : Prop where
  le : b ≤ a
  keep : ∀ x, P x → x ≤ a → x ≤ b
  fixed : b = a → P a

/-- One round: every search once, each from where the one before ended. -/
inductive Round : List (α → Prop) → α → α → Prop
  | nil (a : α) : Round [] a a
  | cons {P : α → Prop} {Ps : List (α → Prop)} {a b c : α} :
      Descends P a b → Round Ps b c → Round (P :: Ps) a c

/-- Rounds up to the first that changes nothing. -/
inductive Settles (Ps : List (α → Prop)) : α → α → Prop
  | stop {a : α} : Round Ps a a → Settles Ps a a
  | next {a b c : α} : Round Ps a b → Settles Ps b c → Settles Ps a c

theorem Descends.refl (h : P a) : Descends P a a := ⟨le_rfl, fun _ _ hx => hx, fun _ => h⟩

namespace Round

theorem append {Qs : List (α → Prop)} (h : Round Ps a b) (h' : Round Qs b c) :
    Round (Ps ++ Qs) a c := by
  induction h with
  | nil a => exact h'
  | cons hd _ ih => exact .cons hd (ih h')

theorem refl (h : ∀ P ∈ Ps, P a) : Round Ps a a := by
  induction Ps with
  | nil => exact .nil a
  | cons P Ps ih =>
    exact .cons (.refl (h P (by simp))) (ih fun Q hQ => h Q (List.mem_cons_of_mem _ hQ))

theorem le (h : Round Ps a b) : b ≤ a := by
  induction h with
  | nil a => exact le_rfl
  | cons hd _ ih => exact ih.trans hd.le

theorem keep (h : Round Ps a b) {x : α} (hx : ∀ P ∈ Ps, P x) (hxa : x ≤ a) : x ≤ b := by
  induction h with
  | nil a => exact hxa
  | cons hd _ ih =>
    exact ih (fun P hP => hx P (List.mem_cons_of_mem _ hP)) (hd.keep x (hx _ (by simp)) hxa)

theorem fixed (h : Round Ps a b) (hba : b = a) : ∀ P ∈ Ps, P a := by
  induction h with
  | nil a => intro P hP; cases hP
  | @cons Q Qs x y z hd hr ih =>
    intro P hP
    have hyx : y = x := le_antisymm hd.le (hba ▸ hr.le)
    rcases List.mem_cons.mp hP with rfl | hP
    · exact hd.fixed hyx
    · exact hyx ▸ ih (hba.trans hyx.symm) P hP

end Round

/-- The end of the rounds is the greatest element below the start with all predicates. -/
theorem Settles.isGreatest (h : Settles Ps a b) : IsGreatest {x | x ≤ a ∧ ∀ P ∈ Ps, P x} b := by
  induction h with
  | stop hr => exact ⟨⟨le_rfl, hr.fixed rfl⟩, fun x hx => hx.1⟩
  | next hr _ ih =>
    exact ⟨⟨ih.1.1.trans hr.le, ih.1.2⟩, fun x hx => ih.2 ⟨hr.keep hx.2 hx.1, hx.2⟩⟩

end MyOperator.Lib
