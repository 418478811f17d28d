import Mathlib

/-!
# Binary search for the last number that fits

A search in an interval that asks `fits` at the middle, in any monad: what asking does
to the state is left open. If the numbers that fit are downward closed, the search ends
at the last one in the interval.
-/

namespace MyOperator.Lib

/-- The loop: `result` fits, what is behind `right` does not. -/
def bisect {m : Type → Type} [Monad m] (fits : Int → m Bool) (left right result : Int) : m Int :=
  if h : left ≤ right then do
    let mid := (left + right) / 2
    if ← fits mid then bisect fits (mid + 1) right mid
    else bisect fits left (mid - 1) result
  else pure result
termination_by (right + 1 - left).toNat

/-- `r` is the last of the numbers from 1 to `bound` with `P`, or 0 if there is none. -/
structure Largest (P : Nat → Prop) (bound r : Nat) : Prop where
  le : r ≤ bound
  holds : r ≠ 0 → P r
  last : ∀ n, 1 ≤ n → n ≤ bound → P n → n ≤ r

namespace Largest

variable {P Q : Nat → Prop} {bound r r' : Nat}

theorem iff_le (h : Largest P bound r) (hP : ∀ m n, m ≤ n → P n → P m) {n : Nat} (h1 : 1 ≤ n)
    (hn : n ≤ bound) : P n ↔ n ≤ r := ⟨h.last n h1 hn, fun hle => hP n r hle (h.holds (by omega))⟩

theorem min (h : Largest P bound r) (h' : Largest Q bound r') (hP : ∀ m n, m ≤ n → P n → P m)
    (hQ : ∀ m n, m ≤ n → Q n → Q m) : Largest (fun n => P n ∧ Q n) bound (min r r') where
  le := (min_le_left r r').trans h.le
  holds hne := by
    have h1 : 1 ≤ Min.min r r' := Nat.one_le_iff_ne_zero.mpr hne
    have hle := (min_le_left r r').trans h.le
    exact ⟨(h.iff_le hP h1 hle).mpr (min_le_left r r'), (h'.iff_le hQ h1 hle).mpr (min_le_right r r')⟩
  last n h1 hn hPQ := le_min (h.last n h1 hn hPQ.1) (h'.last n h1 hn hPQ.2)

theorem congr (h : Largest P bound r) (hPQ : ∀ n, P n ↔ Q n) : Largest Q bound r where
  le := h.le
  holds hne := (hPQ r).mp (h.holds hne)
  last n h1 hn hQ := h.last n h1 hn ((hPQ n).mpr hQ)

end Largest

/-- A `finally` clause that changes the state does so whatever is returned or raised. -/
theorem run_tryFinally {ε σ α : Type} (x : ExceptT ε (StateM σ) α) (f : σ → σ) (s : σ) :
    (tryFinally x (modify f)).run.run s = ((x.run.run s).1, f (x.run.run s).2) := by
  show _ = ((x s).1, f (x s).2)
  simp only [tryFinally, tryFinally', ExceptT.run, StateT.run, ExceptT.mk, bind, StateT.bind, pure,
    Functor.map, ExceptT.map]
  rcases x s with ⟨r | r, s'⟩
  · rfl
  · rfl

section Search

variable {ε σ : Type} {I : σ → Prop} {fits : Int → ExceptT ε (StateM σ) Bool} {p : Int → Bool}

/-- The answers are those of `p`, whatever asking does to a state with `I`. -/
def Answers (I : σ → Prop) (fits : Int → ExceptT ε (StateM σ) Bool) (p : Int → Bool) : Prop :=
  ∀ i s, I s → ∃ s', I s' ∧ (fits i).run.run s = (.ok (p i), s')

theorem Answers.bind (h : Answers I fits p) (i : Int) {s : σ} (hs : I s) :
    ∃ s', I s' ∧ ∀ k : Bool → ExceptT ε (StateM σ) Int,
      (fits i >>= k).run.run s = (k (p i)).run.run s' := by
  obtain ⟨s', hs', hask⟩ := h i s hs
  refine ⟨s', hs', fun k => ?_⟩
  rw [ExceptT.run_bind, StateT.run_bind, hask]
  rfl

theorem bisect_spec (hfits : Answers I fits p) (hp : ∀ i j, i ≤ j → p j = true → p i = true)
    {left result : Int} (right : Int) (hresult : result ≤ left) {s : σ} (hs : I s) :
    ∃ r s', I s' ∧ (bisect fits left right result).run.run s = (.ok r, s') ∧ result ≤ r ∧
      (r = result ∨ r ≤ right) ∧ (p result = true → p r = true) ∧
      ∀ i, left ≤ i → i ≤ right → p i = true → i ≤ r := by
  generalize hn : (right + 1 - left).toNat = n
  induction n using Nat.strong_induction_on generalizing left right result s with
  | h n ih =>
    rw [bisect]
    by_cases hle : left ≤ right
    · rw [dif_pos hle]
      obtain ⟨s₁, hs₁, hask⟩ := hfits.bind ((left + right) / 2) hs
      rw [hask]
      cases hmid : p ((left + right) / 2) with
      | true =>
        obtain ⟨r, s', hs', hrun, hge, hright, hholds, hlast⟩ := ih
          (right + 1 - ((left + right) / 2 + 1)).toNat (by omega) right
          (show (left + right) / 2 ≤ (left + right) / 2 + 1 by omega) hs₁ rfl
        refine ⟨r, s', hs', hrun, by omega, .inr (by omega), fun _ => hholds hmid, ?_⟩
        intro i hli hir hi
        by_cases him : i ≤ (left + right) / 2
        · exact him.trans hge
        · exact hlast i (by omega) hir hi
      | false =>
        obtain ⟨r, s', hs', hrun, hge, hright, hholds, hlast⟩ := ih
          ((left + right) / 2 - 1 + 1 - left).toNat (by omega) ((left + right) / 2 - 1)
          hresult hs₁ rfl
        refine ⟨r, s', hs', hrun, hge, hright.imp id fun h => by omega, hholds, ?_⟩
        intro i hli hir hi
        refine hlast i hli ?_ hi
        -- what is behind a number that does not fit does not fit
        by_contra hbehind
        rw [hp _ i (by omega) hi] at hmid
        cases hmid
    · rw [dif_neg hle]
      exact ⟨result, s, hs, rfl, le_refl _, .inl rfl, id, fun i h1 h2 _ => absurd (h1.trans h2) hle⟩

end Search

/-! ## Quantities that grow

What must fit is computed by code that may fail. If it fails for no length or for every
length, and grows with the length, then the lengths that fit are downward closed. -/

/-- Computed without an error for every argument, growing in the sense of `R`, or for none. -/
def Grows {ε α : Type} (R : α → α → Prop) (f : Nat → Except ε α) : Prop :=
  (∃ e, ∀ n, f n = .error e) ∨ ∃ g : Nat → α, (∀ m n, m ≤ n → R (g m) (g n)) ∧ ∀ n, f n = .ok (g n)

namespace Grows

variable {ε α β : Type} {R : α → α → Prop} {R' : β → β → Prop} {f : Nat → Except ε α}

theorem ok {g : Nat → α} (hg : ∀ m n, m ≤ n → R (g m) (g n)) : Grows R fun n => (.ok (g n) : Except ε α) :=
  Or.inr ⟨g, hg, fun _ => rfl⟩

theorem const (hR : ∀ a, R a a) (x : Except ε α) : Grows R fun _ => x := by
  cases x with
  | error e => exact Or.inl ⟨e, fun _ => rfl⟩
  | ok a => exact ok fun _ _ _ => hR a

theorem bind {k : Nat → α → Except ε β} (hf : Grows R f)
    (hk : ∀ g : Nat → α, (∀ m n, m ≤ n → R (g m) (g n)) → Grows R' fun n => k n (g n)) :
    Grows R' fun n => f n >>= k n := by
  rcases hf with ⟨e, he⟩ | ⟨g, hg, hok⟩
  · refine Or.inl ⟨e, fun n => ?_⟩
    show f n >>= k n = _
    rw [he]
    rfl
  · have heq : (fun n => f n >>= k n) = fun n => k n (g n) := by
      funext n
      rw [hok]
      rfl
    rw [heq]
    exact hk g hg

theorem constBind {x : Except ε β} {k : Nat → β → Except ε α} (hk : ∀ b, Grows R fun n => k n b) :
    Grows R fun n => x >>= k n := by
  cases x with
  | error e => exact Or.inl ⟨e, fun _ => rfl⟩
  | ok b => exact hk b

theorem mapM {γ : Type} {F : Nat → γ → Except ε α} {l : List γ}
    (h : ∀ x ∈ l, Grows R fun n => F n x) : Grows (List.Forall₂ R) fun n => l.mapM (F n) := by
  induction l with
  | nil => exact ok fun _ _ _ => .nil
  | cons x l ih =>
    simp only [List.mapM_cons]
    refine (h x List.mem_cons_self).bind fun g hg => ?_
    refine (ih fun y hy => h y (List.mem_cons_of_mem _ hy)).bind fun gs hgs => ?_
    exact ok fun m n hmn => .cons (hg m n hmn) (hgs m n hmn)

end Grows

theorem forall₂_le_sum {l l' : List Nat} (h : List.Forall₂ (· ≤ ·) l l') : l.sum ≤ l'.sum := by
  induction h with
  | nil => exact le_refl _
  | cons hx _ ih =>
    exact Nat.add_le_add hx ih

theorem forall₂_le_foldl_max {l l' : List Nat} (h : List.Forall₂ (· ≤ ·) l l') {a b : Nat}
    (hab : a ≤ b) : l.foldl max a ≤ l'.foldl max b := by
  induction h generalizing a b with
  | nil => exact hab
  | cons hx _ ih => exact ih (max_le_max hab hx)

end MyOperator.Lib
