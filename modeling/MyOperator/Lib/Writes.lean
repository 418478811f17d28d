import Mathlib

/-!
# Loops of writes

A loop that writes one entry per pass, as a fold of updates. An entry that no pass writes is kept;
an entry that passes write, all with one value, has it; and copies from entries that no pass writes
are all made from the first state.
-/

namespace MyOperator.Lib

open List Function

variable {α β γ : Type}

variable {l : List α} {k : α → β} {f : β → γ}

theorem foldl_update_apply [DecidableEq β] {v : α → γ} {b : β} {c : γ}
    (h : ∀ x ∈ l, k x = b → v x = c) (hor : f b = c ∨ ∃ x ∈ l, k x = b) :
    (l.foldl (fun f x => update f (k x) (v x)) f) b = c := by
  induction l generalizing f with
  | nil =>
    rcases hor with hf | ⟨x, hx, -⟩
    · exact hf
    · cases hx
  | cons x l ih =>
    refine ih (fun y hy => h y (mem_cons_of_mem _ hy)) ?_
    by_cases hx : k x = b
    · refine .inl ?_
      show update f (k x) (v x) b = c
      rw [hx, update_self]
      exact h x mem_cons_self hx
    · rcases hor with hf | ⟨y, hy, hyb⟩
      · exact .inl ((update_of_ne (Ne.symm hx) _ _).trans hf)
      · rcases mem_cons.mp hy with rfl | hy
        · exact absurd hyb hx
        · exact .inr ⟨y, hy, hyb⟩

theorem foldl_update_apply_of_ne [DecidableEq β] {v : α → γ} {b : β} (h : ∀ x ∈ l, k x ≠ b) :
    (l.foldl (fun f x => update f (k x) (v x)) f) b = f b :=
  foldl_update_apply (fun x hx hxb => absurd hxb (h x hx)) (.inl rfl)

theorem foldl_copy_eq [DecidableEq β] {src : α → β} (h : ∀ x ∈ l, ∀ y ∈ l, k x ≠ src y) :
    l.foldl (fun f x => update f (k x) (f (src x))) f =
      l.foldl (fun g x => update g (k x) (f (src x))) f := by
  have hgen : ∀ (l' : List α) (g : β → γ), (∀ x ∈ l', x ∈ l) → (∀ y ∈ l, g (src y) = f (src y)) →
      l'.foldl (fun g x => update g (k x) (g (src x))) g =
        l'.foldl (fun g x => update g (k x) (f (src x))) g := by
    intro l'
    induction l' with
    | nil => exact fun _ _ _ => rfl
    | cons x l' ih =>
      intro g hsub hg
      have hx := hsub x mem_cons_self
      rw [foldl_cons, hg x hx]
      refine ih _ (fun y hy => hsub y (mem_cons_of_mem _ hy)) fun y hy => ?_
      rw [update_of_ne (Ne.symm (h x hx y hy)), hg y hy]
  exact hgen l f (fun _ hx => hx) fun _ _ => rfl

theorem zip_of_map_eq {α' : Type} {l' : List α'} {f : α → β} {f' : α' → β}
    (h : l.map f = l'.map f') :
    (∀ x ∈ l.zip l', x.1 ∈ l ∧ x.2 ∈ l' ∧ f x.1 = f' x.2) ∧ ∀ a ∈ l, ∃ a', (a, a') ∈ l.zip l' := by
  induction l generalizing l' with
  | nil => exact ⟨nofun, nofun⟩
  | cons a l ih =>
    cases l' with
    | nil => cases h
    | cons a' l' =>
      obtain ⟨hhead, htail⟩ := List.cons.inj h
      obtain ⟨hmem, hex⟩ := ih htail
      rw [zip_cons_cons]
      constructor
      · intro x hx
        rcases mem_cons.mp hx with rfl | hx
        · exact ⟨mem_cons_self, mem_cons_self, hhead⟩
        · obtain ⟨hl, hl', heq⟩ := hmem x hx
          exact ⟨mem_cons_of_mem _ hl, mem_cons_of_mem _ hl', heq⟩
      · intro b hb
        rcases mem_cons.mp hb with rfl | hb
        · exact ⟨a', mem_cons_self⟩
        · obtain ⟨b', hb'⟩ := hex b hb
          exact ⟨b', mem_cons_of_mem _ hb'⟩

/-- The order of steps that commute, also in whether they fail, does not matter. -/
theorem foldlM_perm {f : β → α → Option β} {l' : List α} (h : l.Perm l')
    (hcomm : ∀ x ∈ l, ∀ y ∈ l, ∀ b, ((f b x).bind (f · y)) = (f b y).bind (f · x)) (b : β) :
    l.foldlM f b = l'.foldlM f b := by
  induction h generalizing b with
  | nil => rfl
  | cons x _ ih =>
    refine Option.bind_congr fun c _ => ?_
    exact ih (fun y hy z hz => hcomm y (mem_cons_of_mem _ hy) z (mem_cons_of_mem _ hz)) c
  | swap x y l =>
    have hswap := hcomm y mem_cons_self x (mem_cons_of_mem _ mem_cons_self) b
    show (f b y).bind (fun c => (f c x).bind (l.foldlM f)) =
      (f b x).bind fun c => (f c y).bind (l.foldlM f)
    rw [← Option.bind_assoc, ← Option.bind_assoc, hswap]
  | trans h₁ _ ih₁ ih₂ =>
    rw [ih₁ hcomm b, ih₂ (fun x hx y hy => hcomm x (h₁.mem_iff.mpr hx) y (h₁.mem_iff.mpr hy)) b]

end MyOperator.Lib
