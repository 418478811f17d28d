import Mathlib

/-!
# Transition systems and the exception monad

The run-level induction of the development: a property that holds initially and
is preserved by every step holds in every reachable state. `Except.bind_eq_ok`
takes a fallible step apart into the steps it is made of.
-/

namespace MyOperator.Lib

open List

universe u

/-- A transition system. -/
structure TSys (σ : Type u) where
  init : σ → Prop
  step : σ → σ → Prop

namespace TSys

variable {σ : Type u} {T : TSys σ}

/-- The states that some run reaches. -/
inductive Reachable (T : TSys σ) : σ → Prop
  | init {s : σ} : T.init s → Reachable T s
  | step {s t : σ} : Reachable T s → T.step s t → Reachable T t

/-- A property of every reachable state. -/
def Invariant (T : TSys σ) (I : σ → Prop) : Prop := ∀ s, T.Reachable s → I s

/-- A property that holds initially and survives every step. -/
structure Inductive (T : TSys σ) (I : σ → Prop) : Prop where
  base : ∀ s, T.init s → I s
  step : ∀ s t, I s → T.step s t → I t

theorem Inductive.invariant {I : σ → Prop} (h : Inductive T I) : T.Invariant I := by
  intro s hs
  induction hs with
  | init h0 => exact h.base _ h0
  | step _ hstep ih => exact h.step _ _ ih hstep

end TSys

variable {ε α : Type*} {l : List α}

theorem bind_eq_ok {α β : Type u} {x : Except ε α} {f : α → Except ε β} {b : β} :
    (x >>= f) = .ok b ↔ ∃ a, x = .ok a ∧ f a = .ok b := by
  cases x with
  | error e => exact ⟨fun h => (nomatch h), fun ⟨_, h, _⟩ => (nomatch h)⟩
  | ok a => exact ⟨fun h => ⟨a, rfl, h⟩, fun ⟨_, h, hf⟩ => by cases h; exact hf⟩

theorem bind_ok {α β : Type u} {x : Except ε α} {f : α → Except ε β} {b : β}
    (h : (x >>= f) = .ok b) : ∃ a, x = .ok a ∧ f a = .ok b := bind_eq_ok.mp h

theorem lt_of_getElem? {i : Nat} {a : α} (h : l[i]? = some a) : i < l.length :=
  (List.getElem?_eq_some_iff.mp h).1

theorem map_eq_ok {α β : Type u} {x : Except ε α} {f : α → β} {b : β} :
    x.map f = .ok b ↔ ∃ a, x = .ok a ∧ f a = b := by
  cases x with
  | error e => exact ⟨fun h => (nomatch h), fun ⟨_, h, _⟩ => (nomatch h)⟩
  | ok a => exact ⟨fun h => ⟨a, rfl, Except.ok.inj h⟩, fun ⟨_, h, hf⟩ => by cases h; exact congrArg _ hf⟩

@[simp] theorem ok_bind {α β : Type u} (a : α) (f : α → Except ε β) :
    ((.ok a : Except ε α) >>= f) = f a := rfl

@[simp] theorem error_bind {α β : Type u} (e : ε) (f : α → Except ε β) :
    ((.error e : Except ε α) >>= f) = .error e := rfl

theorem foldlM_keeps {β : Type u} {f : β → α → Except ε β} {P : β → Prop}
    (hf : ∀ b, ∀ a ∈ l, ∀ b', P b → f b a = .ok b' → P b') {b b' : β} (hb : P b)
    (h : l.foldlM f b = .ok b') : P b' := by
  induction l generalizing b with
  | nil =>
    cases h
    exact hb
  | cons a l ih =>
    obtain ⟨b1, hstep, h⟩ := bind_ok h
    exact ih (fun b a ha => hf b a (mem_cons_of_mem _ ha)) (hf b a mem_cons_self b1 hb hstep) h

/-- A loop over elements with different keys: the key of every pass was not `seen` before. -/
theorem foldlM_fresh {β κ : Type u} {k : α → κ} {f : β → α → Except ε β} {P : List κ → β → Prop}
    (hf : ∀ seen b, ∀ a ∈ l, ∀ b', k a ∉ seen → P seen b → f b a = .ok b' →
      P seen b' ∨ P (k a :: seen) b') (hnodup : (l.map k).Nodup) {seen : List κ}
    (hnew : ∀ a ∈ l, k a ∉ seen) {b b' : β} (hb : P seen b) (h : l.foldlM f b = .ok b') :
    ∃ seen, P seen b' := by
  induction l generalizing b seen with
  | nil =>
    cases h
    exact ⟨seen, hb⟩
  | cons a l ih =>
    obtain ⟨b1, hstep, h⟩ := bind_ok h
    obtain ⟨hout, hnodup⟩ := nodup_cons.mp hnodup
    have hf' := fun seen b a ha => hf seen b a (mem_cons_of_mem _ ha)
    have hnew' := fun a ha => hnew a (mem_cons_of_mem _ ha)
    rcases hf seen b a mem_cons_self b1 (hnew a mem_cons_self) hb hstep with hb | hb
    · exact ih hf' hnodup hnew' hb h
    · refine ih hf' hnodup (fun c hc hin => ?_) hb h
      rcases mem_cons.mp hin with heq | hin
      · exact hout (heq ▸ mem_map_of_mem hc)
      · exact hnew' c hc hin

theorem foldlM_todo {β : Type u} {f : β → α → Except ε β} {P : List α → β → Prop}
    (hf : ∀ a rest b, P (a :: rest) b → ∃ b', f b a = .ok b' ∧ P rest b') {b : β} (hb : P l b) :
    ∃ b', l.foldlM f b = .ok b' ∧ P [] b' := by
  induction l generalizing b with
  | nil => exact ⟨b, rfl, hb⟩
  | cons a l ih =>
    obtain ⟨b1, hstep, hb1⟩ := hf a l b hb
    rw [foldlM_cons, hstep]
    exact ih hb1

/-- A loop whose passes succeed, by what holds of the elements that are done. -/
theorem foldlM_done {β : Type u} {f : β → α → Except ε β} {P : List α → β → Prop}
    (hf : ∀ done a rest b, l = done ++ a :: rest → P done b →
      ∃ b', f b a = .ok b' ∧ P (done ++ [a]) b') {b : β} (hb : P [] b) :
    ∃ b', l.foldlM f b = .ok b' ∧ P l b' := by
  have hrun := foldlM_todo (P := fun todo b => ∃ done, l = done ++ todo ∧ P done b) (f := f) ?_
    (l := l) (b := b) ⟨[], rfl, hb⟩
  · obtain ⟨b', hok, done, hl, hb'⟩ := hrun
    rw [append_nil] at hl
    exact ⟨b', hok, hl ▸ hb'⟩
  · intro a rest b h
    obtain ⟨done, hl, hdone⟩ := h
    obtain ⟨b', hok, hb'⟩ := hf done a rest b hl hdone
    exact ⟨b', hok, done ++ [a], by rw [hl, append_assoc, singleton_append], hb'⟩

theorem mapM_ok {β : Type u} {f : α → Except ε β} {g : α → β} (h : ∀ a ∈ l, f a = .ok (g a)) :
    l.mapM f = .ok (l.map g) := by
  induction l with
  | nil => rfl
  | cons a l ih =>
    rw [mapM_cons, h a mem_cons_self, ok_bind, ih fun b hb => h b (mem_cons_of_mem _ hb)]
    rfl

theorem mapM_exists {β : Type u} {f : α → Except ε β} (h : ∀ a ∈ l, ∃ b, f a = .ok b) :
    ∃ bs, l.mapM f = .ok bs := by
  induction l with
  | nil => exact ⟨[], rfl⟩
  | cons a l ih =>
    obtain ⟨b, hb⟩ := h a mem_cons_self
    obtain ⟨bs, hbs⟩ := ih fun a' ha' => h a' (mem_cons_of_mem _ ha')
    refine ⟨b :: bs, ?_⟩
    rw [mapM_cons, hb, hbs]
    rfl

theorem mapM_get {β : Type u} {f : α → Except ε β} {bs : List β} (hbs : l.mapM f = .ok bs) :
    bs.length = l.length ∧
      ∀ (i : Nat) (a : α), l[i]? = some a → ∃ b, bs[i]? = some b ∧ f a = .ok b := by
  induction l generalizing bs with
  | nil =>
    cases hbs
    exact ⟨rfl, nofun⟩
  | cons a l ih =>
    rw [mapM_cons] at hbs
    obtain ⟨b, hb, hbs⟩ := bind_ok hbs
    obtain ⟨bs', hrest, hbs⟩ := bind_ok hbs
    cases hbs
    obtain ⟨hlen, hget⟩ := ih hrest
    refine ⟨congrArg Nat.succ hlen, fun i a' ha' => ?_⟩
    cases i with
    | zero =>
      cases ha'
      exact ⟨b, rfl, hb⟩
    | succ i => exact hget i a' ha'

theorem eq_ok_get {α : Type u} {x : Except ε α} (h : x.toOption.isSome) :
    x = .ok (x.toOption.get h) := by
  cases x with
  | error e => cases h
  | ok a => rfl

end MyOperator.Lib
