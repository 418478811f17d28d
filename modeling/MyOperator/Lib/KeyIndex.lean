import MyOperator.Lib.Dict

/-!
# Indexes

A dictionary of lists that keeps, for each key, the items carrying it: keys without
items have no entry and no item stands twice. Adding, removing and dropping keep a
dictionary the index of the relation that results.
-/

namespace MyOperator.Lib

open List

variable {E I : Type*} [DecidableEq E]

namespace Dict

/-- The items of a key, as a `defaultdict(list)` reads them. -/
def items (d : Dict E (List I)) (e : E) : List I := (d.get? e).getD []

/-- `d[e].append(i)`. -/
def appendItem (d : Dict E (List I)) (e : E) (i : I) : Dict E (List I) := d.set e (d.items e ++ [i])

/-- `d[e].remove(i)`, with the entry deleted when it becomes empty. -/
def removeItem [DecidableEq I] (d : Dict E (List I)) (e : E) (i : I) : Option (Dict E (List I)) :=
  if i ∈ d.items e then
    if (d.items e).erase i = [] then some (d.erase e) else some (d.set e ((d.items e).erase i))
  else none

theorem items_set (d : Dict E (List I)) (e e' : E) (l : List I) :
    (d.set e l).items e' = if e' = e then l else d.items e' := by
  rw [items, get?_set]
  split_ifs <;> rfl

theorem items_erase (d : Dict E (List I)) (e e' : E) :
    (d.erase e).items e' = if e' = e then [] else d.items e' := by
  rw [items, get?_erase]
  split_ifs <;> rfl

end Dict

/-- `d` lists exactly the items that `R` gives each key. -/
structure Indexes (d : Dict E (List I)) (R : E → I → Prop) : Prop where
  nonempty : ∀ e, d.get? e ≠ some []
  nodup : ∀ e, (d.items e).Nodup
  mem : ∀ e i, i ∈ d.items e ↔ R e i

namespace Indexes

variable {d : Dict E (List I)} {R R' : E → I → Prop} {e : E} {i : I}

theorem congr (h : Indexes d R) (hR : ∀ e i, R e i ↔ R' e i) : Indexes d R' where
  nonempty := h.nonempty
  nodup := h.nodup
  mem e i := (h.mem e i).trans (hR e i)

theorem empty : Indexes (Dict.empty : Dict E (List I)) fun _ _ => False where
  nonempty := by
    intro e h
    cases h
  nodup _ := nodup_nil
  mem _ _ := ⟨fun h => (nomatch h), False.elim⟩

theorem append (h : Indexes d R) (hnew : ¬ R e i) :
    Indexes (d.appendItem e i) fun e' i' => R e' i' ∨ e' = e ∧ i' = i where
  nonempty := by
    intro e' heq
    rw [Dict.appendItem, Dict.get?_set] at heq
    split_ifs at heq
    · exact append_ne_nil_of_right_ne_nil _ (cons_ne_nil _ _) (Option.some.inj heq)
    · exact h.nonempty e' heq
  nodup := by
    intro e'
    rw [Dict.appendItem, Dict.items_set]
    split_ifs
    · rw [← concat_eq_append]
      exact List.Nodup.concat (fun hi => hnew ((h.mem e i).mp hi)) (h.nodup e)
    · exact h.nodup e'
  mem := by
    intro e' i'
    rw [Dict.appendItem, Dict.items_set]
    split_ifs with he
    · subst he
      rw [mem_append, h.mem]
      simp
    · rw [h.mem]
      simp [he]

variable [DecidableEq I]

theorem remove (h : Indexes d R) (hmem : R e i) :
    ∃ d', d.removeItem e i = some d' ∧ Indexes d' fun e' i' => R e' i' ∧ ¬ (e' = e ∧ i' = i) := by
  have hi : i ∈ d.items e := (h.mem e i).mpr hmem
  have herase : ∀ i', i' ∈ (d.items e).erase i ↔ R e i' ∧ i' ≠ i := by
    intro i'
    rw [(h.nodup e).mem_erase_iff, h.mem, and_comm]
  rw [Dict.removeItem]
  split_ifs with hnil
  · refine ⟨_, rfl, ?_, ?_, ?_⟩
    · intro e' heq
      rw [Dict.get?_erase] at heq
      split_ifs at heq
      exact h.nonempty e' heq
    · intro e'
      rw [Dict.items_erase]
      split_ifs
      · exact nodup_nil
      · exact h.nodup e'
    · intro e' i'
      rw [Dict.items_erase]
      split_ifs with he
      · subst he
        have hnone := herase i'
        rw [hnil] at hnone
        simpa using hnone
      · rw [h.mem]
        simp [he]
  · refine ⟨_, rfl, ?_, ?_, ?_⟩
    · intro e' heq
      rw [Dict.get?_set] at heq
      split_ifs at heq
      · exact hnil (Option.some.inj heq)
      · exact h.nonempty e' heq
    · intro e'
      rw [Dict.items_set]
      split_ifs
      · exact (h.nodup e).erase i
      · exact h.nodup e'
    · intro e' i'
      rw [Dict.items_set]
      split_ifs with he
      · subst he
        rw [herase]
        simp
      · rw [h.mem]
        simp [he]

omit [DecidableEq I] in
theorem drop (h : Indexes d R) : Indexes (d.erase e) fun e' i' => R e' i' ∧ e' ≠ e where
  nonempty := by
    intro e' heq
    rw [Dict.get?_erase] at heq
    split_ifs at heq
    exact h.nonempty e' heq
  nodup := by
    intro e'
    rw [Dict.items_erase]
    split_ifs
    · exact nodup_nil
    · exact h.nodup e'
  mem := by
    intro e' i'
    rw [Dict.items_erase]
    split_ifs with he
    · simp [he]
    · rw [h.mem]
      simp [he]

end Indexes

end MyOperator.Lib
