import Mathlib

/-!
# Merging by key

A buffer in front of a slow consumer: an item is merged into the one with its key,
or appended. If merging concatenates some content of the items, then what the
buffer holds for a key is the concatenation of what was put in for it.
-/

namespace MyOperator.Lib

open List

variable {β K A : Type*} [DecidableEq K] {key : β → K} {merge : β → β → β} {f : β → List A}

/-- `next` is merged into the first item with its key, or appended. -/
def upsert (key : β → K) (merge : β → β → β) : List β → β → List β
  | [], next => [next]
  | b :: l, next => if key b = key next then merge b next :: l else b :: upsert key merge l next

/-- The content of the items with the key `k`. -/
def contentAt (key : β → K) (f : β → List A) (k : K) (l : List β) : List A :=
  (l.filter fun b => key b = k).flatMap f

variable {l l' : List β} {next b : β} {k : K}

@[simp] theorem contentAt_nil : contentAt key f k [] = [] := rfl

theorem contentAt_append :
    contentAt key f k (l ++ l') = contentAt key f k l ++ contentAt key f k l' := by
  rw [contentAt, filter_append, flatMap_append]
  rfl

theorem contentAt_cons : contentAt key f k (b :: l) =
    (if key b = k then f b else []) ++ contentAt key f k l := by
  by_cases h : key b = k
  · simp [contentAt, h]
  · simp [contentAt, h]

theorem contentAt_eq_nil (h : ∀ b ∈ l, key b ≠ k) : contentAt key f k l = [] := by
  have hnil : (l.filter fun b => key b = k) = [] := by
    rw [filter_eq_nil_iff]
    intro b hb
    simpa using h b hb
  rw [contentAt, hnil]
  rfl

theorem map_key_upsert (hmerge : ∀ b c, key (merge b c) = key b) :
    (upsert key merge l next).map key =
      if key next ∈ l.map key then l.map key else l.map key ++ [key next] := by
  induction l with
  | nil => simp [upsert]
  | cons b l ih =>
    rw [upsert]
    by_cases h : key b = key next
    · simp [h, hmerge]
    · rw [if_neg h, map_cons, ih]
      by_cases hmem : key next ∈ l.map key
      · simp [hmem]
      · simp [hmem, Ne.symm h]

theorem nodup_upsert (hmerge : ∀ b c, key (merge b c) = key b) (h : (l.map key).Nodup) :
    ((upsert key merge l next).map key).Nodup := by
  rw [map_key_upsert hmerge]
  split_ifs with hmem
  · exact h
  · rw [← concat_eq_append]
    exact h.concat hmem

theorem contentAt_upsert (hkey : ∀ b c, key (merge b c) = key b)
    (hmerge : ∀ b ∈ l, key b = key next → f (merge b next) = f b ++ f next)
    (h : (l.map key).Nodup) : contentAt key f k (upsert key merge l next) =
      contentAt key f k l ++ if key next = k then f next else [] := by
  induction l with
  | nil => simp [upsert, contentAt_cons]
  | cons b l ih =>
    obtain ⟨hb, hl⟩ := nodup_cons.mp h
    rw [upsert]
    by_cases heq : key b = key next
    · rw [if_pos heq, contentAt_cons, contentAt_cons, hkey, hmerge b mem_cons_self heq, ← heq]
      by_cases hk : key b = k
      · have hrest : contentAt key f k l = [] := by
          refine contentAt_eq_nil fun c hc hck => hb ?_
          rw [hk, ← hck]
          exact mem_map_of_mem hc
        simp [hk, hrest]
      · simp [hk]
    · rw [if_neg heq, contentAt_cons, contentAt_cons,
        ih (fun c hc => hmerge c (mem_cons_of_mem _ hc)) hl, append_assoc]

theorem mem_upsert (h : b ∈ upsert key merge l next) :
    b ∈ l ∨ b = next ∨ ∃ c ∈ l, key c = key next ∧ b = merge c next := by
  induction l with
  | nil => exact .inr (.inl (mem_singleton.mp h))
  | cons c l ih =>
    rw [upsert] at h
    split_ifs at h with heq
    · rcases mem_cons.mp h with rfl | h
      · exact .inr (.inr ⟨c, mem_cons_self, heq, rfl⟩)
      · exact .inl (mem_cons_of_mem _ h)
    · rcases mem_cons.mp h with rfl | h
      · exact .inl mem_cons_self
      · rcases ih h with h | h | ⟨c', hc', hk, hb⟩
        · exact .inl (mem_cons_of_mem _ h)
        · exact .inr (.inl h)
        · exact .inr (.inr ⟨c', mem_cons_of_mem _ hc', hk, hb⟩)

end MyOperator.Lib
