import Mathlib

/-!
# Logs of the tags that holders carry

Every holder carries at most one tag. A log tells which tags were stored and removed,
and replaying it keeps a set of tags. Several holders may carry one tag, so a removal
that is logged for each holder is right only when the last holder of the tag goes with it.
-/

namespace MyOperator.Lib

/-- An entry of a log over tags. -/
inductive LogEntry (τ : Type*)
  | stored (tags : List τ)
  | removed (tags : List τ)
  | cleared

namespace LogEntry

variable {β τ : Type*} [DecidableEq τ]

/-- What an entry does to the set of tags. -/
def apply (s : Finset τ) : LogEntry τ → Finset τ
  | stored tags => s ∪ tags.toFinset
  | removed tags => s \ tags.toFinset
  | cleared => ∅

def replayFrom (s : Finset τ) (log : List (LogEntry τ)) : Finset τ := log.foldl apply s

/-- The set of tags after the whole log. -/
def replay (log : List (LogEntry τ)) : Finset τ := replayFrom ∅ log

@[simp] theorem replayFrom_nil (s : Finset τ) : replayFrom s [] = s := rfl

theorem replayFrom_append (s : Finset τ) (log log' : List (LogEntry τ)) :
    replayFrom s (log ++ log') = replayFrom (replayFrom s log) log' := List.foldl_append

end LogEntry

open LogEntry

/-- Some holder carries the tag. -/
def Carried {β τ : Type*} (f : β → Option τ) (t : τ) : Prop := ∃ b, f b = some t

/-- The replayed tags are those that are carried. -/
def Agrees {β τ : Type*} [DecidableEq τ] (log : List (LogEntry τ)) (f : β → Option τ) : Prop :=
  ∀ t, t ∈ replay log ↔ Carried f t

/-- The holders `bs` are all the holders of each of their tags. -/
def Whole {β τ : Type*} (f : β → Option τ) (bs : List β) : Prop :=
  ∀ b ∈ bs, ∀ t, f b = some t → ∀ c, f c = some t → c ∈ bs

theorem whole_nil {β τ : Type*} {f : β → Option τ} : Whole f [] := nofun

/-- The holders `bs` drop their tags and the log removes every one of these. -/
structure Drops {β τ : Type*} [DecidableEq β] [DecidableEq τ] (f f' : β → Option τ) (bs : List β)
    (log : List (LogEntry τ)) : Prop where
  holders : ∀ b, f' b = if b ∈ bs then none else f b
  log : ∀ s t, t ∈ replayFrom s log ↔ t ∈ s ∧ ∀ b ∈ bs, f b ≠ some t

section

variable {β τ : Type*} [DecidableEq τ] {f f' f'' : β → Option τ} {bs bs' : List β} {b : β}
  {log log' : List (LogEntry τ)} {t : τ} {tags : List τ}

theorem agrees_nil (h : ∀ b, f b = none) : Agrees [] f := by
  intro t
  constructor
  · intro ht
    exact absurd ht (Finset.notMem_empty t)
  · rintro ⟨b, hb⟩
    rw [h b] at hb
    cases hb

theorem Agrees.stored (h : Agrees log f)
    (hf : ∀ t, Carried f' t ↔ Carried f t ∨ t ∈ tags) : Agrees (log ++ [.stored tags]) f' := by
  intro t
  rw [hf, ← h t, replay, replayFrom_append]
  show t ∈ replay log ∪ tags.toFinset ↔ _
  rw [Finset.mem_union, List.mem_toFinset]

theorem agrees_cleared (log : List (LogEntry τ)) (h : ∀ b, f b = none) :
    Agrees (log ++ [.cleared]) f := by
  intro t
  rw [← agrees_nil h t, replay, replayFrom_append]
  rfl

variable [DecidableEq β]

theorem Drops.of_none (hb : f b = none) : Drops f f [b] [] where
  holders c := by
    by_cases hc : c = b
    · rw [if_pos (by simp [hc]), hc, hb]
    · rw [if_neg (by simp [hc])]
  log s t := by simp [hb]

theorem Drops.single (hb : f b = some t) (h : ∀ c, f' c = if c = b then none else f c) :
    Drops f f' [b] [.removed [t]] where
  holders c := by simp [h c]
  log s u := by
    show u ∈ s \ [t].toFinset ↔ _
    simp [hb, eq_comm]

theorem Drops.nil : Drops f f [] [] where
  holders c := by simp
  log s t := by simp

theorem Drops.trans (h : Drops f f' bs log) (h' : Drops f' f'' bs' log') :
    Drops f f'' (bs ++ bs') (log ++ log') where
  holders c := by
    rw [h'.holders, h.holders]
    by_cases hc : c ∈ bs <;> simp [hc]
  log s t := by
    rw [replayFrom_append, h'.log, h.log, and_assoc]
    refine and_congr_right fun _ => ?_
    constructor
    · rintro ⟨hbs, hbs'⟩ b hb hbt
      rcases List.mem_append.mp hb with hb | hb
      · exact hbs b hb hbt
      · by_cases hmem : b ∈ bs
        · exact hbs b hmem hbt
        · refine hbs' b hb ?_
          rw [h.holders, if_neg hmem, hbt]
    · intro hall
      refine ⟨fun b hb => hall b (List.mem_append_left _ hb), fun b hb hbt => ?_⟩
      rw [h.holders] at hbt
      split at hbt
      · cases hbt
      · exact hall b (List.mem_append_right _ hb) hbt

/-- After the drop the log agrees exactly when no tag of the dropped holders has a holder
that keeps it. -/
theorem Drops.agrees_iff (hd : Drops f f' bs log') (h : Agrees log f) :
    Agrees (log ++ log') f' ↔ Whole f bs := by
  have hmem : ∀ t, t ∈ replay (log ++ log') ↔ Carried f t ∧ ∀ b ∈ bs, f b ≠ some t := fun t => by
    rw [replay, replayFrom_append, hd.log]
    exact and_congr_left fun _ => h t
  constructor
  · intro hag b hb t hbt c hct
    by_contra hc
    have hcarried : Carried f' t := ⟨c, by rw [hd.holders, if_neg hc, hct]⟩
    exact ((hmem t).mp ((hag t).mpr hcarried)).2 b hb hbt
  · intro hwhole t
    rw [hmem]
    constructor
    · rintro ⟨⟨c, hc⟩, hnone⟩
      exact ⟨c, by rw [hd.holders, if_neg fun hb => hnone c hb hc, hc]⟩
    · rintro ⟨c, hc⟩
      rw [hd.holders] at hc
      split at hc
      · cases hc
      · rename_i hcb
        exact ⟨⟨c, hc⟩, fun b hb hbt => hcb (hwhole b hb t hbt c hc)⟩

end

end MyOperator.Lib
