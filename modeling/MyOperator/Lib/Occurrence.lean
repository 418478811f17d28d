import Mathlib

/-!
# Occurrences of a word in a text

A word is completed by the first `e` letters of a text when it is a suffix of
them. `strFind` searches from a place that may be counted from the end of the
text, and a search that starts just far enough back finds the occurrence that is
completed first among those completed by the last letters.
-/

namespace MyOperator.Lib

open List

variable {α : Type*}

/-- `pat` is completed by the first `e` letters of `text`. -/
def EndsAt (pat text : List α) (e : Nat) : Prop := e ≤ text.length ∧ pat <:+ text.take e

instance [DecidableEq α] (pat text : List α) (e : Nat) : Decidable (EndsAt pat text e) :=
  inferInstanceAs (Decidable (_ ∧ _))

/-- `e` is the first place after `lo` that completes `pat`. -/
structure FirstEnd (pat text : List α) (lo e : Nat) : Prop where
  ends : EndsAt pat text e
  after : lo < e
  first : ∀ e', lo < e' → EndsAt pat text e' → e ≤ e'

variable {pat text text' : List α} {e i n : Nat}

namespace EndsAt

theorem length_le (h : EndsAt pat text e) : pat.length ≤ e := by
  have hlen := h.2.length_le
  rw [length_take] at hlen
  exact hlen.trans (min_le_left _ _)

theorem of_isPrefix (hpre : text <+: text') (h : e ≤ text.length) :
    EndsAt pat text' e ↔ EndsAt pat text e := by
  obtain ⟨more, rfl⟩ := hpre
  unfold EndsAt
  rw [take_append_of_le_length h, length_append]
  constructor
  · rintro ⟨_, hsuf⟩
    exact ⟨h, hsuf⟩
  · rintro ⟨hle, hsuf⟩
    exact ⟨hle.trans (Nat.le_add_right _ _), hsuf⟩

theorem of_prefix_drop (hi : i ≤ text.length) (h : pat <+: text.drop i) :
    EndsAt pat text (i + pat.length) := by
  obtain ⟨rest, hrest⟩ := h
  have htext : text = text.take i ++ pat ++ rest := by
    rw [append_assoc, hrest, take_append_drop]
  have hlen : (text.take i ++ pat).length = i + pat.length := by
    rw [length_append, length_take, min_eq_left hi]
  have htake : text.take (i + pat.length) = text.take i ++ pat := by
    conv_lhs => rw [htext]
    rw [← hlen, take_left]
  refine ⟨?_, text.take i, htake.symm⟩
  rw [htext, length_append, hlen]
  exact Nat.le_add_right _ _

theorem prefix_drop (h : EndsAt pat text e) : pat <+: text.drop (e - pat.length) := by
  obtain ⟨hle, front, hfront⟩ := h
  have hlen : front.length + pat.length = e := by
    rw [← length_append, hfront, length_take, min_eq_left hle]
  have htext : text = front ++ (pat ++ text.drop e) := by
    rw [← append_assoc, hfront, take_append_drop]
  have hfront' : e - pat.length = front.length := by omega
  rw [hfront', htext, drop_left]
  exact prefix_append _ _

end EndsAt

/-- The place at which a search from `start` begins: a negative `start` counts from the end. -/
def searchStart (text : List α) (start : Int) : Nat :=
  if start < 0 then (text.length + start).toNat else start.toNat

/-- Where the search begins that skips what the text had before its last `n` letters. -/
theorem searchStart_window (hp : pat ≠ []) (hn : 0 < n) :
    searchStart text (1 - n - pat.length) = text.length + 1 - n - pat.length := by
  have hlen := length_pos_iff.mpr hp
  rw [searchStart, if_pos (by omega)]
  omega

section Search

variable [DecidableEq α]

/-- The first place at which `pat` stands in the text. -/
def firstPlace (pat : List α) : List α → Option Nat
  | [] => if pat = [] then some 0 else none
  | c :: text => if pat <+: c :: text then some 0 else (firstPlace pat text).map (· + 1)

theorem firstPlace_eq_some (h : firstPlace pat text = some i) :
    i ≤ text.length ∧ pat <+: text.drop i ∧ ∀ j < i, ¬ pat <+: text.drop j := by
  induction text generalizing i with
  | nil =>
    rw [firstPlace] at h
    split_ifs at h with hp
    cases h
    exact ⟨le_refl 0, by simp [hp], fun j hj => absurd hj (Nat.not_lt_zero j)⟩
  | cons c text ih =>
    rw [firstPlace] at h
    split_ifs at h with hp
    · cases h
      exact ⟨Nat.zero_le _, hp, fun j hj => absurd hj (Nat.not_lt_zero j)⟩
    · obtain ⟨i, hi, rfl⟩ := Option.map_eq_some_iff.mp h
      obtain ⟨hle, hat, hfirst⟩ := ih hi
      refine ⟨Nat.succ_le_succ hle, hat, fun j hj => ?_⟩
      cases j with
      | zero => exact hp
      | succ j => exact hfirst j (Nat.lt_of_succ_lt_succ hj)

theorem firstPlace_eq_none (h : firstPlace pat text = none) :
    ∀ j ≤ text.length, ¬ pat <+: text.drop j := by
  induction text with
  | nil =>
    intro j _ hat
    rw [firstPlace] at h
    split_ifs at h with hp
    rw [drop_nil] at hat
    exact hp (prefix_nil.mp hat)
  | cons c text ih =>
    intro j hj
    rw [firstPlace] at h
    split_ifs at h with hp
    cases j with
    | zero => exact hp
    | succ j => exact ih (Option.map_eq_none_iff.mp h) j (Nat.le_of_succ_le_succ hj)

/-- `text.find(pat, start)`, with `none` for `-1`. -/
def strFind (text pat : List α) (start : Int) : Option Nat :=
  if searchStart text start ≤ text.length then
    (firstPlace pat (text.drop (searchStart text start))).map (searchStart text start + ·)
  else none

theorem strFind_eq_some {start : Int} (h : strFind text pat start = some i) :
    searchStart text start ≤ i ∧ i ≤ text.length ∧ pat <+: text.drop i ∧
      ∀ j, searchStart text start ≤ j → j < i → ¬ pat <+: text.drop j := by
  rw [strFind] at h
  split_ifs at h with hstart
  obtain ⟨k, hk, rfl⟩ := Option.map_eq_some_iff.mp h
  obtain ⟨hle, hat, hfirst⟩ := firstPlace_eq_some hk
  rw [length_drop] at hle
  refine ⟨Nat.le_add_right _ _, by omega, ?_, fun j hj hji => ?_⟩
  · rwa [drop_drop] at hat
  · have hj' := hfirst (j - searchStart text start) (by omega)
    rwa [drop_drop, Nat.add_sub_cancel' hj] at hj'

theorem strFind_eq_none {start : Int} (h : strFind text pat start = none) :
    ∀ j, searchStart text start ≤ j → j ≤ text.length → ¬ pat <+: text.drop j := by
  intro j hj hle
  rw [strFind, if_pos (hj.trans hle)] at h
  have hnone := firstPlace_eq_none (Option.map_eq_none_iff.mp h) (j - searchStart text start)
    (by rw [length_drop]; omega)
  rwa [drop_drop, Nat.add_sub_cancel' hj] at hnone

/-- A search that begins just far enough back finds what the last `n` letters complete first. -/
theorem strFind_window_some (hp : pat ≠ []) (hn : 0 < n) (hle : n ≤ text.length)
    (h : strFind text pat (1 - n - pat.length) = some i) :
    FirstEnd pat text (text.length - n) (i + pat.length) := by
  obtain ⟨hstart, hi, hat, hfirst⟩ := strFind_eq_some h
  rw [searchStart_window hp hn] at hstart hfirst
  have hends := EndsAt.of_prefix_drop hi hat
  refine ⟨hends, by omega, fun e he hend => ?_⟩
  by_contra hlt
  have hlen' := hend.length_le
  exact hfirst (e - pat.length) (by omega) (by omega) hend.prefix_drop

theorem strFind_window_none (hp : pat ≠ []) (hn : 0 < n)
    (h : strFind text pat (1 - n - pat.length) = none) (he : text.length - n < e) :
    ¬ EndsAt pat text e := by
  intro hend
  have hle := hend.1
  have hstart := @searchStart_window _ _ text _ hp hn
  exact strFind_eq_none h (e - pat.length) (by omega) (by omega) hend.prefix_drop

end Search

end MyOperator.Lib
