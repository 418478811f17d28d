import Mathlib

/-!
# Rows of parallel arrays

A batch kept as parallel arrays, one row for each member. Members are moved by
copying a row down or by exchanging two rows; long rows are copied only as far as
they are in use. The lemmas say what each of these leaves at every row.
-/

namespace MyOperator.Lib

open Function

variable {V : Type*}

/-- `a[dst] = a[src]`. -/
def copyRow (a : Nat → V) (src dst : Nat) : Nat → V := update a dst (a src)

/-- `a[i], a[j] = a[j], a[i]`. -/
def swapRow (a : Nat → V) (i j : Nat) : Nat → V := update (update a i (a j)) j (a i)

/-- A value popped at `src` is put at `dst`; nothing happens where there is none. -/
def moveEntry (d : Nat → Option V) (src dst : Nat) : Nat → Option V :=
  match d src with
  | none => d
  | some v => update (update d src none) dst (some v)

/-- The values of two keys are exchanged, the key of an absent one popped. -/
def swapEntry (d : Nat → Option V) (i j : Nat) : Nat → Option V := update (update d j (d i)) i (d j)

/-- `new` up to column `n`, `old` behind. -/
def overlay (n : Nat) (new old : Nat → V) : Nat → V := fun p => if p < n then new p else old p

/-- `t[dst, :n] = t[src, :n]`. -/
def copyPrefix (t : Nat → Nat → V) (src dst n : Nat) : Nat → Nat → V :=
  update t dst (overlay n (t src) (t dst))

/-- The first `n` columns of two rows are exchanged. -/
def swapPrefix (t : Nat → Nat → V) (i j n : Nat) : Nat → Nat → V :=
  update (update t i (overlay n (t j) (t i))) j (overlay n (t i) (t j))

/-- `row[start : start + len(vals)] = vals`. -/
def writeAt (row : Nat → V) (start : Nat) (vals : List V) : Nat → V := fun p =>
  if start ≤ p then vals.getD (p - start) (row p) else row p

/-- `row[start : stop] = v`. -/
def fillAt (row : Nat → V) (start stop : Nat) (v : V) : Nat → V := fun p =>
  if start ≤ p ∧ p < stop then v else row p

variable {a : Nat → V} {d : Nat → Option V} {t : Nat → Nat → V} {row : Nat → V}
  {i j r src dst n p start stop : Nat} {v : V} {vals : List V}

@[simp] theorem copyRow_dst : copyRow a src dst dst = a src := update_self ..

@[simp] theorem copyRow_of_ne (h : r ≠ dst) : copyRow a src dst r = a r := update_of_ne h ..

theorem swapRow_apply : swapRow a i j r = if r = j then a i else if r = i then a j else a r := by
  rw [swapRow, update_apply, update_apply]

@[simp] theorem swapRow_right : swapRow a i j j = a i := update_self ..

@[simp] theorem swapRow_left : swapRow a i j i = a j := by
  rw [swapRow]
  by_cases h : i = j
  · subst h
    exact update_self ..
  · rw [update_of_ne h, update_self]

@[simp] theorem swapRow_of_ne (hi : r ≠ i) (hj : r ≠ j) : swapRow a i j r = a r := by
  rw [swapRow, update_of_ne hj, update_of_ne hi]

theorem swapEntry_eq : swapEntry d i j = swapRow d i j := by
  by_cases h : i = j
  · subst h
    rfl
  · exact update_comm (Ne.symm h) ..

theorem moveEntry_dst (h : (d src).isSome ∨ d dst = none) : moveEntry d src dst dst = d src := by
  rw [moveEntry]
  cases hs : d src with
  | none => simpa [hs] using h
  | some v => exact update_self ..

theorem moveEntry_src (h : src ≠ dst) : moveEntry d src dst src = none := by
  rw [moveEntry]
  cases hs : d src with
  | none => exact hs
  | some v => simp [update_of_ne h]

@[simp] theorem moveEntry_of_ne (hs : r ≠ src) (hd : r ≠ dst) : moveEntry d src dst r = d r := by
  rw [moveEntry]
  cases d src with
  | none => rfl
  | some v => simp [update_of_ne hs, update_of_ne hd]

theorem overlay_of_lt {new old : Nat → V} (h : p < n) : overlay n new old p = new p := if_pos h

@[simp] theorem copyPrefix_of_ne (h : r ≠ dst) : copyPrefix t src dst n r = t r := update_of_ne h ..

theorem copyPrefix_dst (h : p < n) : copyPrefix t src dst n dst p = t src p := by
  rw [copyPrefix, update_self, overlay_of_lt h]

theorem swapPrefix_right (h : p < n) : swapPrefix t i j n j p = t i p := by
  rw [swapPrefix, update_self, overlay_of_lt h]

theorem swapPrefix_left (h : p < n) : swapPrefix t i j n i p = t j p := by
  rw [swapPrefix]
  by_cases hij : i = j
  · subst hij
    rw [update_self, overlay_of_lt h]
  · rw [update_of_ne hij, update_self, overlay_of_lt h]

@[simp] theorem swapPrefix_of_ne (hi : r ≠ i) (hj : r ≠ j) : swapPrefix t i j n r = t r := by
  rw [swapPrefix, update_of_ne hj, update_of_ne hi]

theorem writeAt_of_lt (h : p < start) : writeAt row start vals p = row p := if_neg (by omega)

theorem writeAt_of_le (h : start + vals.length ≤ p) : writeAt row start vals p = row p := by
  rw [writeAt]
  split_ifs with hp
  · exact List.getD_eq_default _ _ (by omega)
  · rfl

theorem writeAt_add (h : p < vals.length) : writeAt row start vals (start + p) = vals[p] := by
  rw [writeAt, if_pos (by omega), Nat.add_sub_cancel_left, List.getD_eq_getElem _ _ h]

theorem writeAt_eq_self_of_nil : writeAt row start [] p = row p := by
  by_cases h : p < start
  · exact writeAt_of_lt h
  · exact writeAt_of_le (Nat.le_of_not_lt h)

theorem fillAt_of_lt (h : p < start) : fillAt row start stop v p = row p := if_neg (by omega)

theorem fillAt_mem (h : start ≤ p) (h' : p < stop) : fillAt row start stop v p = v := if_pos ⟨h, h'⟩

end MyOperator.Lib
