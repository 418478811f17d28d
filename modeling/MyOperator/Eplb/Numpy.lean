import MyOperator.Lib.TSys

/-!
# Arrays

The array operations that the expert placement is written with. A row of an array is a
list; an index may count from the end. `argsort` is a parameter: the order that it gives
to equal entries is not documented.
-/

namespace MyOperator.Eplb

open Lib Function Option List Nat

/-- What the code may raise. -/
inductive NumpyError
  | AssertionError
  | IndexError
  | ValueError
  | ZeroDivisionError
  deriving DecidableEq, Repr

/-- `assert c`. -/
def assert (c : Bool) : Except NumpyError Unit := if c then .ok () else .error .AssertionError

/-- `assert a % b == 0`. -/
def assertDivisible (a b : Nat) : Except NumpyError Unit :=
  if b = 0 then .error .ZeroDivisionError else assert (a % b = 0)

variable {α β : Type}

/-- The position that an index means in a row of length `n`. -/
def position (n : Nat) (i : Int) : Except NumpyError Nat :=
  if 0 ≤ i ∧ i < n then .ok i.toNat
  else if i < 0 ∧ -n ≤ i then .ok (n + i).toNat
  else .error .IndexError

/-- `row[i]`. -/
def item (row : List α) (i : Int) : Except NumpyError α := do
  let k ← position row.length i
  match row[k]? with
  | some a => .ok a
  | none => .error .IndexError

/-- `row[i] = a`. -/
def setItem (row : List α) (i : Int) (a : α) : Except NumpyError (List α) := do
  let k ← position row.length i
  return row.set k a

/-- `np.take_along_axis(row, indices)`. -/
def takeAlong (row : List α) (indices : List Int) : Except NumpyError (List α) :=
  indices.mapM (item row)

/-- `np.arange(n)`. -/
def arange (n : Nat) : List Int := (range n).map fun i : Nat => (i : Int)

/-- A row reshaped to `count` rows of `k` entries. -/
def reshape (count k : Nat) (row : List α) : List (List α) :=
  (range count).map fun i => (row.drop (i * k)).take k

/-- The first index whose entry no other one beats. -/
def firstBest (beats : α → α → Bool) : List α → Option Nat
  | [] => none
  | a :: l =>
    match firstBest beats l with
    | none => some 0
    | some i =>
      match l[i]? with
      | some b => if beats b a then some (i + 1) else some 0
      | none => some 0

def argmin [LinearOrder α] (row : List α) : Except NumpyError Nat :=
  match firstBest (fun a b => a < b) row with
  | some i => .ok i
  | none => .error .ValueError

def argmax [LinearOrder α] (row : List α) : Except NumpyError Nat :=
  match firstBest (fun a b => b < a) row with
  | some i => .ok i
  | none => .error .ValueError

/-- `np.argsort`: some permutation of the indices that sorts the entries. -/
structure Argsort where
  argsort : {α : Type} → [LinearOrder α] → List α → List Nat
  perm : ∀ {α : Type} [LinearOrder α] (row : List α), (argsort row).Perm (range row.length)
  sorted : ∀ {α : Type} [LinearOrder α] (row : List α), (argsort row).Pairwise
    fun i j => ∀ a ∈ row[i]?, ∀ b ∈ row[j]?, a ≤ b

/-- Equal entries in the order of their indices. -/
def Argsort.stable : Argsort where
  argsort {α} _ row := (range row.length).mergeSort fun i j =>
    match row[i]?, row[j]? with
    | some a, some b => decide (a ≤ b)
    | none, _ => true
    | _, none => false
  perm row := List.mergeSort_perm _ _
  sorted {α} _ row := by
    let le : Nat → Nat → Bool := fun i j =>
      match row[i]?, row[j]? with
      | some a, some b => decide (a ≤ b)
      | none, _ => true
      | _, none => false
    have htrans : ∀ i j k, le i j = true → le j k = true → le i k = true := by
      intro i j k
      simp only [le]
      cases row[i]? <;> cases row[j]? <;> cases row[k]? <;> simp
      exact fun h1 h2 => h1.trans h2
    have htotal : ∀ i j, (le i j || le j i) = true := by
      intro i j
      simp only [le]
      cases row[i]? <;> cases row[j]? <;> simp
      exact le_total _ _
    refine (List.pairwise_mergeSort htrans htotal _).imp ?_
    intro i j hij a ha b hb
    simp only [le, mem_def.mp ha, mem_def.mp hb, decide_eq_true_eq] at hij
    exact hij

/-! ## Rows as functions -/

/-- The row of the first `n` values of a function. -/
def row (n : Nat) (f : Nat → α) : List α := (range n).map f

variable {n m : Nat} {f g : Nat → α}

@[simp] theorem length_row : (row n f).length = n := by
  rw [row, length_map, length_range]

variable {i : Nat} {l : List α}

theorem getElem?_row : (row n f)[i]? = if i < n then some (f i) else none := by
  by_cases h : i < n
  · rw [if_pos h, row, List.getElem?_map, List.getElem?_range h, map_some]
  · rw [if_neg h, List.getElem?_eq_none]
    rw [length_row]
    exact not_lt.mp h

theorem row_congr (h : ∀ i, i < n → f i = g i) : row n f = row n g :=
  map_congr_left fun i hi => h i (mem_range.mp hi)

theorem mem_row {a : α} : a ∈ row n f ↔ ∃ i, i < n ∧ f i = a := by
  simp only [row, List.mem_map, List.mem_range]

theorem map_row (h : α → β) : (row n f).map h = row n fun i => h (f i) := List.map_map

theorem eq_row (hlen : l.length = n) (h : ∀ i, i < n → l[i]? = some (f i)) : l = row n f := by
  refine List.ext_getElem? fun i => ?_
  rw [getElem?_row]
  by_cases hi : i < n
  · rw [if_pos hi, h i hi]
  · rw [if_neg hi, List.getElem?_eq_none]
    rw [hlen]
    exact not_lt.mp hi

theorem exists_row [Inhabited α] (hlen : l.length = n) : ∃ f, l = row n f := by
  refine ⟨fun i => l.getD i default, eq_row hlen fun i hi => ?_⟩
  rw [List.getD_eq_getElem?_getD, List.getElem?_eq_getElem (hlen.symm ▸ hi)]
  rfl

theorem zipWith_row {γ : Type} {b : Nat → β} (h : α → β → γ) :
    zipWith h (row n f) (row n b) = row n fun i => h (f i) (b i) := by
  refine eq_row ?_ fun i hi => ?_
  · rw [length_zipWith, length_row, length_row, min_self]
  · rw [List.getElem?_zipWith, getElem?_row, getElem?_row, if_pos hi, if_pos hi]

theorem replicate_eq_row (a : α) : replicate n a = row n fun _ => a :=
  eq_row length_replicate fun i hi => by rw [List.getElem?_replicate, if_pos hi]

theorem set_row (i : Nat) (a : α) : (row n f).set i a = row n (update f i a) := by
  refine eq_row ?_ fun j hj => ?_
  · rw [length_set, length_row]
  · rw [List.getElem?_set, length_row]
    by_cases hij : i = j
    · rw [if_pos hij, if_pos (hij ▸ hj), hij, update_self]
    · rw [if_neg hij, getElem?_row, if_pos hj, update_of_ne (Ne.symm hij)]

theorem modify_row (i : Nat) (g : α → α) : (row n f).modify i g = row n (update f i (g (f i))) := by
  refine eq_row ?_ fun j hj => ?_
  · rw [length_modify, length_row]
  · rw [List.getElem?_modify, getElem?_row, if_pos hj]
    show some (if i = j then g (f j) else f j) = _
    by_cases hij : i = j
    · rw [if_pos hij, ← hij, update_self]
    · rw [if_neg hij, update_of_ne (Ne.symm hij)]

theorem getD_row (h : i < n) (a : α) : (row n f).getD i a = f i := by
  rw [List.getD_eq_getElem?_getD, getElem?_row, if_pos h]
  rfl

theorem zipIdx_row : (row n f).zipIdx = row n fun i => (f i, i) := by
  refine eq_row ?_ fun i hi => ?_
  · rw [length_zipIdx, length_row]
  · rw [List.getElem?_zipIdx, getElem?_row, if_pos hi, zero_add]
    rfl

theorem row_succ : row (n + 1) f = row n f ++ [f n] := by
  rw [row, List.range_succ, map_append]
  rfl

theorem position_natCast (h : i < n) : position n (i : Int) = .ok i := by
  unfold position
  rw [if_pos ⟨Int.natCast_nonneg i, Int.ofNat_lt.mpr h⟩]
  rfl

theorem item_natCast {a : α} (h : l[i]? = some a) : item l (i : Int) = .ok a := by
  have hi : i < l.length := lt_of_getElem? h
  unfold item
  rw [position_natCast hi, ok_bind, h]

theorem setItem_natCast (h : i < l.length) (a : α) : setItem l (i : Int) a = .ok (l.set i a) := by
  unfold setItem
  rw [position_natCast h]
  rfl

theorem item_row (h : i < n) : item (row n f) (i : Int) = .ok (f i) :=
  item_natCast (by rw [getElem?_row, if_pos h])

theorem setItem_row (h : i < n) (a : α) :
    setItem (row n f) (i : Int) a = .ok (row n (update f i a)) := by
  rw [setItem_natCast (by rwa [length_row]), set_row]

theorem takeAlong_row {i : Nat → Nat} (h : ∀ j, j < m → i j < n) :
    takeAlong (row n f) (row m fun j => (i j : Int)) = .ok (row m fun j => f (i j)) := by
  unfold takeAlong
  have hmap : (row m fun j => (i j : Int)).mapM (item (row n f)) =
      (range m).mapM fun j => item (row n f) (i j : Int) := List.mapM_map
  rw [hmap]
  refine mapM_ok fun j hj => item_natCast ?_
  rw [getElem?_row, if_pos (h j (mem_range.mp hj))]

theorem drop_take_row (i k : Nat) (h : i * k + k ≤ n) :
    ((row n f).drop (i * k)).take k = row k fun j => f (i * k + j) := by
  refine eq_row ?_ fun j hj => ?_
  · rw [length_take, length_drop, length_row]
    omega
  · rw [List.getElem?_take, if_pos hj, List.getElem?_drop, getElem?_row, if_pos (by omega)]

theorem reshape_row {count k : Nat} :
    reshape count k (row (count * k) f) = row count fun i => row k fun j => f (i * k + j) := by
  refine map_congr_left fun i hi => drop_take_row i k ?_
  rw [← succ_mul]
  exact Nat.mul_le_mul_right k (mem_range.mp hi)

theorem flatten_row {count k : Nat} {f : Nat → Nat → α} :
    (row count fun i => row k (f i)).flatten = row (count * k) fun j => f (j / k) (j % k) := by
  induction count with
  | zero =>
    rw [Nat.zero_mul]
    rfl
  | succ count ih =>
    rw [row_succ, List.flatten_append, ih, List.flatten_singleton]
    refine eq_row ?_ fun j hj => ?_
    · rw [length_append, length_row, length_row, succ_mul]
    · rcases lt_or_ge j (count * k) with hlt | hge
      · rw [List.getElem?_append_left (by rwa [length_row]), getElem?_row, if_pos hlt]
      · rw [succ_mul] at hj
        rw [List.getElem?_append_right (by rwa [length_row]), length_row, getElem?_row,
          if_pos (by omega)]
        have hk : 0 < k := by omega
        obtain ⟨d, rfl⟩ := Nat.exists_eq_add_of_le hge
        have hd : d < k := by omega
        rw [add_comm (count * k), add_mul_div_right _ _ hk, add_mul_mod_self_right,
          div_eq_of_lt hd, mod_eq_of_lt hd, Nat.zero_add, Nat.add_sub_cancel]

/-! ## Best entries -/

theorem firstBest_isSome (beats : α → α → Bool) (h : l ≠ []) : ∃ i, firstBest beats l = some i := by
  cases l with
  | nil => exact absurd rfl h
  | cons a l =>
    unfold firstBest
    split
    · exact ⟨_, rfl⟩
    · split
      · split
        · exact ⟨_, rfl⟩
        · exact ⟨_, rfl⟩
      · exact ⟨_, rfl⟩

theorem firstBest_spec {beats : α → α → Bool} (good : α → α → Prop) (hrefl : ∀ a, good a a)
    (htrans : ∀ a b c, good a b → good b c → good a c)
    (hbeats : ∀ a b, if beats a b then good a b else good b a) (h : firstBest beats l = some i) :
    ∃ a, l[i]? = some a ∧ ∀ b ∈ l, good a b := by
  induction l generalizing i with
  | nil => cases h
  | cons a l ih =>
    unfold firstBest at h
    cases hrest : firstBest beats l with
    | none =>
      rw [hrest] at h
      cases h
      have hl : l = [] := by
        by_contra hne
        obtain ⟨j, hj⟩ := firstBest_isSome beats hne
        rw [hrest] at hj
        cases hj
      refine ⟨a, rfl, fun b hb => ?_⟩
      rw [hl, mem_singleton] at hb
      exact hb ▸ hrefl a
    | some j =>
      obtain ⟨c, hc, hbest⟩ := ih hrest
      rw [hrest] at h
      dsimp only at h
      rw [hc] at h
      dsimp only at h
      have hca := hbeats c a
      by_cases hbeat : beats c a = true
      · rw [if_pos hbeat] at h hca
        cases h
        refine ⟨c, hc, fun b hb => ?_⟩
        rcases mem_cons.mp hb with rfl | hb
        · exact hca
        · exact hbest b hb
      · rw [if_neg hbeat] at h hca
        cases h
        refine ⟨a, rfl, fun b hb => ?_⟩
        rcases mem_cons.mp hb with rfl | hb
        · exact hrefl b
        · exact htrans a c b hca (hbest b hb)

theorem argmin_spec [LinearOrder α] (h : l ≠ []) :
    ∃ i a, argmin l = .ok i ∧ l[i]? = some a ∧ ∀ b ∈ l, a ≤ b := by
  obtain ⟨i, hi⟩ := firstBest_isSome (fun a b => decide (a < b)) h
  obtain ⟨a, ha, hbest⟩ := firstBest_spec (fun a b => a ≤ b) le_refl
    (fun _ _ _ => le_trans) (fun a b => by
      by_cases hlt : a < b
      · simp [hlt, hlt.le]
      · simp [hlt, not_lt.mp hlt]) hi
  refine ⟨i, a, ?_, ha, hbest⟩
  unfold argmin
  rw [hi]

theorem argmax_spec [LinearOrder α] (h : l ≠ []) :
    ∃ i a, argmax l = .ok i ∧ l[i]? = some a ∧ ∀ b ∈ l, b ≤ a :=
  argmin_spec (α := αᵒᵈ) h

end MyOperator.Eplb
