import MyOperator.Worker.LogitsProcs

/-!
# The processors follow the batch

What each processor does with one batch update, compared with `follow`. Min-p and the
sparse processors follow every well-formed update; the thinking processor does unless a
row without an entry moves to a row that kept one.
-/

namespace MyOperator.Worker

open Function Lib List Dict

variable {N : Nat} {u : BatchUpdate}

/-! ## Min-p -/

/-- The number of rows below `N` with a non-zero value. -/
def countNonzero (N : Nat) (f : Nat → Rat) : Int := ∑ r ∈ Finset.range N, if f r ≠ 0 then 1 else 0

theorem countNonzero_update {f : Nat → Rat} {i : Nat} {v : Rat} (hi : i < N) :
    countNonzero N (update f i v) + (if f i ≠ 0 then 1 else 0) =
      countNonzero N f + if v ≠ 0 then 1 else 0 := by
  have hmem : i ∈ Finset.range N := Finset.mem_range.mpr hi
  rw [countNonzero, countNonzero, ← Finset.add_sum_erase _ _ hmem, ← Finset.add_sum_erase _ _ hmem,
    update_self]
  have hrest : ∑ r ∈ (Finset.range N).erase i, (if update f i v r ≠ 0 then (1 : Int) else 0) =
      ∑ r ∈ (Finset.range N).erase i, if f r ≠ 0 then 1 else 0 := by
    refine Finset.sum_congr rfl fun r hr => ?_
    rw [update_of_ne (Finset.ne_of_mem_erase hr)]
  rw [hrest]
  omega

theorem eq_zero_of_countNonzero {f : Nat → Rat} (h : countNonzero N f = 0) {r : Nat} (hr : r < N) :
    f r = 0 := by
  by_contra hne
  have hsum := (Finset.sum_eq_zero_iff_of_nonneg fun r _ => by split_ifs <;> omega).mp h r
    (Finset.mem_range.mpr hr)
  simp [hne] at hsum

theorem countNonzero_of_le {M : Nat} {f : Nat → Rat} (hle : M ≤ N) (hf : ∀ r, M ≤ r → f r = 0) :
    countNonzero N f = countNonzero M f := by
  refine (Finset.sum_subset (Finset.range_mono hle) fun r _ hr => ?_).symm
  rw [hf r (by simpa using hr)]
  rfl

namespace MinPLogitsProcessor

variable {p : MinPLogitsProcessor} {a : AddedRequest} {m : MovedRequest} {i : Nat}

/-- The count is the number of non-zero rows, and the rows behind the last are zero. -/
structure Exact (p : MinPLogitsProcessor) (N : Nat) : Prop where
  count : p.minPCount = countNonzero N p.minPCpu
  behind : ∀ r, N ≤ r → p.minPCpu r = 0

theorem minPCpu_processAdded :
    (p.processAdded a).minPCpu = update p.minPCpu a.index a.params.minP := by
  rw [processAdded]
  by_cases h : p.minPCpu a.index = a.params.minP
  · rw [if_neg (not_not.mpr h)]
    exact (update_eq_self_iff.mpr h.symm).symm
  · rw [if_pos h]

theorem minPCount_processAdded :
    (p.processAdded a).minPCount + (if p.minPCpu a.index ≠ 0 then 1 else 0) =
      p.minPCount + if a.params.minP ≠ 0 then 1 else 0 := by
  rw [processAdded]
  by_cases h : p.minPCpu a.index = a.params.minP
  · rw [if_neg (not_not.mpr h), h]
  · rw [if_pos h]
    by_cases ha : a.params.minP = 0
    · have hb : p.minPCpu a.index ≠ 0 := fun hb => h (hb.trans ha.symm)
      simp [ha, hb]
    · by_cases hb : p.minPCpu a.index = 0
      · simp [ha, hb]
      · simp [ha, hb]

theorem Exact.processAdded (h : p.Exact N) (ha : a.index < N) : (p.processAdded a).Exact N := by
  constructor
  · have hup := countNonzero_update (f := p.minPCpu) (v := a.params.minP) ha
    have hmin := minPCount_processAdded (p := p) (a := a)
    have hcount := h.count
    rw [minPCpu_processAdded]
    omega
  · intro r hr
    rw [minPCpu_processAdded, update_of_ne (by omega)]
    exact h.behind r hr

theorem minPCpu_processRemoved : (p.processRemoved i).minPCpu = update p.minPCpu i 0 := by
  rw [processRemoved]
  split_ifs with h
  · rfl
  · exact (update_eq_self_iff.mpr (not_not.mp h).symm).symm

theorem minPCount_processRemoved :
    (p.processRemoved i).minPCount + (if p.minPCpu i ≠ 0 then 1 else 0) = p.minPCount := by
  rw [processRemoved]
  by_cases h : p.minPCpu i = 0
  · simp [h]
  · simp [h]

theorem Exact.processRemoved (h : p.Exact N) (hi : i < N) : (p.processRemoved i).Exact N := by
  constructor
  · have hup := countNonzero_update (f := p.minPCpu) (v := 0) hi
    have hmin := minPCount_processRemoved (p := p) (i := i)
    have hcount := h.count
    rw [minPCpu_processRemoved]
    rw [if_neg (not_not.mpr rfl : ¬ (0 : Rat) ≠ 0)] at hup
    omega
  · intro r hr
    rw [minPCpu_processRemoved, update_of_ne (by omega)]
    exact h.behind r hr

theorem exchanged_eq :
    p.exchanged m = if m.direction = .swap then swapRow p.minPCpu m.src m.dst
      else update p.minPCpu m.dst (p.minPCpu m.src) := by
  rw [exchanged]
  by_cases hval : p.minPCpu m.src = p.minPCpu m.dst
  · rw [if_neg (not_not.mpr hval)]
    split_ifs
    · rw [swapRow, ← hval, update_eq_self, hval, update_eq_self]
    · rw [hval, update_eq_self]
  · rw [if_pos hval]
    split_ifs
    · have hrows : m.src ≠ m.dst := fun h => hval (congrArg _ h)
      exact update_comm hrows.symm ..
    · rfl

theorem minPCpu_processMoved (hne : m.direction = .unidirectional → m.src ≠ m.dst) :
    (p.processMoved m).minPCpu = moveTo 0 p.minPCpu m := by
  rw [processMoved]
  cases hd : m.direction with
  | swap =>
    rw [if_neg (by simp), moveTo_swap hd]
    exact exchanged_eq.trans (if_pos hd)
  | unidirectional =>
    have hex : p.exchanged m = update p.minPCpu m.dst (p.minPCpu m.src) :=
      exchanged_eq.trans (if_neg (by simp [hd]))
    rw [if_pos rfl, moveTo_unidirectional hd]
    show (if p.minPCpu m.src ≠ 0 then update (p.exchanged m) m.src 0 else p.exchanged m) = _
    rw [hex]
    by_cases hzero : p.minPCpu m.src = 0
    · rw [if_neg (not_not.mpr hzero)]
      refine (update_eq_self_iff.mpr ?_).symm
      rw [update_of_ne (hne hd)]
      exact hzero.symm
    · rw [if_pos hzero]

theorem countNonzero_swapRow {f : Nat → Rat} {j : Nat} (hi : i < N) (hj : j < N) :
    countNonzero N (swapRow f i j) = countNonzero N f := by
  have h1 := countNonzero_update (f := f) (v := f j) hi
  have h2 := countNonzero_update (f := update f i (f j)) (v := f i) hj
  rw [swapRow]
  by_cases hij : i = j
  · subst hij
    rw [update_self] at h2
    omega
  · rw [update_of_ne (Ne.symm hij)] at h2
    omega

theorem Exact.processMoved (h : p.Exact N) (hsrc : m.src < N) (hdst : m.dst < N)
    (hne : m.direction = .unidirectional → m.src ≠ m.dst) : (p.processMoved m).Exact N := by
  constructor
  · rw [minPCpu_processMoved hne, MinPLogitsProcessor.processMoved]
    have hcount := h.count
    cases hd : m.direction with
    | swap =>
      rw [if_neg (by simp), moveTo_swap hd]
      exact hcount.trans (countNonzero_swapRow hsrc hdst).symm
    | unidirectional =>
      have h1 := countNonzero_update (f := p.minPCpu) (v := p.minPCpu m.src) hdst
      have h2 := countNonzero_update (f := update p.minPCpu m.dst (p.minPCpu m.src)) (v := 0) hsrc
      rw [update_of_ne (hne hd)] at h2
      rw [if_pos rfl, moveTo_unidirectional hd]
      show (if p.minPCpu m.dst ≠ 0 then p.minPCount - 1 else p.minPCount) = _
      simp only [ne_eq, not_true_eq_false, if_false] at h2
      split_ifs at h1 h2 ⊢ <;> omega
  · intro r hr
    rw [minPCpu_processMoved hne]
    cases hd : m.direction with
    | swap =>
      rw [moveTo_swap hd, swapRow_of_ne (by omega) (by omega)]
      exact h.behind r hr
    | unidirectional =>
      rw [moveTo_unidirectional hd, update_of_ne (by omega), update_of_ne (by omega)]
      exact h.behind r hr

/-- A loop over the rows, by what one pass makes of them. -/
theorem foldl_exact {α : Type} {step : MinPLogitsProcessor → α → MinPLogitsProcessor}
    {row : (Nat → Rat) → α → Nat → Rat} {l : List α} (hexact : p.Exact N)
    (hstep : ∀ p : MinPLogitsProcessor, ∀ a ∈ l, p.Exact N →
      (step p a).minPCpu = row p.minPCpu a ∧ (step p a).Exact N) :
    (l.foldl step p).minPCpu = l.foldl row p.minPCpu ∧ (l.foldl step p).Exact N := by
  induction l generalizing p with
  | nil => exact ⟨rfl, hexact⟩
  | cons a l ih =>
    obtain ⟨hrow, ha⟩ := hstep p a mem_cons_self hexact
    have hrest := ih ha fun p b hb => hstep p b (mem_cons_of_mem _ hb)
    rw [hrow] at hrest
    exact hrest

theorem foldl_added (hexact : p.Exact N) {l : List AddedRequest} (hl : ∀ a ∈ l, a.index < N) :
    (l.foldl MinPLogitsProcessor.processAdded p).minPCpu = setRows (·.params.minP) l p.minPCpu ∧
      (l.foldl MinPLogitsProcessor.processAdded p).Exact N :=
  foldl_exact hexact fun _ a ha h => ⟨minPCpu_processAdded, h.processAdded (hl a ha)⟩

theorem foldl_removed (hexact : p.Exact N) {l : List Nat} (hl : ∀ r ∈ l, r < N) :
    (l.foldl MinPLogitsProcessor.processRemoved p).minPCpu = clearRows 0 l p.minPCpu ∧
      (l.foldl MinPLogitsProcessor.processRemoved p).Exact N := by
  rw [← foldl_clear]
  exact foldl_exact hexact fun _ a ha h => ⟨minPCpu_processRemoved, h.processRemoved (hl a ha)⟩

theorem foldl_moved (hexact : p.Exact N) {l : List MovedRequest}
    (hl : ∀ m ∈ l, m.src < N ∧ m.dst < N ∧ (m.direction = .unidirectional → m.src ≠ m.dst)) :
    (l.foldl MinPLogitsProcessor.processMoved p).minPCpu = l.foldl (moveTo 0) p.minPCpu ∧
      (l.foldl MinPLogitsProcessor.processMoved p).Exact N := by
  refine foldl_exact hexact fun _ m hm h => ?_
  obtain ⟨hsrc, hdst, hne⟩ := hl m hm
  exact ⟨minPCpu_processMoved hne, h.processMoved hsrc hdst hne⟩

theorem foldl_moveTo_zero {l : List MovedRequest} :
    l.foldl (moveTo 0) (fun _ => (0 : Rat)) = fun _ => 0 := by
  induction l with
  | nil => rfl
  | cons m l ih =>
    have hsame : moveTo 0 (fun _ => (0 : Rat)) m = fun _ => 0 := by
      rw [moveTo]
      cases m.direction <;> simp [swapRow]
    rw [foldl_cons, hsame]
    exact ih

theorem updateState_follows (hexact : p.Exact N) (hu : u.WellFormed N) :
    (p.updateState (some u)).minPCpu = follow 0 (·.params.minP) u p.minPCpu ∧
      (p.updateState (some u)).Exact N := by
  obtain ⟨hadded, hexact1⟩ := foldl_added hexact hu.added
  rw [updateState]
  split_ifs with hcount
  · obtain ⟨hremoved, hexact2⟩ := foldl_removed hexact1 hu.removed
    obtain ⟨hmoved, hexact3⟩ := foldl_moved hexact2 hu.moved
    refine ⟨?_, hexact3⟩
    rw [hmoved, hremoved, hadded, follow]
  · refine ⟨?_, hexact1⟩
    have hzero : (u.added.foldl MinPLogitsProcessor.processAdded p).minPCpu = fun _ => 0 := by
      funext r
      by_cases hr : r < N
      · refine eq_zero_of_countNonzero ?_ hr
        rw [← hexact1.count]
        exact not_not.mp hcount
      · exact hexact1.behind r (by omega)
    rw [follow, ← hadded, hzero]
    have hclear : clearRows 0 u.removed (fun _ => (0 : Rat)) = fun _ => 0 := by
      funext r
      simp [clearRows]
    rw [hclear, foldl_moveTo_zero]

end MinPLogitsProcessor

/-! ## Sparse processors -/

section processDictUpdates

variable {T : Type} {newState : AddedRequest → Option T} {s : Dict Nat T × Bool}
  {d : Dict Nat T} {a : AddedRequest} {m : MovedRequest} {i : Nat}

theorem get?_dictAdded :
    (dictAdded newState s a).1.get? = update s.1.get? a.index (newState a) := by
  funext r
  rw [dictAdded, update_apply]
  cases newState a with
  | some state => exact get?_set ..
  | none => exact get?_erase ..

theorem get?_dictRemoved : (dictRemoved s i).1.get? = update s.1.get? i none := by
  funext r
  rw [update_apply]
  exact get?_erase ..

theorem get?_dictMoved (hne : m.direction = .unidirectional → m.src ≠ m.dst) :
    (dictMoved s m).1.get? = moveTo none s.1.get? m := by
  funext r
  rw [dictMoved]
  cases hd : m.direction with
  | swap =>
    rw [moveTo_swap hd, swapRow_apply]
    cases ha : s.1.get? m.src with
    | none => cases hb : (s.1.erase m.src).get? m.dst <;> grind [get?_erase, get?_set]
    | some x => cases hb : (s.1.erase m.src).get? m.dst <;> grind [get?_erase, get?_set]
  | unidirectional =>
    have hij := hne hd
    rw [moveTo_unidirectional hd, update_apply, update_apply]
    cases ha : s.1.get? m.src with
    | none => cases hb : (s.1.erase m.src).get? m.dst <;> grind [get?_erase, get?_set]
    | some x => cases hb : (s.1.erase m.src).get? m.dst <;> grind [get?_erase, get?_set]

theorem get?_foldl_dictAdded (l : List AddedRequest) (s : Dict Nat T × Bool) :
    (l.foldl (dictAdded newState) s).1.get? = setRows newState l s.1.get? := by
  induction l generalizing s with
  | nil => rfl
  | cons a l ih =>
    rw [foldl_cons, ih, get?_dictAdded]
    rfl

theorem get?_foldl_dictRemoved (l : List Nat) (s : Dict Nat T × Bool) :
    (l.foldl dictRemoved s).1.get? = clearRows none l s.1.get? := by
  rw [← foldl_clear]
  induction l generalizing s with
  | nil => rfl
  | cons a l ih => rw [foldl_cons, ih, get?_dictRemoved, foldl_cons]

theorem get?_foldl_dictMoved {l : List MovedRequest}
    (hl : ∀ m ∈ l, m.direction = .unidirectional → m.src ≠ m.dst) (s : Dict Nat T × Bool) :
    (l.foldl dictMoved s).1.get? = l.foldl (moveTo none) s.1.get? := by
  induction l generalizing s with
  | nil => rfl
  | cons m l ih =>
    rw [foldl_cons, ih (fun b hb => hl b (mem_cons_of_mem _ hb)),
      get?_dictMoved (hl m mem_cons_self), foldl_cons]

theorem foldl_moveTo_none {l : List MovedRequest} :
    l.foldl (moveTo none) (fun _ => (none : Option T)) = fun _ => none := by
  induction l with
  | nil => rfl
  | cons m l ih =>
    have hsame : moveTo none (fun _ => (none : Option T)) m = fun _ => none := by
      rw [moveTo]
      cases m.direction <;> simp [swapRow]
    rw [foldl_cons, hsame]
    exact ih

theorem processDictUpdates_follows (hu : u.WellFormed N) :
    (processDictUpdates d newState (some u)).1.get? = follow none newState u d.get? := by
  have hadded : (u.added.foldl (dictAdded newState) (d, false)).1.get? =
      setRows newState u.added d.get? := get?_foldl_dictAdded u.added (d, false)
  rw [processDictUpdates]
  split_ifs with hnil
  · rw [get?_foldl_dictMoved fun m hm => (hu.moved m hm).2.2, get?_foldl_dictRemoved, hadded, follow]
  · have hnone : (u.added.foldl (dictAdded newState) (d, false)).1.get? = fun _ => none := by
      funext r
      rw [Dict.get?, not_not.mp hnil]
      rfl
    rw [follow, ← hadded, hnone]
    have hclear : clearRows none u.removed (fun _ => (none : Option T)) = fun _ => none := by
      funext r
      simp [clearRows]
    rw [hclear, foldl_moveTo_none]

theorem dictAdded_false (h : (dictAdded newState s a).2 = false) :
    s.2 = false ∧ (dictAdded newState s a).1 = s.1 := by
  rw [dictAdded] at h ⊢
  cases hn : newState a with
  | some state =>
    rw [hn] at h
    cases h
  | none =>
    rw [hn] at h
    obtain ⟨h1, h2⟩ := (Bool.or_eq_false_iff).mp h
    exact ⟨h1, erase_of_get?_eq_none (Option.not_isSome_iff_eq_none.mp (by
      rw [Dict.contains] at h2
      simp [h2]))⟩

theorem dictRemoved_false (h : (dictRemoved s i).2 = false) :
    s.2 = false ∧ (dictRemoved s i).1 = s.1 := by
  obtain ⟨h1, h2⟩ := (Bool.or_eq_false_iff).mp h
  exact ⟨h1, erase_of_get?_eq_none (Option.not_isSome_iff_eq_none.mp (by
    rw [Dict.contains] at h2
    simp [h2]))⟩

theorem dictMoved_false (h : (dictMoved s m).2 = false) :
    s.2 = false ∧ (dictMoved s m).1 = s.1 := by
  rw [dictMoved] at h ⊢
  cases ha : s.1.get? m.src with
  | none =>
    have hsrc : s.1.erase m.src = s.1 := erase_of_get?_eq_none ha
    rw [ha, hsrc] at h
    rw [hsrc]
    cases hb : s.1.get? m.dst with
    | none =>
      rw [hb] at h
      exact ⟨h, erase_of_get?_eq_none hb⟩
    | some x =>
      rw [hb] at h
      cases h
  | some x =>
    rw [ha] at h
    cases hb : (s.1.erase m.src).get? m.dst <;> simp [hb] at h

theorem foldl_false {α : Type} {f : Dict Nat T × Bool → α → Dict Nat T × Bool}
    (hf : ∀ s a, (f s a).2 = false → s.2 = false ∧ (f s a).1 = s.1) {l : List α}
    {s : Dict Nat T × Bool} (h : (l.foldl f s).2 = false) :
    s.2 = false ∧ (l.foldl f s).1 = s.1 := by
  induction l generalizing s with
  | nil => exact ⟨h, rfl⟩
  | cons a l ih =>
    obtain ⟨h1, h2⟩ := ih h
    obtain ⟨h3, h4⟩ := hf s a h1
    exact ⟨h3, h2.trans h4⟩

theorem processDictUpdates_false {u : Option BatchUpdate}
    (h : (processDictUpdates d newState u).2 = false) : (processDictUpdates d newState u).1 = d := by
  cases u with
  | none => rfl
  | some u =>
    rw [processDictUpdates] at h ⊢
    split_ifs at h ⊢
    · obtain ⟨h1, hmoved⟩ := foldl_false (fun s m => dictMoved_false) h
      obtain ⟨h2, hremoved⟩ := foldl_false (fun s i => dictRemoved_false) h1
      obtain ⟨-, hadded⟩ := foldl_false (fun s a => dictAdded_false) h2
      exact hmoved.trans (hremoved.trans hadded)
    · exact (foldl_false (fun s a => dictAdded_false) h).2

theorem LogitBiasLogitsProcessor.logitsSlice_updateState {p : LogitBiasLogitsProcessor}
    {u : Option BatchUpdate} (h : p.logitsSlice = sliceOf p.biases) :
    (p.updateState u).logitsSlice = sliceOf (p.updateState u).biases := by
  have hsame : (processDictUpdates p.biases LogitBiasLogitsProcessor.newState u).2 = false →
      (processDictUpdates p.biases LogitBiasLogitsProcessor.newState u).1 = p.biases :=
    processDictUpdates_false
  rw [updateState]
  generalize processDictUpdates p.biases LogitBiasLogitsProcessor.newState u = x at hsame
  show (if x.2 = true then sliceOf x.1 else p.logitsSlice) = sliceOf x.1
  split_ifs with hcase
  · rfl
  · rw [h]
    exact congrArg sliceOf (hsame (Bool.eq_false_iff.mpr hcase)).symm

theorem MinTokensLogitsProcessor.logitsSlice_updateState {p : MinTokensLogitsProcessor}
    {outputs : Outputs} {u : Option BatchUpdate} (h : p.logitsSlice = sliceOf p.minToks) :
    (p.updateState outputs u).logitsSlice = sliceOf (p.updateState outputs u).minToks := by
  have hsame : (processDictUpdates p.minToks (MinTokensLogitsProcessor.newState outputs) u).2 = false →
      (processDictUpdates p.minToks (MinTokensLogitsProcessor.newState outputs) u).1 = p.minToks :=
    processDictUpdates_false
  rw [updateState]
  generalize processDictUpdates p.minToks (MinTokensLogitsProcessor.newState outputs) u = x at hsame
  show (if x.2 = true ∨ toRemove outputs x.1 ≠ [] then
    sliceOf ((toRemove outputs x.1).foldl Dict.erase x.1) else p.logitsSlice) =
      sliceOf ((toRemove outputs x.1).foldl Dict.erase x.1)
  split_ifs with hcase
  · rfl
  · obtain ⟨hfalse, hnil⟩ := not_or.mp hcase
    rw [not_not.mp hnil, h]
    exact congrArg sliceOf (hsame (Bool.eq_false_iff.mpr hfalse)).symm

end processDictUpdates

/-! ## Min-tokens -/

namespace MinTokensLogitsProcessor

variable {outputs : Outputs} {p : MinTokensLogitsProcessor}

theorem mem_toRemove {d : Dict Nat MinTokensEntry} {r : Nat} :
    r ∈ toRemove outputs d ↔ ∃ e, d.get? r = some e ∧ attained outputs e = true := by
  rw [toRemove, mem_map]
  constructor
  · rintro ⟨⟨k, e⟩, hmem, rfl⟩
    obtain ⟨hentry, hatt⟩ := mem_filter.mp hmem
    exact ⟨e, mem_entries_iff.mp hentry, hatt⟩
  · rintro ⟨e, he, hatt⟩
    exact ⟨(r, e), mem_filter.mpr ⟨mem_entries_iff.mpr he, hatt⟩, rfl⟩

/-- The entries of requests that have generated their minimum are dropped at the end. -/
theorem get?_updateState {u : Option BatchUpdate} :
    (p.updateState outputs u).minToks.get? = fun r =>
      ((processDictUpdates p.minToks (newState outputs) u).1.get? r).filter
        fun e => !attained outputs e := by
  funext r
  rw [updateState]
  generalize processDictUpdates p.minToks (newState outputs) u = x
  show (List.foldl Dict.erase x.1 (toRemove outputs x.1)).get? r = _
  rw [get?_foldl_erase]
  cases he : x.1.get? r with
  | none => simp
  | some e =>
    rw [Option.filter_some]
    by_cases hatt : attained outputs e = true
    · rw [if_pos (mem_toRemove.mpr ⟨e, he, hatt⟩)]
      simp [hatt]
    · rw [if_neg]
      · simp [hatt]
      · rintro hmem
        obtain ⟨e', he', hatt'⟩ := mem_toRemove.mp hmem
        rw [he] at he'
        obtain rfl := Option.some.inj he'
        exact hatt hatt'

end MinTokensLogitsProcessor

/-! ## Thinking budgets -/

/-- No row without an entry is moved to a row that has one. -/
def MovesFilled {V : Type} : List MovedRequest → (Nat → Option V) → Prop
  | [], _ => True
  | m :: l, t =>
    (m.direction = .unidirectional → t m.src = none → t m.dst = none) ∧
      MovesFilled l (moveTo none t m)

namespace ThinkingTokenBudgetLogitsProcessor

variable {cfg : ReasoningConfig} {d : Dict Nat ThinkState} {m : MovedRequest} {a : AddedRequest}

theorem get?_processAdded :
    (processAdded cfg d a).get? = update d.get? a.index (newState cfg a) := by
  funext r
  rw [processAdded, update_apply]
  cases newState cfg a with
  | some state => exact get?_set ..
  | none => exact get?_erase ..

theorem get?_putEntry {i : Nat} {o : Option ThinkState} {r : Nat} :
    (putEntry d i o).get? r = if r = i then o.or (d.get? i) else d.get? r := by
  cases o with
  | none =>
    show d.get? r = _
    split_ifs with hr
    · rw [hr]
      rfl
    · rfl
  | some e => exact get?_set ..

/-- A move goes where it should where the processor finds an entry to move, or none to
overwrite; an exchange does in any case. -/
theorem get?_processMoved (hne : m.direction = .unidirectional → m.src ≠ m.dst)
    (hfilled : m.direction = .unidirectional → d.get? m.src = none → d.get? m.dst = none) :
    (processMoved d m).get? = moveTo none d.get? m := by
  funext r
  rw [processMoved]
  cases hd : m.direction with
  | swap =>
    rw [moveTo_swap hd, swapRow_apply]
    simp only [get?_putEntry, get?_erase]
    by_cases hsrc : r = m.src
    · by_cases hdst : r = m.dst
      · simp [← hsrc, ← hdst]
      · simp [← hsrc, hdst, Ne.symm hdst]
    · by_cases hdst : r = m.dst
      · simp [← hdst, hsrc]
      · simp [hsrc, hdst]
  | unidirectional =>
    have hij := hne hd
    rw [moveTo_unidirectional hd, update_apply, update_apply, get?_putEntry, get?_erase, get?_erase]
    by_cases hsrc : r = m.src
    · simp [hsrc, hij]
    · by_cases hdst : r = m.dst
      · rw [if_pos hdst, if_neg hij.symm, if_neg hsrc, if_pos hdst]
        cases he : d.get? m.src with
        | none => exact hfilled hd he
        | some e => rfl
      · rw [if_neg hdst, if_neg hsrc, if_neg hsrc, if_neg hdst]

theorem get?_foldl_processAdded (l : List AddedRequest) (d : Dict Nat ThinkState) :
    (l.foldl (processAdded cfg) d).get? = setRows (newState cfg) l d.get? := by
  induction l generalizing d with
  | nil => rfl
  | cons a l ih =>
    rw [foldl_cons, ih, get?_processAdded]
    rfl

theorem get?_foldl_processMoved {l : List MovedRequest}
    (hl : ∀ m ∈ l, m.direction = .unidirectional → m.src ≠ m.dst) (hfilled : MovesFilled l d.get?) :
    (l.foldl processMoved d).get? = l.foldl (moveTo none) d.get? := by
  induction l generalizing d with
  | nil => rfl
  | cons m l ih =>
    have hm := get?_processMoved (hl m mem_cons_self) hfilled.1
    have hrest := hfilled.2
    rw [← hm] at hrest
    rw [foldl_cons, ih (fun b hb => hl b (mem_cons_of_mem _ hb)) hrest, hm, foldl_cons]

/-- The table on which the moves of an update are made. -/
def beforeMoves (cfg : ReasoningConfig) (u : BatchUpdate) (d : Dict Nat ThinkState) :
    Nat → Option ThinkState := clearRows none u.removed (setRows (newState cfg) u.added d.get?)

/-- The thinking processor follows a well-formed update whose moves are filled. -/
theorem processUpdate_follows (hu : u.WellFormed N)
    (hfilled : MovesFilled u.moved (beforeMoves cfg u d)) :
    (processUpdate cfg d (some u)).get? = follow none (newState cfg) u d.get? := by
  have hstart : (u.removed.foldl Dict.erase (u.added.foldl (processAdded cfg) d)).get? =
      beforeMoves cfg u d := by
    funext r
    rw [get?_foldl_erase, get?_foldl_processAdded, beforeMoves, clearRows]
  rw [processUpdate, get?_foldl_processMoved fun m hm => (hu.moved m hm).2.2]
  · rw [hstart, follow, beforeMoves]
  · rw [hstart]
    exact hfilled

end ThinkingTokenBudgetLogitsProcessor

end MyOperator.Worker
