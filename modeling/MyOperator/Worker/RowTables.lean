import MyOperator.Worker.Condense

/-!
# Tables that follow the batch

A logits processor keeps something for each row and learns of the changes of the batch
from batch updates. `follow` is what such a table should do with an update. The rows of
the persistent batch itself change in just this way: `Tracked` says that following the
update collected so far, every row comes to the request that is now there.
-/

namespace MyOperator.Worker

open Function Lib List

variable {V W : Type}

/-- The row of each added request is set. -/
def setRows (new : AddedRequest → V) (added : List AddedRequest) (t : Nat → V) : Nat → V :=
  added.foldl (fun t a => update t a.index (new a)) t

/-- The removed rows are cleared. -/
def clearRows (zero : V) (removed : List Nat) (t : Nat → V) : Nat → V := fun r =>
  if r ∈ removed then zero else t r

/-- A row is moved and its old place cleared, or two rows are exchanged. -/
def moveTo (zero : V) (t : Nat → V) (m : MovedRequest) : Nat → V :=
  match m.direction with
  | .swap => swapRow t m.src m.dst
  | .unidirectional => update (update t m.dst (t m.src)) m.src zero

/-- The table after a batch update: removed, added and moved in the order of the processors. -/
def follow (zero : V) (new : AddedRequest → V) (u : BatchUpdate) (t : Nat → V) : Nat → V :=
  u.moved.foldl (moveTo zero) (clearRows zero u.removed (setRows new u.added t))

/-- The rows of the update are rows of the batch, and no request moves to its own row. -/
structure BatchUpdate.WellFormed (u : BatchUpdate) (maxNumReqs : Nat) : Prop where
  removed : ∀ r ∈ u.removed, r < maxNumReqs
  added : ∀ a ∈ u.added, a.index < maxNumReqs
  moved : ∀ m ∈ u.moved, m.src < maxNumReqs ∧ m.dst < maxNumReqs ∧
    (m.direction = .unidirectional → m.src ≠ m.dst)

section follow

variable {zero : V} {new : AddedRequest → V} {u : BatchUpdate} {t t' : Nat → V} {f : V → W}
  {added : List AddedRequest} {removed : List Nat} {moved : List MovedRequest} {m : MovedRequest}
  {r : Nat}

theorem moveTo_swap (hd : m.direction = .swap) : moveTo zero t m = swapRow t m.src m.dst := by
  rw [moveTo, hd]

theorem moveTo_unidirectional (hd : m.direction = .unidirectional) :
    moveTo zero t m = update (update t m.dst (t m.src)) m.src zero := by
  rw [moveTo, hd]

theorem foldl_clear (removed : List Nat) (t : Nat → V) :
    removed.foldl (fun t r => update t r zero) t = clearRows zero removed t := by
  induction removed generalizing t with
  | nil =>
    funext r
    simp [clearRows]
  | cons i l ih =>
    rw [foldl_cons, ih]
    funext r
    rw [clearRows, clearRows]
    by_cases hl : r ∈ l
    · simp [hl]
    · by_cases hr : r = i
      · simp [hr]
      · simp [hl, hr]

theorem comp_setRows (added : List AddedRequest) (t : Nat → V) :
    f ∘ setRows new added t = setRows (f ∘ new) added (f ∘ t) := by
  induction added generalizing t with
  | nil => rfl
  | cons a l ih =>
    refine (ih _).trans ?_
    rw [comp_update]
    rfl

theorem comp_clearRows : f ∘ clearRows zero removed t = clearRows (f zero) removed (f ∘ t) := by
  funext r
  simp only [comp_apply, clearRows]
  split_ifs <;> rfl

theorem comp_moveTo : f ∘ moveTo zero t m = moveTo (f zero) (f ∘ t) m := by
  rw [moveTo, moveTo]
  cases m.direction with
  | swap =>
    simp only [swapRow, comp_update]
    rfl
  | unidirectional =>
    simp only [comp_update]
    rfl

theorem comp_foldl_moveTo (moved : List MovedRequest) (t : Nat → V) :
    f ∘ moved.foldl (moveTo zero) t = moved.foldl (moveTo (f zero)) (f ∘ t) := by
  induction moved generalizing t with
  | nil => rfl
  | cons m l ih =>
    rw [foldl_cons, foldl_cons, ih, comp_moveTo]

theorem comp_follow : f ∘ follow zero new u t = follow (f zero) (f ∘ new) u (f ∘ t) := by
  rw [follow, follow, comp_foldl_moveTo, comp_clearRows, comp_setRows]

theorem foldl_moveTo_congr {moves : List (Nat × Nat)} (hsrc : ∀ a ∈ moves, ∀ c ∈ moves, a.1 ≠ c.2)
    (ht : ∀ r, (∀ a ∈ moves, r ≠ a.2) → t r = t' r) :
    (moves.map fun a => (⟨a.1, a.2, .unidirectional⟩ : MovedRequest)).foldl (moveTo zero) t =
      (moves.map fun a => (⟨a.1, a.2, .unidirectional⟩ : MovedRequest)).foldl (moveTo zero) t' := by
  induction moves generalizing t t' with
  | nil =>
    funext r
    exact ht r fun a ha => nomatch ha
  | cons a l ih =>
    refine ih (fun b hb c hc => hsrc b (mem_cons_of_mem _ hb) c (mem_cons_of_mem _ hc)) ?_
    intro r hr
    have hsame : t a.1 = t' a.1 := by
      refine ht a.1 fun c hc => ?_
      exact hsrc a mem_cons_self c hc
    simp only [moveTo, update_apply, hsame]
    split_ifs with h1 h2
    · rfl
    · rfl
    · refine ht r fun c hc => ?_
      rcases mem_cons.mp hc with rfl | hc
      · exact h2
      · exact hr c hc

end follow

namespace InputBatch

variable {G : Type} {cfg : BatchConfig G} {b b' : InputBatch G} {free : List Nat} {n r row i j : Nat}
  {id : String} {request : CachedRequestState G} {outputs : Outputs}
  {occ0 : Nat → Option String} {fresh : String → Option AddedRequest}

/-- The batch update collected so far. -/
def pending (b : InputBatch G) : BatchUpdate where
  batchSize := b.numReqs
  removed := b.builder.removedRaw
  added := b.builder.added
  moved := b.builder.moved

/-- Where the request of a row comes from: it was in the batch before the update, or the
update adds it. -/
inductive Origin
  | kept (id : String)
  | new (a : AddedRequest)

/-- The origin of a request; `fresh` are the requests that the update adds. -/
def originOf (fresh : String → Option AddedRequest) (id : String) : Origin :=
  (fresh id).elim (.kept id) .new

/-- Following the update from the rows `occ0`, every row gets the request that is there. -/
def Tracked (b : InputBatch G) (occ0 : Nat → Option String)
    (fresh : String → Option AddedRequest) : Prop :=
  ∀ r, follow none (fun a => some (.new a)) b.pending (fun r => (occ0 r).map .kept) r =
    (b.occ r).map (originOf fresh)

theorem Filling.follow_apply (h : Filling b) {V : Type} {zero : V} {new : AddedRequest → V}
    {t : Nat → V} : follow zero new b.pending t =
      clearRows zero b.builder.removedRaw (setRows new b.builder.added t) := by
  rw [pending, h.moved]
  rfl

theorem Tracked.removeRequest (h : Tracked b occ0 fresh) (hfill : Filling b)
    (hr : b.reqIdToIndex.get? id = some row) (hop : b.removeRequest cfg id = .ok b') :
    Tracked b' occ0 (update fresh id none) := by
  obtain ⟨hfill', hocc, hraw, hadded⟩ := hfill.removeRequest hr hop
  have hrow := hfill.placed.row_of_index hr
  intro r
  have hold := h r
  rw [hfill.follow_apply] at hold
  rw [hfill'.follow_apply, hraw, hadded, hocc, update_apply]
  by_cases hrr : r = row
  · simp [clearRows, hrr]
  · rw [if_neg hrr, clearRows]
    rw [clearRows] at hold
    have hmem : r ∈ b.builder.removedRaw ++ [row] ↔ r ∈ b.builder.removedRaw := by simp [hrr]
    rw [if_congr hmem rfl rfl, hold]
    cases hk : b.occ r with
    | none => rfl
    | some k =>
      have hkk : k ≠ id := by
        rintro rfl
        exact hrr (hfill.placed.rows.occ_inj hk hrow)
      simp [originOf, update_of_ne hkk]

theorem Tracked.addRequest (h : Tracked b occ0 fresh) (hfill : Filling b)
    (hid : b.reqIdToIndex.get? request.reqId = none) {a : AddedRequest}
    (ha : b.addedEntry request = [a]) (hop : b.addRequest cfg outputs request = .ok b') :
    Tracked b' occ0 (update fresh request.reqId (some a)) := by
  obtain ⟨hfill', -, hocc, hperm, hadded⟩ := hfill.addRequest hid hop
  obtain ⟨hplace, -⟩ := hfill.nextRow
  have hindex : a.index = b.nextRow := by
    rw [addedEntry] at ha
    cases hs : request.samplingParams with
    | none =>
      rw [hs] at ha
      cases ha
    | some params =>
      rw [hs] at ha
      rw [← head_eq_of_cons_eq ha]
  have hnot : b.nextRow ∉ b'.builder.removedRaw := by
    rw [hperm.mem_iff, hfill.placed.rows.nodup.mem_erase_iff]
    simp
  intro r
  have hold := h r
  rw [hfill.follow_apply, clearRows] at hold
  rw [hfill'.follow_apply, clearRows, hocc, update_apply, hadded, ha, setRows, foldl_append,
    foldl_cons, foldl_nil, hindex, update_apply]
  by_cases hrr : r = b.nextRow
  · rw [if_neg (by rw [hrr]; exact hnot), if_pos hrr, if_pos hrr]
    simp [originOf]
  · have hmem : r ∈ b'.builder.removedRaw ↔ r ∈ b.builder.removedRaw := by
      rw [hperm.mem_iff, hfill.placed.rows.nodup.mem_erase_iff]
      simp [hrr]
    rw [if_neg hrr, if_neg hrr, if_congr hmem rfl rfl]
    rw [setRows] at hold
    rw [hold]
    cases hk : b.occ r with
    | none => rfl
    | some k =>
      have hkk : k ≠ request.reqId := by
        rintro rfl
        rw [(hfill.placed.rows.inverse r _).mp hk] at hid
        cases hid
      simp [originOf, update_of_ne hkk]

theorem moveAll_eq {α : Type} (moves : List (Nat × Nat)) (t : Nat → Option α) :
    moveAll moves t =
      (moves.map fun a => (⟨a.1, a.2, .unidirectional⟩ : MovedRequest)).foldl (moveTo none) t := by
  rw [foldl_map]
  rfl

theorem condenseMoves_snd : ∀ (es : List Nat) (last : Nat),
    (condenseMoves es last).map Prod.snd = es.take (condenseMoves es last).length
  | [], _ => rfl
  | e :: es, last => by
      rw [condenseMoves]
      split_ifs
      · rfl
      · simp [condenseMoves_snd es]

theorem moves_src_ne_dst (h : Filling b) : ∀ a ∈ b.moves, ∀ c ∈ b.moves, a.1 ≠ c.2 := by
  have hsort := h.empties_sorted
  have hsize := h.numReqs_add
  rw [← h.empties_perm.length_eq] at hsize
  rw [moves]
  generalize hlast : b.numReqs + b.empties.length - 1 = last
  clear hlast hsize
  generalize b.empties = es at hsort ⊢
  induction es generalizing last with
  | nil => exact fun a ha => absurd ha not_mem_nil
  | cons e es ih =>
    obtain ⟨he, hes⟩ := pairwise_cons.mp hsort
    rw [condenseMoves]
    split_ifs with hstop
    · exact fun a ha => absurd ha not_mem_nil
    · have hnot : ∀ n, e < lastNonEmpty (e :: es) n → lastNonEmpty (e :: es) n ∉ e :: es := by
        intro n
        induction n with
        | zero => exact fun h => absurd h (Nat.not_lt_zero e)
        | succ n ih =>
          rw [lastNonEmpty]
          split_ifs with hmem
          · exact ih
          · exact fun _ => hmem
      intro a ha c hc
      rcases mem_cons.mp ha with rfl | ha
      · intro heq
        refine hnot last (by omega) ?_
        show (lastNonEmpty (e :: es) last) ∈ e :: es
        rw [show lastNonEmpty (e :: es) last = c.2 from heq]
        rcases mem_cons.mp hc with rfl | hc
        · exact mem_cons_self
        · exact mem_cons_of_mem _ (mem_condenseMoves hc).2.1
      · rcases mem_cons.mp hc with rfl | hc
        · obtain ⟨-, h2, h3⟩ := mem_condenseMoves ha
          have := he a.2 h2
          show a.1 ≠ e
          omega
        · exact ih _ hes a ha c hc

theorem Tracked.condense (h : Tracked b occ0 fresh) (hfill : Filling b)
    (hpool : cfg.isPoolingModel = false) (hop : b.condense cfg = .ok b') :
    Tracked b' occ0 fresh := by
  obtain ⟨b1, hb1, -, -, hocc, hrec⟩ := @InputBatch.Filling.condense _ cfg _ hfill
  rw [hop] at hb1
  obtain rfl := Except.ok.inj hb1
  have hmoved : b'.builder.moved =
      b.moves.map fun a => (⟨a.1, a.2, .unidirectional⟩ : MovedRequest) := by
    rw [hrec.moved, hfill.moved, movedOf, if_neg (by simp [hpool])]
    rfl
  have hold : clearRows none b.builder.removedRaw
      (setRows (fun a => some (Origin.new a)) b.builder.added fun r => (occ0 r).map .kept) =
      fun r => (b.occ r).map (originOf fresh) := by
    rw [← hfill.follow_apply]
    exact funext h
  intro r
  rw [hocc, moveAll_eq, follow, pending]
  show (b'.builder.moved.foldl (moveTo none) (clearRows none b'.builder.removedRaw
    (setRows _ b'.builder.added _))) r = _
  rw [hmoved, hrec.added, hrec.removed]
  have hcomp := congrFun (@comp_foldl_moveTo _ _ none (Option.map (originOf fresh))
      (b.moves.map fun a => (⟨a.1, a.2, .unidirectional⟩ : MovedRequest)) b.occ) r
  refine Eq.trans ?_ hcomp.symm
  refine congrFun ?_ r
  refine (foldl_moveTo_congr (moves_src_ne_dst hfill) fun r hr => ?_).trans
    (congrArg (fun t => List.foldl (moveTo none) t _) hold)
  -- the free rows that are not filled are still cleared
  simp only [clearRows]
  refine if_congr ?_ rfl rfl
  rw [mem_reverse, ← hfill.empties_perm.mem_iff]
  constructor
  · exact fun hmem => mem_of_mem_drop hmem
  · intro hmem
    rw [← take_append_drop b.moves.length b.empties] at hmem
    rcases mem_append.mp hmem with hmem | hmem
    · rw [moves, ← condenseMoves_snd] at hmem
      obtain ⟨a, ha, hra⟩ := mem_map.mp hmem
      exact absurd hra.symm (hr a ha)
    · exact hmem

theorem Tracked.swapStates (h : Tracked b occ0 fresh) (hplaced : Placed b [] b.reqIds.length)
    (hpool : cfg.isPoolingModel = false) (hop : b.swapStates cfg i j = .ok b') :
    Tracked b' occ0 fresh := by
  obtain ⟨-, hocc, -⟩ := hplaced.swapStates hop
  obtain ⟨a, c, hi, hj, heq⟩ := swapStates_eq hop
  have hbuilder : b'.builder = { b.builder with moved := b.builder.moved ++ [⟨i, j, .swap⟩] } := by
    rw [heq]
    exact if_neg (by simp [hpool])
  intro r
  have hsame : follow none (fun a => some (Origin.new a)) b.pending (fun r => (occ0 r).map .kept) =
      Option.map (originOf fresh) ∘ b.occ := funext h
  rw [follow, pending, hbuilder]
  show ((b.builder.moved ++ [(⟨i, j, .swap⟩ : MovedRequest)]).foldl (moveTo none) _) r = _
  rw [foldl_append, foldl_cons, foldl_nil]
  show moveTo none (follow none _ b.pending _) ⟨i, j, .swap⟩ r = _
  rw [hsame, hocc]
  exact congrFun (@comp_moveTo _ _ none _ (Option.map (originOf fresh)) ⟨i, j, .swap⟩).symm r

theorem tracked_refreshMetadata (h : Placed b [] b.reqIds.length) :
    Tracked (b.refreshMetadata cfg).2 b.occ (fun _ => none) := by
  obtain ⟨-, x, hx, hraw, hadded, hmoved⟩ := @InputBatch.Placed.refreshMetadata _ cfg _ h
  intro r
  rw [hx]
  show (x.moved.foldl (moveTo none) (clearRows none x.removedRaw (setRows _ x.added _))) r = _
  rw [hraw, hadded, hmoved]
  rfl

/-! ## The rows of an update -/

/-- The batch and the update collected so far stay within the rows there are. -/
structure Within (b : InputBatch G) (maxNumReqs : Nat) : Prop where
  length : b.reqIds.length ≤ maxNumReqs
  rows : b.pending.WellFormed maxNumReqs

theorem Within.removeRequest {N : Nat} (h : Within b N) (hr : b.reqIdToIndex.get? id = some row)
    (hfill : Filling b) (hop : b.removeRequest cfg id = .ok b') : Within b' N := by
  have hlt := lt_of_rowOf (hfill.placed.row_of_index hr)
  obtain ⟨-, rfl⟩ := removeRequest_eq hr hop
  constructor
  case length =>
    show (b.reqIds.set row none).length ≤ N
    rw [length_set]
    exact h.length
  case rows =>
    refine { h.rows with removed := fun r hmem => ?_ }
    rcases mem_append.mp (show r ∈ b.builder.removedRaw ++ [row] from hmem) with hmem | hmem
    · exact h.rows.removed r hmem
    · rw [mem_singleton.mp hmem]
      exact Nat.lt_of_lt_of_le hlt h.length

theorem Within.addRequest (h : Within b cfg.maxNumReqs) (hfill : Filling b)
    (hid : b.reqIdToIndex.get? request.reqId = none)
    (hop : b.addRequest cfg outputs request = .ok b') : Within b' cfg.maxNumReqs := by
  obtain ⟨hfill', hlt, hocc, hperm, hadded⟩ := hfill.addRequest hid hop
  have hsub : ∀ r ∈ b'.builder.removedRaw, r ∈ b.builder.removedRaw := fun r hr =>
    mem_of_mem_erase (hperm.mem_iff.mp hr)
  constructor
  case length =>
    by_contra hgt
    -- the last row would be neither occupied nor free
    have hlast : b'.reqIds.length - 1 < b'.reqIds.length := by omega
    have hnone : b'.occ (b'.reqIds.length - 1) = none := by
      rw [hocc, update_of_ne (by omega)]
      exact rowOf_of_le (by have := h.length; omega)
    have hmem := hsub _ ((hfill'.placed.rows.free_iff _ hlast).mp hnone)
    have := h.rows.removed _ hmem
    omega
  case rows =>
    refine ⟨fun r hr => h.rows.removed r (hsub r hr), fun a ha => ?_, fun m hm => ?_⟩
    · rw [pending, hadded] at ha
      rcases mem_append.mp ha with ha | ha
      · exact h.rows.added a ha
      · rw [addedEntry] at ha
        cases hs : request.samplingParams with
        | none =>
          rw [hs] at ha
          cases ha
        | some params =>
          rw [hs] at ha
          rw [mem_singleton.mp ha]
          exact hlt
    · rw [pending, hfill'.moved] at hm
      cases hm

theorem Within.condense {N : Nat} (h : Within b N) (hfill : Filling b)
    (hop : b.condense cfg = .ok b') : Within b' N := by
  obtain ⟨b1, hb1, -, hlen, -, hrec⟩ := @InputBatch.Filling.condense _ cfg _ hfill
  rw [hop] at hb1
  obtain rfl := Except.ok.inj hb1
  have hsize := hfill.numReqs_add
  rw [← hfill.empties_perm.length_eq] at hsize
  have hempty : ∀ r ∈ b.empties, r < N := fun r hr =>
    h.rows.removed r (hfill.empties_perm.mem_iff.mp hr)
  refine ⟨hlen.trans h.length, ?_, ?_, ?_⟩
  · intro r hr
    rw [pending, hrec.removed, mem_reverse] at hr
    exact hempty r (mem_of_mem_drop hr)
  · intro a ha
    rw [pending, hrec.added] at ha
    exact h.rows.added a ha
  · intro m hm
    rw [pending, hrec.moved, hfill.moved, nil_append, movedOf] at hm
    split_ifs at hm with hpool
    · cases hm
    · obtain ⟨move, hmove, rfl⟩ := mem_map.mp hm
      obtain ⟨hle, hmem, hlt⟩ := mem_condenseMoves hmove
      have hdst := hempty _ hmem
      have hbelow := hfill.below _ (hfill.empties_perm.mem_iff.mp hmem)
      have hmax := h.length
      refine ⟨?_, hdst, fun _ => (Nat.ne_of_lt hlt).symm⟩
      show move.1 < N
      omega

theorem Within.swapStates {N : Nat} (h : Within b N)
    (hop : b.swapStates cfg i j = .ok b') : Within b' N := by
  obtain ⟨a, c, hi, hj, heq⟩ := swapStates_eq hop
  have hmax := h.length
  have hib := lt_of_rowOf hi
  have hjb := lt_of_rowOf hj
  subst heq
  constructor
  case length =>
    show (swapAt b.reqIds i j).length ≤ N
    rw [length_swapAt]
    exact h.length
  case rows =>
    by_cases hpool : cfg.isPoolingModel = true
    · simp only [pending, if_pos hpool]
      exact ⟨h.rows.removed, h.rows.added, h.rows.moved⟩
    · simp only [pending, if_neg hpool]
      refine ⟨h.rows.removed, h.rows.added, fun m hm => ?_⟩
      rcases mem_append.mp hm with hm | hm
      · exact h.rows.moved m hm
      · rw [mem_singleton.mp hm]
        refine ⟨?_, ?_, fun hd => (nomatch hd)⟩
        · show i < N
          omega
        · show j < N
          omega

theorem Within.refreshMetadata {N : Nat} (h : Within b N) (hplaced : Placed b [] b.reqIds.length) :
    Within (b.refreshMetadata cfg).2 N := by
  obtain ⟨-, x, hx, hraw, hadded, hmoved⟩ := @InputBatch.Placed.refreshMetadata _ cfg _ hplaced
  rw [hx]
  refine ⟨h.length, ?_, ?_, ?_⟩
  · intro r hr
    rw [show ({ b with builder := x } : InputBatch G).pending.removed = x.removedRaw from rfl,
      hraw] at hr
    cases hr
  · intro a ha
    rw [show ({ b with builder := x } : InputBatch G).pending.added = x.added from rfl,
      hadded] at ha
    cases ha
  · intro m hm
    rw [show ({ b with builder := x } : InputBatch G).pending.moved = x.moved from rfl,
      hmoved] at hm
    cases hm

/-- An update of a row changes neither the rows nor the update that is collected. -/
theorem pending_updateRow (u : RowUpdate G) :
    (b.updateRow row u).occ = b.occ ∧ (b.updateRow row u).pending = b.pending := by
  obtain ⟨hids, hindex, -, -, -, hbuilder⟩ := @updateRow_frame _ b row u
  constructor
  · rw [occ, hids]
    rfl
  · rw [pending, hbuilder, numReqs, hindex]
    rfl

theorem Filling.updateRow (h : Filling b) (u : RowUpdate G) : Filling (b.updateRow row u) := by
  obtain ⟨hids, -, -, -, -, hbuilder⟩ := @updateRow_frame _ b row u
  constructor
  case placed =>
    rw [hids, hbuilder]
    exact h.placed.updateRow u
  case below =>
    rw [hids, hbuilder]
    exact h.below
  case sorted =>
    rw [hbuilder]
    exact h.sorted
  case moved =>
    rw [hbuilder]
    exact h.moved

theorem Within.updateRow {N : Nat} (h : Within b N) (u : RowUpdate G) :
    Within (b.updateRow row u) N := by
  constructor
  · rw [(@updateRow_frame _ b row u).1]
    exact h.length
  · rw [(pending_updateRow u).2]
    exact h.rows

/-- The batch update that the processors are given: none where nothing was collected. -/
theorem refreshMetadata_fst (hpool : cfg.isPoolingModel = false) :
    (b.refreshMetadata cfg).1 = some b.pending ∨
      (b.refreshMetadata cfg).1 = none ∧ b.pending.removed = [] ∧ b.pending.added = [] ∧
        b.pending.moved = [] := by
  rw [InputBatch.refreshMetadata, if_neg (by simp [hpool]), BatchUpdateBuilder.getAndReset]
  split_ifs with hnil
  · simp only [Bool.and_eq_true, List.isEmpty_iff] at hnil
    exact .inr ⟨rfl, hnil.1.1, hnil.2, hnil.1.2⟩
  · exact .inl rfl

end InputBatch

end MyOperator.Worker
