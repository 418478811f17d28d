import MyOperator.Worker.BatchOps

/-!
# Condensing and exchanging

`condense` moves the last requests down into the free rows until the occupied rows are
the first ones. The rows it moves depend only on the free rows and on the number of
requests: `condenseMoves` lists them.
-/

namespace MyOperator.Worker.InputBatch

open Function Lib List Dict

variable {G : Type} {cfg : BatchConfig G} {b b' : InputBatch G} {m : String → Option (RequestRow G)}
  {free es : List Nat} {n r row i j last empty : Nat} {id : String} {g : RequestRow G}

/-- A moved request brings embeddings, or finds none; for a pooling model both rows have
the same flag, since it is not moved. -/
structure CleanMove (cfg : BatchConfig G) (b : InputBatch G) (last empty : Nat) : Prop where
  embeds : (b.tokens.reqPromptEmbeds last).isSome ∨ b.tokens.reqPromptEmbeds empty = none
  flag : cfg.isPoolingModel = true →
    b.logitsProcessingNeedsTokenIds last = b.logitsProcessingNeedsTokenIds empty

theorem moveDown_eq (hid : b.occ last = some id) (hop : b.moveDown cfg last empty = .ok b') :
    b' = { b with
      reqIds := (b.reqIds.set empty (some id)).set last none
      reqOutputTokenIds :=
        (b.reqOutputTokenIds.set empty (b.reqOutputTokenIds[last]?).join).set last none
      reqIdToIndex := b.reqIdToIndex.set id empty
      tokens := b.tokens.moveRow last empty
      blockTable := fun g => (b.blockTable g).moveRow last empty
      requestLoraMapping := copyRow b.requestLoraMapping last empty
      builder :=
        if cfg.isPoolingModel then b.builder.popRemoved.2
        else { b.builder.popRemoved.2 with
          moved := b.builder.popRemoved.2.moved ++ [⟨last, empty, .unidirectional⟩] }
      sampling := if cfg.isPoolingModel then b.sampling else b.sampling.moveRow last empty } := by
  rw [moveDown, show (b.reqIds[last]?).join = some id from hid] at hop
  exact (Except.ok.inj hop).symm

theorem exists_moveDown (hid : b.occ last = some id) :
    ∃ b', b.moveDown cfg last empty = .ok b' := by
  rw [moveDown, show (b.reqIds[last]?).join = some id from hid]
  exact ⟨_, rfl⟩

theorem Placed.moveDown (h : Placed b free (last + 1)) (hempty : empty ∈ free)
    (hlt : empty < last) (hid : b.occ last = some id) (hop : b.moveDown cfg last empty = .ok b') :
    Placed b' (free.erase empty) last ∧
      b'.occ = update (update b.occ empty (some id)) last none := by
  have hlast := lt_of_rowOf hid
  have heq := moveDown_eq hid hop
  have hocc : b'.occ = update (update b.occ empty (some id)) last none := by
    rw [heq, occ, rowOf_set (by simpa using hlast), rowOf_set (by omega)]
    rfl
  refine ⟨⟨?_, ?_⟩, hocc⟩
  · rw [hocc, heq]
    exact h.rows.slide hempty hlt hid
  · rw [heq]
    show last ≤ ((b.reqIds.set empty _).set last none).length
    simp only [length_set]
    omega

theorem Sound.moveDown (h : Sound cfg b m free (last + 1)) (hempty : empty ∈ free)
    (hlt : empty < last) (hid : b.occ last = some id) (hclean : CleanMove cfg b last empty)
    (hop : b.moveDown cfg last empty = .ok b') : Sound cfg b' m (free.erase empty) last := by
  have hlast := lt_of_rowOf hid
  have hspec := h.lt_spec hid
  have hfree : b.occ empty = none := (h.rows.free_iff empty (by omega)).mpr hempty
  have heq := moveDown_eq hid hop
  obtain ⟨hplaced, hocc⟩ := h.toPlaced.moveDown hempty hlt hid hop
  have hout : rowOf b'.reqOutputTokenIds =
      update (update (rowOf b.reqOutputTokenIds) empty (rowOf b.reqOutputTokenIds last)) last
        none := by
    have hlen := h.outputs
    rw [heq]
    show rowOf ((b.reqOutputTokenIds.set empty _).set last none) = _
    rw [rowOf_set (by rw [length_set]; omega), rowOf_set (by omega)]
    rfl
  have hspecAt : ∀ r, b'.tokens.specAt r =
      if r = last then [] else if r = empty then b.tokens.specAt last else b.tokens.specAt r := by
    intro r
    rw [heq]
    exact TokenRows.specAt_moveRow hspec (by omega)
  constructor
  case toPlaced => exact hplaced
  case outputs =>
    rw [heq]
    simpa using h.outputs
  case spec =>
    rw [heq]
    simpa [TokenRows.moveRow] using h.spec
  case specFree =>
    intro r hr
    rw [hspecAt]
    split_ifs with h1 h2
    · rfl
    · rw [hocc, update_of_ne h1, h2, update_self] at hr
      cases hr
    · rw [hocc, update_of_ne h1, update_of_ne h2] at hr
      exact h.specFree r hr
  case entryFree =>
    intro hp r hr
    rw [heq]
    show (if cfg.isPoolingModel then b.sampling
      else b.sampling.moveRow last empty).NoEntry r
    rw [if_neg (by simp [hp])]
    by_cases h1 : r = last
    · rw [h1]
      exact SamplingRows.noEntry_moveRow (by omega)
    · by_cases h2 : r = empty
      · rw [hocc, update_of_ne h1, h2, update_self] at hr
        cases hr
      · rw [hocc, update_of_ne h1, update_of_ne h2] at hr
        exact (h.entryFree hp r hr).moveRow_of_ne h1 h2
  case blocksPer =>
    rw [heq]
    exact h.blocksPer
  case absent =>
    intro k hk
    rw [heq] at hk
    replace hk : (b.reqIdToIndex.set id empty).get? k = none := hk
    rw [get?_set] at hk
    split_ifs at hk
    exact h.absent k hk
  case held =>
    intro r k hk
    rw [hocc] at hk
    obtain ⟨hrl, hk⟩ := of_update_ne hk (Option.some_ne_none k).symm
    by_cases hre : r = empty
    · subst hre
      rw [update_self] at hk
      obtain rfl := Option.some.inj hk
      obtain ⟨g, hg, hold⟩ := h.held last id hid
      obtain ⟨hkind1, hkind2⟩ := h.kind id g hg
      refine ⟨g, hg, ?_⟩
      constructor
      case tokens =>
        rw [heq]
        exact hold.tokens.moveRow hspec hlt hclean.embeds
      case blocks =>
        intro k
        rw [heq]
        exact BlockTable.rowBlocks_moveRow.trans (hold.blocks k)
      case lora =>
        rw [heq]
        exact copyRow_dst.trans hold.lora
      case outputs =>
        rw [hout, update_of_ne (by omega), update_self]
        exact hold.outputs
      case sampling =>
        intro s hs
        rw [heq]
        show (if cfg.isPoolingModel then b.sampling
          else b.sampling.moveRow last r).row r = s
        cases hp : cfg.isPoolingModel with
        | true =>
          rw [hkind1 hp] at hs
          cases hs
        | false =>
          rw [if_neg (by simp)]
          exact (SamplingRows.row_moveRow (h.entryFree hp r hfree)).trans (hold.sampling s hs)
      case needsTokenIds =>
        intro f hf
        rw [heq]
        show b.logitsProcessingNeedsTokenIds r = f
        cases hp : cfg.isPoolingModel with
        | true => exact (hclean.flag hp).symm.trans (hold.needsTokenIds f hf)
        | false =>
          rw [hkind2 hp] at hf
          cases hf
    · rw [update_of_ne hre] at hk
      obtain ⟨g, hg, hold⟩ := h.held r k hk
      refine ⟨g, hg, ?_⟩
      constructor
      case tokens =>
        rw [heq]
        exact hold.tokens.moveRow_of_ne hspec hlt hrl hre
      case blocks =>
        intro k
        rw [heq]
        exact (BlockTable.rowBlocks_moveRow_of_ne hre).trans (hold.blocks k)
      case lora =>
        rw [heq]
        exact (copyRow_of_ne hre).trans hold.lora
      case outputs =>
        rw [hout, update_of_ne hrl, update_of_ne hre]
        exact hold.outputs
      case sampling =>
        intro s hs
        rw [heq]
        show (if cfg.isPoolingModel then b.sampling
          else b.sampling.moveRow last empty).row r = s
        split_ifs
        · exact hold.sampling s hs
        · exact (SamplingRows.row_moveRow_of_ne hrl hre).trans (hold.sampling s hs)
      case needsTokenIds =>
        intro f hf
        rw [heq]
        exact hold.needsTokenIds f hf
  case kind => exact h.kind

/-! ## The loop -/

/-- The rows that `condense` moves: from and to. -/
def condenseMoves : List Nat → Nat → List (Nat × Nat)
  | [], _ => []
  | empty :: empties, last =>
    if lastNonEmpty (empty :: empties) last ≤ empty then []
    else (lastNonEmpty (empty :: empties) last, empty) ::
      condenseMoves empties (lastNonEmpty (empty :: empties) last - 1)

theorem lastNonEmpty_le : ∀ last, lastNonEmpty es last ≤ last
  | 0 => le_refl 0
  | last + 1 => by
      rw [lastNonEmpty]
      split_ifs
      · exact Nat.le_succ_of_le (lastNonEmpty_le last)
      · exact le_rfl

theorem mem_condenseMoves {move : Nat × Nat} (h : move ∈ condenseMoves es last) :
    move.1 ≤ last ∧ move.2 ∈ es ∧ move.2 < move.1 := by
  induction es generalizing last with
  | nil => cases h
  | cons e es ih =>
    rw [condenseMoves] at h
    have hle := @lastNonEmpty_le (e :: es) last
    split_ifs at h with hstop
    · cases h
    · rcases mem_cons.mp h with rfl | h
      · exact ⟨hle, mem_cons_self, by simpa using hstop⟩
      · obtain ⟨h1, h2, h3⟩ := ih h
        exact ⟨by omega, mem_cons_of_mem _ h2, h3⟩

theorem Placed.lastNonEmpty (h : Placed b free (last + 1)) (hr : b.occ r = some id) :
    Placed b free (lastNonEmpty free last + 1) ∧
      ∃ id, b.occ (InputBatch.lastNonEmpty free last) = some id := by
  induction last with
  | zero =>
    have hr0 : r = 0 := by
      have := h.rows.below r id hr
      omega
    subst hr0
    exact ⟨h, id, hr⟩
  | succ last ih =>
    rw [InputBatch.lastNonEmpty]
    split_ifs with hmem
    · have hlen := h.bound
      exact ih { h with rows := h.rows.shrink hmem, bound := by omega }
    · refine ⟨h, ?_⟩
      cases ho : b.occ (last + 1) with
      | none => exact absurd ((h.rows.free_iff _ (by omega)).mp ho) hmem
      | some id => exact ⟨id, rfl⟩

theorem Placed.closed (h : Placed b free n) (hfree : ∀ r ∈ free, n ≤ r) : Placed b [] n := { h with
  rows := { h.rows with
    free_iff := fun r hr => by
      rw [h.rows.free_iff r hr]
      constructor
      · intro hmem
        exact absurd (hfree r hmem) (by omega)
      · intro hmem
        cases hmem
    nodup := nodup_nil } }

theorem Placed.numReqs_eq (h : Placed b [] n) : b.numReqs = n := by
  have hsize := h.rows.size (fun r hr => nomatch hr)
  simpa [InputBatch.numReqs] using hsize

theorem length_entries_set {d : Dict String Nat} {v w : Nat} (h : d.get? id = some v) :
    (d.set id w).entries.length = d.entries.length := by
  have hmem : id ∈ d.entries.map Prod.fst := mem_map.mpr ⟨(id, v), mem_entries_iff.mpr h, rfl⟩
  have hkeys := map_fst_assocSet id w d.entries
  rw [if_pos hmem] at hkeys
  have hlen := congrArg List.length hkeys
  rw [length_map, length_map] at hlen
  exact hlen

theorem CleanMove.moveDown {src dst : Nat} (h : CleanMove cfg b src dst)
    (hid : b.occ last = some id) (hop : b.moveDown cfg last empty = .ok b') (hsrc : src ≠ last)
    (hsrc' : src ≠ empty) (hdst : dst ≠ last) (hdst' : dst ≠ empty) : CleanMove cfg b' src dst := by
  have heq := moveDown_eq hid hop
  constructor
  · rw [heq]
    show ((moveEntry b.tokens.reqPromptEmbeds last empty) src).isSome ∨
      (moveEntry b.tokens.reqPromptEmbeds last empty) dst = none
    rw [moveEntry_of_ne hsrc hsrc', moveEntry_of_ne hdst hdst']
    exact h.embeds
  · rw [heq]
    exact h.flag

/-- The rows after a list of moves. -/
def moveAll {α : Type} (moves : List (Nat × Nat)) (t : Nat → Option α) : Nat → Option α :=
  moves.foldl (fun t move => update (update t move.2 (t move.1)) move.1 none) t

theorem popRemoved_of_sorted {x : BatchUpdateBuilder} {e : Nat}
    (hraw : x.removedRaw = (e :: es).reverse) (hsorted : x.isRemovedSorted = true) :
    x.popRemoved.2 = { x with removedRaw := es.reverse } := by
  have hhas : x.hasRemoved = true := by simp [BatchUpdateBuilder.hasRemoved, hraw]
  rw [BatchUpdateBuilder.popRemoved, if_pos hhas, BatchUpdateBuilder.ensureRemovedSorted,
    if_pos hsorted]
  simp [hraw]

/-- The moves as the batch update records them. -/
def movedOf (cfg : BatchConfig G) (moves : List (Nat × Nat)) : List MovedRequest :=
  if cfg.isPoolingModel then [] else moves.map fun move => ⟨move.1, move.2, .unidirectional⟩

/-- What the loop leaves of the batch update that is being collected. -/
structure Recorded (cfg : BatchConfig G) (x y : BatchUpdateBuilder) (moves : List (Nat × Nat))
    (rest : List Nat) : Prop where
  removed : y.removedRaw = rest.reverse
  added : y.added = x.added
  moved : y.moved = x.moved ++ movedOf cfg moves

/-- The loop closes up the occupied rows: the moves are made and recorded, and the free rows
it does not take are left on the list. -/
theorem Placed.condenseLoop (h : Placed b es (last + 1)) (hsort : es.Pairwise (· < ·))
    (hr : b.occ r = some id) (hraw : b.builder.removedRaw = es.reverse)
    (hsorted : b.builder.isRemovedSorted = true) :
    ∃ b', condenseLoop cfg es last b = .ok b' ∧ Placed b' [] b.numReqs ∧
      b'.occ = moveAll (condenseMoves es last) b.occ ∧
      Recorded cfg b.builder b'.builder (condenseMoves es last)
        (es.drop (condenseMoves es last).length) := by
  have hnone : ∀ {rest}, b.builder.removedRaw = rest.reverse →
      Recorded cfg b.builder b.builder [] rest := by
    intro rest hrest
    exact ⟨hrest, rfl, by simp [movedOf]⟩
  induction es generalizing b last r id with
  | nil =>
    have hclosed : Placed b [] (last + 1) := h
    exact ⟨b, rfl, hclosed.numReqs_eq.symm ▸ hclosed, rfl, hnone hraw⟩
  | cons e es ih =>
    rw [InputBatch.condenseLoop, condenseMoves]
    obtain ⟨hs, id', hid'⟩ := h.lastNonEmpty hr
    obtain ⟨he, hes⟩ := pairwise_cons.mp hsort
    split_ifs with hstop
    · -- the lowest free row lies behind the last request, and it is not its row
      have hclosed : Placed b [] (InputBatch.lastNonEmpty (e :: es) last + 1) := by
        refine hs.closed fun r hr => ?_
        have hne : InputBatch.lastNonEmpty (e :: es) last ≠ e := by
          intro heq
          have hmem := (hs.rows.free_iff e (by omega)).mpr mem_cons_self
          rw [← heq, hid'] at hmem
          cases hmem
        rcases mem_cons.mp hr with rfl | hr
        · omega
        · have := he r hr
          omega
      exact ⟨b, rfl, hclosed.numReqs_eq.symm ▸ hclosed, rfl, hnone hraw⟩
    · have hlt : e < InputBatch.lastNonEmpty (e :: es) last := by omega
      obtain ⟨b1, hop⟩ := @exists_moveDown _ cfg _ _ e _ hid'
      obtain ⟨hs1, hocc1⟩ := hs.moveDown mem_cons_self hlt hid' hop
      rw [erase_cons_head] at hs1
      have hnum : b1.numReqs = b.numReqs := by
        rw [moveDown_eq hid' hop]
        exact length_entries_set ((h.rows.inverse _ _).mp hid')
      have hpop := popRemoved_of_sorted hraw hsorted
      have hbuilder : Recorded cfg b.builder b1.builder
          [(InputBatch.lastNonEmpty (e :: es) last, e)] es ∧ b1.builder.isRemovedSorted = true := by
        rw [moveDown_eq hid' hop]
        cases hp : cfg.isPoolingModel with
        | true => exact ⟨⟨by simp [hpop], by simp [hpop], by simp [hpop, movedOf, hp]⟩, by simp [hpop, hsorted]⟩
        | false => exact ⟨⟨by simp [hpop], by simp [hpop], by simp [hpop, movedOf, hp]⟩, by simp [hpop, hsorted]⟩
      obtain ⟨hrec, hsorted1⟩ := hbuilder
      have hocc : b1.occ e = some id' := by
        rw [hocc1, update_of_ne (by omega), update_self]
      have hpos : InputBatch.lastNonEmpty (e :: es) last - 1 + 1 =
          InputBatch.lastNonEmpty (e :: es) last := by omega
      rw [← hpos] at hs1
      obtain ⟨b', hloop, hplaced, hocc', hrec'⟩ := ih hs1 hes hocc hrec.removed hsorted1
        (fun hrest => ⟨hrest, rfl, by simp [movedOf]⟩)
      refine ⟨b', ?_, hnum ▸ hplaced, ?_, ?_⟩
      · rw [show (b.moveDown cfg _ e >>= fun b => InputBatch.condenseLoop cfg es _ b) =
          InputBatch.condenseLoop cfg es _ b1 by rw [hop]; rfl]
        exact hloop
      · rw [hocc', hocc1, moveAll, moveAll, foldl_cons, hid']
      · refine ⟨hrec'.removed, hrec'.added.trans hrec.added, ?_⟩
        rw [hrec'.moved, hrec.moved, append_assoc]
        congr 1
        rw [movedOf, movedOf, movedOf]
        split_ifs <;> rfl

theorem Sound.condenseLoop (h : Sound cfg b m es (last + 1)) (hsort : es.Pairwise (· < ·))
    (hr : b.occ r = some id) (hraw : b.builder.removedRaw = es.reverse)
    (hsorted : b.builder.isRemovedSorted = true)
    (hclean : ∀ move ∈ condenseMoves es last, CleanMove cfg b move.1 move.2)
    (hop : condenseLoop cfg es last b = .ok b') : Sound cfg b' m [] b.numReqs := by
  induction es generalizing b last r id with
  | nil =>
    obtain rfl := Except.ok.inj hop
    have hclosed : Sound cfg b m [] (last + 1) := h
    exact hclosed.toPlaced.numReqs_eq.symm ▸ hclosed
  | cons e es ih =>
    obtain ⟨b2, hloop, hplaced, -⟩ := @InputBatch.Placed.condenseLoop _ cfg _ _ _ _ _
        h.toPlaced hsort hr hraw hsorted
    rw [hop] at hloop
    obtain rfl := Except.ok.inj hloop
    rw [InputBatch.condenseLoop] at hop
    rw [condenseMoves] at hclean
    obtain ⟨hs, id', hid'⟩ := h.toPlaced.lastNonEmpty hr
    obtain ⟨he, hes⟩ := pairwise_cons.mp hsort
    split_ifs at hclean hop with hstop
    · obtain rfl := Except.ok.inj hop
      exact { h with toPlaced := hplaced }
    · have hlt : e < InputBatch.lastNonEmpty (e :: es) last := by omega
      obtain ⟨b1, hmove, hop⟩ := bind_ok hop
      have hs1 := Sound.moveDown { h with toPlaced := hs } mem_cons_self hlt hid'
        (hclean _ mem_cons_self) hmove
      obtain ⟨-, hocc1⟩ := hs.moveDown mem_cons_self hlt hid' hmove
      rw [erase_cons_head] at hs1
      have hnum : b1.numReqs = b.numReqs := by
        rw [moveDown_eq hid' hmove]
        exact length_entries_set ((h.rows.inverse _ _).mp hid')
      have hpop := popRemoved_of_sorted hraw hsorted
      have hbuilder : b1.builder.removedRaw = es.reverse ∧ b1.builder.isRemovedSorted = true := by
        rw [moveDown_eq hid' hmove]
        cases cfg.isPoolingModel <;> exact ⟨by simp [hpop], by simp [hpop, hsorted]⟩
      have hocc : b1.occ e = some id' := by
        rw [hocc1, update_of_ne (by omega), update_self]
      have hpos : InputBatch.lastNonEmpty (e :: es) last - 1 + 1 =
          InputBatch.lastNonEmpty (e :: es) last := by omega
      rw [← hpos] at hs1
      rw [← hnum]
      refine ih hs1 hes hocc hbuilder.1 hbuilder.2 ?_ hop
      · intro move hmem
        obtain ⟨h1, h2, h3⟩ := mem_condenseMoves hmem
        have h4 := he move.2 h2
        exact (hclean move (mem_cons_of_mem _ hmem)).moveDown hid' hmove (by omega)
          (by omega) (by omega) (by omega)

/-! ## The whole of `condense` -/

theorem occ_trim (h : Placed b [] n) : (b.trim n).occ = b.occ := by
  funext r
  show rowOf (b.reqIds.take n) r = rowOf b.reqIds r
  rw [rowOf_take]
  split_ifs with hr
  · rfl
  · cases ho : rowOf b.reqIds r with
    | none => rfl
    | some k => exact absurd (h.rows.below r k ho) hr

theorem Placed.trim (h : Placed b [] n) : Placed (b.trim n) [] (b.trim n).reqIds.length := by
  have hlen : (b.trim n).reqIds.length = n := length_take_of_le h.bound
  refine ⟨?_, le_rfl⟩
  rw [hlen, occ_trim h]
  exact h.rows

theorem Sound.trim (h : Sound cfg b m [] n) :
    Sound cfg (b.trim n) m [] (b.trim n).reqIds.length := by
  have hocc := occ_trim h.toPlaced
  have hlen : (b.trim n).reqIds.length = n := length_take_of_le h.bound
  constructor
  case toPlaced => exact h.toPlaced.trim
  case outputs =>
    rw [hlen]
    exact length_take_of_le (by rw [h.outputs]; exact h.bound)
  case spec =>
    rw [hlen]
    refine le_of_eq (length_take_of_le ?_).symm
    exact le_trans h.bound h.spec
  case specFree =>
    intro r hr
    rw [hocc] at hr
    refine TokenRows.specAt_trim.trans ?_
    split_ifs
    · exact h.specFree r hr
    · rfl
  case entryFree =>
    intro hp r hr
    rw [hocc] at hr
    exact h.entryFree hp r hr
  case blocksPer => exact h.blocksPer
  case absent => exact h.absent
  case held =>
    intro r k hk
    rw [hocc] at hk
    obtain ⟨g, hg, hold⟩ := h.held r k hk
    have hr := h.rows.below r k hk
    refine ⟨g, hg, { hold with tokens := ?_, outputs := ?_ }⟩
    · exact hold.tokens.of_spec (TokenRows.specAt_trim.trans (if_pos hr))
    · show rowOf (b.reqOutputTokenIds.take n) r = _
      rw [rowOf_take, if_pos hr]
      exact hold.outputs
  case kind => exact h.kind

theorem Placed.nil_of_numReqs (h : Placed b free n) (hzero : b.numReqs = 0) : Placed b [] 0 := by
  have hnone : ∀ r, b.occ r = none := by
    intro r
    cases ho : b.occ r with
    | none => rfl
    | some k =>
      have hmem := mem_entries_iff.mpr ((h.rows.inverse r k).mp ho)
      rw [eq_nil_of_length_eq_zero hzero] at hmem
      cases hmem
  refine ⟨?_, Nat.zero_le _⟩
  exact {
    inverse := h.rows.inverse
    below := fun r k hk => by
      rw [hnone r] at hk
      cases hk
    free_iff := fun r hr => absurd hr (Nat.not_lt_zero r)
    nodup := nodup_nil }

/-- The rows that `condense` moves in the batch as it is. -/
def moves (b : InputBatch G) : List (Nat × Nat) :=
  condenseMoves b.empties (b.numReqs + b.empties.length - 1)

theorem Filling.empties_perm (h : Filling b) : b.empties.Perm b.builder.removedRaw :=
  (reverse_perm _).trans (BatchUpdateBuilder.ensureRemovedSorted_removedRaw h.sorted).2

theorem Filling.empties_sorted (h : Filling b) : b.empties.Pairwise (· < ·) := by
  have hsort := (BatchUpdateBuilder.ensureRemovedSorted_removedRaw h.sorted).1
  have hnodup : b.empties.Nodup := h.empties_perm.nodup_iff.mpr h.placed.rows.nodup
  have hle : b.empties.Pairwise (· ≤ ·) := pairwise_reverse.mpr hsort
  exact (hle.and hnodup).imp fun hab => lt_of_le_of_ne hab.1 hab.2

theorem condenseMoves_of_all (hmem : ∀ r, r ≤ last → r ∈ es) (hsort : es.Pairwise (· < ·)) :
    condenseMoves es last = [] := by
  have hzero : ∀ n, (∀ r, r ≤ n → r ∈ es) → lastNonEmpty es n = 0 := by
    intro n
    induction n with
    | zero => exact fun _ => rfl
    | succ n ih =>
      intro hn
      rw [lastNonEmpty, if_pos (hn _ le_rfl)]
      exact ih fun r hr => hn r (Nat.le_succ_of_le hr)
  cases es with
  | nil => rfl
  | cons e es =>
    rw [condenseMoves, hzero last hmem, if_pos (Nat.zero_le e)]

/-- What `condense` does to the places: it does not fail, makes its moves and records them. -/
theorem Filling.condense (h : Filling b) :
    ∃ b', b.condense cfg = .ok b' ∧ Placed b' [] b'.reqIds.length ∧
      b'.reqIds.length ≤ b.reqIds.length ∧ b'.occ = moveAll b.moves b.occ ∧
      Recorded cfg b.builder b'.builder b.moves (b.empties.drop b.moves.length) := by
  have hsize := h.numReqs_add
  rw [← h.empties_perm.length_eq] at hsize
  have hs : Placed { b with builder := b.builder.ensureRemovedSorted } b.empties
      b.reqIds.length := { h.placed.congr_free h.empties_perm.symm with }
  have hraw : b.builder.ensureRemovedSorted.removedRaw = b.empties.reverse := by
    rw [empties, reverse_reverse]
  have hnone : b.moves = [] →
      Recorded cfg b.builder b.builder.ensureRemovedSorted b.moves
        (b.empties.drop b.moves.length) := by
    intro hmoves
    rw [hmoves]
    exact ⟨hraw, BatchUpdateBuilder.ensureRemovedSorted_added, by
      rw [BatchUpdateBuilder.ensureRemovedSorted_moved]
      simp [movedOf]⟩
  rw [InputBatch.condense]
  split_ifs with hnil hzero
  · have hmoves : b.moves = [] := by rw [moves, hnil]; rfl
    rw [hnil] at hs
    refine ⟨_, rfl, hs, le_rfl, ?_, hnone hmoves⟩
    rw [hmoves]
    rfl
  · have hplaced : Placed { b with builder := b.builder.ensureRemovedSorted } [] 0 :=
      hs.nil_of_numReqs hzero
    have hmoves : b.moves = [] := by
      rw [moves]
      refine condenseMoves_of_all (fun r hr => ?_) h.empties_sorted
      have hpos : b.empties.length ≠ 0 := by simpa using hnil
      refine (hs.rows.free_iff r (by omega)).mp ?_
      cases ho : b.occ r with
      | none => exact ho
      | some k => exact absurd (hplaced.rows.below r k ho) (Nat.not_lt_zero r)
    refine ⟨_, rfl, hplaced.trim, length_take_le' .., ?_, hnone hmoves⟩
    rw [occ_trim hplaced, hmoves]
    rfl
  · have hpos : b.numReqs + b.empties.length - 1 + 1 = b.reqIds.length := by omega
    rw [← hpos] at hs
    obtain ⟨e, he⟩ := exists_mem_of_length_pos (Nat.pos_of_ne_zero hzero)
    have hr : b.occ e.2 = some e.1 := h.placed.row_of_index (mem_entries_iff.mp he)
    obtain ⟨b1, hop, hb1, hocc, hrec⟩ := @InputBatch.Placed.condenseLoop _ cfg _ _ _ _ _ hs
        h.empties_sorted hr hraw BatchUpdateBuilder.ensureRemovedSorted_isRemovedSorted
    refine ⟨b1.trim b.numReqs, ?_, hb1.trim, ?_, ?_, ?_⟩
    · rw [hop]
      rfl
    · show (b1.reqIds.take b.numReqs).length ≤ _
      rw [length_take]
      omega
    · exact (occ_trim hb1).trans hocc
    · exact ⟨hrec.removed, hrec.added.trans BatchUpdateBuilder.ensureRemovedSorted_added,
        hrec.moved.trans (by rw [BatchUpdateBuilder.ensureRemovedSorted_moved]; rfl)⟩

/-- Condensing keeps what the requests own, unless one of them moves to a row where something
of an earlier occupant is left. -/
theorem Sound.condense (hfill : Filling b) (h : Sound cfg b m b.builder.removedRaw b.reqIds.length)
    (hclean : ∀ move ∈ b.moves, CleanMove cfg b move.1 move.2)
    (hop : b.condense cfg = .ok b') : Sound cfg b' m [] b'.reqIds.length := by
  have hsize := hfill.numReqs_add
  rw [← hfill.empties_perm.length_eq] at hsize
  have hs : Sound cfg { b with builder := b.builder.ensureRemovedSorted } m b.empties
      b.reqIds.length := (h.congr_free hfill.empties_perm.symm).builder _
  have hraw : b.builder.ensureRemovedSorted.removedRaw = b.empties.reverse := by
    rw [empties, reverse_reverse]
  rw [InputBatch.condense] at hop
  split_ifs at hop with hnil hzero
  · obtain rfl := Except.ok.inj hop
    rw [hnil] at hs
    exact hs
  · obtain rfl := Except.ok.inj hop
    have hsound : Sound cfg { b with builder := b.builder.ensureRemovedSorted } m [] 0 :=
      { hs with toPlaced := hs.toPlaced.nil_of_numReqs hzero }
    exact hsound.trim
  · obtain ⟨b1, hloop, hop⟩ := bind_ok hop
    obtain rfl := Except.ok.inj hop
    have hpos : b.numReqs + b.empties.length - 1 + 1 = b.reqIds.length := by omega
    rw [← hpos] at hs
    obtain ⟨e, he⟩ := exists_mem_of_length_pos (Nat.pos_of_ne_zero hzero)
    have hr : b.occ e.2 = some e.1 := h.row_of_index (mem_entries_iff.mp he)
    have hb1 := hs.condenseLoop hfill.empties_sorted hr hraw
      BatchUpdateBuilder.ensureRemovedSorted_isRemovedSorted
      (fun move hmem => { hclean move hmem with }) hloop
    exact hb1.trim

/-! ## Exchanging two rows -/

/-- The two rows have the same mask or flag, which are not exchanged. -/
structure CleanSwap (cfg : BatchConfig G) (b : InputBatch G) (i j : Nat) : Prop where
  mask : cfg.isPoolingModel = false → b.sampling.maskRow i = b.sampling.maskRow j
  flag : cfg.isPoolingModel = true →
    b.logitsProcessingNeedsTokenIds i = b.logitsProcessingNeedsTokenIds j

theorem swapStates_eq (hop : b.swapStates cfg i j = .ok b') :
    ∃ a c, b.occ i = some a ∧ b.occ j = some c ∧ b' = { b with
      reqIds := swapAt b.reqIds i j
      reqOutputTokenIds := swapAt b.reqOutputTokenIds i j
      reqIdToIndex := (b.reqIdToIndex.set a (b.indexOf c)).set c (b.indexOf a)
      tokens := b.tokens.swapRows i j
      blockTable := fun g => (b.blockTable g).swapRow i j
      requestLoraMapping := swapRow b.requestLoraMapping i j
      builder :=
        if cfg.isPoolingModel then b.builder
        else { b.builder with moved := b.builder.moved ++ [⟨i, j, .swap⟩] }
      sampling := if cfg.isPoolingModel then b.sampling else b.sampling.swapRows i j } := by
  rw [swapStates] at hop
  cases hi : (b.reqIds[i]?).join with
  | none =>
    simp only [hi] at hop
    cases hop
  | some a =>
    cases hj : (b.reqIds[j]?).join with
    | none =>
      simp only [hi, hj] at hop
      cases hop
    | some c =>
      simp only [hi, hj] at hop
      exact ⟨a, c, hi, hj, (Except.ok.inj hop).symm⟩

theorem RowHolds.swap (hold : b.RowHolds row g)
    (hkind : (cfg.isPoolingModel = true → g.sampling = none) ∧
      (cfg.isPoolingModel = false → g.needsTokenIds = none)) (hi : i < b.reqIds.length)
    (hj : j < b.reqIds.length) (hspec : b.reqIds.length ≤ b.tokens.specTokenIds.length)
    (hlen : b.reqOutputTokenIds.length = b.reqIds.length) (hclean : CleanSwap cfg b i j)
    (hr : r = i ∧ row = j ∨ r = j ∧ row = i ∨ r = row ∧ r ≠ i ∧ r ≠ j) {index : Dict String Nat}
    {builder : BatchUpdateBuilder} : RowHolds { b with
      reqIds := swapAt b.reqIds i j
      reqOutputTokenIds := swapAt b.reqOutputTokenIds i j
      reqIdToIndex := index
      tokens := b.tokens.swapRows i j
      blockTable := fun g => (b.blockTable g).swapRow i j
      requestLoraMapping := swapRow b.requestLoraMapping i j
      builder := builder
      sampling := if cfg.isPoolingModel then b.sampling else b.sampling.swapRows i j } r g := by
  have hrow : ∀ {V : Type} (a : Nat → V), swapRow a i j r = a row := by
    intro V a
    rcases hr with ⟨rfl, rfl⟩ | ⟨rfl, rfl⟩ | ⟨rfl, hni, hnj⟩
    · exact swapRow_left
    · exact swapRow_right
    · exact swapRow_of_ne hni hnj
  constructor
  case tokens => exact hold.tokens.swapRows (by omega) (by omega) hr
  case blocks =>
    intro k
    refine (BlockTable.rowBlocks_congr (hrow _) fun p _ => ?_).trans (hold.blocks k)
    exact congrFun (hrow _) p
  case lora => exact (hrow _).trans hold.lora
  case outputs =>
    show rowOf (swapAt b.reqOutputTokenIds i j) r = _
    rw [rowOf_swapAt (by omega) (by omega), hrow]
    exact hold.outputs
  case sampling =>
    intro s hs
    show (if cfg.isPoolingModel then b.sampling else b.sampling.swapRows i j).row r = s
    cases hp : cfg.isPoolingModel with
    | true =>
      rw [hkind.1 hp] at hs
      cases hs
    | false =>
      rw [if_neg (by simp), ← hold.sampling s hs]
      rcases hr with ⟨rfl, rfl⟩ | ⟨rfl, rfl⟩ | ⟨rfl, hni, hnj⟩
      · exact SamplingRows.row_swapRows_left
      · exact SamplingRows.row_swapRows_right (hclean.mask hp)
      · exact SamplingRows.row_swapRows_of_ne hni hnj
  case needsTokenIds =>
    intro f hf
    show b.logitsProcessingNeedsTokenIds r = f
    cases hp : cfg.isPoolingModel with
    | false =>
      rw [hkind.2 hp] at hf
      cases hf
    | true =>
      rw [← hold.needsTokenIds f hf]
      rcases hr with ⟨rfl, rfl⟩ | ⟨rfl, rfl⟩ | ⟨rfl, hni, hnj⟩
      · exact hclean.flag hp
      · exact (hclean.flag hp).symm
      · rfl

theorem Placed.swapStates (h : Placed b [] b.reqIds.length) (hop : b.swapStates cfg i j = .ok b') :
    Placed b' [] b'.reqIds.length ∧ b'.occ = swapRow b.occ i j ∧
      b'.reqIds.length = b.reqIds.length := by
  obtain ⟨a, c, hi, hj, heq⟩ := swapStates_eq hop
  have hocc : b'.occ = swapRow b.occ i j := by
    rw [heq]
    exact rowOf_swapAt (lt_of_rowOf hi) (lt_of_rowOf hj)
  have hlen : b'.reqIds.length = b.reqIds.length := by
    rw [heq]
    exact length_swapAt
  have hia : b.indexOf a = i := by
    rw [indexOf, (h.rows.inverse i a).mp hi]
    rfl
  have hjc : b.indexOf c = j := by
    rw [indexOf, (h.rows.inverse j c).mp hj]
    rfl
  refine ⟨⟨?_, le_rfl⟩, hocc, hlen⟩
  have hrows := h.rows.swap hi hj
  rw [hocc, hlen, heq, swapRow, hi, hj]
  show Rows _ ((b.reqIdToIndex.set a (b.indexOf c)).set c (b.indexOf a)) _ _
  rw [hia, hjc]
  exact hrows

theorem Sound.swapStates (h : Sound cfg b m [] b.reqIds.length) (hclean : CleanSwap cfg b i j)
    (hop : b.swapStates cfg i j = .ok b') : Sound cfg b' m [] b'.reqIds.length := by
  obtain ⟨hplaced, hswap, hlen⟩ := h.toPlaced.swapStates hop
  obtain ⟨a, c, hi, hj, heq⟩ := swapStates_eq hop
  have hli := lt_of_rowOf hi
  have hlj := lt_of_rowOf hj
  have hocc : b'.occ = update (update b.occ i (some c)) j (some a) := by
    rw [hswap, swapRow, hi, hj]
  have hfree : ∀ r, b'.occ r = none → r ≠ i ∧ r ≠ j ∧ b.occ r = none := by
    intro r hr
    rw [hocc] at hr
    obtain ⟨hrj, hr⟩ := of_update_ne hr (Option.some_ne_none a)
    obtain ⟨hri, hr⟩ := of_update_ne hr (Option.some_ne_none c)
    exact ⟨hri, hrj, hr⟩
  constructor
  case toPlaced => exact hplaced
  case outputs =>
    rw [hlen, heq]
    exact length_swapAt.trans h.outputs
  case spec =>
    rw [hlen, heq]
    simpa [TokenRows.swapRows] using h.spec
  case specFree =>
    intro r hr
    obtain ⟨hri, hrj, hr⟩ := hfree r hr
    rw [heq]
    refine (TokenRows.specAt_swapRows (h.lt_spec hi) (h.lt_spec hj)).trans ?_
    rw [swapRow_of_ne hri hrj]
    exact h.specFree r hr
  case entryFree =>
    intro hp r hr
    obtain ⟨hri, hrj, hr⟩ := hfree r hr
    rw [heq]
    show (if cfg.isPoolingModel then b.sampling else b.sampling.swapRows i j).NoEntry r
    rw [if_neg (by simp [hp])]
    exact (h.entryFree hp r hr).swapRows_of_ne hri hrj
  case blocksPer =>
    rw [heq]
    exact h.blocksPer
  case absent =>
    intro k hk
    rw [heq] at hk
    replace hk : ((b.reqIdToIndex.set a (b.indexOf c)).set c (b.indexOf a)).get? k = none := hk
    rw [get?_set, get?_set] at hk
    split_ifs at hk
    exact h.absent k hk
  case held =>
    have hmove : ∀ row k, b.occ row = some k → ∀ r,
        (r = i ∧ row = j ∨ r = j ∧ row = i ∨ r = row ∧ r ≠ i ∧ r ≠ j) →
        ∃ g, m k = some g ∧ b'.RowHolds r g := by
      intro row k hk r hr
      obtain ⟨g, hg, hold⟩ := h.held row k hk
      refine ⟨g, hg, ?_⟩
      rw [heq]
      exact hold.swap (h.kind k g hg) hli hlj h.spec h.outputs hclean hr
    intro r k hk
    rw [hocc, update_apply, update_apply] at hk
    split_ifs at hk with hrj hri
    · obtain rfl := Option.some.inj hk
      exact hmove i _ hi r (.inr (.inl ⟨hrj, rfl⟩))
    · obtain rfl := Option.some.inj hk
      exact hmove j _ hj r (.inl ⟨hri, rfl⟩)
    · exact hmove r k hk r (.inr (.inr ⟨rfl, hri, hrj⟩))
  case kind => exact h.kind

/-! ## Updates and the end of a step -/

theorem updateRow_frame (u : RowUpdate G) :
    (b.updateRow row u).reqIds = b.reqIds ∧
      (b.updateRow row u).reqIdToIndex = b.reqIdToIndex ∧
      (b.updateRow row u).reqOutputTokenIds = b.reqOutputTokenIds ∧
      (b.updateRow row u).requestLoraMapping = b.requestLoraMapping ∧
      (b.updateRow row u).logitsProcessingNeedsTokenIds = b.logitsProcessingNeedsTokenIds ∧
      (b.updateRow row u).builder = b.builder := by
  cases u <;> exact ⟨rfl, rfl, rfl, rfl, rfl, rfl⟩

theorem Placed.updateRow (h : Placed b free n) (u : RowUpdate G) :
    Placed (b.updateRow row u) free n := by
  obtain ⟨hids, hindex, -⟩ := @updateRow_frame _ b row u
  refine ⟨?_, by rw [hids]; exact h.bound⟩
  rw [occ, hids, hindex]
  exact h.rows

theorem Placed.refreshMetadata (h : Placed b [] b.reqIds.length) :
    Filling (b.refreshMetadata cfg).2 ∧
      ∃ x, (b.refreshMetadata cfg).2 = { b with builder := x } ∧ x.removedRaw = [] ∧
        x.added = [] ∧ x.moved = [] := by
  have hbuilder : ∃ x, (b.refreshMetadata cfg).2 = { b with builder := x } ∧ x.removedRaw = [] ∧
      x.added = [] ∧ x.moved = [] := by
    rw [InputBatch.refreshMetadata]
    split_ifs
    · exact ⟨_, rfl, rfl, rfl, rfl⟩
    · rw [BatchUpdateBuilder.getAndReset]
      split_ifs with hnil
      · simp only [Bool.and_eq_true, List.isEmpty_iff] at hnil
        exact ⟨_, rfl, hnil.1.1, hnil.2, hnil.1.2⟩
      · exact ⟨_, rfl, rfl, rfl, rfl⟩
  refine ⟨?_, hbuilder⟩
  obtain ⟨x, hx, hraw, -, hmoved⟩ := hbuilder
  constructor
  case placed =>
    rw [hx, hraw]
    exact { h with }
  case below =>
    intro r hr
    rw [hx, hraw] at hr
    cases hr
  case sorted =>
    intro _
    rw [hx, hraw]
    exact List.Pairwise.nil
  case moved =>
    rw [hx]
    exact hmoved

end MyOperator.Worker.InputBatch
