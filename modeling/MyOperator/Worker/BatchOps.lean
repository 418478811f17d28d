import MyOperator.Worker.InputBatch

/-!
# The operations keep the batch sound

One lemma for each operation: which map of requests the batch stands for after it.
Where the code leaves something of an earlier occupant behind, the lemma has a
hypothesis that nothing is left there.
-/

namespace MyOperator.Worker.InputBatch

open Function Lib List

variable {G : Type} {cfg : BatchConfig G} {b b' : InputBatch G}
  {m : String → Option (RequestRow G)} {free : List Nat} {n r row : Nat} {id : String}
  {g : RequestRow G} {request : CachedRequestState G} {outputs : Outputs}

/-! ## Removing -/

theorem removeRequest_eq (hr : b.reqIdToIndex.get? id = some row)
    (hop : b.removeRequest cfg id = .ok b') : b.builder.isRemovedSorted = false ∧ b' = { b with
      reqIdToIndex := b.reqIdToIndex.erase id
      builder := { b.builder with
        removedRaw := b.builder.removedRaw ++ [row]
        batchChanged := true }
      reqIds := b.reqIds.set row none
      reqOutputTokenIds := b.reqOutputTokenIds.set row none
      tokens := b.tokens.clearRow row
      blockTable := fun g => (b.blockTable g).clearRow row
      requestLoraMapping := update b.requestLoraMapping row 0
      sampling := if cfg.isPoolingModel then b.sampling else b.sampling.clearRow row } := by
  rw [removeRequest, hr] at hop
  obtain ⟨builder, happ, hb⟩ := bind_ok hop
  rw [BatchUpdateBuilder.removedAppend] at happ
  split_ifs at happ with hsorted
  obtain rfl := Except.ok.inj happ
  exact ⟨by simpa using hsorted, (Except.ok.inj hb).symm⟩

theorem removeRequest_none (hr : b.reqIdToIndex.get? id = none)
    (hop : b.removeRequest cfg id = .ok b') : b' = b := by
  rw [removeRequest, hr] at hop
  exact (Except.ok.inj hop).symm

theorem Placed.removeRequest (h : Placed b free n) (hr : b.reqIdToIndex.get? id = some row)
    (hop : b.removeRequest cfg id = .ok b') : Placed b' (row :: free) n := by
  obtain ⟨-, rfl⟩ := removeRequest_eq hr hop
  have hrow := h.row_of_index hr
  refine ⟨?_, by simpa using h.bound⟩
  show Rows (rowOf (b.reqIds.set row none)) (b.reqIdToIndex.erase id) (row :: free) n
  rw [rowOf_set (lt_of_rowOf hrow)]
  exact h.rows.vacate hrow

theorem Sound.removeRequest (h : Sound cfg b m free n) (hr : b.reqIdToIndex.get? id = some row)
    (hop : b.removeRequest cfg id = .ok b') : Sound cfg b' (update m id none) (row :: free) n := by
  have hplaced := h.toPlaced.removeRequest hr hop
  obtain ⟨-, rfl⟩ := removeRequest_eq hr hop
  have hrow := h.row_of_index hr
  have hlt := lt_of_rowOf hrow
  have hocc : rowOf (b.reqIds.set row none) = update b.occ row none := rowOf_set hlt
  have hout : rowOf (b.reqOutputTokenIds.set row none) = update (rowOf b.reqOutputTokenIds) row none :=
    rowOf_set (h.outputs ▸ hlt)
  constructor
  case toPlaced => exact hplaced
  case outputs => simpa using h.outputs
  case spec => simpa [TokenRows.clearRow] using h.spec
  case specFree =>
    intro r hr
    replace hr : rowOf (b.reqIds.set row none) r = none := hr
    show (b.tokens.clearRow row).specAt r = []
    rw [TokenRows.specAt_clearRow]
    split_ifs with hrr
    · rfl
    · rw [hocc, update_of_ne hrr] at hr
      exact h.specFree r hr
  case entryFree =>
    intro hp r hr
    replace hr : rowOf (b.reqIds.set row none) r = none := hr
    simp only [hp, Bool.false_eq_true, if_false]
    by_cases hrr : r = row
    · subst hrr
      exact SamplingRows.noEntry_clearRow
    · rw [hocc, update_of_ne hrr] at hr
      exact (h.entryFree hp r hr).clearRow_of_ne hrr
  case blocksPer => exact h.blocksPer
  case absent =>
    intro k hk
    rw [Dict.get?_erase] at hk
    by_cases hkk : k = id
    · rw [hkk, update_self]
    · rw [if_neg hkk] at hk
      rw [update_of_ne hkk]
      exact h.absent k hk
  case held =>
    intro r k hk
    replace hk : rowOf (b.reqIds.set row none) r = some k := hk
    rw [hocc] at hk
    obtain ⟨hrr, hk⟩ := of_update_ne hk nofun
    have hkk : k ≠ id := by
      rintro rfl
      exact hrr (h.rows.occ_inj hk hrow)
    obtain ⟨g, hg, hold⟩ := h.held r k hk
    refine ⟨g, (update_of_ne hkk ..).trans hg, ?_⟩
    constructor
    case tokens =>
      exact hold.tokens.of_spec (TokenRows.specAt_clearRow.trans (if_neg hrr))
    case blocks => exact fun k => (BlockTable.rowBlocks_clearRow_of_ne hrr).trans (hold.blocks k)
    case lora => exact (update_of_ne hrr ..).trans hold.lora
    case outputs => exact (congrFun hout r).trans ((update_of_ne hrr ..).trans hold.outputs)
    case sampling =>
      intro s hs
      show (if cfg.isPoolingModel then b.sampling else b.sampling.clearRow row).row r = s
      split_ifs
      · exact hold.sampling s hs
      · exact (SamplingRows.row_clearRow_of_ne hrr).trans (hold.sampling s hs)
    case needsTokenIds => exact hold.needsTokenIds
  case kind =>
    exact fun k g hg => h.kind k g (of_update_ne hg nofun).2

/-! ## Adding -/

/-- The kind of request that the model takes. -/
def Fits (cfg : BatchConfig G) (request : CachedRequestState G) : Prop :=
  if cfg.isPoolingModel then request.samplingParams = none ∧ request.poolingParams ≠ none
  else request.samplingParams ≠ none

/-- The row for the request holds no embeddings and no mask that it would keep. -/
structure CleanRow (b : InputBatch G) (row : Nat) (request : CachedRequestState G) : Prop where
  embeds : request.promptEmbeds = none → b.tokens.reqPromptEmbeds row = none
  mask : ∀ params, request.samplingParams = some params → truthy params.allowedTokenIds = none →
    b.sampling.maskRow row = fun _ => false

theorem tokens_writeRow {numPromptTokens : Nat} (h : Sound cfg b m free n)
    (hn : lengthFromPromptTokenIdsOrEmbeds request.promptTokenIds request.promptEmbeds =
      .ok numPromptTokens) (hfree : b.occ row = none)
    (hclean : request.promptEmbeds = none → b.tokens.reqPromptEmbeds row = none) :
    (b.writeRow outputs request row numPromptTokens).tokens.Holds row
      (TokenRow.ofRequest request numPromptTokens (outputs request.outputTokenIds)) := by
  refine TokenRows.holds_addRow hn ?_ hclean
  rw [TokenRows.specAt_openSpec fun _ => h.specFree row hfree, if_pos rfl]

theorem writeParams_row (outputs : Outputs) (numPromptTokens : Nat) (hfits : Fits cfg request)
    (hentry : cfg.isPoolingModel = false → b.sampling.NoEntry row)
    (hacc : b.sampling.numAcceptedTokensCpu row = 1)
    (hmask : ∀ params, request.samplingParams = some params →
      truthy params.allowedTokenIds = none → b.sampling.maskRow row = fun _ => false)
    (hop : b.writeParams cfg request row = .ok b') :
    (∀ s, (RequestRow.ofRequest cfg outputs request numPromptTokens).sampling = some s →
      b'.sampling.row row = s) ∧
    (∀ f, (RequestRow.ofRequest cfg outputs request numPromptTokens).needsTokenIds = some f →
      b'.logitsProcessingNeedsTokenIds row = f) := by
  rw [writeParams.eq_def] at hop
  cases hs : request.samplingParams with
  | some params =>
    simp only [hs] at hop
    obtain rfl := Except.ok.inj hop
    have hpool : cfg.isPoolingModel = false := by
      by_contra hp
      rw [Fits, if_pos (by simpa using hp), hs] at hfits
      cases hfits.1
    constructor
    · intro s hs'
      simp only [RequestRow.ofRequest, hs, Option.map_some, Option.some.injEq] at hs'
      rw [← hs']
      exact SamplingRows.row_addRow (hentry hpool) hacc (hmask params hs)
    · intro f hf
      simp [RequestRow.ofRequest, hs] at hf
  | none =>
    cases hpp : request.poolingParams with
    | none =>
      simp only [hs, hpp] at hop
      cases hop
    | some params =>
      simp only [hs, hpp] at hop
      obtain rfl := Except.ok.inj hop
      constructor
      · intro s hs'
        simp [RequestRow.ofRequest, hs] at hs'
      · intro f hf
        simp only [RequestRow.ofRequest, hs, hpp, if_true, Option.map_some, Option.some.injEq] at hf
        rw [← hf]
        exact update_self ..

theorem writeParams_frame (hop : b.writeParams cfg request row = .ok b') :
    b'.reqIds = b.reqIds ∧ b'.reqIdToIndex = b.reqIdToIndex ∧
      b'.reqOutputTokenIds = b.reqOutputTokenIds ∧ b'.tokens = b.tokens ∧
      b'.blockTable = b.blockTable ∧ b'.requestLoraMapping = b.requestLoraMapping ∧
      b'.builder = b.builder ∧
      (∀ r, r ≠ row → b'.sampling.row r = b.sampling.row r) ∧
      (∀ r, r ≠ row → b.sampling.NoEntry r → b'.sampling.NoEntry r) ∧
      ∀ r, r ≠ row → b'.logitsProcessingNeedsTokenIds r = b.logitsProcessingNeedsTokenIds r := by
  rw [writeParams.eq_def] at hop
  cases hs : request.samplingParams with
  | some params =>
    simp only [hs] at hop
    obtain rfl := Except.ok.inj hop
    exact ⟨rfl, rfl, rfl, rfl, rfl, rfl, rfl, fun r hr => SamplingRows.row_addRow_of_ne hr,
      fun r hr h => h.addRow_of_ne hr, fun _ _ => rfl⟩
  | none =>
    cases hpp : request.poolingParams with
    | none =>
      simp only [hs, hpp] at hop
      cases hop
    | some params =>
      simp only [hs, hpp] at hop
      obtain rfl := Except.ok.inj hop
      exact ⟨rfl, rfl, rfl, rfl, rfl, rfl, rfl, fun _ _ => rfl, fun _ _ h => h,
        fun r hr => update_of_ne hr ..⟩

theorem le_of_place (hplace : row ∈ free ∧ row < n ∨ free = [] ∧ row = n) : row ≤ n := by
  rcases hplace with ⟨-, hlt⟩ | ⟨-, heq⟩
  · exact le_of_lt hlt
  · exact le_of_eq heq

theorem Placed.write (h : Placed b free b.reqIds.length)
    (hplace : row ∈ free ∧ row < b.reqIds.length ∨ free = [] ∧ row = b.reqIds.length)
    (hid : b.reqIdToIndex.get? request.reqId = none) {numPromptTokens : Nat}
    (hop : (b.writeRow outputs request row numPromptTokens).writeParams cfg request row = .ok b') :
    Placed b' (free.erase row) b'.reqIds.length ∧
      b'.occ = update b.occ row (some request.reqId) := by
  have hle := le_of_place hplace
  obtain ⟨hids, hindex, -⟩ := writeParams_frame hop
  replace hids : b'.reqIds = putAt b.reqIds row (some request.reqId) := hids
  replace hindex : b'.reqIdToIndex = b.reqIdToIndex.set request.reqId row := hindex
  have hocc : b'.occ = update b.occ row (some request.reqId) := by
    rw [occ, hids, rowOf_putAt hle]
    rfl
  refine ⟨⟨?_, le_rfl⟩, hocc⟩
  rw [hocc, hindex, hids, length_putAt]
  rcases hplace with ⟨hmem, hlt⟩ | ⟨hnil, heq⟩
  · rw [if_neg (by omega)]
    exact h.rows.fill hmem hlt hid
  · subst hnil
    rw [if_pos heq, heq]
    exact h.rows.extend hid

theorem Sound.write (h : Sound cfg b m free b.reqIds.length)
    (hplace : row ∈ free ∧ row < b.reqIds.length ∨ free = [] ∧ row = b.reqIds.length)
    (hid : b.reqIdToIndex.get? request.reqId = none) (hfits : Fits cfg request)
    (hclean : CleanRow b row request) {numPromptTokens : Nat}
    (hn : lengthFromPromptTokenIdsOrEmbeds request.promptTokenIds request.promptEmbeds =
      .ok numPromptTokens)
    (hop : (b.writeRow outputs request row numPromptTokens).writeParams cfg request row = .ok b') :
    Sound cfg b' (update m request.reqId
      (some (RequestRow.ofRequest cfg outputs request numPromptTokens))) (free.erase row)
      b'.reqIds.length := by
  have hle := le_of_place hplace
  have hfree : b.occ row = none := by
    rcases hplace with ⟨hmem, hlt⟩ | ⟨-, heq⟩
    · exact (h.rows.free_iff row hlt).mpr hmem
    · exact rowOf_of_le (le_of_eq heq.symm)
  obtain ⟨hplaced, hocc⟩ := h.toPlaced.write hplace hid hop
  obtain ⟨hids, hindex, houts, htokens, hblocks, hlora, -, hsampling, hentries, hneeds⟩ :=
    writeParams_frame hop
  replace hids : b'.reqIds = putAt b.reqIds row (some request.reqId) := hids
  replace hindex : b'.reqIdToIndex = b.reqIdToIndex.set request.reqId row := hindex
  have hout : rowOf b'.reqOutputTokenIds =
      update (rowOf b.reqOutputTokenIds) row (some request.outputTokenIds) := by
    rw [houts]
    exact rowOf_putAt (h.outputs ▸ hle)
  have hspecAt : ∀ r, b'.tokens.specAt r = if r = row then [] else b.tokens.specAt r := by
    intro r
    rw [htokens]
    exact TokenRows.specAt_openSpec fun _ => h.specFree row hfree
  have hrow := writeParams_row (b := b.writeRow outputs request row numPromptTokens) outputs
    numPromptTokens hfits (fun hp => h.entryFree hp row hfree) (update_self ..) hclean.mask hop
  constructor
  case toPlaced => exact hplaced
  case outputs =>
    rw [houts, hids]
    show (putAt b.reqOutputTokenIds row _).length = _
    rw [length_putAt, length_putAt, h.outputs]
  case spec =>
    have hlen := h.spec
    rw [hids, htokens, length_putAt]
    show _ ≤ (if (decide (row = b.reqIds.length)) = true then b.tokens.specTokenIds ++ [[]]
      else b.tokens.specTokenIds.set row []).length
    by_cases heq : row = b.reqIds.length
    · simp [heq, hlen]
    · simp [heq, hlen]
  case specFree =>
    intro r hr
    rw [hspecAt]
    split_ifs with hrr
    · rfl
    · rw [hocc, update_of_ne hrr] at hr
      exact h.specFree r hr
  case entryFree =>
    intro hp r hr
    rw [hocc] at hr
    obtain ⟨hrr, hr⟩ := of_update_ne hr nofun
    exact hentries r hrr (h.entryFree hp r hr)
  case blocksPer =>
    intro k
    rw [hblocks]
    exact BlockTable.blocksPerKvBlock_appendRow.trans (h.blocksPer k)
  case absent =>
    intro k hk
    rw [hindex, Dict.get?_set] at hk
    split_ifs at hk with hkk
    rw [update_of_ne hkk]
    exact h.absent k hk
  case held =>
    intro r k hk
    by_cases hrr : r = row
    · subst hrr
      rw [hocc, update_self] at hk
      obtain rfl := Option.some.inj hk
      refine ⟨_, update_self .., ?_⟩
      constructor
      case tokens =>
        rw [htokens]
        exact tokens_writeRow h hn hfree hclean.embeds
      case blocks =>
        intro k
        rw [hblocks]
        exact BlockTable.rowBlocks_addRow.trans (by rw [h.blocksPer k]; rfl)
      case lora =>
        rw [hlora]
        exact update_self ..
      case outputs =>
        rw [hout]
        exact update_self ..
      case sampling => exact hrow.1
      case needsTokenIds => exact hrow.2
    · rw [hocc, update_of_ne hrr] at hk
      have hkk : k ≠ request.reqId := by
        rintro rfl
        rw [(h.rows.inverse r _).mp hk] at hid
        cases hid
      obtain ⟨g, hg, hold⟩ := h.held r k hk
      refine ⟨g, (update_of_ne hkk ..).trans hg, ?_⟩
      constructor
      case tokens =>
        rw [htokens]
        refine (hold.tokens.of_spec ?_).addRow_of_ne hrr
        exact (TokenRows.specAt_openSpec fun _ => h.specFree row hfree).trans (if_neg hrr)
      case blocks =>
        intro k
        rw [hblocks]
        exact (BlockTable.rowBlocks_addRow_of_ne hrr).trans (hold.blocks k)
      case lora =>
        rw [hlora]
        exact (update_of_ne hrr ..).trans hold.lora
      case outputs =>
        rw [hout]
        exact (update_of_ne hrr ..).trans hold.outputs
      case sampling =>
        intro s hs
        rw [hsampling r hrr]
        exact (SamplingRows.row_resetAccepted_of_ne hrr).trans (hold.sampling s hs)
      case needsTokenIds =>
        intro f hf
        rw [hneeds r hrr]
        exact hold.needsTokenIds f hf
  case kind =>
    intro k g hg
    by_cases hkk : k = request.reqId
    · rw [hkk, update_self] at hg
      obtain rfl := Option.some.inj hg
      rw [Fits] at hfits
      constructor
      · intro hp
        rw [if_pos hp] at hfits
        simp [RequestRow.ofRequest, hfits.1]
      · intro hp
        rw [if_neg (by simp [hp])] at hfits
        exact if_neg hfits
    · rw [update_of_ne hkk] at hg
      exact h.kind k g hg

/-! ## Before condensing -/

/-- The batch between `refresh_metadata` and `condense`: the free rows are the ones
registered as removed. -/
structure Filling (b : InputBatch G) : Prop where
  placed : Placed b b.builder.removedRaw b.reqIds.length
  below : ∀ r ∈ b.builder.removedRaw, r < b.reqIds.length
  sorted : b.builder.SortedIfRead
  moved : b.builder.moved = []

theorem Filling.numReqs_add (h : Filling b) :
    b.numReqs + b.builder.removedRaw.length = b.reqIds.length := h.placed.rows.size h.below

theorem Filling.removeRequest (h : Filling b) (hr : b.reqIdToIndex.get? id = some row)
    (hop : b.removeRequest cfg id = .ok b') :
    Filling b' ∧ b'.occ = update b.occ row none ∧
      b'.builder.removedRaw = b.builder.removedRaw ++ [row] ∧ b'.builder.added = b.builder.added := by
  have hplaced := h.placed.removeRequest hr hop
  have hlt := lt_of_rowOf (h.placed.row_of_index hr)
  obtain ⟨hsorted, rfl⟩ := removeRequest_eq hr hop
  refine ⟨?_, rowOf_set hlt, rfl, rfl⟩
  constructor
  case placed =>
    show Placed _ (b.builder.removedRaw ++ [row]) (b.reqIds.set row none).length
    rw [length_set]
    exact hplaced.congr_free (perm_append_singleton row _).symm
  case below =>
    intro r hr
    show r < (b.reqIds.set row none).length
    rw [length_set]
    rcases mem_append.mp hr with hr | hr
    · exact h.below r hr
    · rw [mem_singleton.mp hr]
      exact hlt
  case sorted =>
    intro hs
    replace hs : b.builder.isRemovedSorted = true := hs
    rw [hsorted] at hs
    cases hs
  case moved => exact h.moved

/-- The next request gets the lowest of the free rows, or the row behind the last. -/
theorem Filling.nextRow (h : Filling b) :
    (b.nextRow ∈ b.builder.removedRaw ∧ b.nextRow < b.reqIds.length ∨
      b.builder.removedRaw = [] ∧ b.nextRow = b.reqIds.length) ∧
    b.builder.popRemoved.2.removedRaw.Perm (b.builder.removedRaw.erase b.nextRow) ∧
    b.builder.popRemoved.2.SortedIfRead ∧ b.builder.popRemoved.2.added = b.builder.added ∧
    b.builder.popRemoved.2.moved = [] := by
  rcases hp : b.builder.popRemoved with ⟨_ | r, builder⟩
  · obtain ⟨hnil, rfl⟩ := BatchUpdateBuilder.popRemoved_none hp
    have hsize := h.numReqs_add
    rw [hnil, length_nil, add_zero] at hsize
    have hrow : b.nextRow = b.reqIds.length := by
      rw [InputBatch.nextRow, hp]
      exact hsize
    refine ⟨.inr ⟨hnil, hrow⟩, ?_, h.sorted, rfl, h.moved⟩
    rw [hnil]
    exact List.Perm.refl _
  · obtain ⟨hmem, -, hperm, hsorted, hadded, hmoved⟩ :=
      BatchUpdateBuilder.popRemoved_some h.sorted hp
    have hrow : b.nextRow = r := by
      rw [InputBatch.nextRow, hp]
      rfl
    rw [hrow]
    exact ⟨.inl ⟨hmem, h.below r hmem⟩, hperm, hsorted, hadded, hmoved.trans h.moved⟩

theorem registerAddRequest_eq (hop : b.registerAddRequest cfg request = .ok b') :
    b.nextRow < cfg.maxNumReqs ∧ b' = { b with
      builder := { b.builder.popRemoved.2 with
        batchChanged := true
        added :=
          match request.samplingParams with
          | some params => b.builder.popRemoved.2.added ++
              [⟨b.nextRow, params, request.promptTokenIds, request.outputTokenIds⟩]
          | none => b.builder.popRemoved.2.added } } := by
  rw [registerAddRequest] at hop
  split_ifs at hop with hlt
  exact ⟨hlt, (Except.ok.inj hop).symm⟩

/-- The entry that a request adds to the batch update. -/
def addedEntry (b : InputBatch G) (request : CachedRequestState G) : List AddedRequest :=
  match request.samplingParams with
  | some params => [⟨b.nextRow, params, request.promptTokenIds, request.outputTokenIds⟩]
  | none => []

theorem Filling.addRequest (h : Filling b) (hid : b.reqIdToIndex.get? request.reqId = none)
    (hop : b.addRequest cfg outputs request = .ok b') :
    Filling b' ∧ b.nextRow < cfg.maxNumReqs ∧
      b'.occ = update b.occ b.nextRow (some request.reqId) ∧
      b'.builder.removedRaw.Perm (b.builder.removedRaw.erase b.nextRow) ∧
      b'.builder.added = b.builder.added ++ b.addedEntry request := by
  obtain ⟨registered, hreg, hop⟩ := bind_ok hop
  obtain ⟨numPromptTokens, hn, hop⟩ := bind_ok hop
  obtain ⟨hplace, hperm, hsorted, hadded, hmoved⟩ := h.nextRow
  obtain ⟨hlt, heq⟩ := registerAddRequest_eq hreg
  have hregistered : Placed registered b.builder.removedRaw registered.reqIds.length := by
    rw [heq]
    exact { h.placed with }
  obtain ⟨hplaced, hocc⟩ := hregistered.write (by rw [heq]; exact hplace)
    (by rw [heq]; exact hid) hop
  subst heq
  obtain ⟨hids, -, -, -, -, -, hbuilder, -⟩ := writeParams_frame hop
  have hraw : b'.builder.removedRaw = b.builder.popRemoved.2.removedRaw := by
    rw [hbuilder]
    rfl
  refine ⟨?_, hlt, hocc, ?_, ?_⟩
  · constructor
    case placed =>
      rw [hraw]
      exact hplaced.congr_free hperm.symm
    case below =>
      intro r hr
      rw [hraw, hperm.mem_iff] at hr
      have hlt := h.below r (mem_of_mem_erase hr)
      rw [hids]
      show r < (putAt b.reqIds b.nextRow _).length
      rw [length_putAt]
      split_ifs
      · exact Nat.lt_succ_of_lt hlt
      · exact hlt
    case sorted =>
      rw [hbuilder]
      exact hsorted
    case moved =>
      rw [hbuilder]
      exact hmoved
  · rw [hraw]
    exact hperm
  · rw [hbuilder, addedEntry]
    simp only [writeRow, hadded]
    cases request.samplingParams with
    | none => simp
    | some params => rfl

theorem Sound.addRequest (hfill : Filling b)
    (h : Sound cfg b m b.builder.removedRaw b.reqIds.length)
    (hid : b.reqIdToIndex.get? request.reqId = none) (hfits : Fits cfg request)
    (hclean : CleanRow b b.nextRow request) (hop : b.addRequest cfg outputs request = .ok b') :
    ∃ numPromptTokens,
      lengthFromPromptTokenIdsOrEmbeds request.promptTokenIds request.promptEmbeds =
        .ok numPromptTokens ∧
      Sound cfg b' (update m request.reqId
        (some (RequestRow.ofRequest cfg outputs request numPromptTokens))) b'.builder.removedRaw
        b'.reqIds.length := by
  obtain ⟨-, -, -, hperm, -⟩ := hfill.addRequest hid hop
  obtain ⟨registered, hreg, hop⟩ := bind_ok hop
  obtain ⟨numPromptTokens, hn, hop⟩ := bind_ok hop
  obtain ⟨hplace, -⟩ := hfill.nextRow
  obtain ⟨-, heq⟩ := registerAddRequest_eq hreg
  have hregistered : Sound cfg registered m b.builder.removedRaw registered.reqIds.length := by
    rw [heq]
    exact h.builder _
  have hcleanRow : CleanRow registered b.nextRow request := by
    rw [heq]
    exact { hclean with }
  have hsound := hregistered.write (by rw [heq]; exact hplace) (by rw [heq]; exact hid) hfits
    hcleanRow hn hop
  exact ⟨numPromptTokens, hn, hsound.congr_free hperm.symm⟩

end MyOperator.Worker.InputBatch
