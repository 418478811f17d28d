import MyOperator.Lib.RowArray
import MyOperator.Worker.BatchUpdate

/-!
# The token arrays of the persistent batch

The arrays of `InputBatch` that hold the tokens of each request: token ids with
their flags, prompt embeddings, draft tokens and the counts. Each operation of the
batch is split into its parts; here are the parts that concern these arrays.

`TokenRow` is what a request owns of them. A cell of its prompt or output is a token
id, or, where the flag is off, a prompt embedding; the cells behind hold its draft
tokens as long as they were written there.
-/

namespace MyOperator.Worker

open Function Lib List

/-- The token arrays of `InputBatch`. -/
structure TokenRows where
  tokenIdsCpu : Nat → Nat → TokenId := fun _ _ => 0
  isTokenIds : Nat → Nat → Bool := fun _ _ => false
  reqPromptEmbeds : Nat → Option Embeds := fun _ => none
  numTokensNoSpec : Nat → Nat := fun _ => 0
  numPromptTokens : Nat → Nat := fun _ => 0
  numComputedTokensCpu : Nat → Nat := fun _ => 0
  specTokenIds : List (List TokenId) := []

namespace TokenRows

/-- `spec_token_ids[row]` -/
def specAt (t : TokenRows) (row : Nat) : List TokenId := t.specTokenIds.getD row []

def getActiveTokenCount (t : TokenRows) (row : Nat) : Nat :=
  t.numTokensNoSpec row + (t.specAt row).length

/-- `add_request`: the draft tokens of the row start empty. -/
def openSpec (t : TokenRows) (row : Nat) (atEnd : Bool) : TokenRows := { t with
    specTokenIds := if atEnd then t.specTokenIds ++ [[]] else t.specTokenIds.set row [] }

/-- `add_request`: tokens, flags, embeddings and counts of the row. -/
def addRow {G : Type} (t : TokenRows) (request : CachedRequestState G) (numPromptTokens : Nat)
    (outputTokenIds : List TokenId) (row : Nat) : TokenRows := { t with
    numPromptTokens := update t.numPromptTokens row numPromptTokens
    tokenIdsCpu := update t.tokenIdsCpu row (writeAt (match request.promptTokenIds with
          | some ids => writeAt (t.tokenIdsCpu row) 0 ids
          | none => t.tokenIdsCpu row)
        numPromptTokens outputTokenIds)
    isTokenIds := update t.isTokenIds row
      (fillAt (fillAt (t.isTokenIds row) 0 numPromptTokens request.promptTokenIds.isSome)
        numPromptTokens (numPromptTokens + outputTokenIds.length) true)
    reqPromptEmbeds :=
      match request.promptEmbeds with
      | some embeds => update t.reqPromptEmbeds row (some embeds)
      | none => t.reqPromptEmbeds
    numTokensNoSpec := update t.numTokensNoSpec row (numPromptTokens + outputTokenIds.length)
    numComputedTokensCpu := update t.numComputedTokensCpu row request.numComputedTokens }

/-- `remove_request`: of these arrays only the draft tokens are cleared. -/
def clearRow (t : TokenRows) (row : Nat) : TokenRows :=
  { t with specTokenIds := t.specTokenIds.set row [] }

/-- `swap_states`: the active prefixes of the two rows are exchanged. -/
def swapRows (t : TokenRows) (i j : Nat) : TokenRows where
  tokenIdsCpu :=
    swapPrefix t.tokenIdsCpu i j (max (t.getActiveTokenCount i) (t.getActiveTokenCount j))
  isTokenIds :=
    swapPrefix t.isTokenIds i j (max (t.getActiveTokenCount i) (t.getActiveTokenCount j))
  reqPromptEmbeds := swapEntry t.reqPromptEmbeds i j
  numTokensNoSpec := swapRow t.numTokensNoSpec i j
  numPromptTokens := swapRow t.numPromptTokens i j
  numComputedTokensCpu := swapRow t.numComputedTokensCpu i j
  specTokenIds := (t.specTokenIds.set i (t.specAt j)).set j (t.specAt i)

/-- `condense`: the row `last` moves down to the row `empty`. -/
def moveRow (t : TokenRows) (last empty : Nat) : TokenRows where
  tokenIdsCpu := copyPrefix t.tokenIdsCpu last empty (t.getActiveTokenCount last)
  isTokenIds := copyPrefix t.isTokenIds last empty (t.getActiveTokenCount last)
  reqPromptEmbeds := moveEntry t.reqPromptEmbeds last empty
  numTokensNoSpec := copyRow t.numTokensNoSpec last empty
  numPromptTokens := copyRow t.numPromptTokens last empty
  numComputedTokensCpu := copyRow t.numComputedTokensCpu last empty
  -- the two lists are exchanged and the one now at `last` is cleared
  specTokenIds := ((t.specTokenIds.set last (t.specAt empty)).set empty (t.specAt last)).set last []

/-- `condense`: the lists are trimmed to the batch size. -/
def trim (t : TokenRows) (numReqs : Nat) : TokenRows :=
  { t with specTokenIds := t.specTokenIds.take numReqs }

/-- `update_req_spec_token_ids`: the draft tokens go behind the request's tokens. -/
def updateReqSpecTokenIds (t : TokenRows) (row : Nat) (spec : List TokenId) : TokenRows :=
  if spec = [] then { t with specTokenIds := t.specTokenIds.set row [] }
  else
    { t with
      specTokenIds := t.specTokenIds.set row spec
      tokenIdsCpu :=
        update t.tokenIdsCpu row (writeAt (t.tokenIdsCpu row) (t.numTokensNoSpec row) spec) }

/-- `_bookkeeping_sync`: the sampled tokens are appended. -/
def recordSampled (t : TokenRows) (row : Nat) (sampled : List TokenId) : TokenRows :=
  if sampled = [] then t
  else
    { t with
      tokenIdsCpu :=
        update t.tokenIdsCpu row (writeAt (t.tokenIdsCpu row) (t.numTokensNoSpec row) sampled)
      isTokenIds := update t.isTokenIds row (fillAt (t.isTokenIds row) (t.numTokensNoSpec row)
          (t.numTokensNoSpec row + sampled.length) true)
      numTokensNoSpec := update t.numTokensNoSpec row (t.numTokensNoSpec row + sampled.length) }

/-- `_update_states`: output tokens that the scheduler discarded are cut off. -/
def discardTokens (t : TokenRows) (row endIdx : Nat) : TokenRows :=
  { t with numTokensNoSpec := update t.numTokensNoSpec row endIdx }

/-- `_update_states`: `num_computed_tokens_cpu[row] = n`. -/
def setNumComputed (t : TokenRows) (row n : Nat) : TokenRows :=
  { t with numComputedTokensCpu := update t.numComputedTokensCpu row n }

end TokenRows

/-- What a request owns of the token arrays. -/
structure TokenRow where
  tokens : List (Option TokenId)
  promptEmbeds : Option Embeds
  numPromptTokens : Nat
  numComputedTokens : Nat
  specTokenIds : List TokenId
  drafts : List (Option TokenId)

namespace TokenRow

/-- The tokens of a request as it is added. -/
def ofRequest {G : Type} (request : CachedRequestState G) (numPromptTokens : Nat)
    (outputTokenIds : List TokenId) : TokenRow where
  tokens := (match request.promptTokenIds with
      | some ids => ids.map some
      | none => replicate numPromptTokens none) ++ outputTokenIds.map some
  promptEmbeds := request.promptEmbeds
  numPromptTokens := numPromptTokens
  numComputedTokens := request.numComputedTokens
  specTokenIds := []
  drafts := []

/-- The request is given draft tokens. -/
def withSpec (g : TokenRow) (spec : List TokenId) : TokenRow :=
  { g with specTokenIds := spec, drafts := spec.map some }

/-- The request is given sampled tokens; they overwrite the cells of its draft tokens. -/
def withSampled (g : TokenRow) (sampled : List TokenId) : TokenRow :=
  if sampled = [] then g
  else
    { g with
      tokens := g.tokens ++ sampled.map some
      drafts := replicate g.specTokenIds.length none }

/-- Only the first `endIdx` tokens of the request stay. -/
def cut (g : TokenRow) (endIdx : Nat) : TokenRow := { g with
    tokens := g.tokens.take endIdx
    drafts := replicate g.specTokenIds.length none }

/-- The count of computed tokens is updated. -/
def withComputed (g : TokenRow) (n : Nat) : TokenRow := { g with numComputedTokens := n }

end TokenRow

namespace TokenRows

variable {t t' : TokenRows} {r row i j p last empty : Nat} {g : TokenRow}

/-- A cell of the row: the token id, or none where the flag is off. -/
def cell (t : TokenRows) (r p : Nat) : Option TokenId :=
  if t.isTokenIds r p then some (t.tokenIdsCpu r p) else none

/-- The row `r` holds what the request owns. -/
structure Holds (t : TokenRows) (r : Nat) (g : TokenRow) : Prop where
  tokens : t.numTokensNoSpec r = g.tokens.length
  cells : ∀ p (h : p < g.tokens.length), t.cell r p = g.tokens[p]
  embeds : t.reqPromptEmbeds r = g.promptEmbeds
  prompt : t.numPromptTokens r = g.numPromptTokens
  computed : t.numComputedTokensCpu r = g.numComputedTokens
  spec : t.specAt r = g.specTokenIds
  drafts : g.drafts.length = g.specTokenIds.length
  draftCells : ∀ p v, g.drafts[p]? = some (some v) → t.tokenIdsCpu r (g.tokens.length + p) = v

theorem Holds.transfer (h : t.Holds row g)
    (hids : ∀ p < t.getActiveTokenCount row, t'.tokenIdsCpu r p = t.tokenIdsCpu row p)
    (hflags : ∀ p < t.getActiveTokenCount row, t'.isTokenIds r p = t.isTokenIds row p)
    (hembeds : t'.reqPromptEmbeds r = t.reqPromptEmbeds row)
    (htokens : t'.numTokensNoSpec r = t.numTokensNoSpec row)
    (hprompt : t'.numPromptTokens r = t.numPromptTokens row)
    (hcomputed : t'.numComputedTokensCpu r = t.numComputedTokensCpu row)
    (hspec : t'.specAt r = t.specAt row) : t'.Holds r g where
  tokens := htokens.trans h.tokens
  cells := by
    intro p hp
    have hact : p < t.getActiveTokenCount row := by
      rw [getActiveTokenCount, h.tokens]
      omega
    rw [← h.cells p hp, cell, cell, hids p hact, hflags p hact]
  embeds := hembeds.trans h.embeds
  prompt := hprompt.trans h.prompt
  computed := hcomputed.trans h.computed
  spec := hspec.trans h.spec
  drafts := h.drafts
  draftCells := by
    intro p v hv
    have hp : p < g.specTokenIds.length := by
      rw [← h.drafts]
      exact (List.getElem?_eq_some_iff.mp hv).1
    have hact : g.tokens.length + p < t.getActiveTokenCount row := by
      rw [getActiveTokenCount, h.tokens, h.spec]
      omega
    rw [hids _ hact]
    exact h.draftCells p v hv

/-! ## The draft lists -/

variable {l : List (List TokenId)} {n : Nat} {spec : List TokenId}

theorem getD_set {x : List TokenId} (h : i < l.length) :
    (l.set i x).getD r [] = if r = i then x else l.getD r [] := by
  by_cases hri : i = r
  · subst hri
    simp [h]
  · simp [hri, Ne.symm hri]

theorem getD_set_nil : (l.set i []).getD r [] = if r = i then [] else l.getD r [] := by
  by_cases h : i < l.length
  · exact getD_set h
  · rw [set_eq_of_length_le (by omega)]
    split_ifs with hri
    · exact getD_eq_default _ _ (by omega)
    · rfl

theorem getD_concat_nil : (l ++ [[]]).getD r [] = l.getD r [] := by
  rw [getD_eq_getElem?_getD, getD_eq_getElem?_getD]
  rcases lt_trichotomy r l.length with h | h | h
  · rw [getElem?_append_left h]
  · subst h
    simp
  · rw [getElem?_eq_none (by simp; omega), getElem?_eq_none (by omega)]

theorem specAt_openSpec {atEnd : Bool} (h : atEnd = true → t.specAt row = []) :
    (t.openSpec row atEnd).specAt r = if r = row then [] else t.specAt r := by
  cases atEnd with
  | true =>
    show (t.specTokenIds ++ [[]]).getD r [] = _
    rw [getD_concat_nil]
    split_ifs with hr
    · rw [hr]
      exact h rfl
    · rfl
  | false => exact getD_set_nil

@[simp] theorem specAt_clearRow :
    (t.clearRow row).specAt r = if r = row then [] else t.specAt r := getD_set_nil

theorem specAt_swapRows (hi : i < t.specTokenIds.length) (hj : j < t.specTokenIds.length) :
    (t.swapRows i j).specAt r = swapRow t.specAt i j r := by
  show ((t.specTokenIds.set i (t.specAt j)).set j (t.specAt i)).getD r [] = _
  rw [getD_set (by simpa using hj), getD_set hi, swapRow, update_apply, update_apply]
  rfl

theorem specAt_moveRow (hl : last < t.specTokenIds.length) (he : empty < t.specTokenIds.length) :
    (t.moveRow last empty).specAt r =
      if r = last then [] else if r = empty then t.specAt last else t.specAt r := by
  show (((t.specTokenIds.set last (t.specAt empty)).set empty (t.specAt last)).set last
    []).getD r [] = _
  rw [getD_set_nil]
  split_ifs with h1 h2
  · rfl
  · rw [getD_set (by simpa using he), if_pos h2]
  · rw [getD_set (by simpa using he), if_neg h2, getD_set hl, if_neg h1]
    rfl

theorem specAt_trim : (t.trim n).specAt r = if r < n then t.specAt r else [] := by
  show (t.specTokenIds.take n).getD r [] = _
  rw [getD_eq_getElem?_getD, getElem?_take]
  split_ifs
  · exact (getD_eq_getElem?_getD ..).symm
  · rfl

/-! ## What the operations leave -/

/-- A request is added to a row whose drafts are empty and which holds no embeddings,
or brings embeddings of its own. -/
theorem holds_addRow {G : Type} {request : CachedRequestState G} {outputs : List TokenId}
    (hn : lengthFromPromptTokenIdsOrEmbeds request.promptTokenIds request.promptEmbeds = .ok n)
    (hspec : t.specAt row = [])
    (hembeds : request.promptEmbeds = none → t.reqPromptEmbeds row = none) :
    (t.addRow request n outputs row).Holds row (TokenRow.ofRequest request n outputs) := by
  have hlen : ∀ ids, request.promptTokenIds = some ids → ids.length = n := by
    intro ids hids
    rw [hids, lengthFromPromptTokenIdsOrEmbeds.eq_def] at hn
    cases he : request.promptEmbeds with
    | none =>
      rw [he] at hn
      exact Except.ok.inj hn
    | some e =>
      rw [he] at hn
      simp only [] at hn
      split_ifs at hn
      exact Except.ok.inj hn
  have htokens : (TokenRow.ofRequest request n outputs).tokens.length = n + outputs.length := by
    rw [TokenRow.ofRequest]
    cases hids : request.promptTokenIds with
    | none => simp
    | some ids => simp [hlen ids hids]
  constructor
  case tokens =>
    rw [htokens]
    exact update_self ..
  case cells =>
    intro p hp
    rw [htokens] at hp
    simp only [cell, addRow, update_self]
    by_cases hpn : p < n
    · rw [fillAt_of_lt hpn, fillAt_mem (Nat.zero_le p) hpn, writeAt_of_lt hpn]
      cases hids : request.promptTokenIds with
      | none => simp [TokenRow.ofRequest, hids, getElem_append_left, hpn]
      | some ids =>
        have hw := @writeAt_add _ (t.tokenIdsCpu row) p 0 ids (by rw [hlen ids hids]; exact hpn)
        rw [Nat.zero_add] at hw
        simp [TokenRow.ofRequest, hids, getElem_append_left, hlen ids hids, hpn, hw]
    · obtain ⟨q, rfl⟩ := Nat.exists_eq_add_of_le (Nat.le_of_not_lt hpn)
      have hq : q < outputs.length := by omega
      rw [fillAt_mem (by omega) hp, writeAt_add hq]
      cases hids : request.promptTokenIds with
      | none => simp [TokenRow.ofRequest, hids, getElem_append_right]
      | some ids => simp [TokenRow.ofRequest, hids, getElem_append_right, hlen ids hids]
  case embeds =>
    show (match request.promptEmbeds with
      | some embeds => update t.reqPromptEmbeds row (some embeds)
      | none => t.reqPromptEmbeds) row = request.promptEmbeds
    cases he : request.promptEmbeds with
    | none => exact hembeds he
    | some e => exact update_self ..
  case prompt => exact update_self ..
  case computed => exact update_self ..
  case spec => exact hspec
  case drafts => rfl
  case draftCells =>
    intro p v hv
    simp [TokenRow.ofRequest] at hv

theorem Holds.addRow_of_ne {G : Type} {request : CachedRequestState G} {outputs : List TokenId}
    (h : t.Holds r g) (hr : r ≠ row) : (t.addRow request n outputs row).Holds r g := by
  refine h.transfer (fun p _ => ?_) (fun p _ => ?_) ?_ ?_ ?_ ?_ rfl
  · exact congrFun (update_of_ne hr ..) p
  · exact congrFun (update_of_ne hr ..) p
  · show (match request.promptEmbeds with
      | some embeds => update t.reqPromptEmbeds row (some embeds)
      | none => t.reqPromptEmbeds) r = t.reqPromptEmbeds r
    cases request.promptEmbeds with
    | none => rfl
    | some e => exact update_of_ne hr ..
  · exact update_of_ne hr ..
  · exact update_of_ne hr ..
  · exact update_of_ne hr ..

theorem Holds.of_spec (h : t.Holds r g) {spec : List (List TokenId)}
    (hspec : spec.getD r [] = t.specAt r) : { t with specTokenIds := spec }.Holds r g :=
  h.transfer (fun _ _ => rfl) (fun _ _ => rfl) rfl rfl rfl rfl hspec

theorem Holds.swapRows (h : t.Holds row g) (hi : i < t.specTokenIds.length)
    (hj : j < t.specTokenIds.length)
    (hr : r = i ∧ row = j ∨ r = j ∧ row = i ∨ r = row ∧ r ≠ i ∧ r ≠ j) :
    (t.swapRows i j).Holds r g := by
  have hspec := fun r => specAt_swapRows (r := r) hi hj
  have hembeds : (t.swapRows i j).reqPromptEmbeds = swapRow t.reqPromptEmbeds i j := swapEntry_eq
  rcases hr with ⟨rfl, rfl⟩ | ⟨rfl, rfl⟩ | ⟨rfl, hni, hnj⟩
  · refine h.transfer (fun p hp => ?_) (fun p hp => ?_) ?_ swapRow_left swapRow_left swapRow_left ?_
    · exact swapPrefix_left (lt_of_lt_of_le hp (le_max_right ..))
    · exact swapPrefix_left (lt_of_lt_of_le hp (le_max_right ..))
    · rw [hembeds, swapRow_left]
    · rw [hspec, swapRow_left]
  · refine h.transfer (fun p hp => ?_) (fun p hp => ?_) ?_ swapRow_right swapRow_right
      swapRow_right ?_
    · exact swapPrefix_right (lt_of_lt_of_le hp (le_max_left ..))
    · exact swapPrefix_right (lt_of_lt_of_le hp (le_max_left ..))
    · rw [hembeds, swapRow_right]
    · rw [hspec, swapRow_right]
  · refine h.transfer (fun p _ => ?_) (fun p _ => ?_) ?_ (swapRow_of_ne hni hnj)
      (swapRow_of_ne hni hnj) (swapRow_of_ne hni hnj) ?_
    · exact congrFun (swapPrefix_of_ne hni hnj) p
    · exact congrFun (swapPrefix_of_ne hni hnj) p
    · rw [hembeds, swapRow_of_ne hni hnj]
    · rw [hspec, swapRow_of_ne hni hnj]

/-- The row moved down holds what the last row held, unless the row below kept
embeddings that the one moved there does not bring. -/
theorem Holds.moveRow (h : t.Holds last g) (hl : last < t.specTokenIds.length) (hlt : empty < last)
    (hembeds : (t.reqPromptEmbeds last).isSome ∨ t.reqPromptEmbeds empty = none) :
    (t.moveRow last empty).Holds empty g := by
  refine h.transfer (fun p hp => copyPrefix_dst hp) (fun p hp => copyPrefix_dst hp)
    (moveEntry_dst hembeds) copyRow_dst copyRow_dst copyRow_dst ?_
  rw [specAt_moveRow hl (by omega), if_neg (by omega), if_pos rfl]

theorem Holds.moveRow_of_ne (h : t.Holds r g) (hl : last < t.specTokenIds.length)
    (hlt : empty < last) (hrl : r ≠ last) (hre : r ≠ empty) : (t.moveRow last empty).Holds r g := by
  refine h.transfer (fun p _ => congrFun (copyPrefix_of_ne hre) p)
    (fun p _ => congrFun (copyPrefix_of_ne hre) p) (moveEntry_of_ne hrl hre)
    (copyRow_of_ne hre) (copyRow_of_ne hre) (copyRow_of_ne hre) ?_
  rw [specAt_moveRow hl (by omega), if_neg hrl, if_neg hre]

/-! ## What the updates leave -/

theorem specAt_updateReqSpecTokenIds (h : row < t.specTokenIds.length) :
    (t.updateReqSpecTokenIds row spec).specAt r = if r = row then spec else t.specAt r := by
  rw [updateReqSpecTokenIds]
  split_ifs with hs hr hr
  · rw [hs]
    exact getD_set_nil.trans (if_pos hr)
  · exact getD_set_nil.trans (if_neg hr)
  · exact (getD_set h).trans (if_pos hr)
  · exact (getD_set h).trans (if_neg hr)

theorem updateReqSpecTokenIds_fields :
    (t.updateReqSpecTokenIds row spec).isTokenIds = t.isTokenIds ∧
      (t.updateReqSpecTokenIds row spec).reqPromptEmbeds = t.reqPromptEmbeds ∧
      (t.updateReqSpecTokenIds row spec).numTokensNoSpec = t.numTokensNoSpec ∧
      (t.updateReqSpecTokenIds row spec).numPromptTokens = t.numPromptTokens ∧
      (t.updateReqSpecTokenIds row spec).numComputedTokensCpu = t.numComputedTokensCpu := by
  rw [updateReqSpecTokenIds]
  split_ifs <;> exact ⟨rfl, rfl, rfl, rfl, rfl⟩

theorem tokenIdsCpu_updateReqSpecTokenIds :
    (t.updateReqSpecTokenIds row spec).tokenIdsCpu =
      update t.tokenIdsCpu row (writeAt (t.tokenIdsCpu row) (t.numTokensNoSpec row) spec) := by
  rw [updateReqSpecTokenIds]
  split_ifs with hs
  · subst hs
    refine (update_eq_self_iff.mpr ?_).symm
    funext p
    exact writeAt_eq_self_of_nil
  · rfl

theorem Holds.updateReqSpecTokenIds (h : t.Holds row g) (hl : row < t.specTokenIds.length)
    (spec : List TokenId) : (t.updateReqSpecTokenIds row spec).Holds row (g.withSpec spec) := by
  obtain ⟨hflags, hembeds, htokens, hprompt, hcomputed⟩ := @updateReqSpecTokenIds_fields t row spec
  have hids := @tokenIdsCpu_updateReqSpecTokenIds t row spec
  constructor
  case tokens => exact (congrFun htokens row).trans h.tokens
  case cells =>
    intro p hp
    rw [← show t.cell row p = (g.withSpec spec).tokens[p] from h.cells p hp, cell, cell, hflags,
      hids, update_self, writeAt_of_lt (by rw [h.tokens]; exact hp)]
  case embeds => exact (congrFun hembeds row).trans h.embeds
  case prompt => exact (congrFun hprompt row).trans h.prompt
  case computed => exact (congrFun hcomputed row).trans h.computed
  case spec => exact (specAt_updateReqSpecTokenIds hl).trans (if_pos rfl)
  case drafts => exact length_map _
  case draftCells =>
    intro p v hv
    obtain ⟨hp, hv⟩ := List.getElem?_eq_some_iff.mp hv
    have hp' : p < spec.length := by simpa [TokenRow.withSpec] using hp
    have hv' : spec[p] = v := by simpa [TokenRow.withSpec] using hv
    rw [hids, update_self, h.tokens]
    exact (writeAt_add hp').trans hv'

theorem Holds.updateReqSpecTokenIds_of_ne (h : t.Holds r g) (hl : row < t.specTokenIds.length)
    (hr : r ≠ row) (spec : List TokenId) : (t.updateReqSpecTokenIds row spec).Holds r g := by
  obtain ⟨hflags, hembeds, htokens, hprompt, hcomputed⟩ := @updateReqSpecTokenIds_fields t row spec
  refine h.transfer (fun p _ => ?_) (fun p _ => congrFun (congrFun hflags r) p)
    (congrFun hembeds r) (congrFun htokens r) (congrFun hprompt r) (congrFun hcomputed r) ?_
  · rw [tokenIdsCpu_updateReqSpecTokenIds]
    exact congrFun (update_of_ne hr ..) p
  · exact (specAt_updateReqSpecTokenIds hl).trans (if_neg hr)

theorem Holds.recordSampled (h : t.Holds row g) (sampled : List TokenId) :
    (t.recordSampled row sampled).Holds row (g.withSampled sampled) := by
  rw [TokenRows.recordSampled, TokenRow.withSampled]
  split_ifs with hs
  · exact h
  constructor
  case tokens =>
    refine (update_self ..).trans ?_
    rw [h.tokens]
    simp
  case cells =>
    intro p hp
    simp only [cell, update_self, h.tokens]
    by_cases hpn : p < g.tokens.length
    · rw [fillAt_of_lt hpn, writeAt_of_lt hpn]
      exact (h.cells p hpn).trans (getElem_append_left hpn).symm
    · obtain ⟨q, rfl⟩ := Nat.exists_eq_add_of_le (Nat.le_of_not_lt hpn)
      have hq : q < sampled.length := by
        simp only [length_append, length_map] at hp
        omega
      rw [fillAt_mem (by omega) (by omega), if_pos rfl, writeAt_add hq]
      simp [getElem_append_right]
  case embeds => exact h.embeds
  case prompt => exact h.prompt
  case computed => exact h.computed
  case spec => exact h.spec
  case drafts => exact length_replicate
  case draftCells =>
    intro p v hv
    have := (List.getElem?_eq_some_iff.mp hv).2
    simp at this

theorem Holds.recordSampled_of_ne (h : t.Holds r g) (hr : r ≠ row) (sampled : List TokenId) :
    (t.recordSampled row sampled).Holds r g := by
  rw [TokenRows.recordSampled]
  split_ifs
  · exact h
  · exact h.transfer (fun p _ => congrFun (update_of_ne hr ..) p)
      (fun p _ => congrFun (update_of_ne hr ..) p) rfl (update_of_ne hr ..) rfl rfl rfl

theorem Holds.discardTokens (h : t.Holds row g) {endIdx : Nat} (hle : endIdx ≤ g.tokens.length) :
    (t.discardTokens row endIdx).Holds row (g.cut endIdx) where
  tokens := by
    show update t.numTokensNoSpec row endIdx row = (g.tokens.take endIdx).length
    rw [update_self, length_take, min_eq_left hle]
  cells := by
    intro p hp
    have hp' : p < g.tokens.length := by
      have hp : p < (g.tokens.take endIdx).length := hp
      rw [length_take] at hp
      omega
    exact (h.cells p hp').trans getElem_take.symm
  embeds := h.embeds
  prompt := h.prompt
  computed := h.computed
  spec := h.spec
  drafts := length_replicate
  draftCells := by
    intro p v hv
    have := (List.getElem?_eq_some_iff.mp hv).2
    simp [TokenRow.cut] at this

theorem Holds.discardTokens_of_ne (h : t.Holds r g) (hr : r ≠ row) (endIdx : Nat) :
    (t.discardTokens row endIdx).Holds r g :=
  h.transfer (fun _ _ => rfl) (fun _ _ => rfl) rfl (update_of_ne hr ..) rfl rfl rfl

theorem Holds.setNumComputed (h : t.Holds row g) (n : Nat) :
    (t.setNumComputed row n).Holds row (g.withComputed n) := { h with computed := update_self .. }

theorem Holds.setNumComputed_of_ne (h : t.Holds r g) (hr : r ≠ row) (n : Nat) :
    (t.setNumComputed row n).Holds r g :=
  h.transfer (fun _ _ => rfl) (fun _ _ => rfl) rfl rfl rfl (update_of_ne hr ..) rfl

end TokenRows

end MyOperator.Worker
