import MyOperator.Sched.Update

/-!
# What happens to one request

The attributes of a request that its own methods assign: hashing more blocks, appending
sampled tokens until one stops the request, going on as a session. The counters of the
scheduler, `num_computed_tokens` and `num_output_placeholders`, are read by none of
the first two.
-/

namespace MyOperator.Sched

open Lib
open KvCache (BlockHash assert assert_eq_ok)

namespace Request

variable {H : Option BlockHasher} {r r' : Request} {tokenIds : List TokenId} {maxModelLen : Nat}
  {stopped : Bool} {newTokenIds : List TokenId}

/-! ## Hashing -/

theorem generateBlockHashExtraKeys_effect {H : BlockHasher} {s e : Nat} {i i' : Int}
    {keys : Option (List ExtraKey)} (h : generateBlockHashExtraKeys H r s e i = .ok (keys, i', r')) :
    ∃ promptEmbedsPerBlockHashes, r' = { r with promptEmbedsPerBlockHashes } := by
  unfold generateBlockHashExtraKeys at h
  obtain ⟨mm, -, h⟩ := bind_ok h
  have hr' : r' = (genPromptEmbedsExtraHashKeys H r s e).2 := by
    cases h
    rfl
  rw [hr']
  unfold genPromptEmbedsExtraHashKeys
  split
  · exact ⟨_, rfl⟩
  · split
    · exact ⟨_, rfl⟩
    · exact ⟨_, rfl⟩

theorem hashLoop_effect {H : BlockHasher} {fuel start : Nat} {i : Int} {prev : Option BlockHash}
    {hashes : List BlockHash} (h : hashLoop H fuel r start i prev = .ok (hashes, r')) :
    ∃ promptEmbedsPerBlockHashes, r' = { r with promptEmbedsPerBlockHashes } := by
  induction fuel generalizing r start i prev hashes with
  | zero =>
    cases h
    exact ⟨_, rfl⟩
  | succ fuel ih =>
    unfold hashLoop at h
    dsimp only at h
    split at h
    · cases h
      exact ⟨_, rfl⟩
    · obtain ⟨⟨keys, i', r1⟩, hkeys, h⟩ := bind_ok h
      obtain ⟨⟨rest, r2⟩, hloop, h⟩ := bind_ok h
      cases h
      obtain ⟨memo, rfl⟩ := generateBlockHashExtraKeys_effect hkeys
      obtain ⟨memo', rfl⟩ := ih hloop
      exact ⟨memo', rfl⟩

theorem updateBlockHashes_effect (h : updateBlockHashes H r = .ok r') :
    ∃ promptEmbedsPerBlockHashes hashes,
      r' = { r with promptEmbedsPerBlockHashes, blockHashes := r.blockHashes ++ hashes } := by
  unfold updateBlockHashes at h
  split at h
  · cases h
    refine ⟨r.promptEmbedsPerBlockHashes, [], ?_⟩
    rw [List.append_nil]
  · obtain ⟨⟨hashes, r1⟩, hrun, h⟩ := bind_ok h
    cases h
    unfold requestBlockHasher at hrun
    dsimp only at hrun
    split at hrun
    · cases hrun
      exact ⟨_, [], rfl⟩
    · obtain ⟨memo, rfl⟩ := hashLoop_effect hrun
      exact ⟨memo, hashes, rfl⟩

/-! ## Stopping -/

theorem checkStop_effect (h : r.checkStop maxModelLen = .ok (stopped, r')) :
    (stopped = false ∧ r' = r) ∨
      (stopped = true ∧ ∃ status, status.isFinished = true ∧ r' = { r with status }) := by
  unfold checkStop at h
  obtain ⟨⟨⟩, -, h⟩ := bind_ok h
  split at h
  · cases h
  · split at h
    · cases h
      exact .inl ⟨rfl, rfl⟩
    · split at h
      · cases h
      · split at h
        · cases h
          exact .inr ⟨rfl, _, rfl, rfl⟩
        · split at h
          · cases h
            exact .inr ⟨rfl, _, rfl, rfl⟩
          · split at h
            · cases h
              exact .inr ⟨rfl, _, rfl, rfl⟩
            · split at h
              · cases h
                exact .inr ⟨rfl, _, rfl, rfl⟩
              · cases h
                exact .inl ⟨rfl, rfl⟩

/-- The request after `newTokenIds` were appended, up to its hashes. -/
structure Appended (r r' : Request) (newTokenIds : List TokenId) (stopped : Bool) : Prop where
  eq : ∃ promptEmbedsPerBlockHashes hashes, r' = { r with
    outputTokenIds := r.outputTokenIds ++ newTokenIds
    allTokenIds := r.allTokenIds ++ newTokenIds
    promptEmbedsPerBlockHashes
    blockHashes := r.blockHashes ++ hashes
    status := r'.status }
  running : stopped = false → r'.status = r.status
  finished : stopped = true → r'.status.isFinished = true

theorem Appended.trans {r'' : Request} {more : List TokenId} (h : Appended r r' newTokenIds false)
    (h' : Appended r' r'' more stopped) : Appended r r'' (newTokenIds ++ more) stopped := by
  obtain ⟨memo, hashes, heq⟩ := h.eq
  obtain ⟨memo', hashes', heq'⟩ := h'.eq
  refine ⟨⟨memo', hashes ++ hashes', ?_⟩, fun hs => (h'.running hs).trans (h.running rfl),
    h'.finished⟩
  rw [heq', heq]
  simp only [List.append_assoc]

theorem appendOutputTokenIds_effect (h : appendOutputTokenIds H r tokenIds = .ok r') :
    Appended r r' tokenIds false := by
  obtain ⟨memo, hashes, rfl⟩ := updateBlockHashes_effect h
  exact ⟨⟨memo, hashes, rfl⟩, fun _ => rfl, fun hs => (nomatch hs)⟩

/-- The tokens appended are the first of those that came: all of them, or up to the one that
stopped the request. -/
theorem appendUntilStop_effect
    (h : appendUntilStop H maxModelLen tokenIds r = .ok ((newTokenIds, stopped), r')) :
    Appended r r' newTokenIds stopped ∧ newTokenIds <+: tokenIds ∧
      (stopped = false → newTokenIds = tokenIds) := by
  induction tokenIds generalizing r newTokenIds with
  | nil =>
    cases h
    refine ⟨⟨⟨r'.promptEmbedsPerBlockHashes, [], ?_⟩, fun _ => rfl, fun hs => (nomatch hs)⟩,
      List.prefix_refl _, fun _ => rfl⟩
    simp only [List.append_nil]
  | cons t ts ih =>
    obtain ⟨r1, happend, hafter⟩ := bind_ok h
    obtain ⟨⟨stopped1, r2⟩, hcheck, hrest⟩ := bind_ok hafter
    have h1 := appendOutputTokenIds_effect happend
    rcases checkStop_effect hcheck with ⟨rfl, rfl⟩ | ⟨rfl, status, hfin, rfl⟩
    · obtain ⟨⟨⟨rest, stopped2⟩, r3⟩, hloop, hrest⟩ := bind_ok hrest
      cases hrest
      obtain ⟨happ, hbefore, hall⟩ := ih hloop
      refine ⟨h1.trans happ, (List.prefix_cons_inj t).mpr hbefore, fun hs => ?_⟩
      rw [hall hs]
    · cases hrest
      obtain ⟨memo, hashes, heq⟩ := h1.eq
      refine ⟨⟨⟨memo, hashes, ?_⟩, fun hs => (nomatch hs), fun _ => hfin⟩, ?_,
        fun hs => (nomatch hs)⟩
      · rw [heq]
      · exact ⟨ts, rfl⟩

/-! ## The first stop -/

/-- A stop condition of the sampling parameters holds once the request has these output tokens
too, of as many as there must be. -/
def Stops (r : Request) (maxModelLen : Nat) (tokenIds : List TokenId) : Prop :=
  let output := r.outputTokenIds ++ tokenIds
  ∃ params, r.samplingParams = some params ∧ params.minTokens ≤ output.length ∧
    ((∃ t, output.getLast? = some t ∧ (some t = params.eosTokenId ∨ t ∈ params.stopTokenIds)) ∨
      maxModelLen ≤ (r.allTokenIds ++ tokenIds).length ∨ r.maxTokens ≤ output.length ∨
      ∃ d, params.repetitionDetection = some d ∧ checkSequenceRepetition output d = true)

theorem checkStop_iff (h : r.checkStop maxModelLen = .ok (stopped, r')) :
    stopped = true ↔ r.Stops maxModelLen [] := by
  obtain ⟨-, -, h⟩ := bind_ok h
  unfold numOutputTokens numTokens at h
  unfold Stops
  rw [List.append_nil, List.append_nil]
  cases hp : r.samplingParams with
  | none =>
    rw [hp] at h
    cases h
  | some params =>
    rw [hp] at h
    cases hrep : params.repetitionDetection <;> grind

theorem Appended.stops (h : Appended r r' newTokenIds stopped) (tokenIds : List TokenId) :
    r'.Stops maxModelLen tokenIds ↔ r.Stops maxModelLen (newTokenIds ++ tokenIds) := by
  obtain ⟨memo, hashes, heq⟩ := h.eq
  rw [heq]
  unfold Stops
  rw [← List.append_assoc, ← List.append_assoc]

/-- `_update_request_with_output` keeps the tokens up to the first with which the request stops. -/
theorem appendUntilStop_first
    (h : appendUntilStop H maxModelLen tokenIds r = .ok ((newTokenIds, stopped), r')) :
    r'.outputTokenIds = r.outputTokenIds ++ newTokenIds ∧ newTokenIds <+: tokenIds ∧
      (stopped = false → newTokenIds = tokenIds) ∧ (stopped = true → newTokenIds ≠ []) ∧
      ∀ k < newTokenIds.length, (r.Stops maxModelLen (newTokenIds.take (k + 1)) ↔
        stopped = true ∧ k + 1 = newTokenIds.length) := by
  obtain ⟨happ, hbefore, hall⟩ := appendUntilStop_effect h
  obtain ⟨memo, hashes, heq⟩ := happ.eq
  refine ⟨by rw [heq], hbefore, hall, ?_⟩
  clear happ hbefore hall heq
  induction tokenIds generalizing r newTokenIds with
  | nil =>
    cases h
    exact ⟨fun h => absurd h Bool.false_ne_true, fun k hk => absurd hk (Nat.not_lt_zero k)⟩
  | cons t ts ih =>
    obtain ⟨r1, happend, hafter⟩ := bind_ok h
    obtain ⟨⟨stopped1, r2⟩, hcheck, hrest⟩ := bind_ok hafter
    have happ := appendOutputTokenIds_effect happend
    have hfirst := (checkStop_iff hcheck).trans (happ.stops [])
    rcases checkStop_effect hcheck with ⟨rfl, rfl⟩ | ⟨rfl, -⟩
    · obtain ⟨⟨⟨rest, stopped2⟩, r3⟩, hloop, hrest⟩ := bind_ok hrest
      cases hrest
      obtain ⟨hne, hlater⟩ := ih hloop
      refine ⟨fun _ => List.cons_ne_nil _ _, fun k hk => ?_⟩
      rw [List.length_cons, Nat.succ_inj]
      cases k with
      | zero =>
        exact iff_of_false (fun h => Bool.false_ne_true (hfirst.mpr h)) fun h =>
          hne h.1 (List.length_eq_zero_iff.mp h.2.symm)
      | succ k => exact (happ.stops _).symm.trans (hlater k (Nat.lt_of_succ_lt_succ hk))
    · cases hrest
      refine ⟨fun _ => List.cons_ne_nil _ _, fun k hk => ?_⟩
      obtain rfl : k = 0 := Nat.lt_one_iff.mp hk
      exact iff_of_true (hfirst.mp rfl) ⟨rfl, rfl⟩

/-- A request whose generation ends with token 2. -/
def eosRequest : Request :=
  { requestId := 0, maxTokens := 9, samplingParams := some { maxTokens := 9, eosTokenId := some 2 } }

theorem appendUntilStop_first_eos : eosRequest.Stops 9 [1, 2] :=
  have hrun := eq_ok_get (x := appendUntilStop none 9 [1, 2, 3] eosRequest) (by decide)
  ((appendUntilStop_first hrun).2.2.2.2 1 (by decide)).mpr (by decide)

/-! ## The counters are not read -/

/-- Other values of the counters. -/
def withCounts (numComputedTokens numExternalComputedTokens numOutputPlaceholders : Int)
    (r : Request) : Request :=
  { r with numComputedTokens, numExternalComputedTokens, numOutputPlaceholders }

variable (n m k : Int)

theorem generateBlockHashExtraKeys_withCounts (H : BlockHasher) (r : Request) (s e : Nat) (i : Int) :
    generateBlockHashExtraKeys H (r.withCounts n m k) s e i =
      (generateBlockHashExtraKeys H r s e i).map fun x => (x.1, x.2.1, x.2.2.withCounts n m k) := by
  unfold generateBlockHashExtraKeys
  have hmm : genMmExtraHashKeys (r.withCounts n m k) s e i = genMmExtraHashKeys r s e i := rfl
  have hembeds : genPromptEmbedsExtraHashKeys H (r.withCounts n m k) s e =
      ((genPromptEmbedsExtraHashKeys H r s e).1,
        (genPromptEmbedsExtraHashKeys H r s e).2.withCounts n m k) := by
    have hrows : (r.withCounts n m k).promptEmbeds = r.promptEmbeds := rfl
    have hmemo : (r.withCounts n m k).promptEmbedsPerBlockHashes =
        r.promptEmbedsPerBlockHashes := rfl
    unfold genPromptEmbedsExtraHashKeys
    rw [hrows, hmemo]
    cases hr : r.promptEmbeds with
    | none => rfl
    | some rows =>
      cases hd : r.promptEmbedsPerBlockHashes.get? (s, e) with
      | none => rfl
      | some hash => rfl
  rw [hmm, hembeds]
  cases genMmExtraHashKeys r s e i with
  | error err => rfl
  | ok mm => rfl

theorem hashLoop_withCounts (H : BlockHasher) (fuel : Nat) (r : Request) (start : Nat) (i : Int)
    (prev : Option BlockHash) :
    hashLoop H fuel (r.withCounts n m k) start i prev =
      (hashLoop H fuel r start i prev).map fun x => (x.1, x.2.withCounts n m k) := by
  induction fuel generalizing r start i prev with
  | zero => rfl
  | succ fuel ih =>
    unfold hashLoop
    dsimp only
    have hnum : (r.withCounts n m k).numTokens = r.numTokens := rfl
    rw [hnum]
    split
    · rfl
    · rw [generateBlockHashExtraKeys_withCounts]
      cases generateBlockHashExtraKeys H r start (start + H.blockSize) i with
      | error err => rfl
      | ok keys =>
        obtain ⟨keys, i', r1⟩ := keys
        simp only [Except.map, ok_bind]
        rw [ih]
        have htoks : (r1.withCounts n m k).allTokenIds = r1.allTokenIds := rfl
        rw [htoks]
        cases hashLoop H fuel r1 (start + H.blockSize) i' _ with
        | error err => rfl
        | ok rest => rfl

theorem updateBlockHashes_withCounts (H : Option BlockHasher) (r : Request) :
    updateBlockHashes H (r.withCounts n m k) =
      (updateBlockHashes H r).map fun r => r.withCounts n m k := by
  cases H with
  | none => rfl
  | some H =>
    unfold updateBlockHashes requestBlockHasher
    dsimp only
    have hhashes : (r.withCounts n m k).blockHashes = r.blockHashes := rfl
    have hnum : (r.withCounts n m k).numTokens = r.numTokens := rfl
    rw [hhashes, hnum, hashLoop_withCounts]
    split
    · rfl
    · cases hashLoop H r.numTokens r _ _ _ with
      | error err => rfl
      | ok rest => rfl

theorem checkStop_withCounts (r : Request) :
    (r.withCounts n m k).checkStop maxModelLen =
      (r.checkStop maxModelLen).map fun x => (x.1, x.2.withCounts n m k) := by
  unfold checkStop
  have hfields : (r.withCounts n m k).poolingParams = r.poolingParams ∧
      (r.withCounts n m k).samplingParams = r.samplingParams ∧
      (r.withCounts n m k).outputTokenIds = r.outputTokenIds ∧
      (r.withCounts n m k).numOutputTokens = r.numOutputTokens ∧
      (r.withCounts n m k).numTokens = r.numTokens ∧
      (r.withCounts n m k).maxTokens = r.maxTokens := ⟨rfl, rfl, rfl, rfl, rfl, rfl⟩
  obtain ⟨h1, h2, h3, h4, h5, h6⟩ := hfields
  rw [h1, h2, h3, h4, h5, h6]
  cases r.poolingParams with
  | some p => rfl
  | none =>
    cases r.samplingParams with
    | none => rfl
    | some params =>
      dsimp only
      split
      · rfl
      · cases r.outputTokenIds.getLast? with
        | none => rfl
        | some t =>
          dsimp only
          split
          · rfl
          · split
            · rfl
            · split
              · rfl
              · split
                · rfl
                · rfl

theorem appendUntilStop_withCounts (r : Request) :
    appendUntilStop H maxModelLen tokenIds (r.withCounts n m k) =
      (appendUntilStop H maxModelLen tokenIds r).map fun x => (x.1, x.2.withCounts n m k) := by
  induction tokenIds generalizing r with
  | nil => rfl
  | cons t ts ih =>
    unfold appendUntilStop
    have happend : appendOutputTokenIds H (r.withCounts n m k) [t] =
        (appendOutputTokenIds H r [t]).map fun r => r.withCounts n m k :=
      updateBlockHashes_withCounts n m k H
        { r with outputTokenIds := r.outputTokenIds ++ [t], allTokenIds := r.allTokenIds ++ [t] }
    rw [happend]
    cases appendOutputTokenIds H r [t] with
    | error err => rfl
    | ok r1 =>
      simp only [Except.map, ok_bind]
      rw [checkStop_withCounts]
      cases r1.checkStop maxModelLen with
      | error err => rfl
      | ok x =>
        obtain ⟨stopped, r2⟩ := x
        simp only [Except.map, ok_bind]
        cases stopped with
        | true => rfl
        | false =>
          simp only [Bool.false_eq_true, if_false]
          rw [ih]
          cases appendUntilStop H maxModelLen ts r2 with
          | error err => rfl
          | ok y => rfl

end Request

end MyOperator.Sched
