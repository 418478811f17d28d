import MyOperator.Recompute.Schedule
import MyOperator.Sched.EncoderCost

/-!
# The drafts of an admitted request

A request that `RecomputeScheduler` admits on an MTP KV consumer brings placeholder drafts
along. How many of them are recorded for the step is reckoned from the request's own
`num_computed_tokens`, which is assigned only later; the length of the step is reckoned
from the local `num_computed_tokens` with the cache hits in it. `recordedDrafts_iff` says
when both agree.
-/

namespace MyOperator.Recompute

open Lib
open Sched
open KvCache (assert)

/-! ## The length of the step -/

theorem scheduleEncoderInputs_numNewTokens {cfg : Config} {X : World} {p q : Pass X} {ref : Ref}
    {numComputedTokens numNewTokens : Int} {work : Work} (hpos : 0 ≤ numNewTokens)
    (h : p.scheduleEncoderInputs cfg ref numComputedTokens numNewTokens = .ok (work, q)) :
    0 ≤ work.numNewTokens ∧ work.numNewTokens ≤ numNewTokens := by
  unfold Pass.scheduleEncoderInputs at h
  dsimp only at h
  split at h
  · obtain ⟨plan, hplan, h⟩ := bind_ok h
    obtain ⟨hle, hnonneg⟩ := tryScheduleEncoderInputs_numNewTokens hplan
    cases h
    exact ⟨hnonneg hpos, hle.trans (max_eq_left hpos).le⟩
  · cases h
    exact ⟨hpos, Int.le_refl _⟩

section

variable {cfg : RecomputeConfig} {X : World} {p q ready : Pass X} {ref : Ref} {source : Pass.Source}
  {computed : Pass.Computed X} {work : Work}

theorem planWaiting_numNewTokens (hmtp : cfg.isMtpKvConsumer = true)
    (hload : computed.loadKvAsync = false)
    (h : planWaiting cfg p ref computed = .ok (some work, q)) :
    computed.numComputedTokens + work.numNewTokens ≤ (p.s.objs ref).numTokensWithSpec := by
  unfold planWaiting at h
  dsimp only at h
  rw [hload, if_neg (by decide)] at h
  unfold waitingNumTokens at h
  rw [if_pos hmtp] at h
  generalize hn : (if 0 < cfg.longPrefillTokenThreshold ∧ cfg.longPrefillTokenThreshold <
    ((p.s.objs ref).numTokensWithSpec : Int) - computed.numComputedTokens then _ else _) = n at h
  split at h
  · cases h
  · obtain ⟨⟨⟩, hpos, h⟩ := bind_ok h
    rw [KvCache.assert_eq_ok, decide_eq_true_eq] at hpos
    obtain ⟨⟨work', p1⟩, hencoder, h⟩ := bind_ok h
    obtain ⟨hnonneg, hwork⟩ := scheduleEncoderInputs_numNewTokens (Int.le_of_lt hpos) hencoder
    split at h
    · cases h
    · obtain ⟨m, hsplit, h⟩ := bind_ok h
      have hm : m ≤ max work'.numNewTokens 0 := Pass.split_le hsplit
      split at h
      · cases h
      · cases h
        dsimp only
        omega

/-! ## What is recorded -/

/-- The drafts that the trimming keeps for a step of this length. -/
def recordedDrafts (r : Request) (numNewTokens : Int) : List TokenId :=
  r.specTokenIds.take
    (numNewTokens + r.numComputedTokens - r.numTokens - r.numOutputPlaceholders).toNat

/-- `scheduled_spec_decode_tokens` with the drafts of one more request, if there are any. -/
def recordDrafts (d : Dict Nat (List TokenId)) (reqId : Nat) (drafts : List TokenId) :
    Dict Nat (List TokenId) :=
  if drafts = [] then d else d.set reqId drafts

/-- The recorded drafts are those whose positions the step computes, and with them taken away the
step ends inside the request's own tokens. -/
structure DraftsInStep (r : Request) (numComputedTokens numScheduledTokens : Int)
    (recorded : List TokenId) : Prop where
  drafts : recorded <+: r.specTokenIds
  positions : ∀ i < r.specTokenIds.length, i < recorded.length ↔
    numComputedTokens ≤ r.numTokens + i ∧
      (r.numTokens + i : Int) < numComputedTokens + numScheduledTokens
  own : numComputedTokens + numScheduledTokens - recorded.length ≤ r.numTokens

/-- The count that the trimming starts from: the request's own, less its placeholders. -/
def ownCount (r : Request) : Int := r.numComputedTokens - r.numOutputPlaceholders

/-- From both counts the step reaches the same drafts: there are none, it reaches none of them, the
counts agree, or it reaches all of them. -/
def CountsAgree (r : Request) (numComputedTokens numScheduledTokens : Int) : Prop :=
  r.specTokenIds = [] ∨
  (numComputedTokens + numScheduledTokens ≤ r.numTokens ∧
    ownCount r + numScheduledTokens ≤ r.numTokens) ∨
  (numComputedTokens ≤ r.numTokens ∧ (numComputedTokens = ownCount r ∨
    ((r.numTokensWithSpec : Int) ≤ numComputedTokens + numScheduledTokens ∧
      (r.numTokensWithSpec : Int) ≤ ownCount r + numScheduledTokens)))

theorem draftsInStep_iff {r : Request} {numComputedTokens numScheduledTokens : Int}
    (hle : numComputedTokens + numScheduledTokens ≤ r.numTokensWithSpec) :
    DraftsInStep r numComputedTokens numScheduledTokens (recordedDrafts r numScheduledTokens) ↔
      CountsAgree r numComputedTokens numScheduledTokens := by
  have hspec : (r.numTokensWithSpec : Int) = r.numTokens + r.specTokenIds.length := rfl
  have hlen : (recordedDrafts r numScheduledTokens).length =
      min (ownCount r + numScheduledTokens - r.numTokens).toNat r.specTokenIds.length := by
    unfold recordedDrafts ownCount
    rw [List.length_take]
    congr 2
    omega
  have hnil : r.specTokenIds = [] ↔ r.specTokenIds.length = 0 := List.length_eq_zero_iff.symm
  unfold CountsAgree
  rw [hnil]
  generalize ownCount r = own at hlen ⊢
  generalize hk : (recordedDrafts r numScheduledTokens).length = k at hlen
  constructor
  · rintro ⟨-, hpos, hown⟩
    rw [hk] at hpos hown
    generalize r.specTokenIds.length = len at *
    rcases Nat.eq_zero_or_pos len with hzero | hlenpos
    · exact .inl hzero
    · rcases Nat.eq_zero_or_pos k with rfl | hkpos
      · -- nothing is recorded: the step ends inside the request's own tokens
        refine .inr (.inl ⟨by omega, by omega⟩)
      · -- the first draft is recorded, so it is in the step
        have hfirst := (hpos 0 hlenpos).mp hkpos
        refine .inr (.inr ⟨by omega, ?_⟩)
        by_contra hneq
        rw [not_or] at hneq
        obtain ⟨hne, hall⟩ := hneq
        rcases lt_or_gt_of_ne hne with hlt | hgt
        · -- the request's own count reaches further
          have hb := hpos (numComputedTokens + numScheduledTokens - r.numTokens).toNat (by omega)
          omega
        · omega
  · intro hcount
    refine ⟨ List.take_prefix _ _, fun i hi => ?_, ?_⟩
    · omega
    · omega

/-! ## The admission -/

/-- One iteration of the loop over the waiting requests admits the request. In `ready` it may be
scheduled, from `computed` on and for the `work`. -/
structure Admits (cfg : RecomputeConfig) (p ready : Pass X) (source : Pass.Source) (ref : Ref)
    (computed : Pass.Computed X) (work : Work) (q : Pass X) : Prop where
  promoted : promote cfg p ref = .ok (true, ready)
  loras : ready.exceedsMaxLoras cfg.toConfig (ready.s.objs ref) = false
  noLoad : computed.loadKvAsync = false
  admitted : ∃ p1 p2 p3, ready.getComputed cfg.toConfig ref = .ok (some computed, p1) ∧
    planWaiting cfg p1 ref computed = .ok (some work, p2) ∧
    allocateWaiting cfg p2 ref computed work = .ok (true, p3) ∧
    admitOrLoad cfg p3 source ref computed work = .ok q

theorem planWaiting_effect {work? : Option Work}
    (h : planWaiting cfg p ref computed = .ok (work?, q)) :
    ∃ encoderCacheManager, q = { p with s := { p.s with encoderCacheManager } } := by
  unfold planWaiting at h
  dsimp only at h
  split at h
  · obtain ⟨⟨⟩, -, h⟩ := bind_ok h
    obtain ⟨n, -, h⟩ := bind_ok h
    split at h <;> cases h <;> exact ⟨_, rfl⟩
  · generalize (if 0 < cfg.longPrefillTokenThreshold ∧ cfg.longPrefillTokenThreshold <
      waitingNumTokens cfg (p.s.objs ref) computed.numComputedTokens then _ else _) = n at h
    split at h
    · cases h
      exact ⟨_, rfl⟩
    · obtain ⟨⟨⟩, -, h⟩ := bind_ok h
      obtain ⟨⟨work, p1⟩, hplan, h⟩ := bind_ok h
      obtain ⟨m, rfl⟩ := Pass.scheduleEncoderInputs_effect hplan
      split at h
      · cases h
        exact ⟨m, rfl⟩
      · obtain ⟨n, -, h⟩ := bind_ok h
        split at h <;> cases h <;> exact ⟨m, rfl⟩

theorem popRequest_withQueue (h : p.popRequest cfg.toConfig source = .ok q) :
    ∃ l, q = p.withQueue source l := by
  obtain ⟨l, -, h⟩ := bind_ok h
  refine ⟨l, ?_⟩
  cases source with
  | waiting =>
    cases h
    rfl
  | skippedWaiting =>
    cases h
    rfl

theorem updateConnector_setWorld (p : Pass X) (ref : Ref) (computed : Pass.Computed X) :
    ∃ world, p.updateConnector cfg.toConfig ref computed = p.setWorld world := by
  unfold Pass.updateConnector
  split
  · exact ⟨_, rfl⟩
  · exact ⟨p.s.world, rfl⟩

theorem admitRequest_records (h : p.admitRequest cfg.toConfig ref computed work = .ok q) :
    q.scheduledSpecDecodeTokens = p.scheduledSpecDecodeTokens ∧
      q.numScheduledTokens = p.numScheduledTokens.set (p.s.objs ref).requestId work.numNewTokens ∧
      (q.s.objs ref).numComputedTokens = computed.numComputedTokens := by
  obtain ⟨new, resumed, loras, -, hencoder⟩ := Pass.admitRequest_effect h
  obtain ⟨m, world, budget, inputs, loads, rfl⟩ := (Pass.allocateEncoder_effect hencoder).eq
  refine ⟨rfl, rfl, ?_⟩
  show ((p.s.modify ref fun r => { r with
    status := .running
    numComputedTokens := computed.numComputedTokens }).objs ref).numComputedTokens = _
  rw [Scheduler.modify_self]

/-- Until the request is admitted only its count of external tokens is written. -/
theorem Admits.request (h : Admits cfg p ready source ref computed work q) :
    ∃ t n, t.s.objs ref = { ready.s.objs ref with numExternalComputedTokens := n } ∧
      t.scheduledSpecDecodeTokens = ready.scheduledSpecDecodeTokens ∧
      t.numScheduledTokens = ready.numScheduledTokens ∧
      (scheduleWaitingSpecTokens cfg t ref work.numNewTokens).admitRequest cfg.toConfig ref
        computed work = .ok q := by
  obtain ⟨p1, p2, p3, hget, hplan, halloc, hadmit⟩ := h.admitted
  obtain ⟨t, hpop, hadmit⟩ := bind_ok hadmit
  rw [h.noLoad, if_neg (by decide)] at hadmit
  obtain ⟨world, n, rfl⟩ := Pass.getComputed_effect hget
  obtain ⟨m, rfl⟩ := planWaiting_effect hplan
  obtain ⟨world', rfl⟩ := Pass.allocateWaiting_effect halloc
  obtain ⟨world'', hworld⟩ := updateConnector_setWorld _ ref computed
  rw [hworld] at hpop
  obtain ⟨l, rfl⟩ := popRequest_withQueue hpop
  have hself : (ready.s.modify ref fun r => { r with numExternalComputedTokens := n }).objs ref =
      { ready.s.objs ref with numExternalComputedTokens := n } := Scheduler.modify_self _
  refine ⟨_, n, ?_, ?_, ?_, hadmit⟩
  · cases source <;> exact hself
  · cases source <;> rfl
  · cases source <;> rfl

theorem Admits.numNewTokens_le (hmtp : cfg.isMtpKvConsumer = true)
    (h : Admits cfg p ready source ref computed work q) :
    computed.numComputedTokens + work.numNewTokens ≤ (ready.s.objs ref).numTokensWithSpec := by
  obtain ⟨p1, p2, p3, hget, hplan, -⟩ := h.admitted
  have hle := planWaiting_numNewTokens hmtp h.noLoad hplan
  obtain ⟨world, n, rfl⟩ := Pass.getComputed_effect hget
  have hself : (ready.s.modify ref fun r => { r with numExternalComputedTokens := n }).objs ref =
      { ready.s.objs ref with numExternalComputedTokens := n } := Scheduler.modify_self _
  rw [hself] at hle
  exact hle

/-- For every prefix hit, every number of external tokens and every chunk: the drafts recorded for
an admitted request are those of its step exactly when both counts reach the same drafts. -/
theorem recordedDrafts_iff (hmtp : cfg.isMtpKvConsumer = true)
    (h : Admits cfg p ready source ref computed work q) :
    q.scheduledSpecDecodeTokens = recordDrafts ready.scheduledSpecDecodeTokens
        (ready.s.objs ref).requestId (recordedDrafts (ready.s.objs ref) work.numNewTokens) ∧
      q.numScheduledTokens =
        ready.numScheduledTokens.set (ready.s.objs ref).requestId work.numNewTokens ∧
      (q.s.objs ref).numComputedTokens = computed.numComputedTokens ∧
      (DraftsInStep (ready.s.objs ref) computed.numComputedTokens work.numNewTokens
          (recordedDrafts (ready.s.objs ref) work.numNewTokens) ↔
        CountsAgree (ready.s.objs ref) computed.numComputedTokens work.numNewTokens) := by
  obtain ⟨t, n, hobj, hdrafts, htokens, hadmit⟩ := h.request
  unfold scheduleWaitingSpecTokens at hadmit
  rw [if_pos hmtp, Pass.scheduleSpecTokens_eq] at hadmit
  obtain ⟨hd, ht, hcomputed⟩ := admitRequest_records hadmit
  refine ⟨?_, ?_, hcomputed, draftsInStep_iff (h.numNewTokens_le hmtp)⟩
  · rw [hd]
    show recordDrafts t.scheduledSpecDecodeTokens (t.s.objs ref).requestId
      (recordedDrafts (t.s.objs ref) work.numNewTokens) = _
    rw [hdrafts, hobj]
    rfl
  · rw [ht]
    show t.numScheduledTokens.set ((t.s.modify ref fun r =>
      { r with specTokenIds := [] }).objs ref).requestId work.numNewTokens = _
    rw [Scheduler.modify_self, htokens, hobj]

end

/-! ## A prefix hit -/

/-- A world in which a request finds `hit` tokens of its prefix. -/
def hitWorld (hit : Nat) : World := { roomyWorld with getComputedBlocks := fun _ w => (((), hit), w) }

/-- A decode node with one draft token. -/
def consumerConfig : RecomputeConfig where
  maxNumRunningReqs := 4
  maxNumScheduledTokens := 100
  maxModelLen := 100
  numSpecTokens := 1
  hasSpeculativeConfig := true
  kvTransferConfig := some { kvRole := some .kvConsumer }

/-- A request of three tokens with its placeholder draft, the only one that waits. -/
def draftPass (hit : Nat) : Pass (hitWorld hit) where
  s := {
    objs := fun _ => {
      requestId := 1
      promptTokenIds := some [1, 2, 3]
      numPromptTokens := 3
      allTokenIds := [1, 2, 3]
      specTokenIds := [-1] }
    numObjs := 1
    requests := Dict.empty.set 1 0
    waiting := [0]
    encoderCacheManager := .multimodal (.init 0)
    world := () }
  tokenBudget := 100
  encoderComputeBudget := 0

/-- Its step: the tokens that were not hit, and the draft. -/
def draftComputed (hit : Nat) : Pass.Computed (hitWorld hit) where
  newComputedBlocks := ()
  numNewLocalComputedTokens := hit
  numComputedTokens := hit

def draftWork (hit : Nat) : Work where
  numNewTokens := 4 - hit
  encoderComputeBudget := 0

theorem draft_admits_noHit : ∃ q, Admits consumerConfig (draftPass 0) (draftPass 0) .waiting 0
    (draftComputed 0) (draftWork 0) q := ⟨_, rfl, rfl, rfl, _, _, _, rfl, rfl, rfl, rfl⟩

theorem draft_admits_hit : ∃ q, Admits consumerConfig (draftPass 2) (draftPass 2) .waiting 0
    (draftComputed 2) (draftWork 2) q ∧ q.scheduledSpecDecodeTokens.get? 1 = none :=
  ⟨_, ⟨rfl, rfl, rfl, _, _, _, rfl, rfl, rfl, rfl⟩, rfl⟩

/-- Without a hit the draft is recorded. -/
theorem recordedDrafts_iff_noHit : ∃ q : Pass (hitWorld 0),
    q.scheduledSpecDecodeTokens = recordDrafts Dict.empty 1 [-1] ∧
      q.numScheduledTokens = Dict.empty.set 1 4 ∧ (q.s.objs 0).numComputedTokens = 0 ∧
      (DraftsInStep ((draftPass 0).s.objs 0) 0 4 [-1] ↔ CountsAgree ((draftPass 0).s.objs 0) 0 4) := by
  obtain ⟨q, hq⟩ := draft_admits_noHit
  exact ⟨q, recordedDrafts_iff rfl hq⟩

/-- With a hit of two of the three tokens the step computes the position of the draft, and no draft
is recorded. -/
theorem draft_not_recorded : ∃ q, Admits consumerConfig (draftPass 2) (draftPass 2) .waiting 0
      (draftComputed 2) (draftWork 2) q ∧
    consumerConfig.isMtpKvConsumer = true ∧ q.scheduledSpecDecodeTokens.get? 1 = none ∧
    ¬ DraftsInStep ((draftPass 2).s.objs 0) 2 2 (recordedDrafts ((draftPass 2).s.objs 0) 2) := by
  obtain ⟨q, hq, hnone⟩ := draft_admits_hit
  refine ⟨q, hq, rfl, hnone, fun hin => ?_⟩
  have hown : (2 + 2 - 0 : Int) ≤ 3 := hin.own
  omega

/-- The same by way of `add_request` and `schedule`: four tokens count as computed of a request that
has three, and no draft is recorded. -/
def draftRun (hit : Nat) : Except PyError (RecomputeSchedulerOutput × Scheduler (hitWorld hit)) := do
  let request ← Request.init none
    { requestId := 1, samplingParams := some { maxTokens := 10 }, promptTokenIds := some [1, 2, 3] }
  let s ← addRequest consumerConfig (.initial (.multimodal (.init 0)) ()) request
  schedule consumerConfig s

example : (draftRun 2).map (fun x => (x.1.numScheduledTokens.get? 1,
    x.1.scheduledSpecDecodeTokens.get? 1, (x.2.objs 0).numComputedTokens,
    (x.2.objs 0).numTokens)) = .ok (some 2, none, 4, 3) := by
  rfl

end MyOperator.Recompute
