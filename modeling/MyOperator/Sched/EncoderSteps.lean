import MyOperator.Sched.EncoderChoice
import MyOperator.Sched.SchedulePlaces

/-!
# What the steps of `schedule` do with the encoder inputs

A step asks the encoder cache manager for room, frees a request in it, or schedules the
inputs of one request. The lemmas name the calls that the manager sees.
-/

namespace MyOperator.Sched

open Lib List

namespace EncoderManager

/-- Calls of `check_and_update_cache` and `can_allocate`. -/
inductive Asks (m : EncoderManager) : EncoderManager → Prop
  | refl : Asks m m
  | check {m' m'' r i hit} : Asks m m' → m'.checkAndUpdateCache r i = .ok (hit, m'') → Asks m m''
  | room {m' m'' r i budget n can} : Asks m m' → m'.canAllocate r i budget n = .ok (can, m'') →
      Asks m m''

variable {m m' m'' : EncoderManager}

theorem Asks.trans (h : Asks m m') (h' : Asks m' m'') : Asks m m'' := by
  induction h' with
  | refl => exact h
  | check _ hcheck ih => exact ih.check hcheck
  | room _ hroom ih => exact ih.room hroom

/-- Calls of `allocate` for the inputs `ids` of one request. -/
def Allocates (r : Request) (ids : List Nat) (m m' : EncoderManager) : Prop :=
  ids.foldlM (fun m i => m.allocate r i) m = .ok m'

theorem Allocates.append {r : Request} {ids ids' : List Nat} (h : Allocates r ids m m')
    (h' : Allocates r ids' m' m'') : Allocates r (ids ++ ids') m m'' := by
  unfold Allocates at h h' ⊢
  rw [foldlM_append, h]
  exact h'

end EncoderManager

/-! ## Choosing encoder inputs only asks -/

section Choose

variable {cfg : EncoderConfig} {hasItem : String → Bool} {r : Request} {i : Nat}
  {f : MultiModalFeatureSpec} {p : EncoderPlan} {pick : Pick}

theorem Placed.asks (h : Placed r i f p pick) : p.manager.Asks pick.plan.manager := by
  cases h with
  | chunk _ _ => exact .refl
  | full hroom _ _ => exact .room .refl hroom
  | room hroom hpicked => cases hpicked <;> exact .room .refl hroom

theorem Tried.asks (h : Tried cfg r i f p pick) : p.manager.Asks pick.plan.manager := by
  cases h with
  | stop => exact .refl
  | next => exact .refl
  | encoderDecoder _ hplaced => exact hplaced.asks
  | hit _ hcheck => exact .check .refl hcheck
  | miss _ hcheck hplaced => exact (EncoderManager.Asks.check .refl hcheck).trans hplaced.asks

theorem tryScheduleEncoderInputs_asks {m : EncoderManager} {a b c d : Int}
    (h : tryScheduleEncoderInputs cfg hasItem m r a b c d = .ok p) : m.Asks p.manager :=
  tryScheduleEncoderInputs_keeps (P := fun q => m.Asks q.manager)
    (fun _ _ _ _ _ htried hp => hp.trans htried.asks) .refl h

end Choose

namespace Pass

variable {cfg : Config} {X : World} {p q : Pass X} {ref victim : Ref} {work : Work}

theorem scheduleEncoderInputs_asks {a b : Int}
    (h : p.scheduleEncoderInputs cfg ref a b = .ok (work, q)) :
    p.s.encoderCacheManager.Asks q.s.encoderCacheManager := by
  unfold scheduleEncoderInputs at h
  dsimp only at h
  split at h
  · obtain ⟨plan, hplan, h⟩ := bind_ok h
    cases h
    exact tryScheduleEncoderInputs_asks hplan
  · cases h
    exact .refl

theorem planWaiting_asks {computed : Computed X} {work? : Option Work}
    (h : p.planWaiting cfg ref computed = .ok (work?, q)) :
    p.s.encoderCacheManager.Asks q.s.encoderCacheManager := by
  rcases planWaiting_inv h with ⟨rfl, -⟩ | ⟨n, work, -, hplan, -⟩
  · exact .refl
  · exact scheduleEncoderInputs_asks hplan

/-! ## Scheduling encoder inputs -/

theorem allocateEncoder_inputs (h : p.allocateEncoder cfg ref work = .ok q) :
    EncoderManager.Allocates (p.s.objs ref)
      (work.encoderInputsToSchedule ++ work.externalLoadEncoderInput)
      p.s.encoderCacheManager q.s.encoderCacheManager ∧
    q.scheduledEncoderInputs = (if work.encoderInputsToSchedule = [] then p.scheduledEncoderInputs
      else p.scheduledEncoderInputs.set (p.s.objs ref).requestId work.encoderInputsToSchedule) ∧
    ∃ fs : List MultiModalFeatureSpec,
      work.externalLoadEncoderInput.map ((p.s.objs ref).mmFeatures[·]?) = fs.map some ∧
      q.externalLoads = p.externalLoads ++ fs.map (·.identifier) := by
  obtain ⟨p1, hinputs, hloads⟩ := bind_ok h
  -- the loop over the inputs that the step computes
  have hloop : ∀ (ids : List Nat) (P Q : Pass X),
      ids.foldlM (fun p i => p.allocateEncoderInput cfg ref i) P = .ok Q →
      EncoderManager.Allocates (P.s.objs ref) ids P.s.encoderCacheManager Q.s.encoderCacheManager ∧
        Q.s.objs = P.s.objs ∧ Q.scheduledEncoderInputs = P.scheduledEncoderInputs ∧
        Q.externalLoads = P.externalLoads := by
    intro ids
    induction ids with
    | nil =>
      intro P Q hrun
      cases hrun
      exact ⟨rfl, rfl, rfl, rfl⟩
    | cons i ids ih =>
      intro P Q hrun
      obtain ⟨P1, hone, hrest⟩ := bind_ok hrun
      obtain ⟨m, world, halloc, rfl⟩ := allocateEncoderInput_effect hone
      obtain ⟨hall, hobjs, hsched, hext⟩ := ih _ _ hrest
      refine ⟨?_, hobjs, hsched, hext⟩
      unfold EncoderManager.Allocates
      rw [foldlM_cons, halloc]
      exact hall
  -- the loop over those that are loaded
  have hloopLoads : ∀ (ids : List Nat) (P Q : Pass X),
      ids.foldlM (fun p i => p.allocateExternalLoad cfg ref i) P = .ok Q →
      EncoderManager.Allocates (P.s.objs ref) ids P.s.encoderCacheManager Q.s.encoderCacheManager ∧
        Q.scheduledEncoderInputs = P.scheduledEncoderInputs ∧
        ∃ fs : List MultiModalFeatureSpec, ids.map ((P.s.objs ref).mmFeatures[·]?) = fs.map some ∧
          Q.externalLoads = P.externalLoads ++ fs.map (·.identifier) := by
    intro ids
    induction ids with
    | nil =>
      intro P Q hrun
      cases hrun
      exact ⟨rfl, rfl, [], rfl, (append_nil _).symm⟩
    | cons i ids ih =>
      intro P Q hrun
      obtain ⟨P1, hone, hrest⟩ := bind_ok hrun
      obtain ⟨m, world, f, halloc, hf, rfl⟩ := allocateExternalLoad_effect hone
      obtain ⟨hall, hsched, fs, hfs, hext⟩ := ih _ _ hrest
      have hget : (P.s.objs ref).mmFeatures[i]? = some f := by
        unfold Request.mmFeature at hf
        split at hf
        · rename_i f' hf'
          cases hf
          exact hf'
        · cases hf
      refine ⟨?_, hsched, f :: fs, ?_, ?_⟩
      · unfold EncoderManager.Allocates
        rw [foldlM_cons, halloc]
        exact hall
      · rw [map_cons, map_cons, hget]
        exact congrArg _ hfs
      · rw [hext, map_cons]
        show P.externalLoads ++ [f.identifier] ++ _ = _
        rw [append_assoc]
        rfl
  obtain ⟨hall', hsched', fs, hfs, hext'⟩ := hloopLoads _ _ _ hloads
  split at hinputs
  · rename_i hnil
    cases hinputs
    rw [hnil]
    exact ⟨hall', hsched', fs, hfs, hext'⟩
  · rename_i hne
    obtain ⟨p2, hfold, hinputs⟩ := bind_ok hinputs
    cases hinputs
    obtain ⟨hall, hobjs, hsched, hext⟩ := hloop _ _ _ hfold
    rw [if_neg hne]
    have hobj : p2.s.objs ref = p.s.objs ref := congrFun hobjs ref
    rw [hobj] at hall' hfs
    refine ⟨hall.append hall', hsched'.trans hsched, fs, hfs, ?_⟩
    rw [hext']
    show p2.externalLoads ++ _ = _
    rw [hext]

/-! ## The steps -/

/-- The requests and their items are the same, and those that are scheduled have computed as many
tokens. -/
structure SameItems (p q : Pass X) : Prop where
  requests : q.s.requests = p.s.requests
  requestId : ∀ r, (q.s.objs r).requestId = (p.s.objs r).requestId
  mmFeatures : ∀ r, (q.s.objs r).mmFeatures = (p.s.objs r).mmFeatures
  numComputedTokens : ∀ r ∈ p.scheduled, r ∈ q.scheduled →
    (q.s.objs r).numComputedTokens = (p.s.objs r).numComputedTokens

/-- The same work was scheduled so far. -/
structure SameWork (p q : Pass X) : Prop where
  scheduled : q.scheduled = p.scheduled
  numScheduledTokens : q.numScheduledTokens = p.numScheduledTokens
  scheduledEncoderInputs : q.scheduledEncoderInputs = p.scheduledEncoderInputs
  externalLoads : q.externalLoads = p.externalLoads

/-- `work` was scheduled for the request. -/
structure SchedulesWork (p : Pass X) (ref : Ref) (work : Work) (q : Pass X) : Prop where
  queued : ref ∈ p.places.queued
  new : ref ∉ p.scheduled
  scheduled : q.scheduled.Perm (ref :: p.scheduled)
  numScheduledTokens :
    q.numScheduledTokens = p.numScheduledTokens.set (p.s.objs ref).requestId work.numNewTokens
  allocates : ∃ r : Request, r.requestId = (p.s.objs ref).requestId ∧
    r.mmFeatures = (p.s.objs ref).mmFeatures ∧
    EncoderManager.Allocates r (work.encoderInputsToSchedule ++ work.externalLoadEncoderInput)
      p.s.encoderCacheManager q.s.encoderCacheManager
  scheduledEncoderInputs :
    q.scheduledEncoderInputs = if work.encoderInputsToSchedule = [] then p.scheduledEncoderInputs
      else p.scheduledEncoderInputs.set (p.s.objs ref).requestId work.encoderInputsToSchedule
  externalLoads : ∃ fs : List MultiModalFeatureSpec,
    work.externalLoadEncoderInput.map ((p.s.objs ref).mmFeatures[·]?) = fs.map some ∧
    q.externalLoads = p.externalLoads ++ fs.map (·.identifier)

/-- The step from this phase allocates and frees nothing. -/
def Quiet (p : Pass X) : Phase X → Prop
  | .runningFull _ _ | .runningBlocks _ _ => False
  | .waitingFull ref => (p.s.objs ref).hasEncoderInputs = false
  | .waitingBlocks _ _ computed _ => computed.loadKvAsync = true
  | _ => True

/-- What a step does with the encoder inputs. -/
inductive EncoderStep (cfg : Config) : Pass X × Phase X → Pass X × Phase X → Prop
  | ask {p q a b} : Quiet p a → SameWork p q →
      p.s.encoderCacheManager.Asks q.s.encoderCacheManager → EncoderStep cfg (p, a) (q, b)
  | untouch {p q ref b} : SameWork p q → (p.s.objs ref).hasEncoderInputs = true →
      p.s.encoderCacheManager.free cfg.setOrder (p.s.objs ref) = .ok q.s.encoderCacheManager →
      EncoderStep cfg (p, .waitingFull ref) (q, b)
  | preempt {p q r ref work victim b} : p.popVictim cfg = .ok (victim, q) →
      q.preemptVictim cfg victim = .ok r → EncoderStep cfg (p, .runningFull ref work) (r, b)
  | scheduleRunning {p q ref work b} : SchedulesWork p ref work q →
      (q.s.objs ref).numComputedTokens = (p.s.objs ref).numComputedTokens →
      EncoderStep cfg (p, .runningBlocks ref work) (q, b)
  | admitted {p q source ref computed work b} : computed.loadKvAsync = false →
      SchedulesWork p ref work q → (q.s.objs ref).numComputedTokens = computed.numComputedTokens →
      EncoderStep cfg (p, .waitingBlocks source ref computed work) (q, b)

theorem sameItems_modify (ref : Ref) {f : Request → Request} (hreq : q.s.requests = p.s.requests)
    (hobjs : q.s.objs = (p.s.modify ref f).objs)
    (hid : (f (p.s.objs ref)).requestId = (p.s.objs ref).requestId)
    (hmm : (f (p.s.objs ref)).mmFeatures = (p.s.objs ref).mmFeatures)
    (hcount : ref ∈ p.scheduled → ref ∈ q.scheduled →
      (f (p.s.objs ref)).numComputedTokens = (p.s.objs ref).numComputedTokens) : SameItems p q := by
  refine ⟨hreq, fun r => ?_, fun r => ?_, fun r hr hr' => ?_⟩
  · rw [hobjs, Scheduler.requestId_modify hid]
  · rw [hobjs]
    by_cases h : r = ref
    · rw [h, Scheduler.modify_self, hmm]
    · rw [Scheduler.modify_of_ne f h]
  · rw [hobjs]
    by_cases h : r = ref
    · subst h
      rw [Scheduler.modify_self, hcount hr hr']
    · rw [Scheduler.modify_of_ne f h]

theorem preempt_sameItems {r : Pass X} (hp : PlacesInv p) (h : WorkInv cfg p ref)
    (hpop : p.popVictim cfg = .ok (victim, q)) (hpre : q.preemptVictim cfg victim = .ok r) :
    SameItems p r := by
  obtain ⟨hrun, -, hvictim, -⟩ := popVictim_runningInv hp h hpop
  obtain ⟨running, -, hs, -, -⟩ := popVictim_running hpop
  obtain ⟨-, m, world, waiting, -, -, rfl⟩ := preemptVictim_effect hpre
  refine sameItems_modify victim (f := Scheduler.preempted) ?_ ?_ rfl rfl ?_
  · show q.s.requests = p.s.requests
    rw [hs]
  · show (q.s.modify victim Scheduler.preempted).objs = _
    rw [hs]
    rfl
  · intro _ hin
    rw [hrun.new, hrun.resumed] at hin
    exact absurd hin hvictim

theorem SameItems.change {r : Pass X} (h : SameItems p q) (h' : EncoderChange q r) :
    SameItems p r := by
  obtain ⟨_, _, _, _, _, rfl⟩ := h'.eq
  exact ⟨h.requests, h.requestId, h.mmFeatures, h.numComputedTokens⟩

/-- What `allocate_encoder` does to a pass that differs from `p` in the request and in what is
recorded as scheduled. -/
theorem schedulesWork_of_allocateEncoder {P : Pass X} (hencoder : P.allocateEncoder cfg ref work = .ok q)
    (hsame : SameItems p P) (hmgr : P.s.encoderCacheManager = p.s.encoderCacheManager)
    (hinputs : P.scheduledEncoderInputs = p.scheduledEncoderInputs)
    (hext : P.externalLoads = p.externalLoads)
    (hqueued : ref ∈ p.places.queued) (hnew : ref ∉ p.scheduled)
    (hsched : P.scheduled.Perm (ref :: p.scheduled))
    (hnum : P.numScheduledTokens =
      p.numScheduledTokens.set (p.s.objs ref).requestId work.numNewTokens) :
    SameItems p q ∧ SchedulesWork p ref work q := by
  have hchange := allocateEncoder_effect hencoder
  obtain ⟨hall, hids, fs, hfs, hloads⟩ := allocateEncoder_inputs hencoder
  rw [hmgr] at hall
  rw [hinputs, hsame.requestId] at hids
  rw [hsame.mmFeatures] at hfs
  rw [hext] at hloads
  have hnum' : q.numScheduledTokens = P.numScheduledTokens := by
    obtain ⟨_, _, _, _, _, rfl⟩ := hchange.eq
    rfl
  refine ⟨hsame.change hchange, hqueued, hnew, ?_, hnum'.trans hnum,
    ⟨P.s.objs ref, hsame.requestId ref, hsame.mmFeatures ref, hall⟩, hids, fs, hfs, hloads⟩
  rw [hchange.scheduled]
  exact hsched

theorem EncoderChange.objs (h : EncoderChange p q) : q.s.objs = p.s.objs := by
  obtain ⟨_, _, _, _, _, rfl⟩ := h.eq
  rfl

theorem scheduleRunning_encoder (h : WorkInv cfg p ref)
    (hsched : p.scheduleRunning cfg ref work = .ok q) :
    SameItems p q ∧ SchedulesWork p ref work q ∧
      (q.s.objs ref).numComputedTokens = (p.s.objs ref).numComputedTokens := by
  obtain ⟨hrun, hnot, hpos, -⟩ := h
  obtain ⟨d, hencoder⟩ := scheduleRunning_effect hsched
  have hscheduled : p.scheduled = p.scheduledRunningReqs := by
    unfold scheduled
    rw [hrun.new, hrun.resumed]
    rfl
  rw [← and_assoc]
  refine ⟨?_, ?_⟩
  rotate_left
  · rw [(allocateEncoder_effect hencoder).objs]
    show (((p.s.modify ref fun r => { r with specTokenIds := [] }).objs ref).numComputedTokens) = _
    rw [Scheduler.modify_self]
  refine schedulesWork_of_allocateEncoder hencoder
    (sameItems_modify _ (f := fun r => { r with specTokenIds := [] }) rfl rfl rfl rfl
      fun _ _ => rfl) rfl rfl rfl ?_ ?_ ?_ rfl
  · exact mem_append_left _ (mem_append_left _ (mem_of_mem_take hpos))
  · rw [hscheduled]
    exact hnot
  · show (p.scheduledNewReqs ++ p.scheduledResumedReqs ++ (p.scheduledRunningReqs ++ [ref])).Perm _
    rw [hscheduled, hrun.new, hrun.resumed]
    exact perm_append_singleton _ _

theorem admit_encoder {source : Source} {l : RequestQueue} {world : X.State}
    {computed : Computed X} (hp : PlacesInv p) (hmem : ref ∈ p.queue source)
    (h : ((p.setWorld world).withQueue source l).admitRequest cfg ref computed work = .ok q) :
    SameItems p q ∧ SchedulesWork p ref work q ∧
      (q.s.objs ref).numComputedTokens = computed.numComputedTokens := by
  obtain ⟨new, resumed, loras, hrec, hencoder⟩ := admitRequest_effect h
  have hnotin := not_running_of_mem_queue hp hmem
  rw [← and_assoc]
  refine ⟨?_, ?_⟩
  rotate_left
  · rw [(allocateEncoder_effect hencoder).objs]
    show ((((p.setWorld world).withQueue source l).s.modify ref fun r => { r with
      status := .running
      numComputedTokens := computed.numComputedTokens }).objs ref).numComputedTokens = _
    rw [Scheduler.modify_self]
  refine schedulesWork_of_allocateEncoder hencoder (sameItems_modify ref (f := fun r => { r with
      status := .running
      numComputedTokens := computed.numComputedTokens }) ?_ ?_ rfl rfl
      fun hin _ => absurd (hp.running ref hin) hnotin) ?_ ?_ ?_ ?_ ?_ ?_ ?_
  · cases source <;> rfl
  · cases source <;> rfl
  · cases source <;> rfl
  · cases source <;> rfl
  · cases source <;> rfl
  · exact Places.mem_queued.mpr ⟨_, mem_places_of_mem_queue hmem⟩
  · exact fun hin => hnotin (hp.running ref hin)
  · have hperm := admit_scheduled hrec
    cases source <;> exact hperm
  · cases source <;> rfl

theorem Step.encoder {a b : Pass X × Phase X} (h : Step cfg a b) (hp : PlacesInv a.1)
    (hphase : PhaseInv cfg a.1 a.2) : SameItems a.1 b.1 ∧ EncoderStep cfg a b := by
  have hask : ∀ {p q : Pass X} {x y : Phase X}, Quiet p x → q.s.objs = p.s.objs →
      q.s.requests = p.s.requests → SameWork p q → p.s.encoderCacheManager.Asks q.s.encoderCacheManager →
      SameItems p q ∧ EncoderStep cfg (p, x) (q, y) := by
    intro p q x y hquiet hobjs hreq hwork hasks
    refine ⟨⟨hreq, fun r => ?_, fun r => ?_, fun r _ _ => ?_⟩, .ask hquiet hwork hasks⟩
    · rw [hobjs]
    · rw [hobjs]
    · rw [hobjs]
  cases h with
  | pickRunning _ => exact hask trivial rfl rfl ⟨rfl, rfl, rfl, rfl⟩ .refl
  | endRunning _ => exact hask trivial rfl rfl ⟨rfl, rfl, rfl, rfl⟩ .refl
  | passOver _ => exact hask trivial rfl rfl ⟨rfl, rfl, rfl, rfl⟩ .refl
  | planRunning _ hplan _ =>
    have hasks := scheduleEncoderInputs_asks hplan
    obtain ⟨m, rfl⟩ := scheduleEncoderInputs_effect hplan
    exact hask trivial rfl rfl ⟨rfl, rfl, rfl, rfl⟩ hasks
  | noTokens _ => exact hask trivial rfl rfl ⟨rfl, rfl, rfl, rfl⟩ .refl
  | tryAllocate _ _ => exact hask trivial rfl rfl ⟨rfl, rfl, rfl, rfl⟩ .refl
  | preempt hpop hpre => exact ⟨preempt_sameItems hp hphase hpop hpre, .preempt hpop hpre⟩
  | scheduleRunning hsched =>
    obtain ⟨hsame, hwork, hcount⟩ := scheduleRunning_encoder hphase hsched
    exact ⟨hsame, .scheduleRunning hwork hcount⟩
  | recordLoras hloras =>
    obtain ⟨loras, rfl⟩ := recordLoras_effect hloras
    exact hask trivial rfl rfl ⟨rfl, rfl, rfl, rfl⟩ .refl
  | pickWaiting _ _ => exact hask trivial rfl rfl ⟨rfl, rfl, rfl, rfl⟩ .refl
  | endWaiting _ => exact hask trivial rfl rfl ⟨rfl, rfl, rfl, rfl⟩ .refl
  | promote hprom =>
    rcases promote_effect hprom with ⟨rfl, -⟩ | ⟨-, -, world, finished, failed, r', hr', rfl⟩
    · exact hask trivial rfl rfl ⟨rfl, rfl, rfl, rfl⟩ .refl
    · have hnotin := not_running_of_mem_queue hp (peek_mem hphase)
      refine ⟨sameItems_modify _ (f := fun _ => r') rfl rfl ?_ ?_
        fun hin _ => absurd (hp.running _ hin) hnotin, .ask trivial ⟨rfl, rfl, rfl, rfl⟩ .refl⟩
      · rw [hr'.eq]
      · rw [hr'.eq]
  | noMatchYet hget =>
    obtain ⟨world, n, rfl⟩ := getComputed_effect hget
    exact ⟨sameItems_modify _ (f := fun r => { r with numExternalComputedTokens := n }) rfl rfl rfl
      rfl fun _ _ => rfl, .ask trivial ⟨rfl, rfl, rfl, rfl⟩ .refl⟩
  | @skip _ _ source _ hskip =>
    obtain ⟨l, stepSkippedWaiting, -, -, rfl⟩ := skipRequest_effect hphase hskip
    cases source <;> exact hask trivial rfl rfl ⟨rfl, rfl, rfl, rfl⟩ .refl
  | getComputed hget =>
    obtain ⟨world, n, rfl⟩ := getComputed_effect hget
    exact ⟨sameItems_modify _ (f := fun r => { r with numExternalComputedTokens := n }) rfl rfl rfl
      rfl fun _ _ => rfl, .ask trivial ⟨rfl, rfl, rfl, rfl⟩ .refl⟩
  | giveUp hplan =>
    have hasks := planWaiting_asks hplan
    obtain ⟨m, rfl⟩ := planWaiting_effect hplan
    exact hask trivial rfl rfl ⟨rfl, rfl, rfl, rfl⟩ hasks
  | planWaiting hplan =>
    have hasks := planWaiting_asks hplan
    obtain ⟨m, rfl⟩ := planWaiting_effect hplan
    exact hask trivial rfl rfl ⟨rfl, rfl, rfl, rfl⟩ hasks
  | allocateWaiting halloc =>
    obtain ⟨world, rfl⟩ := allocateWaiting_effect halloc
    exact hask trivial rfl rfl ⟨rfl, rfl, rfl, rfl⟩ .refl
  | untouch hun =>
    unfold untouchEncoder at hun
    split at hun
    · rename_i henc
      obtain ⟨m, hfree, hun⟩ := bind_ok hun
      cases hun
      exact ⟨⟨rfl, fun _ => rfl, fun _ => rfl, fun _ _ _ => rfl⟩, .untouch ⟨rfl, rfl, rfl, rfl⟩ henc hfree⟩
    · rename_i henc
      cases hun
      exact hask (Bool.eq_false_iff.mpr henc) rfl rfl ⟨rfl, rfl, rfl, rfl⟩ .refl
  | @admitOrLoad p _ source ref computed work hadmit =>
    obtain ⟨l, world, hperm, ⟨hload, rfl⟩ | ⟨hload, hadmit⟩⟩ := admitOrLoad_effect hphase hadmit
    · obtain ⟨step, -, heq⟩ :=
        startLoad_effect cfg ((p.setWorld world).withQueue source l) ref computed
      rw [heq]
      refine ⟨sameItems_modify ref (f := fun r => { r with
        status := .waitingForRemoteKvs
        numComputedTokens := computed.numComputedTokens }) ?_ ?_ rfl rfl
        fun hin _ => absurd (hp.running ref hin) (not_running_of_mem_queue hp (peek_mem hphase)),
        .ask hload ⟨?_, ?_, ?_, ?_⟩ ?_⟩
      · cases source <;> rfl
      · cases source <;> rfl
      · cases source <;> rfl
      · cases source <;> rfl
      · cases source <;> rfl
      · cases source <;> rfl
      · cases source <;> exact .refl
    · obtain ⟨hsame, hwork, hcount⟩ := admit_encoder hp (peek_mem hphase) hadmit
      exact ⟨hsame, .admitted hload hwork hcount⟩
  | requeue => exact hask trivial rfl rfl ⟨rfl, rfl, rfl, rfl⟩ .refl

end Pass

end MyOperator.Sched
