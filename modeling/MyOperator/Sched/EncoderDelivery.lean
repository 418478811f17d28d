import MyOperator.Sched.EncoderFrames
import MyOperator.Sched.EncoderSteps

/-!
# Delivery of encoder outputs

What the encoder cache manager calls cached, the workers must hold: an emitted step told
them to compute it, or to load it, and no step since told them to free it. A preemption
that takes encoder inputs out of a step after they were allocated breaks this.
-/

namespace MyOperator.Sched

open Lib List Dict

/-! ## What the manager says -/

namespace EncoderManager

variable {m m' m'' : EncoderManager} {r : Request} {i : Nat}

/-- The hashes that the manager reports as cached. -/
def cachedHashes : EncoderManager → Finset String
  | .multimodal m => m.cached.keySet
  | .encoderDecoder _ => ∅

/-- The hashes that it will report as freed. -/
def freed (m : EncoderManager) : List String := m.getFreedMmHashes.1

/-- No hash is cached that was not, and one that still is was not evicted. -/
def AddsNothing (m m' : EncoderManager) : Prop :=
  ∀ h ∈ m'.cachedHashes, h ∈ m.cachedHashes ∧ (h ∈ m'.freed → h ∈ m.freed)

theorem AddsNothing.refl (m : EncoderManager) : AddsNothing m m := fun _ h => ⟨h, id⟩

theorem AddsNothing.trans (h : AddsNothing m m') (h' : AddsNothing m' m'') : AddsNothing m m'' := by
  intro x hx
  obtain ⟨hx', hfreed'⟩ := h' x hx
  obtain ⟨hx'', hfreed⟩ := h x hx'
  exact ⟨hx'', fun hin => hfreed (hfreed' hin)⟩

/-- For the first manager it is enough that the keys and the evicted hashes are the same. -/
theorem addsNothing_of_same {c c' : EncoderCacheManager} (hkeys : c'.cached.keySet = c.cached.keySet)
    (hfreed : c'.freed = c.freed) : AddsNothing (.multimodal c) (.multimodal c') := by
  intro h hh
  have hh : h ∈ c'.cached.keySet := hh
  rw [hkeys] at hh
  refine ⟨hh, fun hin => ?_⟩
  have hin : h ∈ c'.freed := hin
  rwa [hfreed] at hin

theorem addsNothing_encoderDecoder (c : EncoderDecoderCacheManager) :
    AddsNothing m (.encoderDecoder c) := fun _ h => absurd h (Finset.notMem_empty _)

theorem keySet_set_of_get? {d : Dict String (Finset Nat)} {h : String} {refs refs' : Finset Nat}
    (hget : d.get? h = some refs) : (d.set h refs').keySet = d.keySet := by
  rw [keySet_set, Finset.insert_eq_of_mem (mem_keySet.mpr ⟨refs, hget⟩)]

theorem checkAndUpdateCache_addsNothing {hit : Bool}
    (h : m.checkAndUpdateCache r i = .ok (hit, m')) : AddsNothing m m' := by
  cases m with
  | encoderDecoder c =>
    cases h
    exact .refl _
  | multimodal c =>
    obtain ⟨⟨hit', c'⟩, hcheck, h1⟩ := bind_ok h
    cases h1
    unfold EncoderCacheManager.checkAndUpdateCache at hcheck
    obtain ⟨f, -, h2⟩ := bind_ok hcheck
    split at h2
    · cases h2
      exact .refl _
    · rename_i refs hget
      obtain ⟨c1, hpop, h3⟩ := bind_ok h2
      cases h3
      have hc1 : c1.cached = c.cached ∧ c1.freed = c.freed := by
        split at hpop
        · unfold EncoderCacheManager.popFreeable at hpop
          split at hpop
          · cases hpop
          · cases hpop
            exact ⟨rfl, rfl⟩
        · cases hpop
          exact ⟨rfl, rfl⟩
      refine addsNothing_of_same ?_ hc1.2
      show (c1.cached.set f.identifier (insert r.requestId refs)).keySet = c.cached.keySet
      rw [hc1.1]
      exact keySet_set_of_get? hget

theorem evictLoop_addsNothing {numEmbeds : Int} {fuel : Nat} {c c' : EncoderCacheManager}
    (h : EncoderCacheManager.evictLoop numEmbeds fuel c = .ok c') :
    AddsNothing (.multimodal c) (.multimodal c') := by
  have hone : ∀ {c c' : EncoderCacheManager}, c.evictOldest = .ok c' →
      AddsNothing (.multimodal c) (.multimodal c') := by
    intro c c' hev
    unfold EncoderCacheManager.evictOldest at hev
    split at hev
    · cases hev
    · split at hev
      · cases hev
      · rename_i mmHash numFreeEmbeds rest hentries _ refs hget
        cases hev
        intro x hx
        have hx : x ∈ (c.cached.erase mmHash).keySet := hx
        rw [keySet_erase] at hx
        obtain ⟨hne, hx⟩ := Finset.mem_erase.mp hx
        refine ⟨hx, fun hin => ?_⟩
        have hin : x ∈ c.freed ++ [mmHash] := hin
        rcases mem_append.mp hin with hin | hin
        · exact hin
        · exact absurd (mem_singleton.mp hin) hne
  induction fuel generalizing c with
  | zero =>
    unfold EncoderCacheManager.evictLoop at h
    split at h
    · exact hone h
    · cases h
      exact .refl _
  | succ fuel ih =>
    unfold EncoderCacheManager.evictLoop at h
    split at h
    · obtain ⟨c1, hev, h1⟩ := bind_ok h
      exact (hone hev).trans (ih h1)
    · cases h
      exact .refl _

theorem canAllocate_addsNothing {budget : Int} {n : Nat} {can : Bool}
    (h : m.canAllocate r i budget n = .ok (can, m')) : AddsNothing m m' := by
  cases m with
  | encoderDecoder c =>
    obtain ⟨can', -, h1⟩ := bind_ok h
    cases h1
    exact .refl _
  | multimodal c =>
    obtain ⟨⟨can', c'⟩, hroom, h1⟩ := bind_ok h
    cases h1
    obtain ⟨k, -, h2⟩ := bind_ok hroom
    split at h2
    · cases h2
      exact .refl _
    · dsimp only at h2
      split at h2
      · cases h2
        exact .refl _
      · split at h2
        · cases h2
          exact .refl _
        · obtain ⟨c1, hloop, h3⟩ := bind_ok h2
          cases h3
          exact evictLoop_addsNothing hloop

theorem Asks.addsNothing (h : m.Asks m') : AddsNothing m m' := by
  induction h with
  | refl => exact .refl _
  | check _ hcheck ih => exact ih.trans (checkAndUpdateCache_addsNothing hcheck)
  | room _ hroom ih => exact ih.trans (canAllocate_addsNothing hroom)

theorem freeEncoderInput_addsNothing (h : m.freeEncoderInput r i = .ok m') : AddsNothing m m' := by
  cases m with
  | encoderDecoder c =>
    obtain ⟨c', hc, rfl⟩ := map_eq_ok.mp h
    exact addsNothing_encoderDecoder c'
  | multimodal c =>
    obtain ⟨c', hc, rfl⟩ := map_eq_ok.mp h
    obtain ⟨f, -, h1⟩ := bind_ok hc
    split at h1
    · cases h1
      exact .refl _
    · rename_i refs hget
      split at h1
      · cases h1
        exact .refl _
      · dsimp only at h1
        split at h1
        · obtain ⟨n, -, h2⟩ := bind_ok h1
          cases h2
          exact addsNothing_of_same (keySet_set_of_get? hget) rfl
        · cases h1
          exact addsNothing_of_same (keySet_set_of_get? hget) rfl

theorem free_addsNothing {setOrder : SetOrder} (h : m.free setOrder r = .ok m') :
    AddsNothing m m' := by
  cases m with
  | encoderDecoder c =>
    obtain ⟨c', hc, rfl⟩ := map_eq_ok.mp h
    exact addsNothing_encoderDecoder c'
  | multimodal c =>
    obtain ⟨c', hc, rfl⟩ := map_eq_ok.mp h
    refine foldlM_keeps (P := fun c' => AddsNothing (.multimodal c) (.multimodal c')) ?_
      (.refl _) hc
    intro c1 i _ c2 hc1 hstep
    exact hc1.trans (freeEncoderInput_addsNothing (map_eq_ok.mpr ⟨c2, hstep, rfl⟩))

theorem Frees.addsNothing {setOrder : SetOrder} {X : World} {s : Scheduler X} {P : Ref → Prop}
    (h : Frees setOrder s P m m') : AddsNothing m m' := by
  induction h with
  | refl => exact .refl _
  | tail _ hstep ih =>
    obtain ⟨r, ref, -, -, hfree⟩ := hstep
    exact ih.trans (free_addsNothing hfree)

theorem allocate_cached (h : m.allocate r i = .ok m') : ∀ x ∈ m'.cachedHashes,
    (x ∈ m.cachedHashes ∧ (x ∈ m'.freed → x ∈ m.freed)) ∨
      ∃ f, r.mmFeatures[i]? = some f ∧ f.identifier = x := by
  cases m with
  | encoderDecoder c =>
    obtain ⟨c', hc, rfl⟩ := map_eq_ok.mp h
    exact fun x hx => absurd hx (Finset.notMem_empty _)
  | multimodal c =>
    obtain ⟨c', hc, rfl⟩ := map_eq_ok.mp h
    obtain ⟨f, hf, h1⟩ := bind_ok hc
    obtain ⟨n, -, h2⟩ := bind_ok h1
    obtain ⟨⟨⟩, -, h3⟩ := bind_ok h2
    obtain ⟨⟨⟩, -, h4⟩ := bind_ok h3
    cases h4
    intro x hx
    have hx : x ∈ (c.cached.set f.identifier
      (insert r.requestId ((c.cached.get? f.identifier).getD ∅))).keySet := hx
    rw [keySet_set] at hx
    rcases Finset.mem_insert.mp hx with rfl | hx
    · unfold Request.mmFeature at hf
      split at hf
      · rename_i f' hget
        cases hf
        exact .inr ⟨f, hget, rfl⟩
      · cases hf
    · exact .inl ⟨hx, id⟩

theorem Allocates.cached {ids : List Nat} (h : Allocates r ids m m') : ∀ x ∈ m'.cachedHashes,
    (x ∈ m.cachedHashes ∧ (x ∈ m'.freed → x ∈ m.freed)) ∨
      ∃ i ∈ ids, ∃ f, r.mmFeatures[i]? = some f ∧ f.identifier = x := by
  induction ids generalizing m with
  | nil =>
    cases h
    exact fun x hx => .inl ⟨hx, id⟩
  | cons i ids ih =>
    unfold Allocates at h
    rw [foldlM_cons] at h
    obtain ⟨m1, hone, hrest⟩ := bind_ok h
    intro x hx
    rcases ih hrest x hx with ⟨hx1, hfreed1⟩ | ⟨j, hj, f, hf⟩
    · rcases allocate_cached hone x hx1 with ⟨hx0, hfreed0⟩ | ⟨f, hf⟩
      · exact .inl ⟨hx0, fun hin => hfreed0 (hfreed1 hin)⟩
      · exact .inr ⟨i, mem_cons_self, f, hf⟩
    · exact .inr ⟨j, mem_cons_of_mem _ hj, f, hf⟩

/-- After `get_freed_mm_hashes` nothing that is cached is about to be reported. -/
theorem getFreedMmHashes_cached (x : String) (hx : x ∈ m.getFreedMmHashes.2.cachedHashes) :
    x ∈ m.cachedHashes ∧ x ∉ m.getFreedMmHashes.2.freed := by
  cases m with
  | encoderDecoder c => exact absurd hx (Finset.notMem_empty _)
  | multimodal c => exact ⟨hx, not_mem_nil⟩

theorem reset_cached (x : String) : x ∉ m.reset.cachedHashes := by
  cases m with
  | encoderDecoder c => exact Finset.notMem_empty _
  | multimodal c => exact Finset.notMem_empty _

end EncoderManager

/-! ## What the workers are told -/

namespace Scheduler

variable {X : World}

/-- The hashes of scheduled encoder inputs. -/
def inputHashes (s : Scheduler X) (scheduledEncoderInputs : Dict Nat (List Nat)) : List String :=
  scheduledEncoderInputs.entries.flatMap fun e =>
    match s.requests.get? e.1 with
    | none => []
    | some ref => e.2.filterMap fun i => (s.objs ref).mmFeatures[i]?.map (·.identifier)

theorem mem_inputHashes {s : Scheduler X} {scheduledEncoderInputs : Dict Nat (List Nat)}
    {h : String} : h ∈ s.inputHashes scheduledEncoderInputs ↔
      ∃ reqId ids ref, scheduledEncoderInputs.get? reqId = some ids ∧
        s.requests.get? reqId = some ref ∧
        ∃ i ∈ ids, ∃ f, (s.objs ref).mmFeatures[i]? = some f ∧ f.identifier = h := by
  unfold inputHashes
  rw [mem_flatMap]
  constructor
  · rintro ⟨⟨reqId, ids⟩, hentry, hin⟩
    split at hin
    · cases hin
    · rename_i ref hget
      obtain ⟨i, hi, hf⟩ := mem_filterMap.mp hin
      obtain ⟨f, hfeature, hid⟩ := Option.map_eq_some_iff.mp hf
      exact ⟨reqId, ids, ref, mem_entries_iff.mp hentry, hget, i, hi, f, hfeature, hid⟩
  · rintro ⟨reqId, ids, ref, hentry, hget, i, hi, f, hfeature, hid⟩
    refine ⟨(reqId, ids), mem_entries_iff.mpr hentry, ?_⟩
    rw [hget]
    exact mem_filterMap.mpr ⟨i, hi, Option.map_eq_some_iff.mpr ⟨f, hfeature, hid⟩⟩

theorem inputHashes_congr {s s' : Scheduler X} (hreq : s'.requests = s.requests)
    (hmm : ∀ r, (s'.objs r).mmFeatures = (s.objs r).mmFeatures)
    (scheduledEncoderInputs : Dict Nat (List Nat)) :
    s'.inputHashes scheduledEncoderInputs = s.inputHashes scheduledEncoderInputs := by
  unfold inputHashes
  simp only [hreq, hmm]

end Scheduler

/-- What a step tells the workers about encoder outputs: those to free, and then those to compute
or to load. -/
structure EncoderMessage where
  freed : List String
  sent : List String

/-- The message of an output; `s` has the requests that it names. -/
def SchedulerOutput.encoderMessage (out : SchedulerOutput) {X : World} (s : Scheduler X) :
    EncoderMessage where
  freed := out.freeEncoderMmHashes
  sent := s.inputHashes out.scheduledEncoderInputs ++ out.externalLoads

/-- The output was sent, and not freed since. -/
def Delivered (log : List EncoderMessage) (h : String) : Prop :=
  ∃ before message after, log = before ++ message :: after ∧ h ∈ message.sent ∧
    ∀ m ∈ after, h ∉ m.freed

theorem Delivered.append {log : List EncoderMessage} {h : String} {m : EncoderMessage}
    (hlog : Delivered log h) (hm : h ∉ m.freed) : Delivered (log ++ [m]) h := by
  obtain ⟨before, message, after, rfl, hsent, hafter⟩ := hlog
  refine ⟨before, message, after ++ [m], by rw [append_assoc]; rfl, hsent, ?_⟩
  intro m' hm'
  rcases mem_append.mp hm' with hm' | hm'
  · exact hafter m' hm'
  · rw [mem_singleton.mp hm']
    exact hm

theorem delivered_of_sent {log : List EncoderMessage} {h : String} {m : EncoderMessage}
    (hm : h ∈ m.sent) : Delivered (log ++ [m]) h := ⟨log, m, [], rfl, hm, fun _ h => (nomatch h)⟩

namespace Pass

variable {cfg : Config} {X : World} {p q : Pass X} {log : List EncoderMessage} {ref victim : Ref}
  {work : Work}

/-- The hashes that the step will send as it stands. -/
def sent (p : Pass X) : List String := p.s.inputHashes p.scheduledEncoderInputs ++ p.externalLoads

/-- What holds in the middle of a step: a cached hash is held by the workers, or the step sends it;
and encoder inputs are scheduled for scheduled requests only. -/
structure DeliveryInv (log : List EncoderMessage) (p : Pass X) : Prop where
  cached : ∀ h ∈ p.s.encoderCacheManager.cachedHashes,
    (Delivered log h ∧ h ∉ p.s.encoderCacheManager.freed) ∨ h ∈ p.sent
  inputs : ∀ reqId ids, p.scheduledEncoderInputs.get? reqId = some ids →
    ∃ r ∈ p.scheduled, (p.s.objs r).requestId = reqId

theorem DeliveryInv.of_addsNothing (h : DeliveryInv log p)
    (hm : p.s.encoderCacheManager.AddsNothing q.s.encoderCacheManager)
    (hsent : ∀ x ∈ p.sent, x ∈ q.sent)
    (hinputs : ∀ reqId ids, q.scheduledEncoderInputs.get? reqId = some ids →
      ∃ r ∈ q.scheduled, (q.s.objs r).requestId = reqId) : DeliveryInv log q := by
  refine ⟨fun x hx => ?_, hinputs⟩
  obtain ⟨hx', hfreed⟩ := hm x hx
  rcases h.cached x hx' with ⟨hlog, hnot⟩ | hin
  · exact .inl ⟨hlog, fun hin => hnot (hfreed hin)⟩
  · exact .inr (hsent x hin)

theorem SameWork.sent (h : SameWork p q) (hitems : SameItems p q) : q.sent = p.sent := by
  unfold Pass.sent
  rw [h.scheduledEncoderInputs, h.externalLoads,
    Scheduler.inputHashes_congr hitems.requests hitems.mmFeatures]

theorem DeliveryInv.congr (h : DeliveryInv log p) (hitems : SameItems p q) (hwork : SameWork p q)
    (hm : p.s.encoderCacheManager.AddsNothing q.s.encoderCacheManager) : DeliveryInv log q := by
  refine h.of_addsNothing hm (fun x hx => hwork.sent hitems ▸ hx) ?_
  intro reqId ids hget
  rw [hwork.scheduledEncoderInputs] at hget
  obtain ⟨r, hr, hid⟩ := h.inputs reqId ids hget
  exact ⟨r, hwork.scheduled ▸ hr, (hitems.requestId r).trans hid⟩

theorem DeliveryInv.preempt {r : Pass X} (h : DeliveryInv log p)
    (hkeep : p.scheduledEncoderInputs.get? (p.s.objs victim).requestId = none)
    (hitems : SameItems p r) (hpop : p.popVictim cfg = .ok (victim, q))
    (hpre : q.preemptVictim cfg victim = .ok r) : DeliveryInv log r := by
  have hmgr : p.s.encoderCacheManager.AddsNothing r.s.encoderCacheManager := by
    obtain ⟨running, -, hs, -, -⟩ := popVictim_running hpop
    obtain ⟨-, m, world, waiting, hfree, -, rfl⟩ := preemptVictim_effect hpre
    rw [hs] at hfree
    exact EncoderManager.free_addsNothing hfree
  -- the entries of the other requests stay
  have hrest : (∀ reqId, r.scheduledEncoderInputs.get? reqId = p.scheduledEncoderInputs.get? reqId) ∧
      r.externalLoads = p.externalLoads ∧ ∀ x ∈ p.scheduled, x ≠ victim → x ∈ r.scheduled := by
    obtain ⟨-, m, world, waiting, -, -, rfl⟩ := preemptVictim_effect hpre
    rcases popVictim_effect hpop with ⟨-, -, rfl⟩ | ⟨-, -, -, rfl⟩ | ⟨-, -, -, hun⟩
    · exact ⟨fun _ => rfl, rfl, fun _ hx _ => hx⟩
    · exact ⟨fun _ => rfl, rfl, fun _ hx _ => hx⟩
    · obtain ⟨n, k, -, -, rfl⟩ := unschedule_effect hun
      refine ⟨fun reqId => ?_, rfl, fun x hx hne => ?_⟩
      · show (p.scheduledEncoderInputs.erase (p.s.objs victim).requestId).get? reqId = _
        rw [get?_erase]
        split
        · rename_i heq
          rw [heq, hkeep]
        · rfl
      · show x ∈ p.scheduledNewReqs ++ p.scheduledResumedReqs ++ p.scheduledRunningReqs.erase victim
        rcases mem_append.mp hx with hx | hx
        · exact mem_append_left _ hx
        · exact mem_append_right _ ((mem_erase_of_ne hne).mpr hx)
  obtain ⟨hget, hloads, hsched⟩ := hrest
  refine h.of_addsNothing hmgr ?_ ?_
  · intro x hx
    rcases mem_append.mp hx with hx | hx
    · obtain ⟨reqId, ids, ref, hids, href, i, hi, f, hf⟩ := Scheduler.mem_inputHashes.mp hx
      refine mem_append_left _ (Scheduler.mem_inputHashes.mpr
        ⟨reqId, ids, ref, (hget reqId).trans hids, ?_, i, hi, f, ?_⟩)
      · rw [hitems.requests]
        exact href
      · rw [hitems.mmFeatures]
        exact hf
    · exact mem_append_right _ (hloads ▸ hx)
  · intro reqId ids hids
    rw [hget] at hids
    obtain ⟨x, hx, hid⟩ := h.inputs reqId ids hids
    refine ⟨x, hsched x hx ?_, (hitems.requestId x).trans hid⟩
    rintro rfl
    rw [hid, hids] at hkeep
    cases hkeep

theorem DeliveryInv.schedule (h : DeliveryInv log p) (hp : PlacesInv p) (hitems : SameItems p q)
    (hwork : SchedulesWork p ref work q) : DeliveryInv log q := by
  obtain ⟨r, -, hmm, halloc⟩ := hwork.allocates
  obtain ⟨fs, hfs, hloads⟩ := hwork.externalLoads
  have hknown := hp.partition.known ref hwork.queued
  -- the request had no entry
  have hnone : p.scheduledEncoderInputs.get? (p.s.objs ref).requestId = none := by
    cases hget : p.scheduledEncoderInputs.get? (p.s.objs ref).requestId with
    | none => rfl
    | some ids =>
      obtain ⟨x, hx, hid⟩ := h.inputs _ _ hget
      have hxq : x ∈ p.places.queued := mem_append_left _ (mem_append_left _ (hp.running x hx))
      exact absurd (hp.partition.reqId_inj hxq hwork.queued hid ▸ hx) hwork.new
  have hget : ∀ reqId ids, p.scheduledEncoderInputs.get? reqId = some ids →
      q.scheduledEncoderInputs.get? reqId = some ids := by
    intro reqId ids hids
    rw [hwork.scheduledEncoderInputs]
    split
    · exact hids
    · rw [get?_set_of_ne]
      · exact hids
      · rintro rfl
        rw [hids] at hnone
        cases hnone
  have hsent : ∀ x ∈ p.sent, x ∈ q.sent := by
    intro x hx
    rcases mem_append.mp hx with hx | hx
    · obtain ⟨reqId, ids, ref', hids, href, i, hi, f, hf⟩ := Scheduler.mem_inputHashes.mp hx
      refine mem_append_left _ (Scheduler.mem_inputHashes.mpr
        ⟨reqId, ids, ref', hget reqId ids hids, ?_, i, hi, f, ?_⟩)
      · rw [hitems.requests]
        exact href
      · rw [hitems.mmFeatures]
        exact hf
    · refine mem_append_right _ ?_
      rw [hloads]
      exact mem_append_left _ hx
  refine ⟨fun x hx => ?_, ?_⟩
  · rcases halloc.cached x hx with ⟨hx', hfreed⟩ | ⟨i, hi, f, hf, hid⟩
    · rcases h.cached x hx' with ⟨hlog, hnot⟩ | hin
      · exact .inl ⟨hlog, fun hin => hnot (hfreed hin)⟩
      · exact .inr (hsent x hin)
    · right
      rw [hmm] at hf
      rcases mem_append.mp hi with hi | hi
      · -- computed by the step
        refine mem_append_left _ (Scheduler.mem_inputHashes.mpr
          ⟨(p.s.objs ref).requestId, work.encoderInputsToSchedule, ref, ?_, ?_, i, hi, f, ?_, hid⟩)
        · rw [hwork.scheduledEncoderInputs, if_neg (ne_nil_of_mem hi), get?_set_self]
        · rw [hitems.requests]
          exact hknown
        · rw [hitems.mmFeatures]
          exact hf
      · -- loaded
        refine mem_append_right _ ?_
        rw [hloads]
        refine mem_append_right _ (mem_map.mpr ⟨f, ?_, hid⟩)
        have hin : some f ∈ fs.map some := by
          rw [← hfs, ← hf]
          exact mem_map_of_mem hi
        obtain ⟨f', hf', heq⟩ := mem_map.mp hin
        cases heq
        exact hf'
  · intro reqId ids hids
    rw [hwork.scheduledEncoderInputs] at hids
    have hold : p.scheduledEncoderInputs.get? reqId = some ids →
        ∃ r ∈ q.scheduled, (q.s.objs r).requestId = reqId := by
      intro hids
      obtain ⟨x, hx, hid⟩ := h.inputs reqId ids hids
      exact ⟨x, hwork.scheduled.mem_iff.mpr (mem_cons_of_mem _ hx), (hitems.requestId x).trans hid⟩
    split at hids
    · exact hold hids
    · rw [get?_set] at hids
      split at hids
      · rename_i heq
        exact ⟨ref, hwork.scheduled.mem_iff.mpr mem_cons_self, by rw [hitems.requestId, heq]⟩
      · exact hold hids

/-- The victim of a preemption has no encoder inputs in the step. -/
def KeepsInputs (cfg : Config) (a : Pass X × Phase X) : Prop :=
  ∀ p ref work victim q, a = (p, .runningFull ref work) → p.popVictim cfg = .ok (victim, q) →
    p.scheduledEncoderInputs.get? (p.s.objs victim).requestId = none

theorem Step.deliveryInv {a b : Pass X × Phase X} (h : Step cfg a b) (hp : PlacesInv a.1)
    (hphase : PhaseInv cfg a.1 a.2) (hkeep : KeepsInputs cfg a) (ha : DeliveryInv log a.1) :
    DeliveryInv log b.1 := by
  obtain ⟨hitems, hstep⟩ := h.encoder hp hphase
  cases hstep with
  | ask _ hwork hasks => exact ha.congr hitems hwork hasks.addsNothing
  | untouch hwork _ hfree =>
    exact ha.congr hitems hwork (EncoderManager.free_addsNothing hfree)
  | preempt hpop hpre => exact ha.preempt (hkeep _ _ _ _ _ rfl hpop) hitems hpop hpre
  | scheduleRunning hwork _ => exact ha.schedule hp hitems hwork
  | admitted _ hwork _ => exact ha.schedule hp hitems hwork

/-- When no preemption takes encoder inputs back, every step of `schedule` keeps the invariant. -/
theorem Steps.deliveryInv {a b : Pass X × Phase X} (h : Steps cfg a b)
    (ha : PlacesInv a.1 ∧ PhaseInv cfg a.1 a.2)
    (hkeep : ∀ c, Steps cfg a c → DeliveryInv log c.1 → KeepsInputs cfg c)
    (hinv : DeliveryInv log a.1) : DeliveryInv log b.1 := by
  induction h with
  | refl => exact hinv
  | tail hsteps hstep ih =>
    obtain ⟨hp, hphase⟩ := Steps.placesInv hsteps ha
    exact hstep.deliveryInv hp hphase (hkeep _ hsteps ih) ih

end Pass

namespace Scheduler

variable {cfg : Config} {X : World} {s s' : Scheduler X} {log : List EncoderMessage}
  {out : SchedulerOutput} {ref : Ref}

/-- What holds between two calls. -/
structure DeliveryInv (log : List EncoderMessage) (s : Scheduler X) : Prop where
  cached : ∀ h ∈ s.encoderCacheManager.cachedHashes, Delivered log h
  freed : ∀ h ∈ s.encoderCacheManager.cachedHashes, h ∉ s.encoderCacheManager.freed

theorem DeliveryInv.of_addsNothing (h : DeliveryInv log s)
    (hm : s.encoderCacheManager.AddsNothing s'.encoderCacheManager) : DeliveryInv log s' :=
  ⟨fun x hx => h.cached x (hm x hx).1, fun x hx hin => h.freed x (hm x hx).1 ((hm x hx).2 hin)⟩

theorem freeEncoderInputs_addsNothing (h : s.freeEncoderInputs cfg ref = .ok s') :
    s.encoderCacheManager.AddsNothing s'.encoderCacheManager := by
  refine foldlM_keeps (P := fun t : Scheduler X =>
    s.encoderCacheManager.AddsNothing t.encoderCacheManager) ?_ (.refl _) h
  intro t i _ t' ht hstep
  obtain ⟨f, -, h1⟩ := bind_ok hstep
  split at h1
  · obtain ⟨m, hfree, h2⟩ := bind_ok h1
    cases h2
    exact ht.trans (EncoderManager.freeEncoderInput_addsNothing hfree)
  · cases h1
    exact ht

/-- The same requests with the same items, and nothing new is cached. -/
structure SameDelivered (s t : Scheduler X) : Prop where
  requests : t.requests = s.requests
  mmFeatures : ∀ r, (t.objs r).mmFeatures = (s.objs r).mmFeatures
  manager : s.encoderCacheManager.AddsNothing t.encoderCacheManager

theorem updateAfterSchedule_delivery (h : s.updateAfterSchedule cfg out = .ok s') :
    SameDelivered s s' := by
  obtain ⟨s1, hadvance, h1⟩ := bind_ok h
  have hs1 : SameDelivered s s1 := by
    refine foldlM_keeps (P := SameDelivered s) ?_ ⟨rfl, fun _ => rfl, .refl _⟩ hadvance
    rintro t e - t' ⟨hreq, hmm, hm⟩ hstep
    obtain ⟨ref, -, h2⟩ := bind_ok hstep
    have hmod : ∀ r, ((t.modify ref (advance e.2)).objs r).mmFeatures = (s.objs r).mmFeatures :=
      fun r => (mmFeatures_modify (f := advance e.2) rfl r).trans (hmm r)
    dsimp only at h2
    split at h2
    · have hfree := freeEncoderInputs_addsNothing h2
      obtain ⟨m, rfl⟩ := freeEncoderInputs_effect h2
      exact ⟨hreq, hmod, hm.trans hfree⟩
    · cases h2
      exact ⟨hreq, hmod, hm⟩
  have hs2 : SameDelivered s { s1 with finishedReqIds := ∅ } :=
    ⟨hs1.requests, hs1.mmFeatures, hs1.manager⟩
  split at h1
  · refine foldlM_keeps (P := SameDelivered s) ?_ hs2 h1
    rintro t e - t' ⟨hreq, hmm, hm⟩ hstep
    obtain ⟨ref, -, rfl⟩ := placeholdersRequest_effect hstep
    refine ⟨hreq, fun r => ?_, hm⟩
    rw [← hmm r]
    refine mmFeatures_modify ?_ r
    unfold addPlaceholders
    split
    · rfl
    · rfl
  · cases h1
    exact hs2

/-- A call of `schedule` that takes no encoder inputs back: what it leaves cached was delivered
before, or its output delivers it. -/
theorem schedule_delivery (hp : s.places.Partition [])
    (hkeep : ∀ c, Pass.Steps cfg (s.startPass cfg, .runningIdle) c → Pass.DeliveryInv log c.1 →
      Pass.KeepsInputs cfg c) (hinv : DeliveryInv log s) (h : s.schedule cfg = .ok (out, s')) :
    DeliveryInv (log ++ [out.encoderMessage s']) s' := by
  obtain ⟨p, hrun, -, -, rfl, hafter⟩ := schedule_eq_ok h
  have hstart : Pass.DeliveryInv log (s.startPass cfg) :=
    ⟨fun x hx => .inl ⟨hinv.cached x hx, hinv.freed x hx⟩, fun _ _ hget => (nomatch hget)⟩
  have hend := (runPass_steps hrun).deliveryInv (startPass_inv cfg hp) hkeep hstart
  obtain ⟨hreq, hmm, hm⟩ := updateAfterSchedule_delivery hafter
  have hdone : DeliveryInv (log ++ [p.output.1.encoderMessage s']) p.output.2 := by
    refine ⟨fun x hx => ?_, fun x hx => (EncoderManager.getFreedMmHashes_cached x hx).2⟩
    rcases hend.cached x (EncoderManager.getFreedMmHashes_cached x hx).1 with ⟨hlog, hnot⟩ | hin
    · exact hlog.append hnot
    · refine delivered_of_sent ?_
      show x ∈ s'.inputHashes p.scheduledEncoderInputs ++ p.externalLoads
      rw [inputHashes_congr (s := p.s) hreq hmm]
      exact hin
  exact hdone.of_addsNothing hm

end Scheduler

/-! ## Runs -/

/-- The scheduler, and what it told the workers so far. -/
structure Delivery (X : World) where
  s : Scheduler X
  log : List EncoderMessage := []

/-- The log after a call that led to `s`. A reset of the encoder cache clears the caches of the
workers, too. -/
def Event.log {X : World} (s : Scheduler X) (log : List EncoderMessage) :
    Event → List EncoderMessage
  | .schedule out => log ++ [out.encoderMessage s]
  | .resetEncoderCache => []
  | _ => log

/-- The runs of a scheduler with an `EncoderCacheManager` whose calls are all `allowed`. -/
def deliveryRuns (cfg : Config) {X : World} (cacheSize : Nat) (world : X.State)
    (allowed : Scheduler X → Event → Prop) : TSys (Delivery X) where
  init d := d = { s := .initial (.multimodal (.init cacheSize)) world }
  step d d' := ∃ e, allowed d.s e ∧ d.s.Does cfg e d'.s ∧ d'.log = e.log d'.s d.log

/-- The call takes no encoder inputs out of the step that it builds. -/
def Event.KeepsInputs (cfg : Config) {X : World} (s : Scheduler X) : Event → Prop
  | .schedule _ => ∀ c, Pass.Steps cfg (s.startPass cfg, .runningIdle) c → Pass.KeepsInputs cfg c
  | _ => True

theorem does_delivery {cfg : Config} {X : World} {s s' : Scheduler X} {e : Event}
    {log : List EncoderMessage} (hp : s.places.Partition []) (hok : e.StopsInPlace cfg s)
    (hkeep : ∀ out c, e = .schedule out → Pass.Steps cfg (s.startPass cfg, .runningIdle) c →
      Pass.DeliveryInv log c.1 → Pass.KeepsInputs cfg c)
    (hinv : s.DeliveryInv log) (h : s.Does cfg e s') : s'.DeliveryInv (e.log s' log) := by
  by_cases hschedule : ∃ out, e = .schedule out
  · obtain ⟨out, rfl⟩ := hschedule
    exact Scheduler.schedule_delivery hp (hkeep out · rfl) hinv h
  · by_cases hreset : e = .resetEncoderCache
    · subst hreset
      obtain rfl : s' = s.resetEncoderCache := h
      exact ⟨fun x hx => absurd hx (EncoderManager.reset_cached x),
        fun x hx => absurd hx (EncoderManager.reset_cached x)⟩
    · have hfrees := does_frees hp hok (fun out heq => hschedule ⟨out, heq⟩) hreset h
      have hlog : e.log s' log = log := by
        cases e with
        | schedule out => exact absurd ⟨out, rfl⟩ hschedule
        | resetEncoderCache => exact absurd rfl hreset
        | _ => rfl
      rw [hlog]
      exact hinv.of_addsNothing hfrees.addsNothing

theorem initial_delivery {X : World} (cacheSize : Nat) (w : X.State) :
    (Scheduler.initial (X := X) (.multimodal (.init cacheSize)) w).DeliveryInv [] :=
  ⟨fun x hx => absurd hx (Finset.notMem_empty x), fun x hx => absurd hx (Finset.notMem_empty x)⟩

/-- In every run in which stops are in place and no call takes encoder inputs back, the workers hold
what the manager reports as cached. -/
theorem cached_delivered (cfg : Config) (X : World) (cacheSize : Nat) (w : X.State) :
    (deliveryRuns cfg cacheSize w fun s e => e.StopsInPlace cfg s ∧ e.KeepsInputs cfg s).Invariant
      fun d => ∀ h ∈ d.s.encoderCacheManager.cachedHashes, Delivered d.log h := by
  have hind : TSys.Inductive (deliveryRuns cfg cacheSize w fun s e =>
      e.StopsInPlace cfg s ∧ e.KeepsInputs cfg s) fun d =>
        d.s.places.Partition [] ∧ d.s.DeliveryInv d.log := by
    constructor
    · rintro d rfl
      exact ⟨initial_places _ w, initial_delivery cacheSize w⟩
    · rintro d d' ⟨hp, hinv⟩ ⟨e, ⟨hok, hkeep⟩, hdoes, hlog⟩
      refine ⟨does_places hp hok hdoes, ?_⟩
      rw [hlog]
      refine does_delivery hp hok ?_ hinv hdoes
      rintro out c rfl hc -
      exact hkeep c hc
  exact fun d hd => (hind.invariant d hd).2.cached

/-! ## A hash that was never sent -/

def priorityConfig : Config where
  policy := .priority
  maxNumRunningReqs := 4
  maxNumScheduledTokens := 100
  maxNumEncoderInputTokens := 100
  maxModelLen := 100
  longPrefillTokenThreshold := 1

/-- A request with an image at its third token. -/
def imageRequest : Request where
  requestId := 1
  priority := 5
  samplingParams := some { maxTokens := 10 }
  promptTokenIds := some [1, 2, 3, 4]
  mmFeatures := [{ identifier := "image", mmPosition := { offset := 2, length := 1 } }]

/-- A request that is more urgent. -/
def urgentRequest : Request where
  requestId := 2
  samplingParams := some { maxTokens := 10 }
  promptTokenIds := some [5, 6, 7]

/-- The output of a step that samples nothing. -/
def prefillOutput (reqIds : List Nat) : ModelRunnerOutput where
  reqIdToIndex := (reqIds.zipIdx).foldl (fun d e => d.set e.1 e.2) .empty
  sampledTokenIds := reqIds.map fun _ => []

/-- The prompts are computed token by token. In the third step the image is scheduled, and then its
request makes room for the urgent one. -/
def withdrawnImage : Except PyError (List SchedulerOutput × Scheduler (smallWorld 4)) := do
  let s : Scheduler (smallWorld 4) := .initial (.multimodal (.init 10)) .empty
  let image ← Request.init none imageRequest
  let urgent ← Request.init none urgentRequest
  let s ← s.addRequest priorityConfig image
  let (out₁, s) ← s.schedule priorityConfig
  let (_, s) ← s.updateFromOutput priorityConfig out₁ (prefillOutput [1])
  let s ← s.addRequest priorityConfig urgent
  let (out₂, s) ← s.schedule priorityConfig
  let (_, s) ← s.updateFromOutput priorityConfig out₂ (prefillOutput [1, 2])
  let (out₃, s) ← s.schedule priorityConfig
  .ok ([out₁, out₂, out₃], s)

theorem withdrawnImage_eq : withdrawnImage.map (fun x =>
    (x.1.map fun out => (out.scheduledEncoderInputs.entries, out.externalLoads),
      decide ("image" ∈ x.2.encoderCacheManager.cachedHashes))) =
    .ok ([([], []), ([], []), ([], [])], true) := by
  rfl

/-- Without the condition a hash is cached that no step sent. -/
theorem image_not_delivered : ∃ d : Delivery (smallWorld 4),
    (deliveryRuns priorityConfig 10 (Dict.empty : Dict Nat Nat) fun _ _ => True).Reachable d ∧
      "image" ∈ d.s.encoderCacheManager.cachedHashes ∧ ¬ Delivered d.log "image" := by
  obtain ⟨⟨outs, s⟩, hrun, heq⟩ := map_eq_ok.mp withdrawnImage_eq
  obtain ⟨hsent, hcached⟩ := Prod.mk.inj heq
  obtain ⟨image, himage, h1⟩ := bind_ok hrun
  obtain ⟨urgent, hurgent, h2⟩ := bind_ok h1
  obtain ⟨s1, hadd1, h3⟩ := bind_ok h2
  obtain ⟨⟨out1, s2⟩, hsched1, h4⟩ := bind_ok h3
  obtain ⟨⟨o1, s3⟩, hupd1, h5⟩ := bind_ok h4
  obtain ⟨s4, hadd2, h6⟩ := bind_ok h5
  obtain ⟨⟨out2, s5⟩, hsched2, h7⟩ := bind_ok h6
  obtain ⟨⟨o2, s6⟩, hupd2, h8⟩ := bind_ok h7
  obtain ⟨⟨out3, s7⟩, hsched3, h9⟩ := bind_ok h8
  cases h9
  refine ⟨⟨s, [out1.encoderMessage s2, out2.encoderMessage s5, out3.encoderMessage s]⟩, ?_,
    of_decide_eq_true hcached, ?_⟩
  · refine .step (s := ⟨s6, [out1.encoderMessage s2, out2.encoderMessage s5]⟩)
      (.step (s := ⟨s5, [out1.encoderMessage s2, out2.encoderMessage s5]⟩)
      (.step (s := ⟨s4, [out1.encoderMessage s2]⟩) (.step (s := ⟨s3, [out1.encoderMessage s2]⟩)
      (.step (s := ⟨s2, [out1.encoderMessage s2]⟩) (.step (s := ⟨s1, []⟩)
      (.step (.init rfl) ?_) ?_) ?_) ?_) ?_) ?_) ?_
    · exact ⟨.addRequest imageRequest, trivial, ⟨image, himage, hadd1⟩, rfl⟩
    · exact ⟨.schedule out1, trivial, hsched1, rfl⟩
    · exact ⟨.updateFromOutput out1 _, trivial, ⟨o1, hupd1⟩, rfl⟩
    · exact ⟨.addRequest urgentRequest, trivial, ⟨urgent, hurgent, hadd2⟩, rfl⟩
    · exact ⟨.schedule out2, trivial, hsched2, rfl⟩
    · exact ⟨.updateFromOutput out2 _, trivial, ⟨o2, hupd2⟩, rfl⟩
    · exact ⟨.schedule out3, trivial, hsched3, rfl⟩
  · -- no step sent anything
    have hnone : ∀ (out : SchedulerOutput) (t : Scheduler (smallWorld 4)),
        (out.scheduledEncoderInputs.entries, out.externalLoads) = ([], []) →
        (out.encoderMessage t).sent = [] := by
      intro out t hout
      obtain ⟨hinputs, hloads⟩ := Prod.mk.inj hout
      show t.inputHashes out.scheduledEncoderInputs ++ out.externalLoads = []
      unfold Scheduler.inputHashes
      rw [hinputs, hloads]
      rfl
    simp only [map_cons, map_nil, List.cons.injEq, and_true] at hsent
    obtain ⟨hout1, hout2, hout3⟩ := hsent
    rintro ⟨before, message, after, hlog, hin, -⟩
    have hmem : message ∈ [out1.encoderMessage s2, out2.encoderMessage s5,
        out3.encoderMessage s] := by
      have hlog : [out1.encoderMessage s2, out2.encoderMessage s5, out3.encoderMessage s] =
          before ++ message :: after := hlog
      rw [hlog]
      exact mem_append_right _ mem_cons_self
    have hnil : message.sent = [] := by
      simp only [mem_cons, not_mem_nil, or_false] at hmem
      rcases hmem with rfl | rfl | rfl
      · exact hnone _ _ hout1
      · exact hnone _ _ hout2
      · exact hnone _ _ hout3
    rw [hnil] at hin
    cases hin

end MyOperator.Sched
