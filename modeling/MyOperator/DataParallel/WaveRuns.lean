import MyOperator.DataParallel.Wave

/-!
# Runs of the wave protocol

In every state the engines agree on the number of waves that have ended (`Inv.wave`), and nobody is
told of a later one. Once an engine has work in the current wave somebody is about to tell the
coordinator of it, or it knows (`Waking`); and once the coordinator runs the wave every engine is
awake or about to be woken (`Inv.started`). So no engine is left waiting in the all-reduce
(`waves_settle`).
-/

namespace MyOperator.DataParallel

open Lib List Function

/-! ## Engines -/

namespace Engine

/-- The number of waves that have ended for the engine. -/
def wave (e : Engine) : Nat :=
  match e.phase with
  | .returned false => e.currentWave + 1
  | _ => e.currentWave

/-- The engine takes part in the wave. -/
def Awake (e : Engine) : Prop :=
  match e.phase with
  | .loop => e.enginesRunning = true
  | .blocked _ => True
  | .returned unfinished => unfinished = true

/-- The engine waits on its input queue. -/
def Idle (e : Engine) : Prop := e.phase = .loop ∧ e.enginesRunning = false ∧ e.requests = []

/-- The engine waits in the all-reduce. -/
def Blocked (e : Engine) : Prop := ∃ localUnfinished, e.phase = .blocked localUnfinished

/-- The engine is in the wave, or will be with its next pass. -/
def HasWork (e : Engine) : Prop := e.Awake ∨ (e.phase = .loop ∧ e.requests ≠ [])

/-- What an engine in the all-reduce has passed to it, and what the all-reduce has told it. -/
structure Consistent (e : Engine) : Prop where
  joined : ∀ localUnfinished, e.phase = .blocked localUnfinished →
    (localUnfinished = true ↔ e.requests ≠ [])
  left : e.phase = .returned false → e.requests = []

variable {e : Engine}

theorem wave_loop (h : e.phase = .loop) : e.wave = e.currentWave := by
  unfold wave
  rw [h]

theorem wave_of_loop {w : Nat} (h : e.phase = .loop) (hw : e.currentWave = w) : e.wave = w :=
  (wave_loop h).trans hw

theorem awake_loop (h : e.phase = .loop) : e.Awake ↔ e.enginesRunning = true := by
  unfold Awake
  rw [h]

theorem awake_of_running (h : e.phase = .loop) (hrunning : e.enginesRunning = true) : e.Awake :=
  (awake_loop h).mpr hrunning

theorem consistent_loop (h : e.phase = .loop) : e.Consistent :=
  ⟨fun _ hblocked => (nomatch h.symm.trans hblocked), fun hleft => (nomatch h.symm.trans hleft)⟩

theorem not_returned (h : e.phase = .loop) : e.phase ≠ .returned false :=
  fun hreturned => nomatch h.symm.trans hreturned

theorem processEngineStep_cases (executed : Bool) (finished : List Nat) (h : e.phase = .loop) :
    ((e.processEngineStep executed finished).phase = .loop ∧
      (e.processEngineStep executed finished).enginesRunning = e.enginesRunning ∧
      (e.processEngineStep executed finished).requests = [] ∧
      (e.processEngineStep executed finished).currentWave = e.currentWave) ∨
    ((executed = true ∨ e.requests ≠ [] ∨ e.enginesRunning = true) ∧
      (e.processEngineStep executed finished).Awake ∧
      (e.processEngineStep executed finished).Consistent ∧
      (e.processEngineStep executed finished).wave = e.currentWave ∧
      (e.processEngineStep executed finished).currentWave = e.currentWave) := by
  unfold processEngineStep
  dsimp only
  split
  · rename_i hidle
    obtain ⟨-, hnone, -⟩ := hidle
    refine .inl ⟨h, rfl, ?_, rfl⟩
    rw [decide_eq_true_eq, not_not] at hnone
    exact hnone
  · rename_i hwork
    refine .inr ⟨?_, ?_⟩
    · by_contra hnot
      push Not at hnot
      obtain ⟨hexecuted, hrequests, hrunning⟩ := hnot
      refine hwork ⟨hexecuted, ?_, hrunning⟩
      rw [decide_eq_true_eq, not_not]
      show e.requests.filter _ = []
      rw [hrequests]
      rfl
    · unfold hasGlobalUnfinishedReqs
      split
      · refine ⟨?_, consistent_loop h, ?_, rfl⟩
        · exact awake_of_running h rfl
        · exact wave_loop h
      · refine ⟨trivial, ⟨fun localUnfinished hblocked => ?_, nofun⟩, rfl, rfl⟩
        cases hblocked
        exact decide_eq_true_iff

theorem addRequest_cases (requestId : Nat) {requestWave : Nat} (hphase : e.phase = .loop)
    (hle : requestWave ≤ e.currentWave) :
    (e.addRequest requestId requestWave).1.phase = .loop ∧
    (e.addRequest requestId requestWave).1.currentWave = e.currentWave ∧
    (e.Awake → (e.addRequest requestId requestWave).1.Awake) ∧
    ((e.addRequest requestId requestWave).2 = none ∧
        (requestWave = e.currentWave ∨ e.Awake) ∨
      (e.addRequest requestId requestWave).2 = some (.startWave e.currentWave) ∧
        (e.addRequest requestId requestWave).1.Awake) := by
  unfold addRequest
  split
  · rename_i heq
    refine ⟨hphase, rfl, fun h => ?_, .inl ⟨rfl, .inl heq⟩⟩
    exact (awake_loop hphase).mpr ((awake_loop hphase).mp h)
  · rw [if_neg (not_lt.mpr hle)]
    split
    · exact ⟨hphase, rfl, fun _ => awake_of_running hphase rfl, .inr ⟨rfl, awake_of_running hphase rfl⟩⟩
    · rename_i hrunning
      refine ⟨hphase, rfl, fun h => ?_, .inl ⟨rfl, .inr ?_⟩⟩
      · exact (awake_loop hphase).mpr ((awake_loop hphase).mp h)
      · exact (awake_loop hphase).mpr (not_not.mp hrunning)

end Engine

/-! ## The invariant -/

namespace State

variable {n m : Nat}

/-- Somebody has not joined the all-reduce. -/
def Free (s : State n m) : Prop := ∃ e, ¬ (s.engine e).Blocked

/-- A front-end is about to tell the coordinator of a request. -/
def Pending (s : State n m) : Prop := ∃ c, s.firstReq c ≠ [] ∨ s.wake c ≠ []

/-- The coordinator knows that the wave runs, or a front-end is about to tell it. -/
def Announced (W : Nat) (s : State n m) : Prop :=
  s.coordinator.currentWave = W ∧ (s.coordinator.enginesRunning = true ∨ s.Pending)

/-- The wave is announced, or an engine is about to announce it. -/
def Waking (W : Nat) (s : State n m) : Prop := s.Announced W ∨ ∃ e, Notice.startWave W ∈ s.notices e

/-- What holds in every state after `W` waves. -/
structure Inv (W : Nat) (s : State n m) : Prop where
  wave : ∀ e, (s.engine e).wave = W
  consistent : ∀ e, (s.engine e).Consistent
  coordinatorLe : s.coordinator.currentWave ≤ W
  clientLe : ∀ c, (s.client c).currentWave ≤ s.coordinator.currentWave
  publishLe : ∀ c, ∀ x ∈ s.publish c, x.1 ≤ s.coordinator.currentWave
  addLe : ∀ c e requestId requestWave, EngineRequest.add requestId requestWave ∈ s.input c e →
    requestWave ≤ s.coordinator.currentWave
  completeLt : ∀ e w, Notice.waveComplete w ∈ s.notices e → w < W
  noticeLe : ∀ e w, Notice.startWave w ∈ s.notices e → w ≤ W
  startLe : ∀ e, ∀ x ∈ s.startWave e, x.newWave ≤ s.coordinator.currentWave
  /-- An engine that announces the wave is in it. -/
  noticeAwake : ∀ e, Notice.startWave W ∈ s.notices e → (s.engine e).Awake
  startRunning : ∀ e, ∀ x ∈ s.startWave e, x.newWave = W → s.coordinator.enginesRunning = true
  publishRunning : ∀ c, (W, true) ∈ s.publish c → s.coordinator.enginesRunning = true
  /-- The coordinator will learn that the last wave is over. -/
  behind : s.coordinator.currentWave < W → (s.engine 0).phase = .returned false ∨
    ∃ w, w + 1 = W ∧ Notice.waveComplete w ∈ s.notices 0
  addAnnounced : ∀ c e requestId, EngineRequest.add requestId W ∈ s.input c e → s.Announced W
  clientAnnounced : ∀ c, (s.client c).currentWave = W → (s.client c).enginesRunning = true →
    s.Announced W
  work : ∀ e, (s.engine e).HasWork → s.Waking W
  /-- When the coordinator runs the wave every engine is in it, or about to be woken. -/
  started : s.coordinator = ⟨W, true⟩ → ∀ e : Fin (n + 1), (s.engine e).Awake ∨
    ∃ x ∈ s.startWave e, x.newWave = W ∧ x.excludeEngIndex ≠ .index e

variable {s : State n m} {W : Nat}

variable {e : Fin (n + 1)} {c : Fin m} {w : Nat} {s' : State n m} {rest : List Notice} {x : Engine}

theorem Inv.startLeWave (h : s.Inv W) {x : StartDpWave} (hx : x ∈ s.startWave e) :
    x.newWave ≤ W := (h.startLe e x hx).trans h.coordinatorLe

theorem Inv.addLeWave (h : s.Inv W) {requestId requestWave : Nat}
    (hadd : EngineRequest.add requestId requestWave ∈ s.input c e) : requestWave ≤ W :=
  (h.addLe c e requestId requestWave hadd).trans h.coordinatorLe

theorem Inv.currentWave (h : s.Inv W) (hphase : (s.engine e).phase = .loop) :
    (s.engine e).currentWave = W := (Engine.wave_loop hphase).symm.trans (h.wave e)

theorem Inv.coordinatorWave (h : s.Inv W) (hle : w ≤ s.coordinator.currentWave) (heq : w = W) :
    s.coordinator.currentWave = W := le_antisymm h.coordinatorLe (heq ▸ hle)

theorem Announced.mono (h : s.Announced W) (hcoordinator : s'.coordinator = s.coordinator)
    (hpending : s.Pending → s'.Pending) : s'.Announced W := by
  obtain ⟨hwave, hor⟩ := h
  refine ⟨hcoordinator ▸ hwave, ?_⟩
  rw [hcoordinator]
  exact hor.imp id hpending

theorem Waking.mono (h : s.Waking W) (hannounced : s.Announced W → s'.Announced W)
    (hnotices : ∀ e, Notice.startWave W ∈ s.notices e → Notice.startWave W ∈ s'.notices e) :
    s'.Waking W := h.imp hannounced fun ⟨e, he⟩ => ⟨e, hnotices e he⟩

theorem init_inv : ({} : State n m).Inv 0 where
  wave _ := rfl
  consistent _ := Engine.consistent_loop rfl
  coordinatorLe := le_refl 0
  clientLe _ := le_refl 0
  publishLe _ _ hx := nomatch hx
  addLe _ _ _ _ hx := nomatch hx
  completeLt _ _ hx := nomatch hx
  noticeLe _ _ hx := nomatch hx
  startLe _ _ hx := nomatch hx
  noticeAwake _ hx := nomatch hx
  startRunning _ _ hx := nomatch hx
  publishRunning _ hx := nomatch hx
  behind h := absurd h (lt_irrefl 0)
  addAnnounced _ _ _ hx := nomatch hx
  clientAnnounced _ _ hrunning := nomatch hrunning
  work _ hwork := nomatch hwork
  started h := nomatch h

/-! ## Connections -/

section Connections

variable {ι κ α : Type} [DecidableEq ι] [DecidableEq κ] {f : ι → List α} {i j : ι} {l : List α} {x y : α}

theorem mem_update_append (h : x ∈ update f i (f i ++ l) j) : x ∈ f j ∨ (j = i ∧ x ∈ l) := by
  by_cases hji : j = i
  · rw [hji, update_self] at h
    rw [hji]
    exact (mem_append.mp h).imp id fun hx => ⟨rfl, hx⟩
  · rw [update_of_ne hji] at h
    exact .inl h

theorem mem_update_of_mem (h : x ∈ f j) : x ∈ update f i (f i ++ l) j := by
  by_cases hji : j = i
  · rw [hji, update_self]
    rw [hji] at h
    exact mem_append_left _ h
  · rw [update_of_ne hji]
    exact h

theorem mem_update_tail (hf : f i = y :: l) (h : x ∈ update f i l j) : x ∈ f j := by
  by_cases hji : j = i
  · rw [hji, update_self] at h
    rw [hji, hf]
    exact mem_cons_of_mem _ h
  · rw [update_of_ne hji] at h
    exact h

theorem mem_tail_of_ne (hf : f i = y :: l) (h : x ∈ f j) (hne : j = i → x ≠ y) :
    x ∈ update f i l j := by
  by_cases hji : j = i
  · rw [hji, update_self]
    rw [hji, hf] at h
    exact (mem_cons.mp h).resolve_left (hne hji)
  · rw [update_of_ne hji]
    exact h

theorem mem_update_update {g : ι → κ → List α} {k k' : κ}
    (h : x ∈ update g i (update (g i) k l) j k') : x ∈ g j k' ∨ (j = i ∧ k' = k ∧ x ∈ l) := by
  by_cases hji : j = i
  · rw [hji, update_self] at h
    by_cases hk : k' = k
    · rw [hk, update_self] at h
      exact .inr ⟨hji, hk, h⟩
    · rw [update_of_ne hk] at h
      exact .inl (hji ▸ h)
  · rw [update_of_ne hji] at h
    exact .inl h

end Connections

/-! ## Front-ends -/

theorem addRequestAsync_inv (h : s.Inv W) (c : Fin m) (e : Fin (n + 1)) (requestId : Nat) :
    (s.addRequestAsync c e requestId).Inv W := by
  have hpending : s.Pending → (s.addRequestAsync c e requestId).Pending := by
    rintro ⟨c', hfirst | hwake⟩
    · refine ⟨c', .inl ?_⟩
      obtain ⟨x, hx⟩ := exists_mem_of_ne_nil _ hfirst
      exact ne_nil_of_mem (mem_update_of_mem hx)
    · exact ⟨c', .inr hwake⟩
  have hannounced : s.Announced W → (s.addRequestAsync c e requestId).Announced W := fun ha =>
    ha.mono rfl hpending
  have hadd : ∀ c' e' r, r ∈ (s.addRequestAsync c e requestId).input c' e' →
      r ∈ s.input c' e' ∨ (c' = c ∧ r = .add requestId (s.client c).currentWave) := by
    intro c' e' r hr
    rcases mem_update_update hr with hold | ⟨hc, he, hnew⟩
    · exact .inl hold
    · rcases mem_append.mp hnew with hold | hnew
      · exact .inl (hc ▸ he ▸ hold)
      · exact .inr ⟨hc, mem_singleton.mp hnew⟩
  exact { h with
    addLe := fun c' e' id w hw => by
      rcases hadd c' e' _ hw with hold | ⟨-, heq⟩
      · exact h.addLe c' e' id w hold
      · cases heq
        exact h.clientLe c
    addAnnounced := fun c' e' id hw => by
      rcases hadd c' e' _ hw with hold | ⟨-, heq⟩
      · exact hannounced (h.addAnnounced c' e' id hold)
      · have hwave : W = (s.client c).currentWave := (EngineRequest.add.inj heq).2
        cases hrunning : (s.client c).enginesRunning with
        | true => exact hannounced (h.clientAnnounced c hwave.symm hrunning)
        | false =>
          -- FIRST_REQ is sent with the request
          refine ⟨h.coordinatorWave (h.clientLe c) hwave.symm, .inr ⟨c, .inl ?_⟩⟩
          show update s.firstReq c _ c ≠ []
          rw [update_self, hrunning]
          exact append_ne_nil_of_right_ne_nil _ (cons_ne_nil _ _)
    clientAnnounced := fun c' hwave hrunning => hannounced (h.clientAnnounced c' hwave hrunning)
    work := fun e' hwork => (h.work e' hwork).mono hannounced fun _ hnotice => hnotice }

theorem abortRequestsAsync_inv (h : s.Inv W) (c : Fin m) (e : Fin (n + 1)) (requestIds : List Nat) :
    (s.abortRequestsAsync c e requestIds).Inv W := by
  have hadd : ∀ c' e' id w, .add id w ∈ (s.abortRequestsAsync c e requestIds).input c' e' →
      .add id w ∈ s.input c' e' := by
    intro c' e' id w hw
    rcases mem_update_update hw with hold | ⟨hc, he, hnew⟩
    · exact hold
    · rcases mem_append.mp hnew with hold | hnew
      · exact hc ▸ he ▸ hold
      · exact nomatch mem_singleton.mp hnew
  exact { h with
    addLe := fun c' e' id w hw => h.addLe c' e' id w (hadd c' e' id w hw)
    addAnnounced := fun c' e' id hw => h.addAnnounced c' e' id (hadd c' e' id W hw) }

theorem firstReqReceived_inv (h : s.Inv W) {target : Fin (n + 1)} (rest : List (Fin (n + 1))) :
    (s.firstReqReceived c target rest).Inv W := by
  have hpending : (s.firstReqReceived c target rest).Pending := by
    refine ⟨c, .inr ?_⟩
    show update s.wake c _ c ≠ []
    rw [update_self]
    exact append_ne_nil_of_right_ne_nil _ (cons_ne_nil _ _)
  have hannounced : s.Announced W → (s.firstReqReceived c target rest).Announced W := fun ha =>
    ha.mono rfl fun _ => hpending
  have hclient : ∀ c', ((s.firstReqReceived c target rest).client c').currentWave =
      (s.client c').currentWave := by
    intro c'
    show (update s.client c _ c').currentWave = _
    by_cases hc : c' = c
    · rw [hc, update_self]
    · rw [update_of_ne hc]
  exact { h with
    clientLe := fun c' => (hclient c').symm ▸ h.clientLe c'
    addAnnounced := fun c' e id hw => hannounced (h.addAnnounced c' e id hw)
    clientAnnounced := fun c' hwave _ =>
      ⟨h.coordinatorWave (h.clientLe c') ((hclient c').symm.trans hwave), .inr hpending⟩
    work := fun e hwork => (h.work e hwork).mono hannounced fun _ hnotice => hnotice }

theorem statsReceived_inv (h : s.Inv W) {wave : Nat} {running : Bool} {rest : List (Nat × Bool)}
    (hpublish : s.publish c = (wave, running) :: rest) :
    (s.statsReceived c wave running rest).Inv W := by
  have hin : (wave, running) ∈ s.publish c := hpublish ▸ mem_cons_self
  have hclient : ∀ c', (s.statsReceived c wave running rest).client c' =
      if c' = c then ⟨wave, running⟩ else s.client c' := fun c' => update_apply _ _ _ _
  exact { h with
    clientLe := fun c' => by
      rw [hclient]
      split
      · exact h.publishLe c _ hin
      · exact h.clientLe c'
    publishLe := fun c' x hx => h.publishLe c' x (mem_update_tail hpublish hx)
    publishRunning := fun c' hx => h.publishRunning c' (mem_update_tail hpublish hx)
    clientAnnounced := fun c' hwave hrunning => by
      rw [hclient] at hwave hrunning
      split at hwave
      · rename_i hc
        rw [if_pos hc] at hrunning
        have hwave : wave = W := hwave
        have hrunning : running = true := hrunning
        rw [hwave, hrunning] at hin
        exact ⟨h.coordinatorWave (h.publishLe c _ hin) rfl, .inl (h.publishRunning c hin)⟩
      · rename_i hc
        rw [if_neg hc] at hrunning
        exact h.clientAnnounced c' hwave hrunning }

/-! ## The coordinator -/

theorem published_inv (h : s.Inv W) : s.published.Inv W := by
  have hmem : ∀ c x, x ∈ s.published.publish c →
      x ∈ s.publish c ∨ x = (s.coordinator.currentWave, s.coordinator.enginesRunning) := by
    intro c x hx
    exact (mem_append.mp hx).imp id mem_singleton.mp
  exact { h with
    publishLe := fun c x hx => by
      rcases hmem c x hx with hold | rfl
      · exact h.publishLe c x hold
      · exact le_rfl
    publishRunning := fun c hx => by
      rcases hmem c _ hx with hold | heq
      · exact h.publishRunning c hold
      · exact (Prod.mk.inj heq).2.symm }

theorem broadcast_none (s : State n m) : s.broadcast none = s := by
  have hsame : (fun e => s.startWave e ++ []) = s.startWave := funext fun _ => append_nil _
  show { s with startWave := fun e => s.startWave e ++ [] } = s
  rw [hsame]

theorem mem_broadcast {request : Option StartDpWave} {x : StartDpWave} :
    x ∈ (s.broadcast request).startWave e ↔ x ∈ s.startWave e ∨ x ∈ request.toList := mem_append

section

variable (h : s.Inv W)
include h

/-- The coordinator runs already: the message of the front-end tells it nothing. -/
theorem frontIgnored_inv (hrunning : s.coordinator.enginesRunning = true)
    (rest : List (Fin (n + 1) × Nat)) :
    { s with wake := update s.wake c rest }.Inv W := by
  have hannounced : s.Announced W → Announced W { s with wake := update s.wake c rest } :=
    fun ha => ⟨ha.1, .inl hrunning⟩
  exact { h with
    addAnnounced := fun c' e id hw => hannounced (h.addAnnounced c' e id hw)
    clientAnnounced := fun c' hwave hrun => hannounced (h.clientAnnounced c' hwave hrun)
    work := fun e hwork => (h.work e hwork).mono hannounced fun _ hnotice => hnotice }

theorem frontStarts_inv (rest : List (Fin (n + 1) × Nat)) {exclude : Exclude}
    (hexclude : ∀ e, exclude ≠ .index e) : ({ s with
        wake := update s.wake c rest
        coordinator := { s.coordinator with enginesRunning := true } }.broadcast
      (some ⟨s.coordinator.currentWave, exclude⟩)).Inv W := by
  have hannounced : s.Announced W → ({ s with
      wake := update s.wake c rest
      coordinator := { s.coordinator with enginesRunning := true } }.broadcast
        (some ⟨s.coordinator.currentWave, exclude⟩)).Announced W := fun ha => ⟨ha.1, .inl rfl⟩
  exact { h with
    startLe := fun e x hx => by
      rcases mem_broadcast.mp hx with hold | hnew
      · exact h.startLe e x hold
      · rw [mem_singleton.mp hnew]
        exact le_rfl
    startRunning := fun _ _ _ _ => rfl
    publishRunning := fun _ _ => rfl
    addAnnounced := fun c' e id hw => hannounced (h.addAnnounced c' e id hw)
    clientAnnounced := fun c' hwave hrun => hannounced (h.clientAnnounced c' hwave hrun)
    work := fun e hwork => (h.work e hwork).mono hannounced fun _ hnotice => hnotice
    started := fun heq e => by
      refine .inr ⟨⟨s.coordinator.currentWave, exclude⟩, ?_, ?_, hexclude e⟩
      · exact mem_broadcast.mpr (.inr (mem_singleton.mpr rfl))
      · exact congrArg Coordinator.currentWave heq }

theorem frontEvent_inv (c : Fin m) : (s.frontEvent c).1.Inv W := by
  unfold frontEvent
  split
  · exact h
  · rename_i target wave rest hwake
    unfold Coordinator.frontReceived
    cases hrunning : s.coordinator.enginesRunning with
    | true =>
      simp only [not_true_eq_false, if_false, broadcast_none]
      exact frontIgnored_inv h hrunning rest
    | false =>
      refine frontStarts_inv h rest fun e => ?_
      split
      · exact nofun
      · exact nofun

theorem backIgnored_inv {notice : Notice} (hnotices : s.notices e = notice :: rest)
    (hcomplete : ∀ w, notice = .waveComplete w → w < s.coordinator.currentWave)
    (hstart : notice = .startWave W → s.Announced W) :
    { s with notices := update s.notices e rest }.Inv W := by
  exact { h with
    completeLt := fun e' w hw => h.completeLt e' w (mem_update_tail hnotices hw)
    noticeLe := fun e' w hw => h.noticeLe e' w (mem_update_tail hnotices hw)
    noticeAwake := fun e' hw => h.noticeAwake e' (mem_update_tail hnotices hw)
    behind := fun hlt => by
      refine (h.behind hlt).imp id fun ⟨w, hw, hin⟩ => ⟨w, hw, mem_tail_of_ne hnotices hin fun _ heq => ?_⟩
      have hlate := hcomplete w heq.symm
      have hlt : s.coordinator.currentWave < W := hlt
      omega
    work := fun e' hwork => by
      rcases h.work e' hwork with ha | ⟨e0, hin⟩
      · exact .inl ha
      · by_cases heq : notice = .startWave W
        · exact .inl (hstart heq)
        · exact .inr ⟨e0, mem_tail_of_ne hnotices hin fun _ hsame => heq hsame.symm⟩ }

theorem backComplete_inv (hnotices : s.notices e = .waveComplete w :: rest)
    (hle : s.coordinator.currentWave ≤ w) :
    { s with
      notices := update s.notices e rest
      coordinator := ⟨w + 1, false⟩ }.Inv W := by
  have hlt : w < W := h.completeLt e w (hnotices ▸ mem_cons_self)
  have hbehind : s.coordinator.currentWave ≠ W := ne_of_lt (lt_of_le_of_lt hle hlt)
  have hnone : ¬ s.Announced W := fun ha => hbehind ha.1
  have hgrow : ∀ {k : Nat}, k ≤ s.coordinator.currentWave → k ≤ w + 1 :=
    fun hk => (hk.trans hle).trans (Nat.le_succ w)
  exact { h with
    coordinatorLe := hlt
    clientLe := fun c => hgrow (h.clientLe c)
    publishLe := fun c x hx => hgrow (h.publishLe c x hx)
    addLe := fun c e' id k hk => hgrow (h.addLe c e' id k hk)
    completeLt := fun e' k hk => h.completeLt e' k (mem_update_tail hnotices hk)
    noticeLe := fun e' k hk => h.noticeLe e' k (mem_update_tail hnotices hk)
    noticeAwake := fun e' hk => h.noticeAwake e' (mem_update_tail hnotices hk)
    startLe := fun e' x hx => hgrow (h.startLe e' x hx)
    startRunning := fun e' x hx hwave =>
      absurd (h.coordinatorWave (h.startLe e' x hx) hwave) hbehind
    publishRunning := fun c hx => absurd (h.coordinatorWave (h.publishLe c _ hx) rfl) hbehind
    behind := fun hnext => by
      have hnext : w + 1 < W := hnext
      refine (h.behind (by omega)).imp id fun ⟨k, hk, hin⟩ =>
        ⟨k, hk, mem_tail_of_ne hnotices hin fun _ heq => ?_⟩
      have heq : k = w := Notice.waveComplete.inj heq
      omega
    addAnnounced := fun c e' id hk => absurd (h.addAnnounced c e' id hk) hnone
    clientAnnounced := fun c hwave hrun => absurd (h.clientAnnounced c hwave hrun) hnone
    work := fun e' hwork => by
      rcases h.work e' hwork with ha | ⟨e0, hin⟩
      · exact absurd ha hnone
      · exact .inr ⟨e0, mem_tail_of_ne hnotices hin fun _ => nofun⟩
    started := fun heq => nomatch congrArg Coordinator.enginesRunning heq }

theorem backStart_inv (hnotices : s.notices e = .startWave w :: rest)
    (hle : s.coordinator.currentWave ≤ w) : ({ s with
        notices := update s.notices e rest
        coordinator := ⟨w, true⟩ }.broadcast (some ⟨w, .index e⟩)).Inv W := by
  have hin : Notice.startWave w ∈ s.notices e := hnotices ▸ mem_cons_self
  have hleW : w ≤ W := h.noticeLe e w hin
  have hannounced : s.Announced W → ({ s with
      notices := update s.notices e rest
      coordinator := ⟨w, true⟩ }.broadcast (some ⟨w, .index e⟩)).Announced W :=
    fun ha => ⟨le_antisymm hleW (ha.1 ▸ hle), .inl rfl⟩
  exact { h with
    coordinatorLe := hleW
    clientLe := fun c => (h.clientLe c).trans hle
    publishLe := fun c x hx => (h.publishLe c x hx).trans hle
    addLe := fun c e' id k hk => (h.addLe c e' id k hk).trans hle
    completeLt := fun e' k hk => h.completeLt e' k (mem_update_tail hnotices hk)
    noticeLe := fun e' k hk => h.noticeLe e' k (mem_update_tail hnotices hk)
    noticeAwake := fun e' hk => h.noticeAwake e' (mem_update_tail hnotices hk)
    startLe := fun e' x hx => by
      rcases mem_broadcast.mp hx with hold | hnew
      · exact (h.startLe e' x hold).trans hle
      · rw [mem_singleton.mp hnew]
        exact le_refl w
    startRunning := fun _ _ _ _ => rfl
    publishRunning := fun _ _ => rfl
    behind := fun hlt => (h.behind (lt_of_le_of_lt hle hlt)).imp id fun ⟨k, hk, hmem⟩ =>
      ⟨k, hk, mem_tail_of_ne hnotices hmem fun _ => nofun⟩
    addAnnounced := fun c e' id hk => hannounced (h.addAnnounced c e' id hk)
    clientAnnounced := fun c hwave hrun => hannounced (h.clientAnnounced c hwave hrun)
    work := fun e' hwork => by
      rcases h.work e' hwork with ha | ⟨e0, hmem⟩
      · exact .inl (hannounced ha)
      · by_cases hw : w = W
        · exact .inl ⟨hw, .inl rfl⟩
        · refine .inr ⟨e0, mem_tail_of_ne hnotices hmem fun _ heq => ?_⟩
          exact hw (Notice.startWave.inj heq).symm
    started := fun heq e' => by
      have hw : w = W := congrArg Coordinator.currentWave heq
      by_cases he : e' = e
      · rw [he]
        exact .inl (h.noticeAwake e (hw ▸ hin))
      · refine .inr ⟨⟨w, .index e⟩, mem_broadcast.mpr (.inr (mem_singleton.mpr rfl)), hw, ?_⟩
        exact fun hindex => he (Fin.ext (Exclude.index.inj hindex).symm) }

theorem backEvent_inv (e : Fin (n + 1)) : (s.backEvent e).1.Inv W := by
  unfold backEvent
  split
  · exact h
  · rename_i notice rest hnotices
    cases notice with
    | waveComplete w =>
      unfold Coordinator.noticeReceived
      by_cases hle : s.coordinator.currentWave ≤ w
      · simp only [if_pos hle, broadcast_none]
        exact backComplete_inv h hnotices hle
      · simp only [if_neg hle, broadcast_none]
        refine backIgnored_inv h hnotices (fun k hk => ?_) nofun
        rw [← Notice.waveComplete.inj hk]
        exact not_le.mp hle
    | startWave w =>
      unfold Coordinator.noticeReceived
      by_cases hnew : s.coordinator.currentWave < w ∨
          (w = s.coordinator.currentWave ∧ ¬ s.coordinator.enginesRunning = true)
      · simp only [if_pos hnew]
        exact backStart_inv h hnotices (hnew.elim le_of_lt fun heq => le_of_eq heq.1.symm)
      · simp only [if_neg hnew, broadcast_none]
        refine backIgnored_inv h hnotices nofun fun heq => ?_
        have hw : w = W := Notice.startWave.inj heq
        push Not at hnew
        obtain ⟨hle, hrunning⟩ := hnew
        have hwave : w = s.coordinator.currentWave := le_antisymm hle (hw.symm ▸ h.coordinatorLe)
        exact ⟨hwave.symm.trans hw, .inl (hrunning hwave)⟩

theorem processInputSocket_inv (front : Option (Fin m)) (back : Option (Fin (n + 1))) :
    (s.processInputSocket front back).Inv W := by
  unfold processInputSocket
  have h1 : (front.elim (s, false) s.frontEvent).1.Inv W := by
    cases front with
    | none => exact h
    | some c => exact frontEvent_inv h c
  generalize front.elim (s, false) s.frontEvent = s1 at h1
  have h2 : (back.elim (s1.1, false) s1.1.backEvent).1.Inv W := by
    cases back with
    | none => exact h1
    | some e => exact backEvent_inv h1 e
  dsimp only
  generalize back.elim (s1.1, false) s1.1.backEvent = s2 at h2 ⊢
  split
  · exact published_inv h2
  · exact h2

end

/-! ## Engines and their connections -/

theorem notify_none (e : Fin (n + 1)) : s.notify e none = s := by
  have hsame : update s.notices e (s.notices e ++ []) = s.notices := by
    rw [append_nil, update_eq_self]
  show { s with notices := update s.notices e (s.notices e ++ []) } = s
  rw [hsame]

theorem engine_setEngine {P : Fin (n + 1) → Engine → Prop} (hnew : P e x)
    (hold : ∀ e', P e' (s.engine e')) (e' : Fin (n + 1)) : P e' ((s.setEngine e x).engine e') := by
  show P e' (update s.engine e x e')
  by_cases he : e' = e
  · rw [he, update_self]
    exact hnew
  · rw [update_of_ne he]
    exact hold e'

theorem setEngine_inv (h : s.Inv W) {notice : Option Notice} (hwave : x.wave = W)
    (hconsistent : x.Consistent) (hawake : (s.engine e).Awake → x.Awake)
    (hcomplete : ∀ k, notice = some (.waveComplete k) → k < W)
    (hstart : ∀ k, notice = some (.startWave k) → k ≤ W ∧ x.Awake)
    (hwork : x.HasWork → s.Waking W ∨ notice = some (.startWave W))
    (hbehind : e = 0 → (s.engine e).phase = .returned false →
      x.phase = .returned false ∨ ∃ k, k + 1 = W ∧ notice = some (.waveComplete k)) :
    ((s.setEngine e x).notify e notice).Inv W := by
  have hmem : ∀ e' y, y ∈ ((s.setEngine e x).notify e notice).notices e' →
      y ∈ s.notices e' ∨ (e' = e ∧ notice = some y) := by
    intro e' y hy
    exact (mem_update_append hy).imp id fun ⟨he, hin⟩ => ⟨he, Option.mem_toList.mp hin⟩
  have hkeep : ∀ e' y, y ∈ s.notices e' → y ∈ ((s.setEngine e x).notify e notice).notices e' :=
    fun e' y hy => mem_update_of_mem hy
  have hsent : ∀ y, notice = some y → y ∈ ((s.setEngine e x).notify e notice).notices e := by
    intro y hy
    show y ∈ update s.notices e (s.notices e ++ notice.toList) e
    rw [update_self]
    exact mem_append_right _ (Option.mem_toList.mpr hy)
  have hstill : ∀ e', (s.engine e').Awake → ((s.setEngine e x).engine e').Awake := by
    refine engine_setEngine (P := fun e' y => (s.engine e').Awake → y.Awake) hawake fun _ => id
  exact { h with
    wave := engine_setEngine (P := fun _ y => y.wave = W) hwave h.wave
    consistent := engine_setEngine (P := fun _ y => y.Consistent) hconsistent h.consistent
    completeLt := fun e' k hk => by
      rcases hmem e' _ hk with hold | ⟨-, heq⟩
      · exact h.completeLt e' k hold
      · exact hcomplete k heq
    noticeLe := fun e' k hk => by
      rcases hmem e' _ hk with hold | ⟨-, heq⟩
      · exact h.noticeLe e' k hold
      · exact (hstart k heq).1
    noticeAwake := fun e' hk => by
      rcases hmem e' _ hk with hold | ⟨he, heq⟩
      · exact hstill e' (h.noticeAwake e' hold)
      · rw [he]
        show (update s.engine e x e).Awake
        rw [update_self]
        exact (hstart W heq).2
    behind := fun hlt => by
      rcases h.behind hlt with hreturned | ⟨k, hk, hin⟩
      · by_cases he : e = 0
        · rcases hbehind he (he ▸ hreturned) with hphase | ⟨k, hk, heq⟩
          · refine .inl ?_
            show (update s.engine e x 0).phase = _
            rw [← he, update_self]
            exact hphase
          · exact .inr ⟨k, hk, he ▸ hsent _ heq⟩
        · refine .inl ?_
          show (update s.engine e x 0).phase = _
          rw [update_of_ne (Ne.symm he)]
          exact hreturned
      · exact .inr ⟨k, hk, hkeep 0 _ hin⟩
    work := by
      refine engine_setEngine (P := fun _ y => y.HasWork → _) (fun hx => ?_) fun e' hwork' => ?_
      · rcases hwork hx with hwaking | heq
        · exact hwaking.mono id fun e' hin => hkeep e' _ hin
        · exact .inr ⟨e, hsent _ heq⟩
      · exact (h.work e' hwork').mono id fun e0 hin => hkeep e0 _ hin
    started := fun heq e' => (h.started heq e').imp (hstill e') id }

theorem popInput_inv (h : s.Inv W) {message : EngineRequest} {rest : List EngineRequest}
    (hinput : s.input c e = message :: rest) :
    { s with input := update s.input c (update (s.input c) e rest) }.Inv W := by
  have hold : ∀ c' e' r, r ∈ update s.input c (update (s.input c) e rest) c' e' →
      r ∈ s.input c' e' := by
    intro c' e' r hr
    rcases mem_update_update hr with hold | ⟨hc, he, hin⟩
    · exact hold
    · rw [hc, he, hinput]
      exact mem_cons_of_mem _ hin
  exact { h with
    addLe := fun c' e' id k hk => h.addLe c' e' id k (hold c' e' _ hk)
    addAnnounced := fun c' e' id hk => h.addAnnounced c' e' id (hold c' e' _ hk) }

theorem requestReceived_inv (h : s.Inv W) {message : EngineRequest} {rest : List EngineRequest}
    (hphase : (s.engine e).phase = .loop) (hinput : s.input c e = message :: rest) :
    (s.requestReceived c e rest message).Inv W := by
  have hin : message ∈ s.input c e := hinput ▸ mem_cons_self
  have hpopped := popInput_inv h hinput
  have hcurrent := h.currentWave hphase
  cases message with
  | add requestId requestWave =>
    obtain ⟨hloop, hwave, hawake, hcases⟩ := Engine.addRequest_cases requestId hphase
      (hcurrent.symm ▸ h.addLeWave hin)
    refine setEngine_inv hpopped ((Engine.wave_loop hloop).trans (hwave.trans hcurrent))
      (Engine.consistent_loop hloop) hawake (fun k hk => ?_) (fun k hk => ?_) (fun _ => ?_)
      fun _ hreturned => absurd hreturned (Engine.not_returned hphase)
    · rcases hcases with ⟨hnone, -⟩ | ⟨hsome, -⟩
      · exact nomatch hnone.symm.trans hk
      · exact nomatch hsome.symm.trans hk
    · rcases hcases with ⟨hnone, -⟩ | ⟨hsome, hin⟩
      · exact nomatch hnone.symm.trans hk
      · have heq : (s.engine e).currentWave = k :=
          Notice.startWave.inj (Option.some.inj (hsome.symm.trans hk))
        exact ⟨le_of_eq (heq.symm.trans hcurrent), hin⟩
    · rcases hcases with ⟨-, heq | hin⟩ | ⟨hsome, -⟩
      · rw [heq, hcurrent] at hin
        exact .inl (.inl (h.addAnnounced c e requestId hin))
      · exact .inl (h.work e (.inl hin))
      · rw [hcurrent] at hsome
        exact .inr hsome
  | abort requestIds =>
    have hx : State.Inv W (({ s with
        input := update s.input c (update (s.input c) e rest) }.setEngine e
        ((s.engine e).abortRequests requestIds)).notify e none) := by
      refine setEngine_inv hpopped (h.wave e) (Engine.consistent_loop hphase) id nofun nofun
        (fun hwork => .inl (h.work e ?_))
        fun _ hreturned => absurd hreturned (Engine.not_returned hphase)
      refine hwork.imp id fun ⟨_, hne⟩ => ⟨hphase, fun hnil => hne ?_⟩
      show (s.engine e).requests.filter _ = []
      rw [hnil]
      rfl
    rw [notify_none] at hx
    exact hx

theorem popStart_inv (h : s.Inv W) {request : StartDpWave} {rest : List StartDpWave}
    (hstart : s.startWave e = request :: rest)
    (hdone : request.newWave = W → request.excludeEngIndex ≠ .index e → (s.engine e).Awake) :
    { s with startWave := update s.startWave e rest }.Inv W := by
  exact { h with
    startLe := fun e' x hx => h.startLe e' x (mem_update_tail hstart hx)
    startRunning := fun e' x hx => h.startRunning e' x (mem_update_tail hstart hx)
    started := fun heq e' => by
      rcases h.started heq e' with hawake | ⟨x, hx, hwave, hexclude⟩
      · exact .inl hawake
      · by_cases hpopped : e' = e ∧ x = request
        · obtain ⟨rfl, rfl⟩ := hpopped
          exact .inl (hdone hwave hexclude)
        · exact .inr ⟨x, mem_tail_of_ne hstart hx fun he hxeq => hpopped ⟨he, hxeq⟩, hwave, hexclude⟩ }

theorem startReceived_inv (h : s.Inv W) {request : StartDpWave} {rest : List StartDpWave}
    (hphase : (s.engine e).phase = .loop) (hstart : s.startWave e = request :: rest) :
    (s.startReceived e request rest).Inv W := by
  have hin : request ∈ s.startWave e := hstart ▸ mem_cons_self
  have hcurrent := h.currentWave hphase
  -- what the engine does with it
  have hset : (s.setEngine e ((s.engine e).handleStartDpWave e request)).Inv W ∧
      (request.newWave = W → request.excludeEngIndex ≠ .index e →
        ((s.engine e).handleStartDpWave e request).Awake) := by
    unfold Engine.handleStartDpWave
    split
    · rename_i haccept
      have hwave : request.newWave = W := le_antisymm (h.startLeWave hin) (hcurrent ▸ haccept.2)
      have hx : ((s.setEngine e { s.engine e with
          currentWave := request.newWave, enginesRunning := true }).notify e none).Inv W :=
        setEngine_inv h (Engine.wave_of_loop hphase hwave) (Engine.consistent_loop hphase)
        (fun _ => Engine.awake_of_running hphase rfl) nofun nofun
        (fun _ => .inl (.inl ⟨h.coordinatorWave (h.startLe e request hin) hwave,
          .inl (h.startRunning e request hin hwave)⟩))
        fun _ hreturned => absurd hreturned (Engine.not_returned hphase)
      rw [notify_none] at hx
      exact ⟨hx, fun _ _ => Engine.awake_of_running hphase rfl⟩
    · rename_i hignore
      refine ⟨?_, fun hwave hexclude => absurd ⟨hexclude, ?_⟩ hignore⟩
      · have hsame : s.setEngine e (s.engine e) = s := by
          show { s with engine := update s.engine e (s.engine e) } = s
          rw [update_eq_self]
        rw [hsame]
        exact h
      · rw [hcurrent, hwave]
  refine popStart_inv hset.1 hstart fun hwave hexclude => ?_
  show (update s.engine e _ e).Awake
  rw [update_self]
  exact hset.2 hwave hexclude

/-! ## The busy loop -/

theorem setStep_inv (h : s.Inv W) {executed : Bool} {finished : List Nat}
    (hphase : (s.engine e).phase = .loop)
    (hexecuted : executed = true → (s.engine e).requests ≠ []) :
    (s.setEngine e ((s.engine e).processEngineStep executed finished)).Inv W := by
  have hcurrent := h.currentWave hphase
  have hnot := Engine.not_returned hphase
  have hx : ((s.setEngine e ((s.engine e).processEngineStep executed finished)).notify e none).Inv W := by
    rcases Engine.processEngineStep_cases executed finished hphase with
      ⟨hloop, hrunning, hnone, hwave⟩ | ⟨hwhy, hawake, hconsistent, hwave, -⟩
    · have hawake : ((s.engine e).processEngineStep executed finished).Awake ↔ (s.engine e).Awake := by
        rw [Engine.awake_loop hloop, Engine.awake_loop hphase, hrunning]
      refine setEngine_inv h (Engine.wave_of_loop hloop (hwave.trans hcurrent))
        (Engine.consistent_loop hloop) hawake.mpr nofun nofun (fun hwork => .inl (h.work e (.inl ?_)))
        fun _ hreturned => absurd hreturned hnot
      exact hawake.mp (hwork.resolve_right fun hne => hne.2 hnone)
    · refine setEngine_inv h (hwave.trans hcurrent) hconsistent (fun _ => hawake) nofun nofun
        (fun _ => .inl (h.work e ?_)) fun _ hreturned => absurd hreturned hnot
      rcases hwhy with hexec | hrequests | hrunning
      · exact .inr ⟨hphase, hexecuted hexec⟩
      · exact .inr ⟨hphase, hrequests⟩
      · exact .inl ((Engine.awake_loop hphase).mpr hrunning)
  rw [notify_none] at hx
  exact hx

theorem blockedOn_isSome {e : Engine} : e.blockedOn.isSome = true ↔ e.Blocked := by
  unfold Engine.blockedOn Engine.Blocked
  cases e.phase with
  | loop => exact ⟨nofun, nofun⟩
  | blocked localUnfinished => exact ⟨fun _ => ⟨_, rfl⟩, fun _ => rfl⟩
  | returned unfinished => exact ⟨nofun, nofun⟩

theorem blockedOn_eq {e : Engine} {localUnfinished : Bool} (h : e.phase = .blocked localUnfinished) :
    e.blockedOn = some localUnfinished := by
  unfold Engine.blockedOn
  rw [h]

theorem reduceTrue_inv (h : s.Inv W) (hall : ∀ e, (s.engine e).Blocked) :
    { s with engine := fun e => { s.engine e with phase := .returned true } }.Inv W := by
  have hawake : ∀ e, (s.engine e).Awake := by
    intro e
    obtain ⟨localUnfinished, hphase⟩ := hall e
    unfold Engine.Awake
    rw [hphase]
    trivial
  exact { h with
    wave := fun e => by
      obtain ⟨localUnfinished, hphase⟩ := hall e
      have hwave := h.wave e
      unfold Engine.wave at hwave
      rw [hphase] at hwave
      exact hwave
    consistent := fun _ => ⟨nofun, nofun⟩
    noticeAwake := fun _ _ => rfl
    behind := fun hlt => by
      obtain ⟨localUnfinished, hphase⟩ := hall 0
      refine .inr ((h.behind hlt).resolve_left fun hreturned => ?_)
      exact nomatch hphase.symm.trans hreturned
    work := fun e _ => h.work e (.inl (hawake e))
    started := fun _ _ => .inl rfl }

theorem reduceFalse_inv (h : s.Inv W) (hall : ∀ e, (s.engine e).Blocked)
    (hnone : ∀ e, (s.engine e).blockedOn ≠ some true) :
    { s with engine := fun e => { s.engine e with phase := .returned false } }.Inv (W + 1) := by
  have hlate : s.coordinator.currentWave ≠ W + 1 := ne_of_lt (Nat.lt_succ_of_le h.coordinatorLe)
  have hle : ∀ {k : Nat}, k ≤ s.coordinator.currentWave → k ≠ W + 1 := fun hk =>
    ne_of_lt (Nat.lt_succ_of_le (hk.trans h.coordinatorLe))
  exact { h with
    wave := fun e => by
      obtain ⟨localUnfinished, hphase⟩ := hall e
      have hwave := h.wave e
      unfold Engine.wave at hwave
      rw [hphase] at hwave
      exact congrArg (· + 1) hwave
    consistent := fun e => by
      refine ⟨nofun, fun _ => ?_⟩
      obtain ⟨localUnfinished, hphase⟩ := hall e
      by_contra hne
      have htrue := ((h.consistent e).joined localUnfinished hphase).mpr hne
      rw [htrue] at hphase
      exact hnone e (blockedOn_eq hphase)
    coordinatorLe := Nat.le_succ_of_le h.coordinatorLe
    completeLt := fun e k hk => Nat.lt_succ_of_lt (h.completeLt e k hk)
    noticeLe := fun e k hk => Nat.le_succ_of_le (h.noticeLe e k hk)
    noticeAwake := fun e hk => absurd (h.noticeLe e _ hk) (Nat.not_succ_le_self W)
    startRunning := fun e x hx hw => absurd hw (hle (h.startLe e x hx))
    publishRunning := fun c hx => absurd rfl (hle (h.publishLe c _ hx))
    behind := fun _ => .inl rfl
    addAnnounced := fun c e id hk => absurd rfl (hle (h.addLe c e id _ hk))
    clientAnnounced := fun c hw _ => absurd hw (hle (h.clientLe c))
    work := fun _ hwork => by
      rcases hwork with hawake | ⟨hloop, -⟩
      · exact nomatch hawake
      · exact nomatch hloop
    started := fun heq => absurd (congrArg Coordinator.currentWave heq) hlate }

theorem allReduce_inv (h : s.Inv W) : ∃ W', s.allReduce.Inv W' ∧ s.allReduce.Free := by
  unfold allReduce
  split
  · rename_i hall
    have hblocked : ∀ e, (s.engine e).Blocked := fun e => blockedOn_isSome.mp (hall e)
    by_cases htrue : ∃ e, (s.engine e).blockedOn = some true
    · rw [decide_eq_true htrue]
      exact ⟨W, reduceTrue_inv h hblocked, 0, fun ⟨_, hphase⟩ => nomatch hphase⟩
    · rw [decide_eq_false htrue]
      exact ⟨W + 1, reduceFalse_inv h hblocked fun e he => htrue ⟨e, he⟩, 0,
        fun ⟨_, hphase⟩ => nomatch hphase⟩
  · rename_i hsome
    obtain ⟨e, he⟩ := not_forall.mp hsome
    exact ⟨W, h, e, fun hblocked => he (blockedOn_isSome.mpr hblocked)⟩

theorem engineResume_inv (h : s.Inv W) {unfinished : Bool}
    (hphase : (s.engine e).phase = .returned unfinished) : (s.engineResume e unfinished).Inv W := by
  have hwave := h.wave e
  unfold Engine.wave at hwave
  rw [hphase] at hwave
  cases unfinished with
  | true =>
    have hawake : (s.engine e).Awake := by
      unfold Engine.Awake
      rw [hphase]
    refine setEngine_inv h (Engine.wave_of_loop rfl hwave) (Engine.consistent_loop rfl)
      (fun _ => Engine.awake_of_running rfl rfl) nofun nofun (fun _ => .inl (h.work e (.inl hawake)))
      fun _ hreturned => nomatch hphase.symm.trans hreturned
  | false =>
    have hwave : (s.engine e).currentWave + 1 = W := hwave
    have hnone := (h.consistent e).left hphase
    refine setEngine_inv h (Engine.wave_of_loop rfl hwave) (Engine.consistent_loop rfl)
      (fun hawake => ?_) (fun k hk => ?_) (fun k hk => ?_) (fun hwork => ?_) fun he _ => .inr ?_
    · unfold Engine.Awake at hawake
      rw [hphase] at hawake
      exact nomatch hawake
    · split at hk
      · have hk : (s.engine e).currentWave = k := Notice.waveComplete.inj (Option.some.inj hk)
        omega
      · exact nomatch hk
    · split at hk
      · exact nomatch hk
      · exact nomatch hk
    · rcases hwork with hawake | ⟨-, hne⟩
      · exact nomatch hawake
      · exact absurd hnone hne
    · exact ⟨_, hwave, if_pos ⟨Bool.false_ne_true, he⟩⟩

/-! ## Runs -/

theorem engine_processInputSocket (front : Option (Fin m)) (back : Option (Fin (n + 1))) :
    (s.processInputSocket front back).engine = s.engine := by
  have hfront : ∀ (s : State n m) c, (s.frontEvent c).1.engine = s.engine := by
    intro s c
    unfold frontEvent
    split
    · rfl
    · rfl
  have hback : ∀ (s : State n m) e, (s.backEvent e).1.engine = s.engine := by
    intro s e
    unfold backEvent
    split
    · rfl
    · rfl
  have h1 : (front.elim (s, false) s.frontEvent).1.engine = s.engine := by
    cases front with
    | none => rfl
    | some c => exact hfront s c
  have h2 : ∀ s1 : State n m, (back.elim (s1, false) s1.backEvent).1.engine = s1.engine := by
    intro s1
    cases back with
    | none => rfl
    | some e => exact hback s1 e
  unfold processInputSocket
  dsimp only
  split
  · exact (h2 _).trans h1
  · exact (h2 _).trans h1

theorem free_setEngine (h : x.phase = .loop) : (s.setEngine e x).Free := by
  refine ⟨e, fun ⟨localUnfinished, hphase⟩ => ?_⟩
  have hphase : (update s.engine e x e).phase = .blocked localUnfinished := hphase
  rw [update_self, h] at hphase
  exact nomatch hphase

theorem step_inv (h : s.Inv W) (hfree : s.Free) (hstep : s.Step s') :
    ∃ W', s'.Inv W' ∧ s'.Free := by
  cases hstep with
  | add c e requestId => exact ⟨W, addRequestAsync_inv h c e requestId, hfree⟩
  | abort c e requestIds => exact ⟨W, abortRequestsAsync_inv h c e requestIds, hfree⟩
  | firstReq c target rest _ => exact ⟨W, firstReqReceived_inv h rest, hfree⟩
  | stats c wave running rest hpublish => exact ⟨W, statsReceived_inv h hpublish, hfree⟩
  | timeout => exact ⟨W, published_inv h, hfree⟩
  | coordinate front back =>
    refine ⟨W, processInputSocket_inv h front back, ?_⟩
    unfold Free
    rw [engine_processInputSocket]
    exact hfree
  | request c e message rest hphase hinput =>
    refine ⟨W, requestReceived_inv h hphase hinput, ?_⟩
    have hcurrent := h.currentWave hphase
    cases message with
    | add requestId requestWave =>
      have hin : EngineRequest.add requestId requestWave ∈ s.input c e := hinput ▸ mem_cons_self
      exact free_setEngine
        (Engine.addRequest_cases requestId hphase (hcurrent.symm ▸ h.addLeWave hin)).1
    | abort requestIds => exact free_setEngine hphase
  | start e request rest hphase hstart =>
    refine ⟨W, startReceived_inv h hphase hstart, free_setEngine ?_⟩
    unfold Engine.handleStartDpWave
    split
    · exact hphase
    · exact hphase
  | step e executed finished hphase hexecuted => exact allReduce_inv (setStep_inv h hphase hexecuted)
  | resume e unfinished hphase =>
    refine ⟨W, engineResume_inv h hphase, free_setEngine ?_⟩
    unfold Engine.resume
    split
    · rfl
    · rfl

theorem waves_inv : TSys.Inductive (waves n m) fun s => ∃ W, s.Inv W ∧ s.Free where
  base := by
    rintro s rfl
    exact ⟨0, init_inv, 0, fun ⟨_, hphase⟩ => nomatch hphase⟩
  step := fun _ _ ⟨_, h, hfree⟩ hstep => step_inv h hfree hstep

/-! ## Quiet states -/

/-- No message is in flight. -/
structure NoMessages (s : State n m) : Prop where
  input : ∀ c e, s.input c e = []
  startWave : ∀ e, s.startWave e = []
  notices : ∀ e, s.notices e = []
  firstReq : ∀ c, s.firstReq c = []
  wake : ∀ c, s.wake c = []
  publish : ∀ c, s.publish c = []

/-- Every engine waits, for a message or for the others. -/
def Waiting (s : State n m) : Prop := ∀ e, (s.engine e).Idle ∨ (s.engine e).Blocked

/-- All engines are idle in one wave, without requests, and the coordinator knows it. -/
def Settled (s : State n m) : Prop :=
  ∃ w, (∀ e, (s.engine e).Idle ∧ (s.engine e).currentWave = w) ∧ s.coordinator = ⟨w, false⟩

/-- No engine goes back to an earlier wave. -/
def Grows (s s' : State n m) : Prop := ∀ e, (s.engine e).currentWave ≤ (s'.engine e).currentWave

theorem not_awake_of_idle {e : Engine} (h : e.Idle) : ¬ e.Awake := by
  rw [Engine.awake_loop h.1, h.2.1]
  exact Bool.false_ne_true

theorem Inv.settled (h : s.Inv W) (hfree : s.Free) (hquiet : s.NoMessages) (hwaiting : s.Waiting) :
    s.Settled := by
  have hpending : ¬ s.Pending := fun ⟨c, hc⟩ => hc.elim (absurd (hquiet.firstReq c)) (absurd (hquiet.wake c))
  -- a wave that the coordinator runs is run by all
  have hrunning : s.coordinator = ⟨W, true⟩ → ∀ e, (s.engine e).Awake := by
    intro heq e
    refine (h.started heq e).resolve_right fun ⟨x, hx, _⟩ => ?_
    rw [hquiet.startWave e] at hx
    exact nomatch hx
  obtain ⟨e0, hfree⟩ := hfree
  have hidle0 : (s.engine e0).Idle := (hwaiting e0).resolve_right hfree
  have hnot : s.coordinator ≠ ⟨W, true⟩ := fun heq => not_awake_of_idle hidle0 (hrunning heq e0)
  have hidle : ∀ e, (s.engine e).Idle := by
    intro e
    refine (hwaiting e).resolve_right fun ⟨localUnfinished, hphase⟩ => ?_
    have hawake : (s.engine e).Awake := by
      unfold Engine.Awake
      rw [hphase]
      trivial
    rcases h.work e (.inl hawake) with ⟨hwave, hrun | hp⟩ | ⟨e', hin⟩
    · exact hnot (by rw [← hwave, ← hrun])
    · exact hpending hp
    · rw [hquiet.notices e'] at hin
      exact nomatch hin
  have hwave : s.coordinator.currentWave = W := by
    refine le_antisymm h.coordinatorLe (not_lt.mp fun hlt => ?_)
    rcases h.behind hlt with hreturned | ⟨w, -, hin⟩
    · exact nomatch (hidle 0).1.symm.trans hreturned
    · rw [hquiet.notices 0] at hin
      exact nomatch hin
  refine ⟨W, fun e => ⟨hidle e, h.currentWave (hidle e).1⟩, ?_⟩
  cases hrun : s.coordinator.enginesRunning with
  | true => exact absurd (by rw [← hwave, ← hrun]) hnot
  | false => rw [← hwave, ← hrun]

theorem grows_setEngine (h : (s.engine e).currentWave ≤ x.currentWave) :
    s.Grows (s.setEngine e x) :=
  engine_setEngine (P := fun e' y => (s.engine e').currentWave ≤ y.currentWave) h fun _ => le_rfl

theorem step_grows (hstep : s.Step s') : s.Grows s' := by
  cases hstep with
  | add | abort | firstReq | stats | timeout => exact fun _ => le_rfl
  | coordinate front back =>
    intro e
    rw [engine_processInputSocket]
  | request c e message rest hphase hinput =>
    cases message with
    | add requestId requestWave =>
      refine grows_setEngine ?_
      unfold Engine.addRequest
      split
      · exact le_rfl
      · split
        · rename_i hlt
          exact le_of_lt hlt
        · split
          · exact le_rfl
          · exact le_rfl
    | abort requestIds => exact grows_setEngine le_rfl
  | start e request rest hphase hstart =>
    refine grows_setEngine ?_
    unfold Engine.handleStartDpWave
    split
    · rename_i haccept
      exact haccept.2
    · exact le_rfl
  | step e executed finished hphase hexecuted =>
    have hset : s.Grows (s.setEngine e ((s.engine e).processEngineStep executed finished)) := by
      refine grows_setEngine (le_of_eq ?_)
      rcases Engine.processEngineStep_cases executed finished hphase with
        ⟨-, -, -, hwave⟩ | ⟨-, -, -, -, hwave⟩
      · exact hwave.symm
      · exact hwave.symm
    intro e'
    unfold engineStep allReduce
    split
    · exact hset e'
    · exact hset e'
  | resume e unfinished hphase =>
    refine grows_setEngine ?_
    unfold Engine.resume
    split
    · exact le_rfl
    · exact Nat.le_succ _

end State

/-- When no message is in flight and every engine waits, all engines are idle in the wave of the
coordinator, and none has a request. The wave of an engine never decreases. -/
theorem waves_settle (n m : Nat) : (waves n m).Invariant fun s =>
    (s.NoMessages → s.Waiting → s.Settled) ∧ ∀ s', s.Step s' → s.Grows s' := by
  intro s hs
  obtain ⟨W, h, hfree⟩ := State.waves_inv.invariant s hs
  exact ⟨h.settled hfree, fun s' hstep => State.step_grows hstep⟩

/-- The engines in their loops are in one wave, which nobody and no message is ahead of. While an
engine has work the coordinator runs the wave, or a message that wakes it is on the way. -/
theorem waves_agree (n m : Nat) : (waves n m).Invariant fun s => ∃ W,
    (∀ e, (s.engine e).phase = .loop → (s.engine e).currentWave = W) ∧
      s.coordinator.currentWave ≤ W ∧ (∀ c, (s.client c).currentWave ≤ s.coordinator.currentWave) ∧
      (∀ e, ∀ x ∈ s.startWave e, x.newWave ≤ W) ∧
      (∀ c e i w, .add i w ∈ s.input c e → w ≤ W) ∧ ∀ e, (s.engine e).HasWork → s.Waking W := by
  intro s hs
  obtain ⟨W, h, -⟩ := State.waves_inv.invariant s hs
  exact ⟨W, fun e => h.currentWave, h.coordinatorLe, h.clientLe, fun e x => h.startLeWave,
    fun c e i w => h.addLeWave, h.work⟩

end MyOperator.DataParallel
