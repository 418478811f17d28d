import MyOperator.Sched.EncoderCache

/-!
# What the loop over the encoder inputs does

`Tried` lists what one pass of the loop of `_try_schedule_encoder_inputs` can do with an
item. `tryScheduleEncoderInputs_keeps` is the rule for the loop: what every pass keeps holds
of the plan that is returned.
-/

namespace MyOperator.Sched

open Lib List

/-- There is room: none of the embeddings is in the range, or the item is loaded, or it is
scheduled. -/
inductive Picked (i : Nat) (f : MultiModalFeatureSpec) (p : EncoderPlan) : EncoderPlan → Prop
  | outside : Picked i f p p
  | load : Picked i f p { p with
      mmHashesToSchedule := f.identifier :: p.mmHashesToSchedule
      externalLoadEncoderInput := p.externalLoadEncoderInput ++ [i]
      numEmbedsToSchedule := p.numEmbedsToSchedule + f.mmPosition.getNumEmbeds }
  | schedule : Picked i f p { p with
      numEmbedsToSchedule := p.numEmbedsToSchedule + f.mmPosition.getNumEmbeds
      encoderComputeBudget := p.encoderComputeBudget - f.mmPosition.getNumEmbeds
      mmHashesToSchedule := f.identifier :: p.mmHashesToSchedule
      encoderInputsToSchedule := p.encoderInputsToSchedule ++ [i] }

/-- The step ends before the item, or there is room for it. -/
inductive Placed (r : Request) (i : Nat) (f : MultiModalFeatureSpec) (p : EncoderPlan) : Pick → Prop
  | chunk {n} : 0 ≤ n → n ≤ max p.numNewTokens 0 → Placed r i f p (.stop { p with numNewTokens := n })
  | full {manager n} : p.manager.canAllocate r i p.encoderComputeBudget p.numEmbedsToSchedule =
      .ok (false, manager) → 0 ≤ n → n ≤ max p.numNewTokens 0 →
      Placed r i f p (.stop { p with manager, numNewTokens := n })
  | room {manager q} : p.manager.canAllocate r i p.encoderComputeBudget p.numEmbedsToSchedule =
      .ok (true, manager) → Picked i f { p with manager } q → Placed r i f p (.next q)

/-- One pass of the loop. -/
inductive Tried (cfg : EncoderConfig) (r : Request) (i : Nat) (f : MultiModalFeatureSpec)
    (p : EncoderPlan) : Pick → Prop
  | stop : Tried cfg r i f p (.stop p)
  | next : Tried cfg r i f p (.next p)
  | encoderDecoder {pick} : cfg.isEncoderDecoder = true → Placed r i f p pick → Tried cfg r i f p pick
  | hit {manager} : f.identifier ∉ p.mmHashesToSchedule →
      p.manager.checkAndUpdateCache r i = .ok (true, manager) →
      Tried cfg r i f p (.next { p with manager })
  | miss {manager pick} : f.identifier ∉ p.mmHashesToSchedule →
      p.manager.checkAndUpdateCache r i = .ok (false, manager) →
      Placed r i f { p with manager } pick → Tried cfg r i f p pick

variable {cfg : EncoderConfig} {has : Bool} {hasItem : String → Bool} {r : Request} {n shift : Int}
  {i : Nat} {f : MultiModalFeatureSpec} {p p' : EncoderPlan} {pick : Pick}

theorem placeItem_placed (hstart : (f.mmPosition.offset : Int) < n + p.numNewTokens + shift)
    (h : placeItem cfg has r n shift i f p = .ok pick) : Placed r i f p pick := by
  unfold placeItem at h
  dsimp only at h
  split at h
  · cases h
    exact .chunk (Int.le_max_left _ _) (by omega)
  · obtain ⟨⟨can, manager⟩, hroom, h⟩ := bind_ok h
    cases can with
    | true =>
      obtain ⟨⟨a, b⟩, -, h⟩ := bind_ok h
      dsimp only at h
      split at h
      · cases h
        exact .room hroom .outside
      · split at h
        · cases h
          exact .room hroom .load
        · cases h
          exact .room hroom .schedule
    | false =>
      cases h
      refine .full hroom ?_ ?_
      · split <;> omega
      · split <;> omega

theorem tryItem_tried (h : tryItem cfg hasItem r n shift i f p = .ok pick) :
    Tried cfg r i f p pick := by
  unfold tryItem at h
  dsimp only at h
  split at h
  · cases h
    exact .stop
  · rename_i hstart
    have hstart := Int.not_le.mp hstart
    split at h
    · obtain ⟨⟨⟩, -, h⟩ := bind_ok h
      cases h
      exact .next
    · split at h
      · cases h
        exact .next
      · split at h
        · rename_i hdecoder
          exact .encoderDecoder hdecoder (placeItem_placed hstart h)
        · split at h
          · cases h
            exact .next
          · rename_i hnew
            obtain ⟨⟨hit, manager⟩, hcheck, h⟩ := bind_ok h
            cases hit with
            | true =>
              cases h
              exact .hit hnew hcheck
            | false => exact .miss hnew hcheck (placeItem_placed (p := { p with manager }) hstart h)

/-! ## The loop -/

section

variable {P : EncoderPlan → Prop}
  (hstep : ∀ i f p pick, r.mmFeatures[i]? = some f → Tried cfg r i f p pick → P p → P pick.plan)
include hstep

theorem tryItems_keeps {fs : List MultiModalFeatureSpec} (hfs : r.mmFeatures.drop i = fs) (hp : P p)
    (h : tryItems cfg hasItem r n shift i fs p = .ok p') : P p' := by
  induction fs generalizing i p with
  | nil =>
    cases h
    exact hp
  | cons f fs ih =>
    have hf : r.mmFeatures[i]? = some f := by
      rw [← head?_drop, hfs]
      rfl
    have hrest : r.mmFeatures.drop (i + 1) = fs := by
      rw [← tail_drop, hfs]
      rfl
    obtain ⟨pick, hitem, h⟩ := bind_ok h
    have hpick := hstep i f p pick hf (tryItem_tried hitem) hp
    cases pick with
    | next p1 => exact ih hrest hpick h
    | stop p1 =>
      cases h
      exact hpick

theorem tryScheduleEncoderInputs_keeps {manager : EncoderManager}
    {numNewTokens encoderComputeBudget : Int}
    (hp : P { manager, numNewTokens, encoderComputeBudget })
    (h : tryScheduleEncoderInputs cfg hasItem manager r n numNewTokens encoderComputeBudget shift =
      .ok p) : P p := by
  unfold tryScheduleEncoderInputs at h
  split at h
  · cases h
    exact hp
  · exact tryItems_keeps hstep drop_zero hp h

end

/-! ## The number of tokens -/

theorem Placed.numNewTokens (h : Placed r i f p pick) : pick.plan.numNewTokens = p.numNewTokens ∨
    0 ≤ pick.plan.numNewTokens ∧ pick.plan.numNewTokens ≤ max p.numNewTokens 0 := by
  cases h with
  | chunk hnonneg hle => exact .inr ⟨hnonneg, hle⟩
  | full _ hnonneg hle => exact .inr ⟨hnonneg, hle⟩
  | room _ hpicked => cases hpicked <;> exact .inl rfl

theorem Tried.numNewTokens (h : Tried cfg r i f p pick) : pick.plan.numNewTokens = p.numNewTokens ∨
    0 ≤ pick.plan.numNewTokens ∧ pick.plan.numNewTokens ≤ max p.numNewTokens 0 := by
  cases h with
  | stop => exact .inl rfl
  | next => exact .inl rfl
  | encoderDecoder _ hplaced => exact hplaced.numNewTokens
  | hit _ _ => exact .inl rfl
  | miss _ _ hplaced => exact hplaced.numNewTokens

/-- No token is added, and the number of tokens does not become negative. -/
theorem tryScheduleEncoderInputs_numNewTokens {manager : EncoderManager} {tokens budget : Int}
    (h : tryScheduleEncoderInputs cfg hasItem manager r n tokens budget shift = .ok p) :
    p.numNewTokens ≤ max tokens 0 ∧ (0 ≤ tokens → 0 ≤ p.numNewTokens) := by
  refine tryScheduleEncoderInputs_keeps (P := fun q => q.numNewTokens ≤ max tokens 0 ∧
    (0 ≤ tokens → 0 ≤ q.numNewTokens)) ?_ ⟨Int.le_max_left _ _, id⟩ h
  rintro i f p pick - htried ⟨hle, hnonneg⟩
  rcases htried.numNewTokens with heq | ⟨hpos, hmax⟩
  · rw [heq]
    exact ⟨hle, hnonneg⟩
  · exact ⟨by omega, fun _ => hpos⟩

end MyOperator.Sched
