import MyOperator.Outputs.Processor

/-!
# What the books keep

The relations between live requests, parent objects and the dictionaries of the
output processor that every operation keeps, also in the middle of an abort, when
some live requests have already left the lists of their external ids.
-/

namespace MyOperator.Outputs

open Lib Option

variable {s : OutputProcessor} {st st' : RequestState} {p : ParentRequest Unit}
  {id k c : String} {r i : Nat} {P Q : String → Prop} {held : Bool}

namespace OutputProcessor

/-- The books of live requests and parents. -/
structure Books (s : OutputProcessor) : Prop where
  keyed : ∀ id st, s.requestStates.get? id = some st → st.requestId = id
  childIn : ∀ id st r, s.requestStates.get? id = some st → st.parentReq = some r →
    ∃ p : ParentRequest Unit, s.parents[r]? = some p ∧ id ∈ p.childRequests ∧
      s.parentRequests.get? p.requestId = some r
  childOwn : ∀ (r : Nat) (p : ParentRequest Unit) id st, s.parents[r]? = some p → id ∈ p.childRequests →
    s.requestStates.get? id = some st → st.parentReq = some r
  plain : ∀ id st r, s.requestStates.get? id = some st → st.parentReq = some r →
    st.streamingInput = false
  childNodup : ∀ (r : Nat) (p : ParentRequest Unit), s.parents[r]? = some p → p.childRequests.Nodup
  parentIds : ∀ r r' k, s.parentId r = some k → s.parentId r' = some k → r = r'
  notLive : ∀ r k, s.parentId r = some k → s.requestStates.get? k = none
  notChild : ∀ r k (i : Nat) (p : ParentRequest Unit), s.parentId r = some k → s.parents[i]? = some p → k ∉ p.childRequests
  registered : ∀ k r, s.parentRequests.get? k = some r → s.parentId r = some k

/-- The external ids list the live requests that carry them, those of `P` left out. -/
def External (s : OutputProcessor) (P : String → Prop) : Prop :=
  Indexes s.externalReqIds fun ext id =>
    ∃ st, s.requestStates.get? id = some st ∧ st.externalReqId = ext ∧ ¬ P id

/-- A live child of the parent object `r`. -/
def HasChild (s : OutputProcessor) (r : Nat) : Prop :=
  ∃ id st, s.requestStates.get? id = some st ∧ st.parentReq = some r

/-- The state between two calls. -/
structure Good (s : OutputProcessor) : Prop where
  books : Books s
  external : External s fun _ => False
  hasChild : ∀ k r, s.parentRequests.get? k = some r → HasChild s r

theorem External.congr (h : External s P)
    (hP : ∀ id st, s.requestStates.get? id = some st → (P id ↔ Q id)) : External s Q := by
  refine Indexes.congr h fun ext id => ?_
  constructor
  · rintro ⟨st, hst, hext, hnot⟩
    exact ⟨st, hst, hext, fun hq => hnot ((hP id st hst).mpr hq)⟩
  · rintro ⟨st, hst, hext, hnot⟩
    exact ⟨st, hst, hext, fun hp => hnot ((hP id st hst).mp hp)⟩

theorem parentId_eq_some : s.parentId r = some k ↔ ∃ p, s.parents[r]? = some p ∧ p.requestId = k :=
  map_eq_some_iff

theorem Books.parent_live (h : Books s) (hst : s.requestStates.get? id = some st)
    (hr : st.parentReq = some r) :
    ∃ p, s.parents[r]? = some p ∧ s.parentRequests.get? p.requestId = some r := by
  obtain ⟨p, hp, _, hreg⟩ := h.childIn id st r hst hr
  exact ⟨p, hp, hreg⟩

/-! ## Elementary changes -/

/-- A live request leaves `request_states`. -/
def popRequest (s : OutputProcessor) (id : String) : OutputProcessor :=
  { s with requestStates := s.requestStates.erase id }

/-- A parent leaves `parent_requests`. -/
def popParent (s : OutputProcessor) (k : String) : OutputProcessor :=
  { s with parentRequests := s.parentRequests.erase k }

/-- The lists of the external ids change. -/
def setExternal (s : OutputProcessor) (externalReqIds : Dict String (List String)) :
    OutputProcessor := { s with externalReqIds := externalReqIds }

theorem get?_popRequest : (s.popRequest id).requestStates.get? c = some st ↔
    s.requestStates.get? c = some st ∧ c ≠ id := by
  rw [popRequest, Dict.get?_erase]
  by_cases h : c = id
  · simp [h]
  · simp [h]

theorem Books.popRequest (h : Books s) (id : String) : Books (s.popRequest id) where
  keyed c st hst := h.keyed c st (get?_popRequest.mp hst).1
  childIn c st r hst := h.childIn c st r (get?_popRequest.mp hst).1
  childOwn r p c st hp hc hst := h.childOwn r p c st hp hc (get?_popRequest.mp hst).1
  plain c st r hst := h.plain c st r (get?_popRequest.mp hst).1
  childNodup := h.childNodup
  parentIds := h.parentIds
  notLive r k hk := by
    cases hst : (s.popRequest id).requestStates.get? k with
    | none => rfl
    | some st =>
      have hlive := (get?_popRequest.mp hst).1
      rw [h.notLive r k hk] at hlive
      cases hlive
  notChild := h.notChild
  registered := h.registered

theorem External.popRequest (h : External s P) (hP : P id) : External (s.popRequest id) P := by
  refine Indexes.congr h fun ext c => ?_
  constructor
  · rintro ⟨st, hst, hext, hnot⟩
    refine ⟨st, get?_popRequest.mpr ⟨hst, ?_⟩, hext, hnot⟩
    rintro rfl
    exact hnot hP
  · rintro ⟨st, hst, hext, hnot⟩
    exact ⟨st, (get?_popRequest.mp hst).1, hext, hnot⟩

theorem Books.popParent (h : Books s) (hk : s.parentId r = some k) (hno : ¬ HasChild s r) :
    Books (s.popParent k) where
  keyed := h.keyed
  childIn := by
    intro c st i hst hi
    obtain ⟨p, hp, hc, hreg⟩ := h.childIn c st i hst hi
    refine ⟨p, hp, hc, ?_⟩
    have hne : p.requestId ≠ k := by
      rintro rfl
      have hir : i = r := h.parentIds i r _ (parentId_eq_some.mpr ⟨p, hp, rfl⟩) hk
      subst hir
      exact hno ⟨c, st, hst, hi⟩
    exact (Dict.get?_erase_of_ne _ hne).trans hreg
  childOwn := h.childOwn
  plain := h.plain
  childNodup := h.childNodup
  parentIds := h.parentIds
  notLive := h.notLive
  notChild := h.notChild
  registered := by
    intro k' i hi
    refine h.registered k' i ?_
    rw [OutputProcessor.popParent, Dict.get?_erase] at hi
    split_ifs at hi
    exact hi

theorem Books.setExternal (h : Books s) (externalReqIds : Dict String (List String)) :
    Books (s.setExternal externalReqIds) where
  keyed := h.keyed
  childIn := h.childIn
  childOwn := h.childOwn
  plain := h.plain
  childNodup := h.childNodup
  parentIds := h.parentIds
  notLive := h.notLive
  notChild := h.notChild
  registered := h.registered

/-! ## The output of a request -/

@[simp] theorem makeRequestOutput_requestStates (finished held : Bool) :
    (s.makeRequestOutput st finished held).requestStates = s.requestStates := by
  unfold makeRequestOutput
  split_ifs
  · rfl
  · split <;> rfl

@[simp] theorem makeRequestOutput_parentRequests (finished held : Bool) :
    (s.makeRequestOutput st finished held).parentRequests = s.parentRequests := by
  unfold makeRequestOutput
  split_ifs
  · rfl
  · split <;> rfl

@[simp] theorem makeRequestOutput_externalReqIds (finished held : Bool) :
    (s.makeRequestOutput st finished held).externalReqIds = s.externalReqIds := by
  unfold makeRequestOutput
  split_ifs
  · rfl
  · split <;> rfl

theorem makeRequestOutput_parents (finished held : Bool) {p' : ParentRequest Unit}
    (h : (s.makeRequestOutput st finished held).parents[i]? = some p') :
    ∃ p, s.parents[i]? = some p ∧ p'.requestId = p.requestId ∧
      p'.childRequests = if finished ∧ st.parentReq = some i then
        (p.finishChild st.requestId).childRequests else p.childRequests := by
  unfold makeRequestOutput at h
  split_ifs at h with hheld
  · exact ⟨p', h, rfl, by simp [hheld.1]⟩
  · cases hr : st.parentReq with
    | none =>
      rw [hr] at h
      exact ⟨p', h, rfl, by simp⟩
    | some r =>
      rw [hr] at h
      dsimp only at h
      rw [List.getElem?_modify] at h
      obtain ⟨p, hp, hpp⟩ := map_eq_some_iff.mp h
      refine ⟨p, hp, ?_⟩
      by_cases hi : r = i
      · subst hi
        simp only [if_true] at hpp
        rw [← hpp, ParentRequest.getOutputs_childRequests]
        simp
      · simp only [hi, if_false] at hpp
        subst hpp
        simp [hi]

theorem makeRequestOutput_parents_some (finished held : Bool) (h : s.parents[i]? = some p) :
    ∃ p', (s.makeRequestOutput st finished held).parents[i]? = some p' := by
  unfold makeRequestOutput
  split_ifs
  · exact ⟨p, h⟩
  · split
    · exact ⟨p, h⟩
    · rw [List.getElem?_modify, h]
      exact ⟨_, rfl⟩

@[simp] theorem makeRequestOutput_parentId (finished held : Bool) :
    (s.makeRequestOutput st finished held).parentId i = s.parentId i := by
  unfold parentId
  cases h : (s.makeRequestOutput st finished held).parents[i]? with
  | some p' =>
    obtain ⟨p, hp, hid, _⟩ := makeRequestOutput_parents finished held h
    rw [hp, map_some, map_some, hid]
  | none =>
    cases hs : s.parents[i]? with
    | none => rfl
    | some p =>
      obtain ⟨p', hp'⟩ := @makeRequestOutput_parents_some _ st _ _ finished held hs
      rw [h] at hp'
      cases hp'

/-- An output of a request; with its last one the request is not live any more. -/
theorem Books.makeRequestOutput (h : Books s) {finished : Bool} (held : Bool)
    (hgone : finished = true → s.requestStates.get? st.requestId = none) :
    Books (s.makeRequestOutput st finished held) where
  keyed := by
    rw [makeRequestOutput_requestStates]
    exact h.keyed
  childIn := by
    intro c st' i hst hi
    rw [makeRequestOutput_requestStates] at hst
    obtain ⟨p, hp, hc, hreg⟩ := h.childIn c st' i hst hi
    obtain ⟨p', hp'⟩ := @makeRequestOutput_parents_some _ st _ _ finished held hp
    obtain ⟨q, hq, hid, hch⟩ := makeRequestOutput_parents finished held hp'
    rw [hp] at hq
    cases hq
    refine ⟨p', hp', ?_, ?_⟩
    · rw [hch]
      split_ifs with hfin
      · refine ParentRequest.mem_finishChild.mpr ⟨hc, ?_⟩
        rintro rfl
        rw [hgone hfin.1] at hst
        cases hst
      · exact hc
    · rw [makeRequestOutput_parentRequests, hid]
      exact hreg
  childOwn := by
    intro i p' c st' hp' hc hst
    rw [makeRequestOutput_requestStates] at hst
    obtain ⟨p, hp, _, hch⟩ := makeRequestOutput_parents finished held hp'
    rw [hch] at hc
    refine h.childOwn i p c st' hp ?_ hst
    split_ifs at hc
    · exact (ParentRequest.mem_finishChild.mp hc).1
    · exact hc
  plain := by
    rw [makeRequestOutput_requestStates]
    exact h.plain
  childNodup := by
    intro i p' hp'
    obtain ⟨p, hp, _, hch⟩ := makeRequestOutput_parents finished held hp'
    rw [hch]
    split_ifs
    · exact (h.childNodup i p hp).filter _
    · exact h.childNodup i p hp
  parentIds := by
    intro i j k
    rw [makeRequestOutput_parentId, makeRequestOutput_parentId]
    exact h.parentIds i j k
  notLive := by
    intro i k
    rw [makeRequestOutput_parentId, makeRequestOutput_requestStates]
    exact h.notLive i k
  notChild := by
    intro i k j p' hk hp' hc
    rw [makeRequestOutput_parentId] at hk
    obtain ⟨p, hp, _, hch⟩ := makeRequestOutput_parents finished held hp'
    rw [hch] at hc
    refine h.notChild i k j p hk hp ?_
    split_ifs at hc
    · exact (ParentRequest.mem_finishChild.mp hc).1
    · exact hc
  registered := by
    intro k i
    rw [makeRequestOutput_parentRequests, makeRequestOutput_parentId]
    exact h.registered k i

end OutputProcessor

end MyOperator.Outputs
