import MyOperator.Outputs.Aborts

/-!
# Steps of the output processor's books

What the additions and the outputs do to the books. A request that finishes takes its
parent along if no other child is left on the parent's record; the books stay exact
if then no other child is live.
-/

namespace MyOperator.Outputs

open Lib List Option Dict

variable {s t : OutputProcessor} {st st' : RequestState} {id k : String} {r limit : Nat}
  {held : Bool} {order : SetOrder}

namespace OutputProcessor

/-! ## The end of a request -/

/-- When the request finishes, its parent keeps a live child or has no other child on record. -/
def KeepsParent (s : OutputProcessor) (st : RequestState) : Prop :=
  ∀ r, st.parentReq = some r →
    (∃ id st', s.requestStates.get? id = some st' ∧ id ≠ st.requestId ∧ st'.parentReq = some r) ∨
      ∀ p, s.parents[r]? = some p → ∀ c ∈ p.childRequests, c = st.requestId

theorem makeRequestOutput_popRequest (finished held : Bool) :
    (s.popRequest id).makeRequestOutput st finished held =
      (s.makeRequestOutput st finished held).popRequest id := by
  unfold makeRequestOutput
  split_ifs
  · rfl
  · cases st.parentReq <;> rfl

theorem makeRequestOutput_of_none (h : st.parentReq = none) (finished held : Bool) :
    s.makeRequestOutput st finished held = s := by
  unfold makeRequestOutput
  rw [h]
  split_ifs <;> rfl

/-- What a finished request leaves, before its parent is looked at. -/
def afterFinish (s : OutputProcessor) (st : RequestState) (held : Bool)
    (externalReqIds : Dict String (List String)) : OutputProcessor :=
  ((s.makeRequestOutput st true held).popRequest st.requestId).setExternal externalReqIds

variable {d : Dict String (List String)} {i : Nat} {p : ParentRequest Unit} {parentReq : Option Nat}
  {queue : Bool}

theorem get?_afterFinish {c : String} :
    (s.afterFinish st held d).requestStates.get? c = some st' ↔
      s.requestStates.get? c = some st' ∧ c ≠ st.requestId := by
  show ((s.makeRequestOutput st true held).popRequest st.requestId).requestStates.get? c = _ ↔ _
  rw [get?_popRequest, makeRequestOutput_requestStates]

theorem afterFinish_books (h : Good s) (hst : s.requestStates.get? st.requestId = some st) :
    ∃ d, ((s.makeRequestOutput st true held).popRequest st.requestId).removeInternal
        st.externalReqId st.requestId = .ok (s.afterFinish st held d) ∧
      Books (s.afterFinish st held d) ∧ External (s.afterFinish st held d) fun _ => False := by
  obtain ⟨d, hd, hindex⟩ := Indexes.remove h.external ⟨st, hst, rfl, not_false⟩
  have hgone : (s.popRequest st.requestId).requestStates.get? st.requestId = none :=
    get?_erase_self _ _
  have hbooks := @Books.makeRequestOutput _ st (h.books.popRequest st.requestId) true held
    fun _ => hgone
  rw [makeRequestOutput_popRequest] at hbooks
  refine ⟨d, ?_, hbooks.setExternal d, ?_⟩
  · have hsame : ((s.makeRequestOutput st true held).popRequest st.requestId).externalReqIds =
        s.externalReqIds := makeRequestOutput_externalReqIds true held
    rw [removeInternal, hsame, hd]
    rfl
  · refine Indexes.congr hindex fun ext c => ?_
    constructor
    · rintro ⟨⟨st', hst', hext, _⟩, hne⟩
      refine ⟨st', get?_afterFinish.mpr ⟨hst', ?_⟩, hext, not_false⟩
      rintro rfl
      have hsame : some st' = some st := hst'.symm.trans hst
      cases hsame
      exact hne ⟨hext.symm, rfl⟩
    · rintro ⟨st', hst', hext, _⟩
      obtain ⟨hst', hne⟩ := get?_afterFinish.mp hst'
      exact ⟨⟨st', hst', hext, not_false⟩, fun heq => hne heq.2⟩

theorem HasChild.afterFinish (h : HasChild s i) (hst : s.requestStates.get? st.requestId = some st)
    (hne : st.parentReq ≠ some i) : HasChild (s.afterFinish st held d) i := by
  obtain ⟨c, st', hc, hi⟩ := h
  refine ⟨c, st', get?_afterFinish.mpr ⟨hc, ?_⟩, hi⟩
  rintro rfl
  have hsame : some st = some st' := hst.symm.trans hc
  cases hsame
  exact hne hi

theorem forgetParent_good (h : Good s) (hst : s.requestStates.get? st.requestId = some st)
    (hkeep : KeepsParent s st) (hbooks : Books (s.afterFinish st held d))
    (hext : External (s.afterFinish st held d) fun _ => False) :
    Good ((s.afterFinish st held d).forgetParent st) := by
  have hreg : ∀ k i, (s.afterFinish st held d).parentRequests.get? k = some i →
      s.parentRequests.get? k = some i := by
    intro k i hk
    have hsame : (s.afterFinish st held d).parentRequests = s.parentRequests :=
      makeRequestOutput_parentRequests true held
    rwa [hsame] at hk
  unfold forgetParent
  cases hr : st.parentReq with
  | none =>
    refine ⟨hbooks, hext, fun k i hk => (h.hasChild k i (hreg k i hk)).afterFinish hst ?_⟩
    rw [hr]
    exact fun hf => nomatch hf
  | some r =>
    obtain ⟨p, hp, hmem, hpar⟩ := h.books.childIn _ st r hst hr
    obtain ⟨p', hp'⟩ := @makeRequestOutput_parents_some _ st _ _ true held hp
    obtain ⟨q, hq, hid, hch⟩ := makeRequestOutput_parents true held hp'
    rw [hp] at hq
    cases hq
    rw [if_pos ⟨rfl, hr⟩] at hch
    have hparents : (s.afterFinish st held d).parents[r]? = some p' := hp'
    rw [bind_some, hparents]
    dsimp only
    split_ifs with hnil
    · -- no child is left on the record: the parent goes
      have hno : ¬ HasChild (s.afterFinish st held d) r := by
        rintro ⟨c, st', hc, hi⟩
        have hc' := (hbooks.mem_children hparents hc).mpr hi
        rw [hnil] at hc'
        cases hc'
      have hk : (s.afterFinish st held d).parentId r = some p'.requestId :=
        parentId_eq_some.mpr ⟨p', hparents, rfl⟩
      refine ⟨hbooks.popParent hk hno, hext.of_eq rfl rfl, fun k i hi => ?_⟩
      rw [get?_erase] at hi
      split_ifs at hi with hkp
      have hne : st.parentReq ≠ some i := ?_
      · exact @HasChild.afterFinish _ _ held d _ (h.hasChild k i (hreg k i hi)) hst hne
      rw [hr]
      rintro ⟨⟩
      have hkr := h.books.registered k r (hreg k r hi)
      rw [parentId, hp] at hkr
      cases hkr
      exact hkp hid.symm
    · refine ⟨hbooks, hext, fun k i hi => ?_⟩
      by_cases hir : st.parentReq = some i
      · rcases hkeep i hir with ⟨c, st', hc, hne, hi'⟩ | hall
        · exact ⟨c, st', get?_afterFinish.mpr ⟨hc, hne⟩, hi'⟩
        · rw [hr] at hir
          cases hir
          refine absurd (eq_nil_iff_forall_not_mem.mpr fun c hc => ?_) hnil
          rw [hch, ParentRequest.mem_finishChild] at hc
          exact hc.2 (hall p hp c hc.1)
      · exact (h.hasChild k i (hreg k i hi)).afterFinish hst hir

theorem finishRequest_good (h : Good s) (hst : s.requestStates.get? id = some st)
    (hkeep : KeepsParent s st) :
    ∃ t, (s.makeRequestOutput st true held).finishRequest st = .ok t ∧ Good t := by
  have hid := h.books.keyed id st hst
  subst hid
  obtain ⟨d, hd, hbooks, hext⟩ := @afterFinish_books _ _ held h hst
  have hcontains : (s.makeRequestOutput st true held).requestStates.contains st.requestId =
      true := by
    rw [makeRequestOutput_requestStates, Dict.contains, hst]
    rfl
  refine ⟨(s.afterFinish st held d).forgetParent st, ?_, forgetParent_good h hst hkeep hbooks hext⟩
  rw [finishRequest, if_neg (by rw [hcontains]; exact Bool.noConfusion)]
  exact congrArg (Except.map fun s => s.forgetParent st) hd

/-! ## Outputs -/

/-- An output that finishes a request leaves its parent a live child, or no child on record. -/
def OutputKeeps (s : OutputProcessor) (output : EngineCoreOutput) : Prop :=
  ∀ st, s.requestStates.get? output.requestId = some st →
    (output.finishReason || output.stopString) = true → KeepsParent s st

/-- The outputs of one call, one after the other. -/
def OutputsKeep : OutputProcessor → List EngineCoreOutput → Prop
  | _, [] => True
  | s, output :: outputs =>
    OutputKeeps s output ∧ ∀ t, s.processOutput output = .ok t → OutputsKeep t outputs

theorem setRequest_good (h : Good s) (hst : s.requestStates.get? id = some st)
    (hpar : st.parentReq = none) (hpar' : st'.parentReq = none) (hid : id = st'.requestId)
    (hext : st'.externalReqId = st.externalReqId) :
    Good { s with requestStates := s.requestStates.set id st' } := by
  have hget : ∀ c u, (s.requestStates.set id st').get? c = some u →
      c = id ∧ u = st' ∨ c ≠ id ∧ s.requestStates.get? c = some u := by
    intro c u hc
    rw [get?_set] at hc
    split_ifs at hc with hcid
    · exact .inl ⟨hcid, (Option.some.inj hc).symm⟩
    · exact .inr ⟨hcid, hc⟩
  refine ⟨{ h.books with
      keyed := ?_, childIn := ?_, childOwn := ?_, plain := ?_, notLive := ?_ }, ?_, ?_⟩
  · intro c u hc
    rcases hget c u hc with ⟨rfl, rfl⟩ | ⟨_, hc⟩
    · exact hid.symm
    · exact h.books.keyed c u hc
  · intro c u r hc hr
    rcases hget c u hc with ⟨rfl, rfl⟩ | ⟨_, hc⟩
    · rw [hpar'] at hr
      cases hr
    · exact h.books.childIn c u r hc hr
  · intro r p c u hp hcp hc
    rcases hget c u hc with ⟨rfl, rfl⟩ | ⟨_, hc⟩
    · rw [h.books.childOwn r p c st hp hcp hst] at hpar
      cases hpar
    · exact h.books.childOwn r p c u hp hcp hc
  · intro c u r hc hr
    rcases hget c u hc with ⟨rfl, rfl⟩ | ⟨_, hc⟩
    · rw [hpar'] at hr
      cases hr
    · exact h.books.plain c u r hc hr
  · intro r k hk
    have hnone := h.books.notLive r k hk
    show (s.requestStates.set id st').get? k = none
    rw [get?_set, if_neg, hnone]
    rintro rfl
    rw [hst] at hnone
    cases hnone
  · refine Indexes.congr h.external fun ext c => ?_
    by_cases hc : c = id
    · subst hc
      simp [hst, hext]
    · simp [get?_set, hc]
  · intro k r hk
    obtain ⟨c, u, hc, hr⟩ := h.hasChild k r hk
    refine ⟨c, u, ?_, hr⟩
    have hcid : c ≠ id := by
      rintro rfl
      rw [hst] at hc
      cases hc
      rw [hpar] at hr
      cases hr
    exact (get?_set_of_ne _ _ hcid).trans hc

theorem processOutput_good (h : Good s) {output : EngineCoreOutput}
    (hkeep : OutputKeeps s output) : ∃ t, s.processOutput output = .ok t ∧ Good t := by
  rw [processOutput]
  cases hst : s.requestStates.get? output.requestId with
  | none => exact ⟨s, rfl, h⟩
  | some st =>
    have hid := h.books.keyed _ st hst
    cases hfin : output.finishReason || output.stopString with
    | false =>
      refine ⟨_, if_pos rfl, h.books.makeRequestOutput _ (fun hf => Bool.noConfusion hf), ?_, ?_⟩
      · exact h.external.of_eq (makeRequestOutput_requestStates _ _)
          (makeRequestOutput_externalReqIds _ _)
      · intro k r hk
        rw [makeRequestOutput_parentRequests] at hk
        obtain ⟨c, u, hc, hr⟩ := h.hasChild k r hk
        refine ⟨c, u, ?_, hr⟩
        rw [makeRequestOutput_requestStates]
        exact hc
    | true =>
      simp only [Bool.true_eq_false, if_false]
      split_ifs with hstream
      · -- the chunk of a session ends, the session goes on
        have hpar : st.parentReq = none := by
          cases hr : st.parentReq with
          | none => rfl
          | some r =>
            rw [h.books.plain _ st r hst hr] at hstream
            cases hstream
        rw [makeRequestOutput_of_none hpar]
        rw [← hid] at hst
        split
        · exact ⟨_, rfl, setRequest_good h hst hpar hpar rfl rfl⟩
        · exact ⟨_, rfl, setRequest_good h hst hpar hpar rfl rfl⟩
      · exact finishRequest_good h hst (hkeep st hst hfin)

theorem processOutputs_good {outputs : List EngineCoreOutput} (h : Good s)
    (hkeep : OutputsKeep s outputs) : ∃ t, s.processOutputs outputs = .ok t ∧ Good t := by
  induction outputs generalizing s with
  | nil => exact ⟨s, rfl, h⟩
  | cons output outputs ih =>
    obtain ⟨hone, hrest⟩ := hkeep
    obtain ⟨t, ht, hgood⟩ := processOutput_good h hone
    rw [processOutputs, foldlM_cons, ht]
    exact ih hgood (hrest t ht)

/-! ## Additions -/

/-- No parent object has the id, and none has it on its record. -/
def FreshId (s : OutputProcessor) (id : String) : Prop :=
  ∀ p ∈ s.parents, p.requestId ≠ id ∧ id ∉ p.childRequests

theorem FreshId.parentId (h : FreshId s id) : s.parentId r ≠ some id := by
  intro hr
  obtain ⟨p, hp, hid⟩ := parentId_eq_some.mp hr
  exact (h p (mem_of_getElem? hp)).1 hid

theorem newParent_good (h : Good s) (hfresh : FreshId s p.requestId)
    (hlive : s.requestStates.get? p.requestId = none) (hnil : p.childRequests = []) :
    Good (s.newParent p) := by
  have hold : ∀ (i : Nat) q, s.parents[i]? = some q → (s.parents ++ [p])[i]? = some q := by
    intro i q hq
    rw [getElem?_append_left (lt_of_getElem? hq)]
    exact hq
  have hnew : ∀ (i : Nat) q, (s.parents ++ [p])[i]? = some q →
      s.parents[i]? = some q ∨ i = s.parents.length ∧ q = p := by
    intro i q hq
    by_cases hi : i < s.parents.length
    · rw [getElem?_append_left hi] at hq
      exact .inl hq
    · rw [getElem?_append_right (Nat.not_lt.mp hi)] at hq
      have hlt := lt_of_getElem? hq
      rw [length_singleton] at hlt
      have hzero : i - s.parents.length = 0 := by omega
      rw [hzero] at hq
      exact .inr ⟨by omega, (Option.some.inj hq).symm⟩
  have hid : ∀ i k, (s.newParent p).parentId i = some k →
      s.parentId i = some k ∨ i = s.parents.length ∧ k = p.requestId := by
    intro i k hk
    obtain ⟨q, hq, hqk⟩ := parentId_eq_some.mp hk
    rcases hnew i q hq with hq | ⟨hi, rfl⟩
    · exact .inl (parentId_eq_some.mpr ⟨q, hq, hqk⟩)
    · exact .inr ⟨hi, hqk.symm⟩
  refine ⟨{ h.books with
      childIn := ?_, childOwn := ?_, childNodup := ?_, parentIds := ?_, notLive := ?_,
      notChild := ?_, registered := ?_ }, h.external, h.hasChild⟩
  · intro c st r hst hr
    obtain ⟨q, hq, hc, hreg⟩ := h.books.childIn c st r hst hr
    exact ⟨q, hold r q hq, hc, hreg⟩
  · intro i q c st hq hc hst
    rcases hnew i q hq with hq | ⟨_, rfl⟩
    · exact h.books.childOwn i q c st hq hc hst
    · rw [hnil] at hc
      cases hc
  · intro i q hq
    rcases hnew i q hq with hq | ⟨_, rfl⟩
    · exact h.books.childNodup i q hq
    · rw [hnil]
      exact nodup_nil
  · intro i j k hi hj
    rcases hid i k hi with hi' | ⟨rfl, hik⟩
    · rcases hid j k hj with hj' | ⟨_, hjk⟩
      · exact h.books.parentIds i j k hi' hj'
      · exact absurd (hjk ▸ hi') hfresh.parentId
    · rcases hid j k hj with hj' | ⟨rfl, _⟩
      · exact absurd (hik ▸ hj') hfresh.parentId
      · rfl
  · intro i k hk
    rcases hid i k hk with hk | ⟨_, rfl⟩
    · exact h.books.notLive i k hk
    · exact hlive
  · intro i k j q hk hq hc
    rcases hnew j q hq with hq | ⟨_, rfl⟩
    · rcases hid i k hk with hk | ⟨_, rfl⟩
      · exact h.books.notChild i k j q hk hq hc
      · exact (hfresh q (mem_of_getElem? hq)).2 hc
    · rw [hnil] at hc
      cases hc
  · intro k i hk
    obtain ⟨q, hq, hqk⟩ := parentId_eq_some.mp (h.books.registered k i hk)
    exact parentId_eq_some.mpr ⟨q, hold i q hq, hqk⟩

theorem registerParent_of_old (h : Books s) (hk : s.parentRequests.get? k = some i) :
    (s.registerParent parentReq).get? k = some i := by
  unfold registerParent
  split
  · exact hk
  · next k' r heq =>
      rw [get?_set]
      split_ifs with hkk
      · subst hkk
        obtain ⟨r', rfl, hr'⟩ := bind_eq_some_iff.mp heq
        obtain ⟨k', hk', hpair⟩ := map_eq_some_iff.mp hr'
        cases hpair
        exact congrArg some (h.parentIds _ _ _ hk' (h.registered _ _ hk))
      · exact hk

theorem registerParent_self (hp : s.parents[r]? = some p) :
    (s.registerParent (some r)).get? p.requestId = some r := by
  rw [registerParent, bind_some, parentId, hp]
  exact get?_set_self _ _ _

theorem registerParent_cases (h : (s.registerParent parentReq).get? k = some i) :
    s.parentRequests.get? k = some i ∨ parentReq = some i ∧ s.parentId i = some k := by
  unfold registerParent at h
  split at h
  · exact .inl h
  · next k' r heq =>
      obtain ⟨r', rfl, hr'⟩ := bind_eq_some_iff.mp heq
      obtain ⟨k'', hk', hpair⟩ := map_eq_some_iff.mp hr'
      cases hpair
      rw [get?_set] at h
      split_ifs at h with hkk
      · cases h
        exact .inr ⟨rfl, hkk ▸ hk'⟩
      · exact .inl h

theorem addNew_good (h : Good s) {request : EngineCoreRequest} {requestIndex : Nat}
    (hnew : s.requestStates.get? request.requestId = none)
    (hid : ∀ r, s.parentId r ≠ some request.requestId)
    (hpar : ∀ r, parentReq = some r → request.resumable = false ∧
      ∃ p : ParentRequest Unit, s.parents[r]? = some p ∧ request.requestId ∈ p.childRequests)
    (hown : ∀ (r : Nat) (p : ParentRequest Unit), s.parents[r]? = some p →
      request.requestId ∈ p.childRequests → parentReq = some r) :
    ∃ t, s.addRequest request parentReq requestIndex queue = .ok t ∧ Good t := by
  rw [addRequest, hnew]
  generalize hst : RequestState.fromNewRequest request parentReq requestIndex queue = st0
  have hget : ∀ c u, (s.requestStates.set request.requestId st0).get? c = some u ↔
      c = request.requestId ∧ u = st0 ∨ s.requestStates.get? c = some u := by
    intro c u
    rw [get?_set]
    by_cases hc : c = request.requestId
    · simp [hc, hnew, eq_comm]
    · simp [hc]
  have hreq0 : st0.requestId = request.requestId := hst ▸ rfl
  have hext0 : st0.externalReqId = request.externalReqId := hst ▸ rfl
  have hpar0 : st0.parentReq = parentReq := hst ▸ rfl
  have hres0 : st0.streamingInput = request.resumable := hst ▸ rfl
  refine ⟨_, rfl, { h.books with
      keyed := ?_, childIn := ?_, childOwn := ?_, plain := ?_, notLive := ?_,
      registered := ?_ }, ?_, ?_⟩
  · intro c u hc
    rcases (hget c u).mp hc with ⟨rfl, rfl⟩ | hc
    · exact hreq0
    · exact h.books.keyed c u hc
  · intro c u r hc hr
    rcases (hget c u).mp hc with ⟨rfl, rfl⟩ | hc
    · rw [hpar0] at hr
      obtain ⟨p, hp, hmem⟩ := (hpar r hr).2
      exact ⟨p, hp, hmem, hr ▸ registerParent_self hp⟩
    · obtain ⟨p, hp, hmem, hreg⟩ := h.books.childIn c u r hc hr
      exact ⟨p, hp, hmem, registerParent_of_old h.books hreg⟩
  · intro r p c u hp hmem hc
    rcases (hget c u).mp hc with ⟨rfl, rfl⟩ | hc
    · rw [hpar0]
      exact hown r p hp hmem
    · exact h.books.childOwn r p c u hp hmem hc
  · intro c u r hc hr
    rcases (hget c u).mp hc with ⟨rfl, rfl⟩ | hc
    · rw [hpar0] at hr
      rw [hres0]
      exact (hpar r hr).1
    · exact h.books.plain c u r hc hr
  · intro r k hk
    have hne : k ≠ request.requestId := by
      rintro rfl
      exact hid r hk
    exact (get?_set_of_ne _ _ hne).trans (h.books.notLive r k hk)
  · intro k i hk
    rcases registerParent_cases hk with hk | ⟨_, hk⟩
    · exact h.books.registered k i hk
    · exact hk
  · have hnone : ¬ ∃ st, s.requestStates.get? request.requestId = some st ∧
        st.externalReqId = request.externalReqId ∧ ¬ False := by
      rintro ⟨st, hst, _⟩
      rw [hnew] at hst
      cases hst
    refine Indexes.congr (Indexes.append h.external hnone) fun ext c => ?_
    constructor
    · rintro (⟨u, hu, hext, _⟩ | ⟨rfl, rfl⟩)
      · exact ⟨u, (hget c u).mpr (.inr hu), hext, not_false⟩
      · exact ⟨st0, (hget _ _).mpr (.inl ⟨rfl, rfl⟩), hext0, not_false⟩
    · rintro ⟨u, hu, hext, _⟩
      rcases (hget c u).mp hu with ⟨rfl, rfl⟩ | hu
      · exact .inr ⟨hext.symm.trans hext0, rfl⟩
      · exact .inl ⟨u, hu, hext, not_false⟩
  · intro k i hk
    rcases registerParent_cases hk with hk | ⟨hr, _⟩
    · obtain ⟨c, u, hc, hr⟩ := h.hasChild k i hk
      exact ⟨c, u, (hget c u).mpr (.inr hc), hr⟩
    · exact ⟨request.requestId, st0, (hget _ _).mpr (.inl ⟨rfl, rfl⟩), hpar0.trans hr⟩

theorem FreshId.parentReq_none (h : FreshId s id) (hB : Books s)
    (hst : s.requestStates.get? id = some st) : st.parentReq = none := by
  cases hr : st.parentReq with
  | none => rfl
  | some r =>
    obtain ⟨p, hp, hmem, _⟩ := hB.childIn id st r hst hr
    exact absurd hmem (h p (mem_of_getElem? hp)).2

theorem addRequest_good (h : Good s) {request : EngineCoreRequest}
    (hfresh : FreshId s request.requestId) :
    ∃ t, s.addRequest request none 0 queue = .ok t ∧ Good t := by
  cases hst : s.requestStates.get? request.requestId with
  | none =>
    refine addNew_good h hst (fun _ => hfresh.parentId) (fun r hr => nomatch hr) ?_
    intro r p hp hmem
    exact absurd hmem (hfresh p (mem_of_getElem? hp)).2
  | some st =>
    have hpar := hfresh.parentReq_none h.books hst
    have hid := h.books.keyed _ st hst
    have hkeep : KeepsParent s st := by
      intro r hr
      rw [hpar] at hr
      cases hr
    rw [← hid] at hst
    rw [addRequest, ← hid, hst]
    dsimp only
    unfold updateStreamingRequestState
    dsimp only
    split_ifs
    · split
      · have hfin := @finishRequest_good _ _ _ false h hst hkeep
        rwa [makeRequestOutput_of_none hpar] at hfin
      · refine ⟨_, rfl, ?_⟩
        exact setRequest_good h hst hpar hpar rfl rfl
      · refine ⟨_, rfl, ?_⟩
        exact setRequest_good h hst hpar hpar rfl rfl
    · split
      · refine ⟨_, rfl, ?_⟩
        exact setRequest_good h hst hpar hpar rfl rfl
      · refine ⟨_, rfl, ?_⟩
        exact setRequest_good h hst hpar hpar rfl rfl

theorem getChildInfo_good (h : Good s) {index : Nat} (hp : s.parents[r]? = some p)
    (hlive : s.requestStates.get? (p.childReqId index) = none)
    (hid : ∀ i, s.parentId i ≠ some (p.childReqId index)) :
    Good { s with parents := s.parents.set r (p.getChildInfo index).2 } := by
  have hlt := lt_of_getElem? hp
  have hget : ∀ (i : Nat) q, (s.parents.set r (p.getChildInfo index).2)[i]? = some q ↔
      i = r ∧ q = (p.getChildInfo index).2 ∨ i ≠ r ∧ s.parents[i]? = some q := by
    intro i q
    rw [getElem?_set]
    by_cases hi : r = i
    · simp [hi.symm, hlt, eq_comm]
    · simp [hi, Ne.symm hi]
  have hsame : ∀ i, ({ s with parents := s.parents.set r (p.getChildInfo index).2 } :
      OutputProcessor).parentId i = s.parentId i := by
    intro i
    by_cases hi : i = r
    · subst hi
      rw [parentId, (hget i _).mpr (.inl ⟨rfl, rfl⟩), parentId, hp]
      simp
    · rw [parentId, parentId, getElem?_set_ne (Ne.symm hi)]
  have hback : ∀ (i : Nat) q, (s.parents.set r (p.getChildInfo index).2)[i]? = some q →
      ∃ q' : ParentRequest Unit, s.parents[i]? = some q' ∧
        ∀ c ∈ q.childRequests, c ∈ q'.childRequests ∨ c = p.childReqId index := by
    intro i q hq
    rcases (hget i q).mp hq with ⟨rfl, rfl⟩ | ⟨_, hq⟩
    · exact ⟨p, hp, fun c hc => ParentRequest.mem_getChildInfo.mp hc⟩
    · exact ⟨q, hq, fun c hc => .inl hc⟩
  refine ⟨{ h.books with
      childIn := ?_, childOwn := ?_, childNodup := ?_, parentIds := ?_, notLive := ?_,
      notChild := ?_, registered := ?_ }, h.external, h.hasChild⟩
  · intro c u i hc hr
    obtain ⟨q, hq, hmem, hreg⟩ := h.books.childIn c u i hc hr
    by_cases hi : i = r
    · subst hi
      rw [hp] at hq
      cases hq
      refine ⟨_, (hget i _).mpr (.inl ⟨rfl, rfl⟩), ParentRequest.mem_getChildInfo.mpr (.inl hmem), ?_⟩
      rw [ParentRequest.getChildInfo_requestId]
      exact hreg
    · exact ⟨q, (hget i q).mpr (.inr ⟨hi, hq⟩), hmem, hreg⟩
  · intro i q c u hq hmem hc
    obtain ⟨q', hq', hsub⟩ := hback i q hq
    rcases hsub c hmem with hmem | rfl
    · exact h.books.childOwn i q' c u hq' hmem hc
    · rw [hlive] at hc
      cases hc
  · intro i q hq
    rcases (hget i q).mp hq with ⟨rfl, rfl⟩ | ⟨_, hq⟩
    · exact ParentRequest.nodup_getChildInfo (h.books.childNodup i p hp)
    · exact h.books.childNodup i q hq
  · intro i j k
    rw [hsame, hsame]
    exact h.books.parentIds i j k
  · intro i k
    rw [hsame]
    exact h.books.notLive i k
  · intro i k j q hk hq hmem
    rw [hsame] at hk
    obtain ⟨q', hq', hsub⟩ := hback j q hq
    rcases hsub k hmem with hmem | rfl
    · exact h.books.notChild i k j q' hk hq' hmem
    · exact hid i hk
  · intro k i
    rw [hsame]
    exact h.books.registered k i

/-- The id of a child is no other id. -/
def FreshChild (s : OutputProcessor) (r index : Nat) : Prop :=
  ∃ p, s.parents[r]? = some p ∧ s.requestStates.get? (p.childReqId index) = none ∧
    (∀ q ∈ s.parents, q.requestId ≠ p.childReqId index) ∧
    ∀ (i : Nat) (q : ParentRequest Unit), s.parents[i]? = some q →
      p.childReqId index ∈ q.childRequests → i = r

theorem addChild_good (h : Good s) {index : Nat} (hfresh : FreshChild s r index) :
    ∃ t, s.addChild r index queue = .ok t ∧ Good t := by
  obtain ⟨p, hp, hlive, hids, hother⟩ := hfresh
  have hid : ∀ i, s.parentId i ≠ some (p.childReqId index) := by
    intro i hi
    obtain ⟨q, hq, hqi⟩ := parentId_eq_some.mp hi
    exact hids q (mem_of_getElem? hq) hqi
  have hlt := lt_of_getElem? hp
  have hset : (s.parents.set r (p.getChildInfo index).2)[r]? = some (p.getChildInfo index).2 :=
    getElem?_set_self hlt
  rw [addChild, hp]
  refine addNew_good (getChildInfo_good h hp hlive hid) hlive ?_ ?_ ?_
  · intro i hi
    refine hid i ?_
    rw [← hi]
    by_cases hir : i = r
    · subst hir
      rw [parentId, parentId, hset, hp]
      simp
    · rw [parentId, parentId, getElem?_set_ne (Ne.symm hir)]
  · rintro i ⟨⟩
    exact ⟨rfl, _, hset, ParentRequest.mem_getChildInfo.mpr (.inr rfl)⟩
  · intro i q hq hmem
    by_cases hir : i = r
    · rw [hir]
    · rw [getElem?_set_ne (Ne.symm hir)] at hq
      rw [hother i q hq hmem]

end OutputProcessor

end MyOperator.Outputs
