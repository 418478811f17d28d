import MyOperator.Outputs.BookSteps

/-!
# Runs of the output processor's books

The calls to the output processor in any order. The books stay exact and no call
raises, as long as no abort names a request that it has already taken off the books,
and a registered parent loses its last live child only by an abort of the parent
itself, or when no other child is left on its record. An abort by the external id
leaves the parent registered for good.
-/

namespace MyOperator.Outputs

open Lib

variable {s t : OutputProcessor} {limit : Nat} {order : SetOrder}

/-- The calls: a `ParentRequest` is made, its children are added one by one, other requests and the
updates of sessions are added, outputs come in, requests are aborted. -/
inductive Call
  | newParent (requestId externalReqId : String) (outputKind : RequestOutputKind) (n : Nat)
  | addChild (parent index : Nat) (queue : Bool)
  | addRequest (request : EngineCoreRequest) (queue : Bool)
  | processOutputs (outputs : List EngineCoreOutput)
  | abortRequests (requestIds : List String) (internal : Bool)

namespace Call

/-- What a call does. Aborts recurse once, so any recursion limit from two on will do. -/
def run (order : SetOrder) (limit : Nat) (s : OutputProcessor) :
    Call → Except PyError OutputProcessor
  | newParent requestId externalReqId outputKind n =>
    .ok (s.newParent (.init requestId externalReqId outputKind n))
  | addChild parent index queue => s.addChild parent index queue
  | addRequest request queue => s.addRequest request none 0 queue
  | processOutputs outputs => s.processOutputs outputs
  | abortRequests requestIds internal =>
    (OutputProcessor.abortRequests order (limit + 2) s requestIds internal).map (·.2)

/-- The internal ids are unique, as `assign_request_id` and `get_child_info` make them: no two
parents share one, and the id of a parent, of a child and of another request are never the same. -/
def Unique (s : OutputProcessor) : Call → Prop
  | newParent requestId _ _ _ =>
    s.FreshId requestId ∧ s.requestStates.get? requestId = none
  | addChild parent index _ => s.FreshChild parent index
  | addRequest request _ => s.FreshId request.requestId
  | processOutputs _ => True
  | abortRequests _ _ => True

/-- No abort names a request that it has already taken off the books, and every registered parent
that an abort leaves registered keeps a live child. -/
structure AbortKeeps (s : OutputProcessor) (requestIds : List String) (internal : Bool) : Prop where
  distinct : internal = true → requestIds.Pairwise fun a b => ¬ s.Clash a b
  keeps : ∀ k r, s.parentRequests.get? k = some r → internal = true ∧ k ∈ requestIds ∨
    ∃ id st, s.requestStates.get? id = some st ∧ st.parentReq = some r ∧
      if internal then id ∉ requestIds else st.externalReqId ∉ requestIds

/-- The condition under which a call keeps the books exact. -/
def Keeps (s : OutputProcessor) : Call → Prop
  | processOutputs outputs => s.OutputsKeep outputs
  | abortRequests requestIds internal => AbortKeeps s requestIds internal
  | _ => True

end Call

/-- Runs of calls that meet the condition `C`. -/
def bookRuns (order : SetOrder) (limit : Nat) (C : OutputProcessor → Call → Prop) :
    TSys OutputProcessor where
  init s := s = .init
  step s t := ∃ call : Call, call.Unique s ∧ C s call ∧ call.run order limit s = .ok t

/-- The external ids list exactly the live internal ids that carry them, each once and none for
nothing, and the parents registered are those with a live child. -/
structure Exact (s : OutputProcessor) : Prop where
  external : Indexes s.externalReqIds fun ext id =>
    ∃ st, s.requestStates.get? id = some st ∧ st.externalReqId = ext
  parents : ∀ k r, s.parentRequests.get? k = some r ↔ s.parentId r = some k ∧ s.HasChild r

namespace OutputProcessor

theorem init_good : Good init where
  books := {
    keyed := fun _ _ h => nomatch h
    childIn := fun _ _ _ h => nomatch h
    childOwn := fun _ _ _ _ h => nomatch h
    plain := fun _ _ _ h => nomatch h
    childNodup := fun _ _ h => nomatch h
    parentIds := fun _ _ _ h => nomatch h
    notLive := fun _ _ _ => rfl
    notChild := fun _ _ _ _ h => nomatch h
    registered := fun _ _ h => nomatch h }
  external := Indexes.congr Indexes.empty fun _ _ =>
    ⟨False.elim, fun ⟨_, h, _⟩ => nomatch h⟩
  hasChild := fun _ _ h => nomatch h

theorem Good.exact (h : Good s) : Exact s where
  external := Indexes.congr h.external fun _ _ => by simp
  parents k r := by
    constructor
    · intro hk
      exact ⟨h.books.registered k r hk, h.hasChild k r hk⟩
    · rintro ⟨hk, id, st, hst, hr⟩
      exact h.books.child_registered hst hr hk

theorem abortRequests_good (h : Good s) {requestIds : List String} {internal : Bool}
    (hkeeps : Call.AbortKeeps s requestIds internal) :
    ∃ acc t, abortRequests order (limit + 2) s requestIds internal = .ok (acc, t) ∧ Good t := by
  cases internal with
  | true =>
    obtain ⟨acc, t, hrun, hab, hext⟩ := @abortInternal_ok _ limit _ order h.books h.external
        (hkeeps.distinct rfl)
    refine ⟨acc, t, hrun, hab.books, hext, fun k r hk => ?_⟩
    obtain ⟨hk, hnot⟩ := (hab.parents k r).mp hk
    rcases hkeeps.keeps k r hk with ⟨_, hmem⟩ | ⟨id, st, hst, hr, hid⟩
    · exact absurd hmem hnot
    · refine ⟨id, st, (hab.live id st).mpr ⟨hst, hid, fun i k' hi hk' => ?_⟩, hr⟩
      rw [hr] at hi
      cases hi
      have hsame : some k' = some k := hk'.symm.trans (h.books.registered k r hk)
      cases hsame
      exact hnot
  | false =>
    obtain ⟨acc, t, hrun, hbooks, hlive, hpar, _, hext⟩ := @abortExternal_ok _ (limit + 1)
        requestIds order h.books h.external
    refine ⟨acc, t, hrun, hbooks, hext, fun k r hk => ?_⟩
    rw [hpar] at hk
    rcases hkeeps.keeps k r hk with ⟨hf, _⟩ | ⟨id, st, hst, hr, hid⟩
    · cases hf
    · exact ⟨id, st, (hlive id st).mpr ⟨hst, hid⟩, hr⟩

theorem call_good (h : Good s) {call : Call} (hunique : call.Unique s) (hkeeps : call.Keeps s) :
    ∃ t, call.run order limit s = .ok t ∧ Good t := by
  cases call with
  | newParent requestId externalReqId outputKind n =>
    exact ⟨_, rfl, newParent_good h hunique.1 hunique.2 rfl⟩
  | addChild parent index queue => exact addChild_good h hunique
  | addRequest request queue => exact addRequest_good h hunique
  | processOutputs outputs => exact processOutputs_good h hkeeps
  | abortRequests requestIds internal =>
    obtain ⟨acc, t, hrun, hgood⟩ := @abortRequests_good _ limit order h _ _ hkeeps
    refine ⟨t, ?_, hgood⟩
    rw [Call.run, hrun]
    rfl

end OutputProcessor

/-- In every run of calls that meet the condition the books are exact, and no call that meets the
condition raises. -/
theorem books_exact (order : SetOrder) (limit : Nat) :
    (bookRuns order limit fun s call => call.Keeps s).Invariant fun s =>
      Exact s ∧ ∀ call : Call, call.Unique s → call.Keeps s →
        ∃ t, call.run order limit s = .ok t := by
  have hgood : (bookRuns order limit fun s call => call.Keeps s).Invariant
      OutputProcessor.Good := by
    refine TSys.Inductive.invariant ⟨?_, ?_⟩
    · rintro _ rfl
      exact OutputProcessor.init_good
    · rintro s t h ⟨call, hunique, hkeeps, hrun⟩
      obtain ⟨t', hrun', hgood⟩ := @OutputProcessor.call_good _ limit order h _ hunique hkeeps
      rw [hrun'] at hrun
      cases hrun
      exact hgood
  intro s hs
  refine ⟨(hgood s hs).exact, fun call hunique hkeeps => ?_⟩
  obtain ⟨t, hrun, _⟩ := @OutputProcessor.call_good _ limit order (hgood s hs) _ hunique hkeeps
  exact ⟨t, hrun⟩

/-- A set that is iterated in the order of the insertions. -/
def insertionOrder : SetOrder where
  order l := l
  perm l := .refl l

/-- Two samples of one request, both live. -/
def twoSamples : OutputProcessor where
  requestStates := (Dict.empty.set "0_p" (.fromNewRequest
      { requestId := "0_p", externalReqId := "e", outputKind := .delta } (some 0) 0 true)).set "1_p"
    (.fromNewRequest
      { requestId := "1_p", externalReqId := "e", outputKind := .delta } (some 0) 1 true)
  parentRequests := Dict.empty.set "p" 0
  externalReqIds := Dict.empty.set "e" ["0_p", "1_p"]
  parents := [{
    requestId := "p"
    externalReqId := "e"
    outputKind := .delta
    childRequests := ["0_p", "1_p"]
    outputAggregator := [] }]

theorem twoSamples_reachable :
    (bookRuns insertionOrder 0 fun _ _ => True).Reachable twoSamples := by
  have h0 := TSys.Reachable.init (T := bookRuns insertionOrder 0 fun _ _ => True) rfl
  have h1 := h0.step ⟨.newParent "p" "e" .delta 2,
    ⟨fun _ hp => (nomatch hp), rfl⟩, trivial, rfl⟩
  have hone : ∀ (s : OutputProcessor) (i : Nat) (q : ParentRequest Unit), s.parents.length = 1 →
      s.parents[i]? = some q → i = 0 := by
    intro s i q hlen hq
    have hlt := lt_of_getElem? hq
    omega
  have h2 := h1.step ⟨.addChild 0 0 true,
    ⟨_, rfl, rfl, by decide +kernel, fun i q hq _ => hone _ i q rfl hq⟩, trivial, rfl⟩
  have h3 := h2.step (t := twoSamples) ⟨.addChild 0 1 true,
    ⟨_, rfl, by decide +kernel, by decide +kernel, fun i q hq _ => hone _ i q rfl hq⟩, trivial,
    by decide +kernel⟩
  exact h3

/-- Aborted by their external id, the two samples leave their parent registered without a live
child. And naming the parent before a child in one abort raises. -/
theorem abort_by_external_id :
    (¬ (bookRuns insertionOrder 0 fun _ _ => True).Invariant Exact) ∧
      ∃ s, (bookRuns insertionOrder 0 fun _ _ => True).Reachable s ∧
        (Call.abortRequests ["p", "0_p"] true).run insertionOrder 0 s =
          .error (.ValueError "list.remove(x): x not in list") := by
  refine ⟨fun h => ?_, twoSamples, twoSamples_reachable, by decide +kernel⟩
  have hrun : ∃ t, (Call.abortRequests ["e"] false).run insertionOrder 0 twoSamples = .ok t ∧
      t.parentRequests.get? "p" = some 0 ∧ t.requestStates.entries = [] := by
    refine ⟨_, rfl, by decide +kernel, by decide +kernel⟩
  obtain ⟨t, hrun, hp, hnone⟩ := hrun
  have ht := h t (twoSamples_reachable.step ⟨.abortRequests ["e"] false, trivial, trivial, hrun⟩)
  obtain ⟨_, id, st, hst, _⟩ := (ht.parents "p" 0).mp hp
  rw [← Dict.mem_entries_iff, hnone] at hst
  cases hst

end MyOperator.Outputs
