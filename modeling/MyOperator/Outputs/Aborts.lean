import MyOperator.Outputs.Books

/-!
# Aborts

The two loops of `abort_requests`. First the ids leave the lists of their external
ids, then the requests leave the books one by one; a parent takes its children with
it through a recursive call.
-/

namespace MyOperator.Outputs

open Lib List

variable {s t u : OutputProcessor} {st : RequestState} {id k x : String} {r depth : Nat}
  {P Q : String → Prop} {L children acc : List String} {order : SetOrder}

namespace OutputProcessor

theorem External.of_eq (h : External s P) (hstates : t.requestStates = s.requestStates)
    (hext : t.externalReqIds = s.externalReqIds) : External t P := by
  unfold External at h ⊢
  rw [hstates, hext]
  exact h

/-! ## The first loop -/

theorem removeInternal_ok (h : External s P) (hst : s.requestStates.get? id = some st)
    (hnot : ¬ P id) : ∃ d, s.removeInternal st.externalReqId id = .ok (s.setExternal d) ∧
      External (s.setExternal d) fun c => c = id ∨ P c := by
  obtain ⟨d, hd, hindex⟩ := Indexes.remove h ⟨st, hst, rfl, hnot⟩
  refine ⟨d, by rw [removeInternal, hd]; rfl, Indexes.congr hindex fun ext c => ?_⟩
  constructor
  · rintro ⟨⟨st', hst', hext, hnot'⟩, hne⟩
    refine ⟨st', hst', hext, ?_⟩
    rintro (rfl | hc)
    · have hsame : some st' = some st := hst'.symm.trans hst
      cases hsame
      exact hne ⟨hext.symm, rfl⟩
    · exact hnot' hc
  · rintro ⟨st', hst', hext, hnot'⟩
    exact ⟨⟨st', hst', hext, fun hc => hnot' (.inr hc)⟩, fun heq => hnot' (.inl heq.2)⟩

theorem unlink_ok (h : External s P)
    (hdistinct : L.Pairwise fun a b => a = b → s.requestStates.get? b = none)
    (hfree : ∀ c ∈ L, ∀ st, s.requestStates.get? c = some st → ¬ P c) :
    ∃ d, L.foldlM unlinkInternal s = .ok (s.setExternal d) ∧
      External (s.setExternal d) fun c => c ∈ L ∨ P c := by
  induction L generalizing s P with
  | nil => exact ⟨_, rfl, External.congr h fun c st _ => by simp⟩
  | cons x L ih =>
    obtain ⟨hx, hL⟩ := pairwise_cons.mp hdistinct
    rw [foldlM_cons, unlinkInternal]
    cases hst : s.requestStates.get? x with
    | none =>
      obtain ⟨d, hd, hext⟩ := ih h hL fun c hc => hfree c (mem_cons_of_mem _ hc)
      refine ⟨d, hd, External.congr hext fun c st hc => ?_⟩
      have hne : c ≠ x := by
        rintro rfl
        have hsame : none = some st := hst.symm.trans hc
        cases hsame
      simp [hne]
    | some st =>
      obtain ⟨d, hd, hext⟩ := removeInternal_ok h hst (hfree x mem_cons_self st hst)
      have hfree' : ∀ c ∈ L, ∀ st', s.requestStates.get? c = some st' → ¬ (c = x ∨ P c) := by
        rintro c hc st' hst' (rfl | hp)
        · rw [hx c hc rfl] at hst'
          cases hst'
        · exact hfree c (mem_cons_of_mem _ hc) st' hst' hp
      obtain ⟨d', hd', hext'⟩ := ih hext hL hfree'
      refine ⟨d', ?_, External.congr hext' fun c st _ => ?_⟩
      · dsimp only
        rw [hd]
        exact hd'
      · rw [mem_cons, or_left_comm, or_assoc]

/-! ## The second loop -/

/-- What is left of the books after a live request was aborted. -/
def afterAbort (s : OutputProcessor) (id : String) (st : RequestState) : OutputProcessor :=
  if st.queue then (s.popRequest id).makeRequestOutput st true false else s.popRequest id

/-- The requests of `gone` have left, everything else is as before. -/
structure Popped (s t : OutputProcessor) (gone : List String) : Prop where
  books : Books t
  live : ∀ id st, t.requestStates.get? id = some st ↔ s.requestStates.get? id = some st ∧ id ∉ gone
  parentRequests : t.parentRequests = s.parentRequests
  parentId : ∀ r, t.parentId r = s.parentId r

theorem Popped.refl (h : Books s) : Popped s s [] where
  books := h
  live _ _ := by simp
  parentRequests := rfl
  parentId _ := rfl

theorem Popped.trans {gone gone' : List String} (h : Popped s t gone) (h' : Popped t u gone') :
    Popped s u (gone ++ gone') where
  books := h'.books
  live id st := by
    rw [h'.live, h.live, mem_append, not_or, and_assoc]
  parentRequests := h'.parentRequests.trans h.parentRequests
  parentId r := (h'.parentId r).trans (h.parentId r)

theorem afterAbort_popped (h : Books s) (hst : s.requestStates.get? id = some st) :
    Popped s (s.afterAbort id st) [id] := by
  have hgone : (s.popRequest id).requestStates.get? st.requestId = none := by
    rw [h.keyed id st hst]
    exact Dict.get?_erase_self _ _
  have hlive : ∀ c st', (s.popRequest id).requestStates.get? c = some st' ↔
      s.requestStates.get? c = some st' ∧ c ∉ [id] := by
    intro c st'
    rw [get?_popRequest, mem_singleton]
  unfold afterAbort
  split_ifs
  · exact {
      books := (h.popRequest id).makeRequestOutput false fun _ => hgone
      live := by
        rw [makeRequestOutput_requestStates]
        exact hlive
      parentRequests := makeRequestOutput_parentRequests true false
      parentId := fun _ => makeRequestOutput_parentId true false }
  · exact {
      books := h.popRequest id
      live := hlive
      parentRequests := rfl
      parentId := fun _ => rfl }

theorem External.afterAbort (h : External s P) (hP : P id) : External (s.afterAbort id st) P := by
  have hpop := h.popRequest hP
  unfold OutputProcessor.afterAbort
  split_ifs
  · exact hpop.of_eq (makeRequestOutput_requestStates true false)
      (makeRequestOutput_externalReqIds true false)
  · exact hpop

section Loop

variable {abortChildren :
  OutputProcessor → List String → Except PyError (List String × OutputProcessor)}

theorem abortOne_live (hst : s.requestStates.get? id = some st) :
    abortOne order abortChildren (acc, s) id = .ok (acc ++ [id], s.afterAbort id st) := by
  rw [abortOne, hst]
  rfl

theorem abortOne_unknown (hst : s.requestStates.get? id = none)
    (hpar : s.parentRequests.get? id = none) :
    abortOne order abortChildren (acc, s) id = .ok (acc, s) := by
  rw [abortOne, hst]
  simp [hpar]

/-- Without parents among the ids, the second loop takes the live ones off the books. -/
theorem popAll_ok (hB : Books s) (hpar : ∀ c ∈ L, s.parentRequests.get? c = none)
    (hext : External s fun c => c ∈ L ∨ Q c) :
    ∃ acc' t, L.foldlM (abortOne order abortChildren) (acc, s) = .ok (acc', t) ∧
      Popped s t L ∧ External t Q := by
  induction L generalizing s acc with
  | nil => exact ⟨acc, s, rfl, .refl hB, External.congr hext fun c st _ => by simp⟩
  | cons x L ih =>
    rw [foldlM_cons]
    cases hst : s.requestStates.get? x with
    | none =>
      have hext' : External s fun c => c ∈ L ∨ Q c := External.congr hext fun c st hc => by
        have hne : c ≠ x := by
          rintro rfl
          rw [hst] at hc
          cases hc
        simp [hne]
      obtain ⟨acc', t, hrun, hpop, ht⟩ :=
        @ih _ acc hB (fun c hc => hpar c (mem_cons_of_mem _ hc)) hext'
      refine ⟨acc', t, ?_, ?_, ht⟩
      · rw [abortOne_unknown hst (hpar x mem_cons_self)]
        exact hrun
      · refine { hpop with live := fun c st => ?_ }
        rw [hpop.live, mem_cons, not_or]
        refine and_congr_right fun hc => ⟨fun h => ⟨?_, h⟩, fun h => h.2⟩
        rintro rfl
        rw [hst] at hc
        cases hc
    | some st =>
      have hpop := afterAbort_popped hB hst
      have hx : x ∈ x :: L ∨ Q x := .inl mem_cons_self
      have hext' : External (s.afterAbort x st) fun c => c ∈ L ∨ Q c :=
        External.congr (hext.afterAbort hx) fun c st' hc => by
          have hne : c ≠ x := fun h => ((hpop.live c st').mp hc).2 (mem_singleton.mpr h)
          simp [hne]
      have hpar' : ∀ c ∈ L, (s.afterAbort x st).parentRequests.get? c = none := by
        intro c hc
        rw [hpop.parentRequests]
        exact hpar c (mem_cons_of_mem _ hc)
      obtain ⟨acc', t, hrun, hpop', ht⟩ := @ih _ (acc ++ [x]) hpop.books hpar' hext'
      refine ⟨acc', t, ?_, hpop.trans hpop', ht⟩
      rw [abortOne_live hst]
      exact hrun

end Loop

theorem abortChildren_ok (hB : Books s) (hext : External s P) (hnodup : children.Nodup)
    (hpar : ∀ c ∈ children, s.parentRequests.get? c = none)
    (hfree : ∀ c ∈ children, ∀ st, s.requestStates.get? c = some st → ¬ P c) :
    ∃ acc t, abortRequests order (depth + 1) s children true = .ok (acc, t) ∧
      Popped s t children ∧ External t P := by
  have hdistinct : children.Pairwise fun a b => a = b → s.requestStates.get? b = none :=
    hnodup.imp fun hne heq => absurd heq hne
  obtain ⟨d, hd, hext'⟩ := unlink_ok hext hdistinct hfree
  obtain ⟨acc, t, hrun, hpop, ht⟩ := @popAll_ok _ _ _ [] order
      (fun s c => abortRequests order depth s c true) (hB.setExternal d) hpar hext'
  refine ⟨acc, t, ?_, ⟨hpop.books, hpop.live, hpop.parentRequests, hpop.parentId⟩, ht⟩
  rw [abortRequests, collectInternal, if_pos rfl, hd]
  exact hrun

/-! ## Aborts by internal ids -/

/-- Aborting `a` takes `b`, which is live, off the books. -/
def Clash (s : OutputProcessor) (a b : String) : Prop :=
  ∃ st, s.requestStates.get? b = some st ∧
    (a = b ∨ ∃ r, s.parentRequests.get? a = some r ∧ st.parentReq = some r)

/-- The requests among `ids` and the children of the parents among them have left, as have these
parents. -/
structure Aborted (s t : OutputProcessor) (ids : List String) : Prop where
  books : Books t
  live : ∀ id st, t.requestStates.get? id = some st ↔
    s.requestStates.get? id = some st ∧ id ∉ ids ∧
      ∀ r k, st.parentReq = some r → s.parentId r = some k → k ∉ ids
  parents : ∀ k r, t.parentRequests.get? k = some r ↔ s.parentRequests.get? k = some r ∧ k ∉ ids
  parentId : ∀ r, t.parentId r = s.parentId r

theorem Clash.mono (hlive : ∀ id st, t.requestStates.get? id = some st →
      s.requestStates.get? id = some st)
    (hpar : ∀ k r, t.parentRequests.get? k = some r → s.parentRequests.get? k = some r)
    {a b : String} (h : Clash t a b) : Clash s a b := by
  obtain ⟨st, hst, hab⟩ := h
  refine ⟨st, hlive b st hst, hab.imp_right ?_⟩
  rintro ⟨r, hr, hst'⟩
  exact ⟨r, hpar a r hr, hst'⟩

theorem Books.child_registered (h : Books s) (hst : s.requestStates.get? id = some st)
    (hr : st.parentReq = some r) (hk : s.parentId r = some k) :
    s.parentRequests.get? k = some r := by
  obtain ⟨p, hp, hreg⟩ := h.parent_live hst hr
  rw [parentId, hp] at hk
  cases hk
  exact hreg

theorem Books.mem_children (h : Books s) {p : ParentRequest Unit} (hp : s.parents[r]? = some p)
    (hst : s.requestStates.get? id = some st) : id ∈ p.childRequests ↔ st.parentReq = some r := by
  constructor
  · intro hid
    exact h.childOwn r p id st hp hid hst
  · intro hr
    obtain ⟨p', hp', hid, _⟩ := h.childIn id st r hst hr
    rw [hp] at hp'
    cases hp'
    exact hid

theorem Books.child_not_parent (h : Books s) {p : ParentRequest Unit} (hp : s.parents[r]? = some p)
    (hid : id ∈ p.childRequests) : s.parentRequests.get? id = none := by
  cases hreg : s.parentRequests.get? id with
  | none => rfl
  | some i => exact absurd hid (h.notChild i id r p (h.registered id i hreg) hp)

theorem Popped.congr {gone gone' : List String} (h : Popped s t gone)
    (hmem : ∀ c, c ∈ gone ↔ c ∈ gone') : Popped s t gone' :=
  { h with live := fun id st => by rw [h.live, hmem] }

theorem abortOne_parent {p : ParentRequest Unit} (hB : Books s)
    (hst : s.requestStates.get? x = none) (hreg : s.parentRequests.get? x = some r)
    (hp : s.parents[r]? = some p) (hext : External s fun c => c ∈ x :: L)
    (hclash : ∀ c ∈ L, ¬ Clash s x c) :
    ∃ acc' t, abortOne order (fun s children => abortRequests order (depth + 1) s children true)
        (acc, s) x = .ok (acc', t) ∧ Books t ∧ External t (fun c => c ∈ L) ∧
      (∀ id st, t.requestStates.get? id = some st ↔
        s.requestStates.get? id = some st ∧ id ∉ p.childRequests) ∧
      t.parentRequests = s.parentRequests.erase x ∧ ∀ i, t.parentId i = s.parentId i := by
  have hx := hB.registered x r hreg
  have hperm : ∀ c, c ∈ order.order p.childRequests ↔ c ∈ p.childRequests :=
    fun c => (order.perm _).mem_iff
  have hfree : ∀ c ∈ order.order p.childRequests, ∀ st, s.requestStates.get? c = some st →
      ¬ c ∈ x :: L := by
    intro c hc st' hst' hmem
    have hown := hB.childOwn r p c st' hp ((hperm c).mp hc) hst'
    rcases mem_cons.mp hmem with rfl | hmem
    · rw [hst] at hst'
      cases hst'
    · exact hclash c hmem ⟨st', hst', .inr ⟨r, hreg, hown⟩⟩
  have hchildren : ∃ acc1 u, (if p.childRequests = [] then .ok ([], s)
      else abortRequests order (depth + 1) s (order.order p.childRequests) true) =
        (.ok (acc1, u) : Except PyError _) ∧ Popped s u p.childRequests ∧
        External u fun c => c ∈ x :: L := by
    split_ifs with hnil
    · exact ⟨[], s, rfl, hnil ▸ .refl hB, hext⟩
    · obtain ⟨acc1, u, hrun, hpop, hu⟩ := @abortChildren_ok _ depth _ _ order hB hext
        ((order.perm _).nodup_iff.mpr (hB.childNodup r p hp))
        (fun c hc => hB.child_not_parent hp ((hperm c).mp hc)) hfree
      exact ⟨acc1, u, hrun, hpop.congr hperm, hu⟩
  obtain ⟨acc1, u, hrun, hpop, hu⟩ := hchildren
  have hno : ¬ HasChild u r := by
    rintro ⟨id, st, hid, hr⟩
    obtain ⟨hid', hnot⟩ := (hpop.live id st).mp hid
    exact hnot ((hB.mem_children hp hid').mpr hr)
  have hux : u.parentId r = some x := (hpop.parentId r).trans hx
  refine ⟨acc ++ acc1, u.popParent x, ?_, hpop.books.popParent hux hno, ?_, hpop.live, ?_,
    hpop.parentId⟩
  · rw [abortOne, hst, hreg]
    simp only [Option.bind_some, hp]
    split_ifs at hrun ⊢
    · cases hrun
      rfl
    · rw [hrun]
      rfl
  · have hu' : External (u.popParent x) fun c => c ∈ x :: L := hu.of_eq rfl rfl
    refine External.congr hu' fun c st' hc => ?_
    have hne : c ≠ x := by
      rintro rfl
      have hlive := ((hpop.live c st').mp hc).1
      rw [hst] at hlive
      cases hlive
    simp [hne]
  · exact congrArg (Dict.erase · x) hpop.parentRequests

/-- The second loop for internal ids, none of which is taken off the books before its turn. -/
theorem abortAll_ok (hB : Books s) (hext : External s fun c => c ∈ L)
    (hclash : L.Pairwise fun a b => ¬ Clash s a b) :
    ∃ acc' t, L.foldlM (abortOne order fun s children =>
        abortRequests order (depth + 1) s children true) (acc, s) = .ok (acc', t) ∧
      Aborted s t L ∧ External t fun _ => False := by
  induction L generalizing s acc with
  | nil =>
    refine ⟨acc, s, rfl, ⟨hB, fun _ _ => by simp, fun _ _ => by simp, fun _ => rfl⟩, ?_⟩
    exact External.congr hext fun c st _ => by simp
  | cons x L ih =>
    obtain ⟨hx, hL⟩ := pairwise_cons.mp hclash
    rw [foldlM_cons]
    cases hst : s.requestStates.get? x with
    | some st =>
      have hpop := afterAbort_popped hB hst
      have hlive : ∀ id st', (s.afterAbort x st).requestStates.get? id = some st' →
          s.requestStates.get? id = some st' := fun id st' h => ((hpop.live id st').mp h).1
      have hext' : External (s.afterAbort x st) fun c => c ∈ L :=
        External.congr (hext.afterAbort mem_cons_self) fun c st' hc => by
          have hne : c ≠ x := fun h => ((hpop.live c st').mp hc).2 (mem_singleton.mpr h)
          simp [hne]
      have hL' : L.Pairwise fun a b => ¬ Clash (s.afterAbort x st) a b :=
        hL.imp fun h hc => h (hc.mono hlive fun k r hr => by rwa [hpop.parentRequests] at hr)
      obtain ⟨acc', t, hrun, hab, ht⟩ := @ih _ (acc ++ [x]) hpop.books hext' hL'
      -- an id of a live request is no parent's
      have hpar : ∀ r k, s.parentId r = some k → k ≠ x := by
        rintro r k hk rfl
        rw [hB.notLive r k hk] at hst
        cases hst
      refine ⟨acc', t, by rw [abortOne_live hst]; exact hrun, ⟨hab.books, ?_, ?_, ?_⟩, ht⟩
      · intro id st'
        rw [hab.live, hpop.live]
        simp only [hpop.parentId, mem_cons, not_mem_nil, or_false, not_or]
        constructor
        · rintro ⟨⟨hid, hne⟩, hnot, hk⟩
          exact ⟨hid, ⟨hne, hnot⟩, fun r k hr hk' => ⟨hpar r k hk', hk r k hr hk'⟩⟩
        · rintro ⟨hid, ⟨hne, hnot⟩, hk⟩
          exact ⟨⟨hid, hne⟩, hnot, fun r k hr hk' => (hk r k hr hk').2⟩
      · intro k r
        rw [hab.parents, hpop.parentRequests, mem_cons, not_or]
        exact and_congr_right fun hr =>
          ⟨fun h => ⟨hpar r k (hB.registered k r hr), h⟩, fun h => h.2⟩
      · exact fun r => (hab.parentId r).trans (hpop.parentId r)
    | none =>
      have hne : ∀ id st', s.requestStates.get? id = some st' → id ≠ x := by
        rintro id st' hid rfl
        rw [hst] at hid
        cases hid
      cases hreg : s.parentRequests.get? x with
      | none =>
        have hext' : External s fun c => c ∈ L :=
          External.congr hext fun c st' hc => by simp [hne c st' hc]
        obtain ⟨acc', t, hrun, hab, ht⟩ := @ih _ acc hB hext' hL
        have hpar : ∀ r k, s.parentRequests.get? k = some r → k ≠ x := by
          rintro r k hk rfl
          rw [hreg] at hk
          cases hk
        refine ⟨acc', t, by rw [abortOne_unknown hst hreg]; exact hrun,
          ⟨hab.books, ?_, ?_, hab.parentId⟩, ht⟩
        · intro id st'
          rw [hab.live]
          simp only [mem_cons, not_or]
          refine and_congr_right fun hid => ?_
          constructor
          · rintro ⟨hnot, hk⟩
            exact ⟨⟨hne id st' hid, hnot⟩, fun r k hr hk' =>
              ⟨hpar r k (hB.child_registered hid hr hk'), hk r k hr hk'⟩⟩
          · rintro ⟨⟨_, hnot⟩, hk⟩
            exact ⟨hnot, fun r k hr hk' => (hk r k hr hk').2⟩
        · intro k r
          rw [hab.parents, mem_cons, not_or]
          exact and_congr_right fun hr => ⟨fun h => ⟨hpar r k hr, h⟩, fun h => h.2⟩
      | some r =>
        obtain ⟨p, hp, hpx⟩ := parentId_eq_some.mp (hB.registered x r hreg)
        obtain ⟨acc1, u, hone, hBu, hextu, hliveu, hparu, hidu⟩ :=
          @abortOne_parent _ _ _ depth _ acc order _ hB hst hreg hp hext hx
        have hL' : L.Pairwise fun a b => ¬ Clash u a b := by
          refine hL.imp fun h hc => h (hc.mono (fun id st' hid => ?_) fun k i hi => ?_)
          · exact ((hliveu id st').mp hid).1
          · rw [hparu, Dict.get?_erase] at hi
            split_ifs at hi
            exact hi
        obtain ⟨acc', t, hrun, hab, ht⟩ := @ih _ acc1 hBu hextu hL'
        refine ⟨acc', t, by rw [hone]; exact hrun, ⟨hab.books, ?_, ?_, ?_⟩, ht⟩
        · intro id st'
          rw [hab.live, hliveu]
          simp only [hidu, mem_cons, not_or]
          constructor
          · rintro ⟨⟨hid, hnot⟩, hnotL, hk⟩
            refine ⟨hid, ⟨hne id st' hid, hnotL⟩, fun i k hi hk' => ⟨?_, hk i k hi hk'⟩⟩
            rintro rfl
            have hir := hB.parentIds i r _ hk' (parentId_eq_some.mpr ⟨p, hp, hpx⟩)
            subst hir
            exact hnot ((hB.mem_children hp hid).mpr hi)
          · rintro ⟨hid, ⟨_, hnotL⟩, hk⟩
            refine ⟨⟨hid, fun hmem => ?_⟩, hnotL, fun i k hi hk' => (hk i k hi hk').2⟩
            have hr := (hB.mem_children hp hid).mp hmem
            exact (hk r x hr (parentId_eq_some.mpr ⟨p, hp, hpx⟩)).1 rfl
        · intro k i
          rw [hab.parents, hparu, Dict.get?_erase, mem_cons, not_or]
          by_cases hkx : k = x
          · simp [hkx]
          · simp [hkx]
        · exact fun i => (hab.parentId i).trans (hidu i)

/-- An abort by internal ids, none of which another one takes off the books before. -/
theorem abortInternal_ok (hB : Books s) (hext : External s fun _ => False)
    (hclash : L.Pairwise fun a b => ¬ Clash s a b) :
    ∃ acc t, abortRequests order (depth + 2) s L true = .ok (acc, t) ∧ Aborted s t L ∧
      External t fun _ => False := by
  have hdistinct : L.Pairwise fun a b => a = b → s.requestStates.get? b = none := by
    refine hclash.imp fun {a b} hab heq => ?_
    cases hst : s.requestStates.get? b with
    | none => rfl
    | some st => exact absurd ⟨st, hst, .inl heq⟩ hab
  obtain ⟨d, hd, hext'⟩ := unlink_ok hext hdistinct fun _ _ _ _ => id
  have hpending : External (s.setExternal d) fun c => c ∈ L :=
    External.congr hext' fun c st _ => by simp
  obtain ⟨acc, t, hrun, hab, ht⟩ := @abortAll_ok _ depth _ [] order (hB.setExternal d) hpending
      hclash
  refine ⟨acc, t, ?_, ⟨hab.books, hab.live, hab.parents, hab.parentId⟩, ht⟩
  rw [abortRequests, collectInternal, if_pos rfl, hd]
  exact hrun

/-! ## Aborts by external ids -/

/-- The first loop for external ids: all live requests that carry one of them. -/
theorem popExternal_ok (hext : External s P) :
    ∃ L' d, L.foldl popExternal (acc, s) = (acc ++ L', (s.setExternal d)) ∧
      External (s.setExternal d) (fun c => c ∈ L' ∨ P c) ∧
      (∀ c ∈ L', ∃ st, s.requestStates.get? c = some st ∧ st.externalReqId ∈ L) ∧
      ∀ c st, s.requestStates.get? c = some st → st.externalReqId ∈ L → ¬ P c → c ∈ L' := by
  induction L generalizing s acc P with
  | nil =>
    refine ⟨[], s.externalReqIds, by rw [append_nil]; rfl, ?_, fun c hc => (nomatch hc), fun c st _ h => nomatch h⟩
    exact External.congr hext fun c st _ => by simp
  | cons e L ih =>
    have hitems : ∀ c, c ∈ s.externalReqIds.items e ↔
        ∃ st, s.requestStates.get? c = some st ∧ st.externalReqId = e ∧ ¬ P c := hext.mem e
    have hdrop : External (s.setExternal (s.externalReqIds.erase e))
        fun c => c ∈ s.externalReqIds.items e ∨ P c := by
      refine Indexes.congr (Indexes.drop hext) fun e' c => ?_
      constructor
      · rintro ⟨⟨st, hst, he, hnot⟩, hne⟩
        refine ⟨st, hst, he, ?_⟩
        rintro (hc | hc)
        · obtain ⟨st', hst', he', _⟩ := (hitems c).mp hc
          have hsame : some st = some st' := hst.symm.trans hst'
          cases hsame
          exact hne (he.symm.trans he')
        · exact hnot hc
      · rintro ⟨st, hst, he, hnot⟩
        refine ⟨⟨st, hst, he, fun hc => hnot (.inr hc)⟩, ?_⟩
        rintro rfl
        exact hnot (.inl ((hitems c).mpr ⟨st, hst, he, fun hc => hnot (.inr hc)⟩))
    obtain ⟨L', d, hrun, hext', hmem, hall⟩ := @ih _ _ (acc ++ s.externalReqIds.items e) hdrop
    refine ⟨s.externalReqIds.items e ++ L', d, ?_, ?_, ?_, ?_⟩
    · rw [← append_assoc]
      exact hrun
    · refine External.congr hext' fun c st _ => ?_
      rw [mem_append, or_left_comm, or_assoc]
    · intro c hc
      rcases mem_append.mp hc with hc | hc
      · obtain ⟨st, hst, he, _⟩ := (hitems c).mp hc
        exact ⟨st, hst, he ▸ mem_cons_self⟩
      · obtain ⟨st, hst, he⟩ := hmem c hc
        exact ⟨st, hst, mem_cons_of_mem _ he⟩
    · intro c st hst he hnot
      by_cases hc : c ∈ s.externalReqIds.items e
      · exact mem_append_left _ hc
      · rcases mem_cons.mp he with he | he
        · exact absurd ((hitems c).mpr ⟨st, hst, he, hnot⟩) hc
        · exact mem_append_right _ (hall c st hst he fun h => h.elim hc hnot)

/-- An abort by external ids takes the live requests that carry one of them off the books. -/
theorem abortExternal_ok (hB : Books s) (hext : External s fun _ => False) :
    ∃ acc t, abortRequests order (depth + 1) s L false = .ok (acc, t) ∧ Books t ∧
      (∀ id st, t.requestStates.get? id = some st ↔
        s.requestStates.get? id = some st ∧ st.externalReqId ∉ L) ∧
      t.parentRequests = s.parentRequests ∧ (∀ r, t.parentId r = s.parentId r) ∧
      External t fun _ => False := by
  obtain ⟨L', d, hcollect, hext', hmem, hall⟩ := @popExternal_ok _ _ L [] hext
  have hpar : ∀ c ∈ L', s.parentRequests.get? c = none := by
    intro c hc
    obtain ⟨st, hst, _⟩ := hmem c hc
    cases hreg : s.parentRequests.get? c with
    | none => rfl
    | some r =>
      rw [hB.notLive r c (hB.registered c r hreg)] at hst
      cases hst
  obtain ⟨acc, t, hrun, hpop, ht⟩ := @popAll_ok _ _ _ [] order
      (fun s c => abortRequests order depth s c true) (hB.setExternal d) hpar hext'
  refine ⟨acc, t, ?_, hpop.books, fun id st => ?_, hpop.parentRequests, hpop.parentId, ht⟩
  · rw [abortRequests, collectInternal, if_neg Bool.false_ne_true, hcollect]
    exact hrun
  · rw [hpop.live]
    refine and_congr_right fun hst => not_congr ?_
    constructor
    · intro hid
      obtain ⟨st', hst', he⟩ := hmem id hid
      have hsame : some st = some st' := hst.symm.trans hst'
      cases hsame
      exact he
    · exact fun he => hall id st hst he not_false

end OutputProcessor

end MyOperator.Outputs
