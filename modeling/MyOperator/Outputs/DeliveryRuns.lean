import MyOperator.Outputs.DeliverySteps

/-!
# Runs of a request in delta mode

Samples are added, the engine core sends outputs for them, the consumer takes what
the collector holds, samples are aborted, sessions get further input: in every order.
What the consumer receives concatenates to the tokens and the logprobs of each sample,
as long as no output slices the logprobs for no token and the last sample is added
before the others have ended.
-/

namespace MyOperator.Outputs

open Lib List

variable {τ Λ : Type}

namespace Completion

variable {c : Completion τ Λ} {finished : Bool}

theorem update_nil (c : Completion τ Λ) : c.update ([] : List (τ × Λ)) = c := by
  unfold update
  cases hl : c.logprobs <;> simp [← hl]

theorem closes_free : Delivery.Closes c finished c.streamingInput
    (if finished then free else id) where
  same := by
    intro d
    split_ifs
    · exact d.same_free
    · exact Same.refl d
  live := by
    intro d hlive hstream
    cases finished with
    | false => simp [hlive]
    | true =>
      rw [← hstream, if_pos rfl, free]
      cases hs : d.streamingInput with
      | false => simp
      | true =>
        rw [if_pos rfl]
        split <;> simp [hlive]
  streamingInput := by
    intro d hd
    split_ifs
    · rw [free, if_neg (by simp [hd])]
      exact hd
    · exact hd
  session := id
  held := by
    intro hf
    rw [hf]
    rfl

theorem closes_drop : Delivery.Closes c true false drop where
  same := same_drop
  live := fun _ _ _ => by simp [drop]
  streamingInput := fun _ h => h
  session := nofun
  held := nofun

end Completion

namespace Delivery

variable {s t : Delivery τ Λ} {n i : Nat} {c d : Completion τ Λ} {new : List (τ × Λ)}
  {finished session : Bool} {after : Completion τ Λ → Completion τ Λ}

/-! ## The steps -/

/-- An output is put as it should be: its logprobs are sliced right, and if the sample ends,
another sample is live or all have been added. -/
def PutsRight (n : Nat) (s : Delivery τ Λ) (i : Nat) (c : Completion τ Λ) (newTokenIds : List τ)
    (finished ends : Bool) : Prop :=
  (¬ c.Held s.streamInterval finished →
    c.Sliced (c.tokensToSend s.streamInterval newTokenIds) ends) ∧ (ends = true → Covered n s i)

section

variable (h : Good n s)
include h

theorem Good.emit (hi : s.completions[i]? = some c) (hlive : c.live = true)
    (hidle : ¬ c.Idle ∨ finished = true) (hclose : Closes c finished session after)
    (hright : s.PutsRight n i (c.update new) (new.map (·.1)) finished (finished && !session)) :
    ∃ t, s.emit i (c.update new) (new.map (·.1)) finished session after = .ok t ∧ Good n t := by
  obtain ⟨hsliced, hcov⟩ := hright
  have hflows := h.flows i c hi
  unfold Delivery.emit makeRequestOutput
  by_cases hheld : (c.update new).Held s.streamInterval finished
  · have hfin : finished = false := by
      rw [← Bool.not_eq_true]
      exact fun hf => hheld.2 (.inl hf)
    rw [if_pos hheld, hclose.held hfin]
    refine ⟨_, rfl, h.held hi hlive (hidle.resolve_right ?_) hheld.1⟩
    rw [hfin]
    exact nofun
  · rw [if_neg hheld]
    have hsliced := hsliced hheld
    rw [Completion.update_tokensToSend hflows.sent_le] at hsliced ⊢
    obtain ⟨o, ho⟩ : ∃ o, o = (c.update new).newCompletionOutput
        (c.heldBack s.streamInterval ++ new.map (·.1)) finished := ⟨_, rfl⟩
    have hget : s.getOutputs (c.update new).requestId finished o =
        ([o], flagAfter s.parent c.requestId finished, parentAfter s.parent c.requestId finished) :=
      getOutputs_eq (fun p hp => ⟨(h.tracks p hp).outputKind, ((h.tracks p hp).live i c hi).mp hlive⟩)
        (by rw [ho]; rfl)
    rw [← ho, hget]
    dsimp only
    rw [if_neg (cons_ne_nil _ _)]
    dsimp only
    -- what the collector holds for the sample can be merged with the output
    have hmerge : ∀ cur, s.output = some cur → CanMerge cur.outputs o := by
      intro cur hcur b hb hidx
      have hb' : b ∈ s.flow := mem_append_right _ (mem_flatMap.mpr
        ⟨cur, Option.mem_toList.mpr hcur, hb⟩)
      obtain ⟨e, he, hfit⟩ := h.fits b hb'
      have hbi : b.index = i := by
        rw [hidx, ho]
        exact hflows.index
      rw [hbi, hi] at he
      cases he
      refine hfit.mergeable hlive fun hnone => ?_
      have hnone' : (c.update new).logprobs = none := Option.map_eq_none_iff.mpr hnone
      rw [ho, Completion.newCompletionOutput, hnone']
      rfl
    obtain ⟨t, hput, hspec⟩ := @put_ok _ _ { s with
        completions := s.completions.set i (after ((c.update new).sent s.streamInterval))
        parent := parentAfter s.parent c.requestId finished }
      (if session then { outputs := [o], finished := false }
        else { outputs := [o], finished := flagAfter s.parent c.requestId finished })
      h.distinct (.inr ⟨o, by split_ifs <;> rfl, hmerge⟩)
    refine ⟨t, hput, h.sent hi hlive hclose ho rfl hsliced ?_ ?_ ?_ hspec⟩
    · intro hf hs
      exact hcov (by simp [hf, hs])
    · split_ifs <;> rfl
    · cases session <;> simp

theorem Good.touch (hi : s.completions[i]? = some c) (hpar : s.parent = none) (hsame : c.Same d)
    (hlive : d.live = c.live) (hidle : d.Idle → c.Idle) :
    Good n { s with completions := s.completions.set i d } where
  pos := h.pos
  length_le := by
    rw [length_set]
    exact h.length_le
  distinct := h.distinct
  flows := by
    intro j e hj
    rcases getElem?_set_cases hj with ⟨rfl, rfl⟩ | ⟨_, hj⟩
    · have hflows := h.flows j c hi
      exact {
        index := hsame.index.trans hflows.index
        sent_le := by
          rw [hsame.tokenIds, hsame.sentTokensOffset]
          exact hflows.sent_le
        tokens := by
          rw [hsame.heldBack, hsame.tokenIds]
          exact hflows.tokens
        logprobs := by
          rw [hsame.logprobs, hsame.tokenIds]
          exact hflows.logprobs
        settled := by
          rw [hsame.heldBack, hlive]
          exact fun hset => hflows.settled (hset.imp id hidle) }
    · exact h.flows j e hj
  fits := h.fits_set hi fun o ho => ho.same hsame fun hdead => hlive.trans hdead
  single := h.single
  tracks := fun p hp => absurd (hpar.symm.trans hp) nofun
  finished := by
    have hend : Ended n (s.completions.set i d) ↔ Ended n s.completions := by
      unfold Ended
      rw [length_set]
      refine and_congr_right fun _ => ⟨fun hdead e he => ?_, fun hdead e he => ?_⟩
      · obtain ⟨j, hj⟩ := mem_iff_getElem?.mp he
        by_cases hji : j = i
        · rw [hji, hi] at hj
          cases hj
          exact hlive.symm.trans (hdead d (mem_of_getElem? (getElem?_set_self' hi)))
        · exact hdead e (mem_of_getElem? (by rw [getElem?_set_ne (Ne.symm hji), hj]))
      · obtain ⟨j, hj⟩ := mem_iff_getElem?.mp he
        rcases getElem?_set_cases hj with ⟨rfl, rfl⟩ | ⟨_, hj⟩
        · exact hlive.trans (hdead c (mem_of_getElem? hi))
        · exact hdead e (mem_of_getElem? hj)
    rw [hend]
    exact h.finished
  taken := h.taken

theorem Good.processOutput (hidle : ∀ c, s.completions[i]? = some c → ¬ c.Idle)
    (hright : ∀ c, s.completions[i]? = some c → c.live = true → s.PutsRight n i (c.update new) (new.map (·.1)) finished (finished && !c.streamingInput)) :
    ∃ t, s.processOutput i new finished = .ok t ∧ Good n t := by
  unfold Delivery.processOutput
  cases hi : s.completions[i]? with
  | none => exact ⟨s, rfl, h⟩
  | some c =>
    cases hlive : c.live with
    | false => exact ⟨s, by simp [hlive], h⟩
    | true =>
      simp only [hlive]
      exact h.emit hi hlive (.inl (hidle c hi)) Completion.closes_free (hright c hi hlive)

theorem Good.abort
    (hright : ∀ c, s.completions[i]? = some c → c.live = true → s.PutsRight n i c [] true true) :
    ∃ t, s.abort i = .ok t ∧ Good n t := by
  unfold Delivery.abort
  cases hi : s.completions[i]? with
  | none => exact ⟨s, rfl, h⟩
  | some c =>
    cases hlive : c.live with
    | false => exact ⟨s, by simp [hlive], h⟩
    | true =>
      simp only [hlive]
      have hright := hright c hi hlive
      rw [← c.update_nil] at hright
      have hemit := h.emit hi hlive (.inr rfl) Completion.closes_drop hright
      rw [c.update_nil] at hemit
      exact hemit

theorem Good.parent_none (hi : s.completions[i]? = some c) (hc : c.streamingInput = true) :
    s.parent = none := by
  cases hp : s.parent with
  | none => rfl
  | some p => exact absurd ((h.tracks p hp).streamingInput i c hi) (by simp [hc])

theorem Good.streamFinished (hi : s.completions[i]? = some c) (hlive : c.live = true)
    (hidle : c.Idle) :
    ∃ t, Delivery.put { s with completions := s.completions.set i c.drop } streamFinished = .ok t ∧
      Good n t := by
  have hpar := h.parent_none hi hidle.1
  obtain ⟨t, hput, hspec⟩ := @put_ok _ _ { s with completions := s.completions.set i c.drop }
      Outputs.streamFinished h.distinct (.inl rfl)
  refine ⟨t, hput, ?_⟩
  have hstate : t.completions = s.completions.set i c.drop := hspec.completions
  have htokens : ∀ j, tokensAt j t.flow = tokensAt j s.flow := fun j =>
    (hspec.tokens j).trans (append_nil _)
  have hlogprobs : ∀ j, logprobsAt j t.flow = logprobsAt j s.flow := fun j =>
    (hspec.logprobs j).trans (append_nil _)
  exact {
    pos := h.pos
    length_le := by
      rw [hstate, length_set]
      exact h.length_le
    distinct := hspec.distinct
    flows := by
      intro j e hj
      rw [hspec.streamInterval]
      rw [hstate] at hj
      rcases getElem?_set_cases hj with ⟨rfl, rfl⟩ | ⟨_, hj⟩
      · have hflows := (h.flows j c hi).frame (htokens j) (hlogprobs j)
        exact { hflows with settled := fun _ => hflows.settled (.inr hidle) }
      · exact (h.flows j e hj).frame (htokens j) (hlogprobs j)
    fits := by
      intro o ho
      have ho : o ∈ s.flow := by
        rcases hspec.mem o ho with ho | ho | ⟨_, _, _, ho', _⟩
        · exact ho
        · exact absurd ho not_mem_nil
        · exact absurd ho' not_mem_nil
      rw [hstate]
      exact h.fits_set (d := c.drop) hi (fun o ho => ho.of_live hlive Iff.rfl) o ho
    single := fun _ => h.single hpar
    tracks := fun p hp => absurd (hpar.symm.trans (hspec.parent.symm.trans hp)) nofun
    finished := by
      rw [hspec.finished, hstate, ← h.flag_iff (d := c.drop) hi hlive Completion.closes_drop rfl id
        ⟨fun _ => ⟨rfl, rfl⟩, fun _ => rfl⟩ fun _ _ => ?_, hpar]
      · exact or_iff_right (h.not_finished hi hlive) |>.trans ⟨fun _ => ⟨rfl, rfl⟩, fun _ => rfl⟩
      · have hlt := lt_of_getElem? hi
        have hle := h.length_le
        have hn := h.single hpar
        exact .inl (by omega)
    taken := by
      intro hdone
      have hnot := h.not_done hi hlive
      unfold done at hdone hnot
      rw [hspec.received] at hdone
      exact absurd (hnot.symm.trans hdone) nofun }

theorem Good.updateStreaming {resumable : Bool} :
    ∃ t, s.updateStreaming i resumable = .ok t ∧ Good n t := by
  unfold Delivery.updateStreaming
  cases hi : s.completions[i]? with
  | none => exact ⟨s, rfl, h⟩
  | some c =>
    dsimp only
    by_cases hc : c.live = true ∧ c.streamingInput = true
    · rw [if_pos hc]
      have hpar := h.parent_none hi hc.2
      have htouch : ∀ d, c.Same d → d.live = c.live → ¬ d.Idle →
          Good n { s with completions := s.completions.set i d } := fun d hsame hlive hidle =>
        h.touch hi hpar hsame hlive fun hd => absurd hd hidle
      cases resumable with
      | true =>
        cases hq : c.inputChunkQueue with
        | none =>
          exact ⟨_, rfl, htouch _ ⟨rfl, rfl, rfl, rfl, rfl⟩ rfl fun hd => nomatch hd.2⟩
        | some us =>
          exact ⟨_, rfl, htouch _ ⟨rfl, rfl, rfl, rfl, rfl⟩ rfl fun hd => nomatch hd.2⟩
      | false =>
        cases hq : c.inputChunkQueue with
        | none => exact h.streamFinished hi hc.1 ⟨hc.2, hq⟩
        | some us =>
          cases us with
          | nil =>
            exact ⟨_, rfl, htouch _ ⟨rfl, rfl, rfl, rfl, rfl⟩ rfl fun hd => nomatch hd.1⟩
          | cons u us =>
            exact ⟨_, rfl, htouch _ ⟨rfl, rfl, rfl, rfl, rfl⟩ rfl fun hd => nomatch hd.2⟩
    · rw [if_neg hc]
      exact ⟨s, rfl, h⟩

theorem Good.get : Good n s.get := by
  unfold Delivery.get
  cases hout : s.output with
  | none => exact h
  | some out =>
    cases hdone : s.done with
    | true => exact h
    | false =>
      have hflow : flow { s with output := none, received := s.received ++ [out] } =
          s.flow := by
        simp [flow, hout]
      have hsent : sentOutputs { s with output := none, received := s.received ++ [out] } =
          s.sentOutputs := by
        simp [sentOutputs, hout]
      show Good n { s with output := none, received := s.received ++ [out] }
      exact {
        pos := h.pos
        length_le := h.length_le
        distinct := fun _ hnone => by cases hnone
        flows := by
          intro j c hj
          rw [hflow]
          exact h.flows j c hj
        fits := by
          intro o ho
          rw [hflow] at ho
          exact h.fits o ho
        single := h.single
        tracks := h.tracks
        finished := by
          rw [hsent]
          exact h.finished
        taken := fun _ => rfl }

theorem Good.flow_fresh {o : CompletionOutput τ Λ} (ho : o ∈ s.flow) :
    o.index ≠ s.completions.length := by
  obtain ⟨c, hc, _⟩ := h.fits o ho
  exact ne_of_lt (lt_of_getElem? hc)

end

/-- A sample that has just been added. -/
structure Fresh (s : Delivery τ Λ) (c : Completion τ Λ) : Prop where
  index : c.index = s.completions.length
  tokenIds : c.tokenIds = []
  sentTokensOffset : c.sentTokensOffset = 0
  logprobs : ∀ l, c.logprobs = some l → l = []
  live : c.live = true

theorem getElem?_append_cases {cs : List (Completion τ Λ)} (h : (cs ++ [c])[i]? = some d) :
    cs[i]? = some d ∨ i = cs.length ∧ d = c := by
  rcases lt_or_ge i cs.length with hlt | hge
  · rw [getElem?_append_left hlt] at h
    exact .inl h
  · have hi := lt_of_getElem? h
    rw [length_append, length_singleton] at hi
    have hi : i = cs.length := by omega
    rw [hi, getElem?_concat_length] at h
    exact .inr ⟨hi, (Option.some.inj h).symm⟩

theorem Good.append (h : Good n s) (hlt : s.completions.length < n) (hc : Fresh s c)
    {parent : Option (ParentRequest (CompletionOutput τ Λ))}
    (hsingle : parent = none → s.parent = none)
    (htracks : ∀ p, parent = some p → Tracks (s.completions ++ [c]) p) :
    Good n { s with parent := parent, completions := s.completions ++ [c] } := by
  have hopen : ¬ ∃ x ∈ s.sentOutputs, x.finished = true := by
    rw [h.finished]
    intro hend
    exact ne_of_lt hlt hend.1
  exact {
    pos := h.pos
    length_le := by
      rw [length_append]
      exact hlt
    distinct := h.distinct
    flows := by
      intro j d hj
      rcases getElem?_append_cases hj with hj | ⟨rfl, rfl⟩
      · exact h.flows j d hj
      · have hnone : ∀ o ∈ s.flow, o.index ≠ s.completions.length := fun o ho => h.flow_fresh ho
        have htokens : tokensAt s.completions.length s.flow = [] := contentAt_eq_nil hnone
        have hlogprobs : logprobsAt s.completions.length s.flow = [] := contentAt_eq_nil hnone
        have hheld : d.heldBack s.streamInterval = [] := by
          unfold Completion.heldBack
          rw [hc.tokenIds]
          split_ifs <;> simp
        exact {
          index := hc.index
          sent_le := by
            rw [hc.sentTokensOffset]
            exact Nat.zero_le _
          tokens := by
            show tokensAt s.completions.length s.flow ++ d.heldBack s.streamInterval = _
            rw [htokens, hheld, hc.tokenIds]
            rfl
          logprobs := by
            intro l hl
            rw [hc.logprobs l hl, hc.tokenIds]
            exact ⟨rfl, hlogprobs.trans take_nil.symm⟩
          settled := fun _ => hheld }
    fits := by
      intro o ho
      obtain ⟨e, he, hfit⟩ := h.fits o ho
      refine ⟨e, ?_, hfit⟩
      rw [getElem?_append_left (lt_of_getElem? he)]
      exact he
    single := fun hp => h.single (hsingle hp)
    tracks := htracks
    finished := by
      refine ⟨fun hx => absurd hx hopen, fun hend => ?_⟩
      have hdead := hend.2 c (mem_append_right _ mem_cons_self)
      exact absurd (hc.live.symm.trans hdead) nofun
    taken := by
      intro hdone
      obtain ⟨x, hx, hf⟩ := any_eq_true.mp hdone
      exact absurd ⟨x, mem_append_left _ hx, hf⟩ hopen }

theorem Tracks.append {cs : List (Completion τ Λ)} {p : ParentRequest (CompletionOutput τ Λ)}
    (h : Tracks cs p) (hid : c.requestId = p.childReqId cs.length)
    (hstream : c.streamingInput = false) (hlive : c.live = true) :
    Tracks (cs ++ [c]) (p.getChildInfo cs.length).2 := by
  have hchild : ∀ j, (p.getChildInfo cs.length).2.childReqId j = p.childReqId j := by
    intro j
    unfold ParentRequest.childReqId
    rw [ParentRequest.getChildInfo_requestId]
  refine ⟨?_, ?_, ?_, ?_, ?_⟩
  · rw [← h.outputKind]
    unfold ParentRequest.getChildInfo
    split_ifs <;> rfl
  · intro j d hj
    rw [hchild]
    rcases getElem?_append_cases hj with hj | ⟨rfl, rfl⟩
    · exact h.requestId j d hj
    · exact hid
  · intro j d hj
    rcases getElem?_append_cases hj with hj | ⟨rfl, rfl⟩
    · exact h.streamingInput j d hj
    · exact hstream
  · intro j d hj
    rw [ParentRequest.mem_getChildInfo]
    rcases getElem?_append_cases hj with hj | ⟨rfl, rfl⟩
    · rw [h.live j d hj]
      refine ⟨.inl, fun hd => hd.elim id fun heq => ?_⟩
      rw [h.requestId j d hj] at heq
      have hlt := lt_of_getElem? hj
      have := ParentRequest.childReqId_inj heq
      omega
    · exact ⟨fun _ => .inr hid, fun _ => hlive⟩
  · intro id hmem
    rcases ParentRequest.mem_getChildInfo.mp hmem with hmem | rfl
    · obtain ⟨j, d, hj, rfl⟩ := h.recorded id hmem
      refine ⟨j, d, ?_, rfl⟩
      rw [getElem?_append_left (lt_of_getElem? hj)]
      exact hj
    · exact ⟨cs.length, c, getElem?_concat_length, hid⟩

theorem Good.add (h : Good n s) (hlt : s.completions.length < n) {requestId : String}
    {logprobs streamingInput : Bool} : Good n (s.add requestId logprobs streamingInput) := by
  have hlp : ∀ l : List Λ, (if logprobs then some ([] : List Λ) else none) = some l → l = [] := by
    intro l hl
    split_ifs at hl
    exact (Option.some.inj hl).symm
  unfold Delivery.add
  cases hp : s.parent with
  | none =>
    refine h.append hlt ⟨rfl, rfl, rfl, hlp, rfl⟩ (fun _ => hp) nofun
  | some p =>
    refine h.append hlt ⟨rfl, rfl, rfl, hlp, rfl⟩ nofun ?_
    rintro _ ⟨⟩
    exact Tracks.append (h.tracks p hp) rfl rfl rfl

/-! ## What the consumer receives -/

/-- The completions of the outputs received. -/
def consumed (s : Delivery τ Λ) : List (CompletionOutput τ Λ) := s.received.flatMap (·.outputs)

end Delivery

/-- The entries of logprobs that the consumer sees in an output. -/
def Completion.seen (c : Completion τ Λ) (o : CompletionOutput τ Λ) : Option (List Λ) :=
  match o.logprobs with
  | .none => none
  | .own l => some l
  | .shared => c.logprobs

/-- The logprobs that the consumer has received for a sample. -/
def Completion.seenLogprobs (c : Completion τ Λ) (l : List (CompletionOutput τ Λ)) : List Λ :=
  contentAt (·.index) (fun o => (c.seen o).getD []) c.index l

/-- What the consumer receives is complete: the tokens and the logprobs of a sample come without
gap and without repetition, with one entry for each token, and when the consumer stops it has
received all. Once all samples have ended, the consumer stops with the next output it takes. -/
structure Delivered (n : Nat) (s : Delivery τ Λ) : Prop where
  tokens : ∀ (i : Nat) c, s.completions[i]? = some c → tokensAt i s.consumed <+: c.tokenIds
  entries : ∀ o ∈ s.consumed, ∃ c, s.completions[o.index]? = some c ∧
    ∀ l, c.seen o = some l → l.length = o.tokenIds.length
  logprobs : ∀ (i : Nat) c, s.completions[i]? = some c → ∀ l, c.logprobs = some l →
    c.seenLogprobs s.consumed <+: l
  complete : s.done = true → ∀ (i : Nat) c, s.completions[i]? = some c →
    tokensAt i s.consumed = c.tokenIds ∧ ∀ l, c.logprobs = some l → c.seenLogprobs s.consumed = l
  ends : Ended n s.completions → s.output = none → s.done = true

/-- What happens to a request. -/
inductive Event (τ Λ : Type)
  | add (requestId : String) (streamingInput : Bool)
  | output (i : Nat) (new : List (τ × Λ)) (finished : Bool)
  | abort (i : Nat)
  | updateStreaming (i : Nat) (resumable : Bool)
  | get

namespace Event

/-- At most `n` samples are added, and the engine core sends nothing for a session that waits for
input. -/
def Possible (n : Nat) (s : Delivery τ Λ) : Event τ Λ → Prop
  | add _ _ => s.completions.length < n
  | output i _ _ => ∀ c, s.completions[i]? = some c → ¬ c.Idle
  | _ => True

def run (logprobs : Bool) (s : Delivery τ Λ) : Event τ Λ → Except PyError (Delivery τ Λ)
  | add requestId streamingInput => .ok (s.add requestId logprobs streamingInput)
  | output i new finished => s.processOutput i new finished
  | abort i => s.abort i
  | updateStreaming i resumable => s.updateStreaming i resumable
  | get => .ok s.get

/-- The outputs that the event makes for a live sample are put as they should be. -/
def Meets (n : Nat) (s : Delivery τ Λ) : Event τ Λ → Prop
  | output i new finished => ∀ c, s.completions[i]? = some c → c.live = true →
      s.PutsRight n i (c.update new) (new.map (·.1)) finished (finished && !c.streamingInput)
  | abort i => ∀ c, s.completions[i]? = some c → c.live = true → s.PutsRight n i c [] true true
  | _ => True

end Event

/-- A request with `n` samples, none of them added yet. -/
def Delivery.start (streamInterval n : Nat) (requestId externalReqId : String) : Delivery τ Λ where
  streamInterval := streamInterval
  parent := if n = 1 then none else some (.init requestId externalReqId .delta n)
  completions := []
  output := none
  received := []

/-- The runs of a request in delta mode whose events all meet a condition. -/
def deliveryRuns (τ Λ : Type) (streamInterval n : Nat) (logprobs : Bool)
    (Cond : Delivery τ Λ → Event τ Λ → Prop) : TSys (Delivery τ Λ) where
  init s := 0 < n ∧ ∃ requestId externalReqId, s = .start streamInterval n requestId externalReqId
  step s t := ∃ e : Event τ Λ, e.Possible n s ∧ Cond s e ∧ e.run logprobs s = .ok t

namespace Delivery

variable {s : Delivery τ Λ} {n i : Nat} {c : Completion τ Λ}

theorem start_good {streamInterval : Nat} {requestId externalReqId : String} (hn : 0 < n) :
    Good n (start (τ := τ) (Λ := Λ) streamInterval n requestId externalReqId) where
  pos := hn
  length_le := Nat.zero_le _
  distinct := nofun
  flows := fun _ _ h => nomatch h
  fits := nofun
  single := by
    intro hp
    unfold start at hp
    split_ifs at hp with h1
    exact h1
  tracks := by
    intro p hp
    unfold start at hp
    split_ifs at hp
    cases hp
    exact ⟨rfl, fun _ _ h => (nomatch h), fun _ _ h => (nomatch h), fun _ _ h => (nomatch h), nofun⟩
  finished := by
    constructor
    · rintro ⟨_, hx, _⟩
      cases hx
    · intro hend
      exact absurd hend.1 (ne_of_lt hn)
  taken := fun _ => rfl

theorem event_good (h : Good n s) {e : Event τ Λ} {logprobs : Bool} (hpos : e.Possible n s)
    (hmeets : e.Meets n s) : ∃ t, e.run logprobs s = .ok t ∧ Good n t := by
  cases e with
  | add requestId streamingInput => exact ⟨_, rfl, h.add hpos⟩
  | output i new finished => exact h.processOutput hpos hmeets
  | abort i => exact h.abort hmeets
  | updateStreaming i resumable => exact h.updateStreaming
  | get => exact ⟨_, rfl, h.get⟩

theorem flow_eq : s.flow = s.consumed ++ s.output.toList.flatMap (·.outputs) := rfl

theorem Good.seenLogprobs_eq (h : Good n s) (hi : s.completions[i]? = some c) :
    c.seenLogprobs s.consumed = logprobsAt i s.consumed := by
  unfold Completion.seenLogprobs
  rw [(h.flows i c hi).index]
  refine flatMap_congr fun o ho => ?_
  rw [mem_filter, decide_eq_true_eq] at ho
  obtain ⟨e, he, hfit⟩ := h.fits o (mem_append_left _ ho.1)
  have hidx : o.index = i := ho.2
  rw [hidx, hi] at he
  cases he
  unfold Completion.Fits at hfit
  unfold Completion.seen
  cases hlo : o.logprobs with
  | none => rfl
  | own l => rfl
  | shared =>
    rw [hlo] at hfit
    show c.logprobs.getD [] = []
    rw [hfit.2.1]
    rfl

theorem Good.delivered (h : Good n s) : Delivered n s where
  tokens := by
    intro i c hi
    refine List.IsPrefix.trans ?_ ⟨_, (h.flows i c hi).tokens⟩
    rw [flow_eq, tokensAt_append]
    exact prefix_append _ _
  entries := by
    intro o ho
    obtain ⟨c, hc, hfit⟩ := h.fits o (mem_append_left _ ho)
    refine ⟨c, hc, fun l hl => ?_⟩
    unfold Completion.Fits at hfit
    unfold Completion.seen at hl
    cases hlo : o.logprobs with
    | none =>
      rw [hlo] at hl
      cases hl
    | own l' =>
      rw [hlo] at hl hfit
      cases hl
      exact hfit.2
    | shared =>
      rw [hlo] at hl hfit
      have hnil : l = [] := Option.some.inj (hl.symm.trans hfit.2.1)
      rw [hnil, hfit.1]
      rfl
  logprobs := by
    intro i c hi l hl
    have hflow := ((h.flows i c hi).logprobs l hl).2
    rw [h.seenLogprobs_eq hi]
    refine List.IsPrefix.trans ?_ (hflow ▸ take_prefix _ l)
    rw [flow_eq, logprobsAt_append]
    exact prefix_append _ _
  complete := by
    intro hdone i c hi
    have hflow : s.flow = s.consumed := by
      rw [flow_eq, h.taken hdone]
      exact append_nil _
    obtain ⟨x, hx, hf⟩ := any_eq_true.mp hdone
    have hend := h.finished.mp ⟨x, mem_append_left _ hx, hf⟩
    have hflows := h.flows i c hi
    have htokens := hflows.tokens
    rw [hflows.settled (.inl (hend.2 c (mem_of_getElem? hi))), append_nil, hflow] at htokens
    refine ⟨htokens, fun l hl => ?_⟩
    obtain ⟨hlen, hlogprobs⟩ := hflows.logprobs l hl
    rw [h.seenLogprobs_eq hi, ← hflow, hlogprobs, hflow, htokens, ← hlen, take_length]
  ends := by
    intro hend hnone
    obtain ⟨x, hx, hf⟩ := h.finished.mpr hend
    rw [sentOutputs, hnone, Option.toList_none, append_nil] at hx
    exact any_eq_true.mpr ⟨x, hx, hf⟩

end Delivery

/-- In every run whose events meet the condition, what the consumer receives is complete, and no
event that meets the condition raises. -/
theorem delta_delivered (τ Λ : Type) (streamInterval n : Nat) (logprobs : Bool) :
    (deliveryRuns τ Λ streamInterval n logprobs fun s e => e.Meets n s).Invariant fun s =>
      Delivered n s ∧ ∀ e : Event τ Λ, e.Possible n s → e.Meets n s →
        ∃ t, e.run logprobs s = .ok t := by
  have hgood : (deliveryRuns τ Λ streamInterval n logprobs fun s e => e.Meets n s).Invariant
      (Delivery.Good n) := by
    refine TSys.Inductive.invariant ⟨?_, ?_⟩
    · rintro _ ⟨hn, _, _, rfl⟩
      exact Delivery.start_good hn
    · rintro s t h ⟨e, hpos, hmeets, hrun⟩
      obtain ⟨t', hrun', hgood⟩ := @Delivery.event_good _ _ _ _ h _ logprobs hpos hmeets
      rw [hrun'] at hrun
      cases hrun
      exact hgood
  intro s hs
  refine ⟨(hgood s hs).delivered, fun e hpos hmeets => ?_⟩
  obtain ⟨t, hrun, _⟩ := @Delivery.event_good _ _ _ _ (hgood s hs) _ logprobs hpos hmeets
  exact ⟨t, hrun⟩

/-- The first of two samples has ended, the second has not been added: the consumer has stopped. -/
def firstEnded : Delivery Nat Nat where
  streamInterval := 1
  parent := some {
    requestId := "p"
    externalReqId := "e"
    outputKind := .delta
    childRequests := []
    outputAggregator := [] }
  completions := [{
    index := 0
    requestId := "0_p"
    tokenIds := [7]
    sentTokensOffset := 0
    logprobs := none
    streamingInput := false
    inputChunkQueue := none
    live := false }]
  output := none
  received := [{
    outputs := [{ index := 0, tokenIds := [7], logprobs := .none, finishReason := true }]
    finished := true }]

theorem firstEnded_reachable :
    (deliveryRuns Nat Nat 1 2 false fun _ _ => True).Reachable firstEnded := by
  have h0 := TSys.Reachable.init (T := deliveryRuns Nat Nat 1 2 false fun _ _ => True)
    ⟨Nat.two_pos, "p", "e", rfl⟩
  have h1 := h0.step ⟨.add "p" false, Nat.two_pos, trivial, rfl⟩
  have hidle : Event.Possible 2 (Delivery.add (.start 1 2 "p" "e") "p" false false)
      (.output 0 [(7, 8)] true) := by
    rintro c ⟨⟩ hidle
    cases hidle.1
  have h2 := h1.step ⟨.output 0 [(7, 8)] true, hidle, trivial, rfl⟩
  exact h2.step (t := firstEnded) ⟨.get, trivial, trivial, by decide +kernel⟩

/-- An abort after the consumer has received the only token sends its logprobs once more, with an
output that has no token. And if the first of two samples ends before the second is added, the
consumer stops and misses the tokens of the second. -/
theorem abort_repeats_logprobs :
    ¬ (deliveryRuns Nat Nat 1 1 true fun _ _ => True).Invariant (Delivered 1) ∧
      ¬ (deliveryRuns Nat Nat 1 2 false fun _ _ => True).Invariant (Delivered 2) := by
  constructor
  · intro h
    have h0 := TSys.Reachable.init (T := deliveryRuns Nat Nat 1 1 true fun _ _ => True)
      ⟨Nat.one_pos, "r", "e", rfl⟩
    have h1 := h0.step ⟨.add "r" false, Nat.one_pos, trivial, rfl⟩
    have hidle : Event.Possible 1 (Delivery.add (.start 1 1 "r" "e") "r" true false)
        (.output 0 [(7, 8)] false) := by
      rintro c ⟨⟩ hidle
      cases hidle.1
    have h2 := h1.step ⟨.output 0 [(7, 8)] false, hidle, trivial, rfl⟩
    have h3 := h2.step ⟨.get, trivial, trivial, rfl⟩
    have h4 := h3.step ⟨.abort 0, trivial, trivial, rfl⟩
    have h5 := h4.step ⟨.get, trivial, trivial, rfl⟩
    obtain ⟨c, _, hentries⟩ := (h _ h5).entries
      { index := 0, tokenIds := [], logprobs := .own [8], finishReason := true } (by decide)
    exact absurd (hentries [8] rfl) (by decide)
  · intro h
    have h1 := firstEnded_reachable.step ⟨.add "p" false, Nat.one_lt_two, trivial, rfl⟩
    have hidle : Event.Possible 2 (firstEnded.add "p" false false)
        (.output 1 [(9, 9)] false) := by
      rintro c ⟨⟩ hidle
      cases hidle.1
    have h2 := h1.step ⟨.output 1 [(9, 9)] false, hidle, trivial, rfl⟩
    have hmiss := ((h _ h2).complete rfl 1 _ rfl).1
    exact absurd hmiss (by decide)

end MyOperator.Outputs
