import MyOperator.Outputs.Delivery

/-!
# The output of a sample keeps the stream exact

The invariant of a request in delta mode, and the step that all outputs share: the
request state makes an output, the parent passes it on, the collector takes it. The
slice of the logprobs is right unless it is taken for no token.
-/

namespace MyOperator.Outputs

open Lib List Bool

variable {τ Λ : Type}

namespace Completion

/-- The tokens that the stream interval holds back. -/
def heldBack (c : Completion τ Λ) (streamInterval : Nat) : List τ :=
  if 1 < streamInterval then c.tokenIds.drop c.sentTokensOffset else []

/-- A session whose input has been used up: the engine core waits for the next chunk. -/
def Idle (c : Completion τ Λ) : Prop := c.streamingInput = true ∧ c.inputChunkQueue = none

/-- What a step that sends nothing leaves of a sample. -/
structure Same (c d : Completion τ Λ) : Prop where
  index : d.index = c.index
  requestId : d.requestId = c.requestId
  tokenIds : d.tokenIds = c.tokenIds
  sentTokensOffset : d.sentTokensOffset = c.sentTokensOffset
  logprobs : d.logprobs = c.logprobs

/-- An output that carries logprobs has one entry for each of its tokens, and does not change any
more. -/
def Fits (c : Completion τ Λ) (o : CompletionOutput τ Λ) : Prop :=
  match o.logprobs with
  | .none => c.logprobs = none
  | .own l => c.logprobs ≠ none ∧ l.length = o.tokenIds.length
  | .shared => o.tokenIds = [] ∧ c.logprobs = some [] ∧ c.live = false

/-- The stream carries the tokens and the logprobs of the sample `i` up to what is held back. -/
structure Flows (streamInterval : Nat) (flow : List (CompletionOutput τ Λ)) (i : Nat)
    (c : Completion τ Λ) : Prop where
  index : c.index = i
  sent_le : c.sentTokensOffset ≤ c.tokenIds.length
  tokens : tokensAt i flow ++ c.heldBack streamInterval = c.tokenIds
  logprobs : ∀ l, c.logprobs = some l → l.length = c.tokenIds.length ∧
    logprobsAt i flow = l.take (tokensAt i flow).length
  settled : c.live = false ∨ c.Idle → c.heldBack streamInterval = []

variable {c d : Completion τ Λ} {k : Nat} {new : List (τ × Λ)} {finished : Bool}
  {o : CompletionOutput τ Λ}

theorem Same.refl (c : Completion τ Λ) : c.Same c := ⟨rfl, rfl, rfl, rfl, rfl⟩

theorem Same.heldBack (h : c.Same d) : d.heldBack k = c.heldBack k := by
  rw [Completion.heldBack, Completion.heldBack, h.tokenIds, h.sentTokensOffset]

theorem same_free (c : Completion τ Λ) : c.Same c.free := by
  unfold free
  split_ifs
  · split <;> exact ⟨rfl, rfl, rfl, rfl, rfl⟩
  · exact ⟨rfl, rfl, rfl, rfl, rfl⟩

theorem same_drop (c : Completion τ Λ) : c.Same c.drop := ⟨rfl, rfl, rfl, rfl, rfl⟩

theorem Fits.same (h : c.Fits o) (hsame : c.Same d) (hlive : c.live = false → d.live = false) :
    d.Fits o := by
  unfold Fits at h ⊢
  rw [hsame.logprobs]
  split at h
  · exact h
  · exact h
  · exact ⟨h.1, h.2.1, hlive h.2.2⟩

@[simp] theorem sent_index : (c.sent k).index = c.index := by
  unfold sent
  split_ifs <;> rfl

@[simp] theorem sent_requestId : (c.sent k).requestId = c.requestId := by
  unfold sent
  split_ifs <;> rfl

@[simp] theorem sent_tokenIds : (c.sent k).tokenIds = c.tokenIds := by
  unfold sent
  split_ifs <;> rfl

@[simp] theorem sent_logprobs : (c.sent k).logprobs = c.logprobs := by
  unfold sent
  split_ifs <;> rfl

@[simp] theorem sent_live : (c.sent k).live = c.live := by
  unfold sent
  split_ifs <;> rfl

@[simp] theorem sent_streamingInput : (c.sent k).streamingInput = c.streamingInput := by
  unfold sent
  split_ifs <;> rfl

theorem sent_heldBack : (c.sent k).heldBack k = [] := by
  unfold sent heldBack
  split_ifs <;> simp

theorem sent_offset_le (h : c.sentTokensOffset ≤ c.tokenIds.length) :
    (c.sent k).sentTokensOffset ≤ (c.sent k).tokenIds.length := by
  unfold sent
  split_ifs
  · exact le_rfl
  · exact h

theorem update_heldBack (h : c.sentTokensOffset ≤ c.tokenIds.length) (hk : 1 < k) :
    (c.update new).heldBack k = c.heldBack k ++ new.map (·.1) := by
  rw [heldBack, if_pos hk, heldBack, if_pos hk]
  exact drop_append_of_le_length h

theorem Flows.frame {flow flow' : List (CompletionOutput τ Λ)} {i : Nat} (h : c.Flows k flow i)
    (htokens : tokensAt i flow' = tokensAt i flow)
    (hlogprobs : logprobsAt i flow' = logprobsAt i flow) : c.Flows k flow' i where
  index := h.index
  sent_le := h.sent_le
  tokens := by
    rw [htokens]
    exact h.tokens
  logprobs := by
    intro l hl
    rw [htokens, hlogprobs]
    exact h.logprobs l hl
  settled := h.settled

/-- The logprobs of a sample with those of the new tokens, counted by what was sent, what was held
back and what is new. -/
theorem Flows.length_update {flow : List (CompletionOutput τ Λ)} {i : Nat} {l : List Λ}
    (h : c.Flows k flow i) (hl : (c.update new).logprobs = some l) :
    l.length = (tokensAt i flow ++ (c.heldBack k ++ new.map (·.1))).length := by
  obtain ⟨l0, hl0, rfl⟩ := Option.map_eq_some_iff.mp hl
  rw [← append_assoc, h.tokens, length_append, length_append,
    (h.logprobs l0 hl0).1, length_map, length_map]

theorem update_tokensToSend (h : c.sentTokensOffset ≤ c.tokenIds.length) :
    (c.update new).tokensToSend k (new.map (·.1)) = c.heldBack k ++ new.map (·.1) := by
  by_cases hk : 1 < k
  · rw [← update_heldBack h hk, tokensToSend, if_pos hk, heldBack, if_pos hk]
  · rw [tokensToSend, if_neg hk, heldBack, if_neg hk, nil_append]

/-- The slice of the logprobs is right: there are tokens to slice for, or there are no logprobs, or
none yet and the sample ends. -/
def Sliced (c : Completion τ Λ) (tokenIds : List τ) (ends : Bool) : Prop :=
  tokenIds ≠ [] ∨ c.logprobs = none ∨ c.logprobs = some [] ∧ ends = true

variable {toSend sentBefore : List τ} {ends : Bool} {l : List Λ}

theorem Sliced.toList (h : c.Sliced toSend ends) (hl : c.logprobs = some l)
    (hlen : l.length = (sentBefore ++ toSend).length) :
    l.take sentBefore.length ++ (c.newCompletionOutput toSend finished).logprobs.toList = l := by
  cases l with
  | nil =>
    rw [newCompletionOutput, hl]
    simp [OutLogprobs.toList]
  | cons x l =>
    have hne : toSend.length ≠ 0 := by
      rcases h with h | h | h
      · exact mt length_eq_zero_iff.mp h
      · rw [hl] at h
        cases h
      · rw [hl] at h
        cases h.1
    have hoff : (x :: l).length - toSend.length = sentBefore.length := by
      rw [hlen, length_append]
      omega
    rw [newCompletionOutput, hl]
    show _ ++ lastSlice (x :: l) toSend.length = _
    rw [lastSlice, if_neg hne, hoff, take_append_drop]

/-- An output with a right slice continues the stream of its sample up to the last token. -/
theorem Flows.sent {flow flow' : List (CompletionOutput τ Λ)} {i : Nat} (h : c.Flows k flow i)
    (hsame : ((c.update new).sent k).Same d)
    (hsliced : (c.update new).Sliced (c.heldBack k ++ new.map (·.1)) ends)
    (htokens : tokensAt i flow' = tokensAt i flow ++ (c.heldBack k ++ new.map (·.1)))
    (hlogprobs : logprobsAt i flow' = logprobsAt i flow ++ ((c.update new).newCompletionOutput
      (c.heldBack k ++ new.map (·.1)) finished).logprobs.toList) : d.Flows k flow' i := by
  have htokenIds : d.tokenIds = c.tokenIds ++ new.map (·.1) := hsame.tokenIds.trans sent_tokenIds
  have hall : tokensAt i flow' = d.tokenIds := by
    rw [htokens, htokenIds, ← h.tokens, append_assoc]
  have hheld : d.heldBack k = [] := hsame.heldBack.trans sent_heldBack
  exact {
    index := (hsame.index.trans sent_index).trans h.index
    sent_le := by
      rw [hsame.tokenIds, hsame.sentTokensOffset]
      refine sent_offset_le (h.sent_le.trans ?_)
      show _ ≤ (c.tokenIds ++ new.map (·.1)).length
      rw [length_append]
      exact Nat.le_add_right _ _
    tokens := by rw [hheld, hall, append_nil]
    logprobs := by
      intro l hl
      rw [hsame.logprobs, sent_logprobs] at hl
      have hlen := h.length_update hl
      have hlen' : l.length = d.tokenIds.length := by rw [hlen, ← htokens, hall]
      have hcont := @Completion.Sliced.toList _ _ _ finished _ _ _ _ hsliced hl hlen
      obtain ⟨l0, hl0, rfl⟩ := Option.map_eq_some_iff.mp hl
      obtain ⟨hlen0, hflow⟩ := h.logprobs l0 hl0
      refine ⟨hlen', ?_⟩
      rw [hall, ← hlen', take_length, hlogprobs, hflow]
      -- the entries sent before are those of the tokens before the new ones
      rw [take_append_of_le_length] at hcont
      · exact hcont
      · rw [hlen0, ← h.tokens, length_append]
        exact Nat.le_add_right _ _
    settled := fun _ => hheld }

theorem Sliced.fits (h : c.Sliced toSend ends) (hsame : d.logprobs = c.logprobs)
    (hends : ends = true → d.live = false)
    (hlen : ∀ l, c.logprobs = some l → l.length = (sentBefore ++ toSend).length) :
    d.Fits (c.newCompletionOutput toSend finished) := by
  unfold Fits newCompletionOutput
  rw [hsame]
  cases hl : c.logprobs with
  | none => exact rfl
  | some l =>
    have hlen := hlen l hl
    cases l with
    | nil =>
      have htoSend : toSend = [] := by
        rw [length_append, length_nil] at hlen
        exact length_eq_zero_iff.mp (by omega)
      refine ⟨htoSend, rfl, hends ?_⟩
      rcases h with h | h | h
      · exact absurd htoSend h
      · rw [hl] at h
        cases h
      · exact h.2
    | cons x l =>
      have hne : toSend.length ≠ 0 := by
        rcases h with h | h | h
        · exact mt length_eq_zero_iff.mp h
        · rw [hl] at h
          cases h
        · rw [hl] at h
          cases h.1
      refine ⟨fun hnone => (nomatch hnone), ?_⟩
      show (lastSlice (x :: l) toSend.length).length = toSend.length
      rw [length_append] at hlen
      rw [lastSlice, if_neg hne, length_drop]
      omega

theorem Fits.of_live (h : c.Fits o) (hlive : c.live = true)
    (hd : d.logprobs = none ↔ c.logprobs = none) : d.Fits o := by
  unfold Fits at h ⊢
  split at h
  · exact hd.mpr h
  · exact ⟨mt hd.mp h.1, h.2⟩
  · rw [hlive] at h
    cases h.2.2

theorem Fits.not_shared (h : c.Fits o) (hlive : c.live = true) : o.logprobs ≠ .shared := by
  intro hs
  unfold Fits at h
  rw [hs, hlive] at h
  cases h.2.2

theorem Fits.merge {b : CompletionOutput τ Λ} (hb : c.Fits b) (ho : c.Fits o)
    (hshared : b.logprobs ≠ .shared) : c.Fits (b.merge o) := by
  unfold Fits CompletionOutput.merge at *
  cases hlb : b.logprobs with
  | none =>
    rw [hlb] at hb
    exact hb
  | shared => exact absurd hlb hshared
  | own l =>
    rw [hlb] at hb
    cases hlo : o.logprobs with
    | none =>
      rw [hlo] at ho
      exact absurd ho hb.1
    | own l' =>
      rw [hlo] at ho
      refine ⟨hb.1, ?_⟩
      rw [length_append, length_append, hb.2, ho.2]
    | shared =>
      rw [hlo] at ho
      refine ⟨hb.1, ?_⟩
      rw [ho.1, append_nil]
      exact hb.2

theorem Fits.mergeable {b : CompletionOutput τ Λ} (hb : c.Fits b)
    (hlive : c.live = true) (ho : c.logprobs = none → o.logprobs.toList = []) :
    OutLogprobs.Mergeable b.logprobs o.logprobs := by
  unfold Fits at hb
  cases hlb : b.logprobs with
  | none =>
    rw [hlb] at hb
    exact .inl (ho hb)
  | own l => exact .inr ⟨l, rfl⟩
  | shared =>
    rw [hlb] at hb
    rw [hlive] at hb
    cases hb.2.2

end Completion

/-! ## The parent -/

namespace ParentRequest

variable {ω : Type} {p : ParentRequest ω} {i j : Nat}

theorem childReqId_inj (h : p.childReqId i = p.childReqId j) : i = j := by
  unfold childReqId at h
  rw [String.append_left_inj, String.append_left_inj] at h
  exact Nat.repr_injective h

end ParentRequest

/-- The parent records the samples that have not ended. -/
structure Tracks (cs : List (Completion τ Λ)) (p : ParentRequest (CompletionOutput τ Λ)) :
    Prop where
  outputKind : p.outputKind = .delta
  requestId : ∀ (i : Nat) c, cs[i]? = some c → c.requestId = p.childReqId i
  streamingInput : ∀ (i : Nat) c, cs[i]? = some c → c.streamingInput = false
  live : ∀ (i : Nat) c, cs[i]? = some c → (c.live = true ↔ c.requestId ∈ p.childRequests)
  recorded : ∀ id ∈ p.childRequests,
    ∃ (i : Nat) (c : Completion τ Λ), cs[i]? = some c ∧ c.requestId = id

/-- All samples have been added and have ended. -/
def Ended (n : Nat) (cs : List (Completion τ Λ)) : Prop := cs.length = n ∧ ∀ c ∈ cs, c.live = false

section

variable {cs : List (Completion τ Λ)} {p : ParentRequest (CompletionOutput τ Λ)} {i j n : Nat}
  {c d e : Completion τ Λ} {finished : Bool}

theorem getElem?_set_cases (h : (cs.set i d)[j]? = some e) :
    j = i ∧ e = d ∨ j ≠ i ∧ cs[j]? = some e := by
  by_cases hji : j = i
  · subst hji
    have hlt := lt_of_getElem? h
    rw [getElem?_set_self (by simpa using hlt)] at h
    exact .inl ⟨rfl, (Option.some.inj h).symm⟩
  · rw [getElem?_set_ne (Ne.symm hji)] at h
    exact .inr ⟨hji, h⟩

theorem getElem?_set_self' (h : cs[i]? = some c) : (cs.set i d)[i]? = some d :=
  getElem?_set_self (lt_of_getElem? h)

/-- The parent after the output of a sample. -/
def parentAfter (parent : Option (ParentRequest (CompletionOutput τ Λ))) (requestId : String)
    (finished : Bool) : Option (ParentRequest (CompletionOutput τ Λ)) :=
  parent.map fun p => if finished then p.finishChild requestId else p

/-- The finished flag of the output of a sample. -/
def flagAfter (parent : Option (ParentRequest (CompletionOutput τ Λ))) (requestId : String)
    (finished : Bool) : Bool :=
  match parent with
  | none => finished
  | some p => (if finished then p.finishChild requestId else p).childRequests.isEmpty

theorem getOutputs_eq {s : Delivery τ Λ} {requestId : String} {o : CompletionOutput τ Λ}
    (hp : ∀ p, s.parent = some p → p.outputKind = .delta ∧ requestId ∈ p.childRequests)
    (ho : o.finishReason = finished) : s.getOutputs requestId finished o =
      ([o], flagAfter s.parent requestId finished, parentAfter s.parent requestId finished) := by
  unfold Delivery.getOutputs flagAfter parentAfter
  cases hpar : s.parent with
  | none => rfl
  | some p =>
    obtain ⟨hkind, hmem⟩ := hp p hpar
    have hkind' : (if finished then p.finishChild requestId else p).outputKind ≠ .finalOnly := by
      have : (if finished then p.finishChild requestId else p).outputKind = p.outputKind := by
        split_ifs <;> rfl
      rw [this, hkind]
      exact nofun
    dsimp only
    rw [ho]
    unfold ParentRequest.getOutputs
    rw [if_pos hkind']
    simp [hmem]

theorem Tracks.set (h : Tracks cs p) (hi : cs[i]? = some c) (hlive : c.live = true)
    (hid : d.requestId = c.requestId) (hstream : d.streamingInput = false)
    (hd : d.live = false ↔ finished = true) :
    Tracks (cs.set i d) (if finished then p.finishChild c.requestId else p) := by
  have hchild : ∀ j, (if finished then p.finishChild c.requestId else p).childReqId j =
      p.childReqId j := by
    intro j
    split_ifs <;> rfl
  have hmem : ∀ id, id ∈ (if finished then p.finishChild c.requestId else p).childRequests ↔
      id ∈ p.childRequests ∧ (finished = true → id ≠ c.requestId) := by
    intro id
    split_ifs with hf <;> simp [hf]
  refine ⟨?_, ?_, ?_, ?_, ?_⟩
  · rw [← h.outputKind]
    split_ifs <;> rfl
  · intro j e hj
    rw [hchild]
    rcases getElem?_set_cases hj with ⟨rfl, rfl⟩ | ⟨_, hj⟩
    · rw [hid]
      exact h.requestId _ _ hi
    · exact h.requestId _ _ hj
  · intro j e hj
    rcases getElem?_set_cases hj with ⟨rfl, rfl⟩ | ⟨_, hj⟩
    · exact hstream
    · exact h.streamingInput _ _ hj
  · intro j e hj
    rw [hmem]
    rcases getElem?_set_cases hj with ⟨rfl, rfl⟩ | ⟨hji, hj⟩
    · rw [hid, ← not_eq_false, hd, ← h.live _ _ hi]
      simp [hlive]
    · rw [h.live _ _ hj]
      refine ⟨fun he => ⟨he, fun _ heq => hji ?_⟩, fun he => he.1⟩
      rw [h.requestId _ _ hj, h.requestId _ _ hi] at heq
      exact ParentRequest.childReqId_inj heq
  · intro id hid'
    obtain ⟨hp, hne⟩ := (hmem id).mp hid'
    obtain ⟨j, e, hj, rfl⟩ := h.recorded id hp
    by_cases hji : j = i
    · subst hji
      rw [hi] at hj
      cases hj
      exact ⟨j, d, getElem?_set_self' hi, hid⟩
    · exact ⟨j, e, by rw [getElem?_set_ne (Ne.symm hji), hj], rfl⟩

theorem Tracks.isEmpty_iff (h : Tracks cs p) :
    p.childRequests.isEmpty = true ↔ ∀ c ∈ cs, c.live = false := by
  rw [List.isEmpty_iff]
  constructor
  · intro hnil c hc
    obtain ⟨i, hi⟩ := mem_iff_getElem?.mp hc
    rw [← not_eq_true, h.live i c hi, hnil]
    exact not_mem_nil
  · intro hdead
    rw [eq_nil_iff_forall_not_mem]
    intro id hid
    obtain ⟨i, c, hi, rfl⟩ := h.recorded id hid
    have hlive := (h.live i c hi).mpr hid
    rw [hdead c (mem_of_getElem? hi)] at hlive
    cases hlive

end

namespace Delivery

/-- The invariant. -/
structure Good (n : Nat) (s : Delivery τ Λ) : Prop where
  pos : 0 < n
  length_le : s.completions.length ≤ n
  distinct : s.Distinct
  flows : ∀ (i : Nat) c, s.completions[i]? = some c → c.Flows s.streamInterval s.flow i
  fits : ∀ o ∈ s.flow, ∃ c, s.completions[o.index]? = some c ∧ c.Fits o
  single : s.parent = none → n = 1
  tracks : ∀ p, s.parent = some p → Tracks s.completions p
  finished : (∃ x ∈ s.sentOutputs, x.finished = true) ↔ Ended n s.completions
  taken : s.done = true → s.output = none

/-- All samples have been added, or another one is live. -/
def Covered (n : Nat) (s : Delivery τ Λ) (i : Nat) : Prop :=
  s.completions.length = n ∨ ∃ (j : Nat) (c : Completion τ Λ),
    j ≠ i ∧ s.completions[j]? = some c ∧ c.live = true

/-- What an output makes of the sample: if it is the last, the sample ends, unless it is a session;
any other leaves the sample as it is. -/
structure Closes (c : Completion τ Λ) (finished session : Bool)
    (after : Completion τ Λ → Completion τ Λ) : Prop where
  same : ∀ d : Completion τ Λ, d.Same (after d)
  live : ∀ d : Completion τ Λ, d.live = true → d.streamingInput = c.streamingInput →
    ((after d).live = false ↔ finished = true ∧ session = false)
  streamingInput : ∀ d : Completion τ Λ, d.streamingInput = false → (after d).streamingInput = false
  session : session = true → c.streamingInput = true
  held : finished = false → after = id

variable {s : Delivery τ Λ} {n i : Nat} {c d : Completion τ Λ} {new : List (τ × Λ)}
  {finished session : Bool} {after : Completion τ Λ → Completion τ Λ}

section

variable (h : Good n s) (hi : s.completions[i]? = some c)
include h hi

theorem Good.not_finished (hlive : c.live = true) : ¬ ∃ x ∈ s.sentOutputs, x.finished = true := by
  intro hx
  have hdead := (h.finished.mp hx).2 c (mem_of_getElem? hi)
  rw [hlive] at hdead
  cases hdead

theorem Good.not_done (hlive : c.live = true) : s.done = false := by
  rw [← not_eq_true]
  intro hdone
  obtain ⟨x, hx, hf⟩ := any_eq_true.mp hdone
  exact h.not_finished hi hlive ⟨x, mem_append_left _ hx, hf⟩

theorem Good.session_parent (hclose : Closes c finished session after)
    {p : ParentRequest (CompletionOutput τ Λ)} (hp : s.parent = some p) :
    c.streamingInput = false ∧ session = false := by
  have hstream := (h.tracks p hp).streamingInput i c hi
  refine ⟨hstream, ?_⟩
  rw [← not_eq_true]
  intro hsession
  rw [hclose.session hsession] at hstream
  cases hstream

theorem Good.flag_iff (hlive : c.live = true) (hclose : Closes c finished session after)
    (hid : d.requestId = c.requestId)
    (hstream : c.streamingInput = false → d.streamingInput = false)
    (hd : d.live = false ↔ finished = true ∧ session = false)
    (hcov : finished = true → session = false → Covered n s i) :
    (flagAfter s.parent c.requestId finished = true ∧ session = false) ↔
      Ended n (s.completions.set i d) := by
  have hlt := lt_of_getElem? hi
  have hmem : d ∈ s.completions.set i d := mem_of_getElem? (getElem?_set_self' hi)
  cases hp : s.parent with
  | none =>
    have hn := h.single hp
    have hlen : s.completions.length = 1 := by
      have := h.length_le
      omega
    show finished = true ∧ session = false ↔ _
    rw [← hd]
    constructor
    · intro hdead
      refine ⟨by rw [length_set, hlen, hn], fun e he => ?_⟩
      obtain ⟨j, hj⟩ := mem_iff_getElem?.mp he
      rcases getElem?_set_cases hj with ⟨_, rfl⟩ | ⟨hji, hj⟩
      · exact hdead
      · have hjlt := lt_of_getElem? hj
        omega
    · intro hend
      exact hend.2 d hmem
  | some p =>
    obtain ⟨hcs, hsession⟩ := h.session_parent hi hclose hp
    rw [hsession] at hd ⊢
    have hdf : d.live = false ↔ finished = true := hd.trans (and_iff_left rfl)
    have htracks := (h.tracks p hp).set hi hlive hid (hstream hcs) hdf
    show ((if finished then p.finishChild c.requestId else p).childRequests.isEmpty = true ∧
      false = false) ↔ _
    rw [and_iff_left rfl, htracks.isEmpty_iff]
    constructor
    · intro hdead
      refine ⟨?_, hdead⟩
      rw [length_set]
      rcases hcov (hdf.mp (hdead d hmem)) hsession with hlen | ⟨j, e, hji, hj, he⟩
      · exact hlen
      · have hdead := hdead e (mem_of_getElem? (by rw [getElem?_set_ne hji.symm, hj]))
        rw [he] at hdead
        cases hdead
    · intro hend
      exact hend.2

end

theorem tokensAt_singleton_ne {o : CompletionOutput τ Λ} (h : o.index ≠ i) :
    tokensAt i [o] = [] := by
  rw [tokensAt_singleton, if_neg h]

theorem logprobsAt_singleton_ne {o : CompletionOutput τ Λ} (h : o.index ≠ i) :
    logprobsAt i [o] = [] := by
  rw [logprobsAt_singleton, if_neg h]

/-- What fitted a sample before fits what it has become. -/
theorem Good.fits_set (h : Good n s) (hi : s.completions[i]? = some c)
    (hfit : ∀ o, c.Fits o → d.Fits o) :
    ∀ o ∈ s.flow, ∃ e, (s.completions.set i d)[o.index]? = some e ∧ e.Fits o := by
  intro o ho
  obtain ⟨e, he, ho⟩ := h.fits o ho
  by_cases hoi : o.index = i
  · rw [hoi, hi] at he
    cases he
    refine ⟨d, ?_, hfit o ho⟩
    rw [hoi]
    exact getElem?_set_self' hi
  · refine ⟨e, ?_, ho⟩
    rw [getElem?_set_ne (Ne.symm hoi)]
    exact he

theorem Good.held (h : Good n s) (hi : s.completions[i]? = some c) (hlive : c.live = true)
    (hidle : ¬ c.Idle) (hk : 1 < s.streamInterval) :
    Good n { s with completions := s.completions.set i (c.update new) } := by
  have hflows := h.flows i c hi
  exact {
    pos := h.pos
    length_le := by
      rw [length_set]
      exact h.length_le
    distinct := h.distinct
    flows := by
      intro j e hj
      rcases getElem?_set_cases hj with ⟨rfl, rfl⟩ | ⟨_, hj⟩
      · exact {
          index := hflows.index
          sent_le := by
            show c.sentTokensOffset ≤ (c.tokenIds ++ _).length
            rw [length_append]
            exact hflows.sent_le.trans (Nat.le_add_right _ _)
          tokens := by
            rw [Completion.update_heldBack hflows.sent_le hk, ← append_assoc]
            exact congrArg (· ++ _) hflows.tokens
          logprobs := by
            intro l hl
            obtain ⟨l0, hl0, rfl⟩ := Option.map_eq_some_iff.mp hl
            obtain ⟨hlen, hl⟩ := hflows.logprobs l0 hl0
            refine ⟨by simp [Completion.update, hlen], hl.trans ?_⟩
            refine (take_append_of_le_length ?_).symm
            rw [hlen, ← hflows.tokens, length_append]
            exact Nat.le_add_right _ _
          settled := by
            rintro (hdead | hidle')
            · exact absurd (hlive.symm.trans hdead) nofun
            · exact absurd hidle' hidle }
      · exact h.flows j e hj
    fits := h.fits_set hi fun o ho => ho.of_live hlive Option.map_eq_none_iff
    single := h.single
    tracks := by
      intro p hp
      have htracks := h.tracks p hp
      exact @Tracks.set _ _ _ _ _ _ _ false htracks hi hlive rfl (htracks.streamingInput i c hi)
          ⟨fun hdead => absurd (hlive.symm.trans hdead) nofun, nofun⟩
    finished := by
      refine ⟨fun hx => absurd hx (h.not_finished hi hlive), fun hend => ?_⟩
      have hdead := hend.2 _ (mem_of_getElem? (getElem?_set_self' (d := c.update new) hi))
      exact absurd (hlive.symm.trans hdead) nofun
    taken := h.taken }

theorem Good.sent {t : Delivery τ Λ} {out : RequestOutput τ Λ} {o : CompletionOutput τ Λ}
    (h : Good n s) (hi : s.completions[i]? = some c) (hlive : c.live = true)
    (hclose : Closes c finished session after)
    (ho : o = (c.update new).newCompletionOutput (c.heldBack s.streamInterval ++ new.map (·.1))
      finished) (hd : d = after ((c.update new).sent s.streamInterval))
    (hsliced : (c.update new).Sliced (c.heldBack s.streamInterval ++ new.map (·.1))
      (finished && !session)) (hcov : finished = true → session = false → Covered n s i)
    (hout : out.outputs = [o])
    (hflag : out.finished = true ↔ flagAfter s.parent c.requestId finished = true ∧ session = false)
    (hput : PutSpec { s with
      completions := s.completions.set i d
      parent := parentAfter s.parent c.requestId finished } t out) : Good n t := by
  have hflows := h.flows i c hi
  have hsame : ((c.update new).sent s.streamInterval).Same d := hd ▸ hclose.same _
  have hid : d.requestId = c.requestId := hsame.requestId.trans Completion.sent_requestId
  have hlogprobs : d.logprobs = (c.update new).logprobs :=
    hsame.logprobs.trans Completion.sent_logprobs
  have hnone : d.logprobs = none ↔ c.logprobs = none := by
    rw [hlogprobs]
    exact Option.map_eq_none_iff
  have hstream : c.streamingInput = false → d.streamingInput = false := by
    intro hc
    rw [hd]
    exact hclose.streamingInput _ (Completion.sent_streamingInput.trans hc)
  have hdlive : d.live = false ↔ finished = true ∧ session = false := by
    rw [hd]
    exact hclose.live _ (Completion.sent_live.trans hlive) Completion.sent_streamingInput
  have hindex : o.index = i := by
    rw [ho]
    exact hflows.index
  have htoks : o.tokenIds = c.heldBack s.streamInterval ++ new.map (·.1) := by
    rw [ho]
    rfl
  have hfit : d.Fits o := by
    rw [ho]
    refine hsliced.fits hlogprobs (fun hends => hdlive.mpr ?_) fun l hl => hflows.length_update hl
    simpa using hends
  have hstate : t.completions = s.completions.set i d := hput.completions
  have hself : t.completions[i]? = some d := by
    rw [hstate]
    exact getElem?_set_self' hi
  -- what fitted before fits
  have hold : ∀ b ∈ s.flow, ∃ e, t.completions[b.index]? = some e ∧ e.Fits b := by
    rw [hstate]
    exact h.fits_set hi fun b hb => hb.of_live hlive hnone
  exact {
    pos := h.pos
    length_le := by
      rw [hstate, length_set]
      exact h.length_le
    distinct := hput.distinct
    flows := by
      intro j e hj
      rw [hput.streamInterval]
      rw [hstate] at hj
      rcases getElem?_set_cases hj with ⟨hji, hed⟩ | ⟨hji, hj⟩
      · rw [hji, hed]
        refine @Completion.Flows.sent _ _ _ _ _ _ finished _ _ t.flow _ hflows hsame hsliced ?_ ?_
        · rw [hput.tokens, hout, tokensAt_singleton, if_pos hindex, htoks]
          rfl
        · rw [hput.logprobs, hout, logprobsAt_singleton, if_pos hindex, ho]
          rfl
      · have hne : o.index ≠ j := fun heq => hji (heq.symm.trans hindex)
        refine (h.flows j e hj).frame ?_ ?_
        · rw [hput.tokens, hout, tokensAt_singleton_ne hne, append_nil]
          rfl
        · rw [hput.logprobs, hout, logprobsAt_singleton_ne hne, append_nil]
          rfl
    fits := by
      intro b hb
      rcases hput.mem b hb with hb | hb | ⟨b0, hb0, o', ho', hidx, rfl⟩
      · exact hold b hb
      · rw [hout, mem_singleton] at hb
        rw [hb, hindex]
        exact ⟨d, hself, hfit⟩
      · rw [hout, mem_singleton] at ho'
        rw [ho'] at hidx ⊢
        have hb0i : b0.index = i := hidx.trans hindex
        obtain ⟨e, he, hb⟩ := h.fits b0 hb0
        rw [hb0i, hi] at he
        cases he
        refine ⟨d, ?_, (hb.of_live hlive hnone).merge hfit (hb.not_shared hlive)⟩
        show t.completions[b0.index]? = some d
        rw [hb0i]
        exact hself
    single := by
      intro hp
      rw [hput.parent] at hp
      exact h.single (Option.map_eq_none_iff.mp hp)
    tracks := by
      intro p' hp
      rw [hput.parent] at hp
      obtain ⟨p, hp', rfl⟩ := Option.map_eq_some_iff.mp hp
      have hp : s.parent = some p := hp'
      obtain ⟨hcs, hsession⟩ := h.session_parent hi hclose hp
      rw [hstate]
      refine (h.tracks p hp).set hi hlive hid (hstream hcs) (hdlive.trans ?_)
      rw [hsession]
      exact and_iff_left rfl
    finished := by
      rw [hput.finished, hflag, hstate, ← h.flag_iff hi hlive hclose hid hstream hdlive hcov]
      exact or_iff_right (h.not_finished hi hlive)
    taken := by
      intro hdone
      have hnot := h.not_done hi hlive
      unfold done at hdone hnot
      rw [hput.received] at hdone
      exact absurd (hnot.symm.trans hdone) nofun }

end Delivery

end MyOperator.Outputs
