import MyOperator.Detok.Detokenizer

/-!
# Stop strings and the grouping of tokens

The tokens of a request may be fed one by one or several at once. The outcome of a
grouping is that of the stop string completed first exactly if the first group that
completes a stop string completes none that is listed before the one completed
first: within a group the list order decides.
-/

namespace MyOperator.Detok

open Lib List Option

/-! ## The stop string completed first -/

/-- The stop string completed first after `lo`, the first listed one among those completed by the
same letter, and the place that completes it. -/
def firstStop (stop : List Str) (text : Str) (lo : Nat) : Option (Str × Nat) :=
  ((range (text.length + 1)).find? fun e => lo < e ∧ ∃ s ∈ stop, EndsAt s text e).bind
    fun e => (stop.find? fun s => EndsAt s text e).map fun s => (s, e)

/-- What is to be reported and kept of the text when its first `lo` letters are not searched. -/
def firstStopOutcome (stop : List Str) (includeStopStrInOutput : Bool) (text : Str) (lo : Nat) :
    Option Str × Str :=
  match firstStop stop text lo with
  | none => (none, text)
  | some (s, e) => (some s, text.take (cutAt includeStopStrInOutput s e))

/-- The strings listed before `s`. -/
def listedBefore (stop : List Str) (s : Str) : List Str := stop.takeWhile (· ≠ s)

/-- `s` is completed first, by the letter `e`. -/
structure FirstStop (stop : List Str) (text : Str) (lo : Nat) (s : Str) (e : Nat) : Prop where
  after : lo < e
  least : ∀ p ∈ stop, ∀ e', lo < e' → EndsAt p text e' → e ≤ e'
  listed : (stop.find? fun p => EndsAt p text e) = some s

variable {stop : List Str} {text text' s s' : Str} {lo lo' e e' : Nat} {b : Bool}

namespace FirstStop

theorem mem (h : FirstStop stop text lo s e) : s ∈ stop := mem_of_find?_eq_some h.listed

theorem ends (h : FirstStop stop text lo s e) : EndsAt s text e := by
  simpa using find?_some h.listed

theorem unique (h : FirstStop stop text lo s e) (h' : FirstStop stop text lo s' e') :
    s = s' ∧ e = e' := by
  have he : e = e' := le_antisymm (h.least _ h'.mem _ h'.after h'.ends)
    (h'.least _ h.mem _ h.after h.ends)
  subst he
  exact ⟨Option.some.inj (h.listed.symm.trans h'.listed), rfl⟩

theorem of_isPrefix (hpre : text <+: text') (h : FirstStop stop text lo s e) :
    FirstStop stop text' lo s e where
  after := h.after
  least := by
    intro p hp e' he' hend
    by_cases hle : e' ≤ text.length
    · exact h.least p hp e' he' ((EndsAt.of_isPrefix hpre hle).mp hend)
    · exact h.ends.1.trans (Nat.le_of_not_le hle)
  listed := by
    have hsame : (fun p => decide (EndsAt p text' e)) = fun p => decide (EndsAt p text e) :=
      funext fun p => decide_eq_decide.mpr (EndsAt.of_isPrefix hpre h.ends.1)
    rw [hsame]
    exact h.listed

end FirstStop

theorem firstStop_eq_none (h : firstStop stop text lo = none) : NoStop stop text lo := by
  intro s hs e he hend
  rw [firstStop, bind_eq_none_iff] at h
  cases hfind : (range (text.length + 1)).find?
      (fun e => decide (lo < e ∧ ∃ s ∈ stop, EndsAt s text e)) with
  | none =>
    have hno := find?_eq_none.mp hfind e (mem_range.mpr (Nat.lt_succ_of_le hend.1))
    exact hno (decide_eq_true ⟨he, s, hs, hend⟩)
  | some e' =>
    have hnone := find?_eq_none.mp (map_eq_none_iff.mp (h e' hfind))
    have hsome : lo < e' ∧ ∃ s ∈ stop, EndsAt s text e' := by simpa using find?_some hfind
    obtain ⟨_, p, hp, hpend⟩ := hsome
    exact hnone p hp (decide_eq_true hpend)

theorem firstStop_eq_some (h : firstStop stop text lo = some (s, e)) :
    FirstStop stop text lo s e := by
  rw [firstStop, bind_eq_some_iff] at h
  obtain ⟨e', hfind, hmap⟩ := h
  obtain ⟨p, hp, heq⟩ := map_eq_some_iff.mp hmap
  cases heq
  have hsome : lo < e ∧ ∃ s ∈ stop, EndsAt s text e := by simpa using find?_some hfind
  refine ⟨hsome.1, fun p hp e' he' hend => ?_, hp⟩
  by_contra hlt
  obtain ⟨before, after, hsplit, hbefore⟩ := (find?_eq_some_iff_append.mp hfind).2
  have hlt' : e' < e := Nat.lt_of_not_le hlt
  have hmem : e' ∈ range (text.length + 1) := mem_range.mpr (Nat.lt_succ_of_le hend.1)
  have hsorted := pairwise_lt_range (n := text.length + 1)
  rw [hsplit] at hmem hsorted
  rcases mem_append.mp hmem with hmem | hmem
  · have hno := hbefore e' hmem
    rw [Bool.not_eq_true', decide_eq_false_iff_not] at hno
    exact hno ⟨he', p, hp, hend⟩
  · rcases mem_cons.mp hmem with rfl | hmem
    · exact lt_irrefl _ hlt'
    · have hlater := rel_of_pairwise_cons (pairwise_append.mp hsorted).2.1 hmem
      exact lt_asymm hlt' hlater

theorem FirstStop.eq_some (h : FirstStop stop text lo s e) :
    firstStop stop text lo = some (s, e) := by
  cases hfirst : firstStop stop text lo with
  | none => exact absurd h.ends (firstStop_eq_none hfirst s h.mem e h.after)
  | some r =>
    obtain ⟨rfl, rfl⟩ := h.unique (firstStop_eq_some hfirst)
    rfl

theorem NoStop.firstStop_eq_none (h : NoStop stop text lo) : firstStop stop text lo = none := by
  cases hfirst : firstStop stop text lo with
  | none => rfl
  | some r =>
    have hr := firstStop_eq_some (s := r.1) (e := r.2) hfirst
    exact absurd hr.ends (h r.1 hr.mem r.2 hr.after)

/-- The first listed string of those completed is the one completed first exactly if none listed
before the latter is completed. -/
theorem ListedStop.eq_iff (h : ListedStop stop text lo s e) (h' : FirstStop stop text lo s' e') :
    s = s' ↔ NoStop (listedBefore stop s') text lo := by
  obtain ⟨before, after, hsplit, hbefore⟩ := h.listed
  constructor
  · rintro rfl
    intro p hp
    refine hbefore p ?_
    rw [listedBefore, hsplit, takeWhile_append] at hp
    split_ifs at hp with hall
    · rw [takeWhile_cons_of_neg (by simp), append_nil] at hp
      exact hp
    · exact ( takeWhile_prefix _).subset hp
  · intro hno
    by_contra hne
    have hs' : ∀ p ∈ before, p ≠ s' := by
      rintro p hp rfl
      exact hbefore p hp e' h'.after h'.ends
    have hmem : s ∈ listedBefore stop s' := by
      rw [listedBefore, hsplit, takeWhile_append_of_pos fun p hp => by simpa using hs' p hp,
        takeWhile_cons_of_pos (by simpa using hne)]
      exact mem_append_right _ mem_cons_self
    exact hno s hmem e h.first.after h.first.ends

/-! ## Feeding groups -/

/-- The update calls for the groups. When the engine core stops at a stop token, this token comes
with the last group. -/
def calls (stopToken : Option Token) : List (List Token) → List (List Token × Bool)
  | [] => [(stopToken.toList, stopToken.isSome)]
  | [group] => [(group ++ stopToken.toList, stopToken.isSome)]
  | group :: groups => (group, false) :: calls stopToken groups

/-- The updates up to the first that reports a stop string. -/
def feed (d : BaseIncrementalDetokenizer) :
    List (List Token × Bool) → Option Str × BaseIncrementalDetokenizer
  | [] => (none, d)
  | (group, stopTerminated) :: rest =>
    match d.update group stopTerminated with
    | (some s, d') => (some s, d')
    | (none, d') => feed d' rest

/-- The stop string and the output text that feeding the groups leads to. -/
def outcome (params : SamplingParams) (stopToken : Option Token) (groups : List (List Token)) :
    Option Str × Str :=
  let r := feed (.init params) (calls stopToken groups)
  (r.1, r.2.outputText)

/-- The tokens that the calls decode, call by call. -/
def parts (includeStopStrInOutput : Bool) (cs : List (List Token × Bool)) : List (List Token) :=
  cs.map fun c => BaseIncrementalDetokenizer.decodedPart includeStopStrInOutput c.1 c.2

/-- All tokens that are decoded unless a stop string ends the request before. -/
def decodedTokens (params : SamplingParams) (stopToken : Option Token) (tokens : List Token) :
    List Token :=
  if params.includeStopStrInOutput then tokens ++ stopToken.toList else tokens

/-- The text of the first `min_tokens` tokens, in which no stop string may end. -/
def minText (minTokens : Nat) (tokens : List Token) : Str := textOf (tokens.take minTokens)

/-- The first group that completes a stop string completes none that is listed before the one
completed first. -/
def CompletesInOrder (stop : List Str) (lo : Nat) : List Token → List (List Token) → Prop
  | _, [] => True
  | before, group :: groups =>
    match firstStop stop (textOf (before ++ group)) lo with
    | none => CompletesInOrder stop lo (before ++ group) groups
    | some (s, _) => NoStop (listedBefore stop s) (textOf (before ++ group)) lo

/-- The stop string and the text that the stop string completed first leads to. -/
def expected (params : SamplingParams) (stopToken : Option Token) (tokens : List Token) :
    Option Str × Str :=
  firstStopOutcome params.stop.toList params.includeStopStrInOutput
    (textOf (decodedTokens params stopToken tokens))
    (minText params.minTokens (decodedTokens params stopToken tokens)).length

/-- The condition for the groups of a request. -/
def GroupsInOrder (params : SamplingParams) (stopToken : Option Token)
    (groups : List (List Token)) : Prop :=
  CompletesInOrder params.stop.toList
    (minText params.minTokens (decodedTokens params stopToken groups.flatten)).length []
    (parts params.includeStopStrInOutput (calls stopToken groups))

/-! ## What a group searches -/

section Window

variable {before part more : List Token} {k : Nat}

/-- The part that an update does not search, with the tokens `before` fed already. -/
def unsearchedText (k : Nat) (before part : List Token) : Str :=
  textOf before ++ textOf (part.take (k - before.length))

/-- An update searches what lies beyond the text of the first `k` tokens, as far as it was not
searched before. -/
theorem window_iff (hend : EndsAt s (textOf (before ++ part)) e)
    (hno : (minText k (before ++ part ++ more)).length < e → ¬ EndsAt s (textOf before) e) :
    (unsearchedText k before part).length < e ↔
      (minText k (before ++ part ++ more)).length < e := by
  have hpre : textOf before <+: textOf (before ++ part) := textOf_prefix (prefix_append _ _)
  by_cases hk : k ≤ before.length
  · -- all of `min_tokens` came before: only the new text is searched
    have hlocal : unsearchedText k before part = textOf before := by
      rw [unsearchedText, Nat.sub_eq_zero_of_le hk, take_zero, textOf_nil, append_nil]
    have hmin : minText k (before ++ part ++ more) <+: textOf before := by
      rw [minText, append_assoc, take_append_of_le_length hk]
      exact textOf_take_isPrefix _ _
    rw [hlocal]
    refine ⟨fun h => hmin.length_le.trans_lt h, fun h => ?_⟩
    by_contra hle
    exact hno h ((EndsAt.of_isPrefix hpre (not_lt.mp hle)).mp hend)
  · have hlocal : unsearchedText k before part = minText k (before ++ part) := by
      rw [unsearchedText, minText, take_append,
        take_of_length_le (l := before) (Nat.le_of_not_le hk), textOf_append]
    rw [hlocal]
    by_cases hk' : k ≤ (before ++ part).length
    · rw [minText, minText, take_append_of_le_length hk']
    · -- no more than `min_tokens` tokens are there: nothing is searched
      have hshort : textOf (before ++ part) <+: minText k (before ++ part ++ more) := by
        rw [minText, take_append, take_of_length_le (Nat.le_of_not_le hk')]
        exact textOf_prefix (prefix_append _ _)
      have hall : minText k (before ++ part) = textOf (before ++ part) := by
        rw [minText, take_of_length_le (by omega)]
      have hle := hend.1
      have hle' := hshort.length_le
      rw [hall]
      exact ⟨fun h => absurd h (by omega), fun h => absurd h (by omega)⟩

end Window

theorem NoStop.congr (h : ∀ p ∈ stop, ∀ e, EndsAt p text e → (lo' < e ↔ lo < e)) :
    NoStop stop text lo ↔ NoStop stop text lo' :=
  ⟨fun hno p hp e he hend => hno p hp e ((h p hp e hend).mp he) hend,
    fun hno p hp e he hend => hno p hp e ((h p hp e hend).mpr he) hend⟩

theorem ListedStop.congr (h : ∀ p ∈ stop, ∀ e, EndsAt p text e → (lo' < e ↔ lo < e))
    (hlisted : ListedStop stop text lo' s e) : ListedStop stop text lo s e where
  first := {
    ends := hlisted.first.ends
    after := (h s hlisted.mem e hlisted.first.ends).mp hlisted.first.after
    first := fun e' he' hend =>
      hlisted.first.first e' ((h s hlisted.mem e' hend).mpr he') hend }
  listed := by
    obtain ⟨front, rest, hsplit, hno⟩ := hlisted.listed
    refine ⟨front, rest, hsplit, (NoStop.congr fun p hp => h p ?_).mpr hno⟩
    rw [hsplit]
    exact mem_append_left _ hp

/-! ## The outcome of a grouping -/

section Feed

variable {d : BaseIncrementalDetokenizer} {before all : List Token} {cs : List (List Token × Bool)}

/-- The last group is decoded without the stop token, unless this is to be in the output. -/
theorem decodedPart_stopToken (b : Bool) (stopToken : Option Token) (group : List Token) :
    BaseIncrementalDetokenizer.decodedPart b (group ++ stopToken.toList) stopToken.isSome =
      if b then group ++ stopToken.toList else group := by
  unfold BaseIncrementalDetokenizer.decodedPart
  cases stopToken with
  | none => simp
  | some t => cases b <;> simp

theorem decodedPart_false (b : Bool) (group : List Token) :
    BaseIncrementalDetokenizer.decodedPart b group false = group :=
  if_neg fun h => Bool.noConfusion h.1

theorem parts_calls (b : Bool) (stopToken : Option Token) (groups : List (List Token)) :
    (parts b (calls stopToken groups)).flatten =
      if b then groups.flatten ++ stopToken.toList else groups.flatten := by
  induction groups with
  | nil =>
    have hlast := decodedPart_stopToken b stopToken []
    simpa [calls, parts] using hlast
  | cons group groups ih =>
    cases groups with
    | nil =>
      have hlast := decodedPart_stopToken b stopToken group
      simpa [calls, parts] using hlast
    | cons group' groups =>
      have hparts : parts b (calls stopToken (group :: group' :: groups)) =
          group :: parts b (calls stopToken (group' :: groups)) := by
        rw [calls]
        · rfl
        · exact cons_ne_nil _ _
      rw [hparts, flatten_cons, ih]
      cases b <;> simp

theorem calls_dropLast (stopToken : Option Token) (groups : List (List Token)) :
    ∀ c ∈ (calls stopToken groups).dropLast, c.2 = false := by
  induction groups with
  | nil => simp [calls]
  | cons group groups ih =>
    cases groups with
    | nil => simp [calls]
    | cons group' groups =>
      intro c hc
      have hne : calls stopToken (group' :: groups) ≠ [] := by
        cases groups <;> exact cons_ne_nil _ _
      rw [calls, dropLast_cons_of_ne_nil hne] at hc
      · rcases mem_cons.mp hc with rfl | hc
        · rfl
        · exact ih c hc
      · exact cons_ne_nil _ _

theorem take_cut_of_isPrefix (hpre : text <+: text') (he : e ≤ text.length) :
    text'.take (cutAt b s e) = text.take (cutAt b s e) := by
  obtain ⟨more, rfl⟩ := hpre
  refine take_append_of_le_length ?_
  unfold cutAt
  split_ifs
  · exact he
  · exact (Nat.sub_le _ _).trans he

/-- A group that completes a stop string leads to the expected outcome exactly if the string
reported is the one completed first. -/
theorem reported_iff (hpre : text <+: text') (hlisted : ListedStop stop text lo s e) :
    (some s, text.take (cutAt b s e)) = firstStopOutcome stop b text' lo ↔
      match firstStop stop text lo with
      | none => False
      | some (s', _) => NoStop (listedBefore stop s') text lo := by
  cases hfirst : firstStop stop text lo with
  | none =>
    exact absurd hlisted.first.ends (firstStop_eq_none hfirst s hlisted.mem e hlisted.first.after)
  | some r =>
    obtain ⟨s', e'⟩ := r
    have h' := firstStop_eq_some hfirst
    have hwhole := (h'.of_isPrefix hpre).eq_some
    rw [firstStopOutcome, hwhole]
    dsimp only
    rw [← hlisted.eq_iff h', take_cut_of_isPrefix hpre h'.ends.1]
    constructor
    · intro heq
      exact Option.some.inj (congrArg Prod.fst heq)
    · rintro rfl
      have he : e = e' := le_antisymm (hlisted.first.first e' h'.after h'.ends)
        (h'.least s hlisted.mem e hlisted.first.after hlisted.first.ends)
      rw [he]

/-- What the updates make of the remaining calls, when `before` was fed without completing a stop
string. -/
theorem feed_iff (hstop : ∀ s ∈ d.stop, s ≠ []) (hflag : ∀ c ∈ cs.dropLast, c.2 = false)
    (htext : d.outputText = textOf before) (hcount : cs ≠ [] → d.numOutputTokens = before.length)
    (hno : NoStop d.stop (textOf before) (minText d.minTokens all).length)
    (hall : before ++ (parts d.includeStopStrInOutput cs).flatten = all) :
    ((feed d cs).1, (feed d cs).2.outputText) = firstStopOutcome d.stop d.includeStopStrInOutput
        (textOf all) (minText d.minTokens all).length ↔
      CompletesInOrder d.stop (minText d.minTokens all).length before
        (parts d.includeStopStrInOutput cs) := by
  induction cs generalizing d before with
  | nil =>
    have hbefore : before = all := by rwa [parts, map_nil, flatten_nil,
      append_nil] at hall
    subst hbefore
    rw [firstStopOutcome, hno.firstStop_eq_none, feed, htext]
    exact iff_of_true rfl trivial
  | cons c cs ih =>
    obtain ⟨group, stopTerminated⟩ := c
    have hout := @BaseIncrementalDetokenizer.update_outcome _ group stopTerminated hstop
    obtain ⟨part, hpart⟩ : ∃ part, part =
        BaseIncrementalDetokenizer.decodedPart d.includeStopStrInOutput group stopTerminated :=
      ⟨_, rfl⟩
    have hparts : parts d.includeStopStrInOutput ((group, stopTerminated) :: cs) =
        part :: parts d.includeStopStrInOutput cs := by
      rw [hpart]
      rfl
    have htext' : (d.extended group stopTerminated).outputText = textOf (before ++ part) := by
      rw [textOf_append, ← htext, hpart]
      rfl
    have hloc : d.unsearched part = unsearchedText d.minTokens before part := by
      rw [BaseIncrementalDetokenizer.unsearched, unsearchedText, htext, hcount (cons_ne_nil _ _)]
    rw [← hpart, hloc] at hout
    rw [hparts, flatten_cons, ← append_assoc] at hall
    have hwin : ∀ p ∈ d.stop, ∀ e, EndsAt p (textOf (before ++ part)) e →
        ((unsearchedText d.minTokens before part).length < e ↔
          (minText d.minTokens all).length < e) := by
      intro p hp e hend
      rw [← hall]
      exact window_iff hend fun he => hno p hp e (hall ▸ he)
    have hpre : textOf (before ++ part) <+: textOf all := by
      rw [← hall]
      exact textOf_prefix (prefix_append _ _)
    rw [hparts, CompletesInOrder, feed]
    generalize d.update group stopTerminated = r at hout ⊢
    cases hout with
    | none hlocal =>
      rw [htext'] at hlocal
      have hno' := (NoStop.congr hwin).mpr hlocal
      have hcount' : cs ≠ [] → (d.extended group stopTerminated).numOutputTokens =
          (before ++ part).length := by
        intro hne
        have hflag' : stopTerminated = false := hflag (group, stopTerminated) (by
          rw [dropLast_cons_of_ne_nil hne]
          exact mem_cons_self)
        have hgroup : part = group := by rw [hpart, hflag', decodedPart_false]
        have hbefore := hcount (cons_ne_nil _ _)
        rw [hgroup, length_append, ← hbefore]
        show (d.tokenIds ++ group.map (·.id)).length = d.tokenIds.length + group.length
        rw [length_append, length_map]
      have hflags : ∀ c ∈ cs.dropLast, c.2 = false := by
        intro c hc
        refine hflag c ?_
        cases cs with
        | nil => cases hc
        | cons c' cs => exact mem_cons_of_mem _ hc
      dsimp only
      rw [hno'.firstStop_eq_none]
      exact ih (d := d.extended group stopTerminated) hstop hflags htext' hcount' hno' hall
    | @some s e hlisted =>
      rw [htext'] at hlisted
      have hlisted' : ListedStop d.stop (textOf (before ++ part))
        (minText d.minTokens all).length s e := ListedStop.congr hwin hlisted
      have hiff := reported_iff (b := d.includeStopStrInOutput) hpre hlisted'
      have hnone : firstStop d.stop (textOf (before ++ part))
          (minText d.minTokens all).length ≠ none := fun hnone =>
        firstStop_eq_none hnone s hlisted'.mem e hlisted'.first.after hlisted'.first.ends
      have htrunc : ((d.extended group stopTerminated).truncate
          (cutAt d.includeStopStrInOutput s e)).outputText =
          (textOf (before ++ part)).take (cutAt d.includeStopStrInOutput s e) := by
        rw [← htext']
        rfl
      dsimp only
      rw [show (d.extended group stopTerminated).includeStopStrInOutput =
        d.includeStopStrInOutput from rfl, htrunc, hiff]
      cases hfirst : firstStop d.stop (textOf (before ++ part))
          (minText d.minTokens all).length with
      | none => exact absurd hfirst hnone
      | some r => exact Iff.rfl

end Feed

/-- Feeding the tokens in groups leads to the outcome of the stop string that is completed first
exactly if the first group that completes a stop string completes none that is listed before the
one completed first. -/
theorem outcome_iff (params : SamplingParams) (stopToken : Option Token)
    (groups : List (List Token)) :
    outcome params stopToken groups = expected params stopToken groups.flatten ↔
      GroupsInOrder params stopToken groups := by
  have hall : (parts params.includeStopStrInOutput (calls stopToken groups)).flatten =
      decodedTokens params stopToken groups.flatten := by
    rw [parts_calls, decodedTokens]
  exact @feed_iff (.init params) [] _ _ params.stop_ne (calls_dropLast _ _) rfl (fun _ => rfl)
      (fun s _ e he hend => absurd (he.trans_le hend.1) (Nat.not_lt_zero _)) hall

/-- The stop strings "b" and "a", in this order. -/
def stopsBA : SamplingParams where
  stop := .list ["b".toList, "a".toList]
  stop_ne := by decide

/-- The tokens "a" and "b" one by one stop at "a", together they are reported as "b" and the output
contains the stop string "a". -/
theorem outcome_grouped :
    outcome stopsBA none [[⟨0, "a".toList⟩], [⟨1, "b".toList⟩]] = (some "a".toList, []) ∧
      outcome stopsBA none [[⟨0, "a".toList⟩, ⟨1, "b".toList⟩]] =
        (some "b".toList, "a".toList) ∧
      expected stopsBA none [⟨0, "a".toList⟩, ⟨1, "b".toList⟩] = (some "a".toList, []) := by
  decide

end MyOperator.Detok
