import MyOperator.Lib.Borders

/-!
# N-gram proposals

`_find_longest_matched_ngram_and_propose_tokens` of the n-gram proposer: over the reversed
tokens a table of longest borders is built and read in one pass, so that the longest n-gram
at the end of the tokens that stands earlier is found, at its first place, and the tokens
behind it are proposed. The table and the lengths matched are capped at `max_ngram`.
-/

namespace MyOperator.Sampling

open Lib List Option Nat

variable {α : Type} [DecidableEq α]

/-- The variables of the loop. -/
structure NgramState where
  lps : List Nat
  longestNgram : Nat
  position : Nat
  prevLps : Nat
  i : Nat
  deriving DecidableEq, Repr

/-- The body of the loop; `none` for an index that is out of range. -/
def ngramStep (tokens : List α) (maxNgram : Nat) (s : NgramState) : Option NgramState := do
  let prevToken ← tokens[s.prevLps]?
  let token ← tokens[s.i]?
  if prevToken = token then
    let prevLps := s.prevLps + 1
    let found := if s.longestNgram ≤ prevLps then (prevLps, s.i) else (s.longestNgram, s.position)
    let lps := if s.i < maxNgram then s.lps.set s.i prevLps else s.lps
    -- "to avoid matching ngram longer than max_ngram"
    let nextLps ← if prevLps = maxNgram then lps[maxNgram - 1]? else some prevLps
    return { lps, longestNgram := found.1, position := found.2, prevLps := nextLps, i := s.i + 1 }
  else if s.prevLps ≠ 0 then
    let prevLps ← s.lps[s.prevLps - 1]?
    return { s with prevLps }
  else return { s with i := s.i + 1 }

/-- The loop, for at most `fuel` passes. -/
def ngramLoop (tokens : List α) (maxNgram : Nat) : (fuel : Nat) → NgramState → Option NgramState
  | 0, _ => none
  | fuel + 1, s =>
    if s.i < tokens.length then (ngramStep tokens maxNgram s).bind (ngramLoop tokens maxNgram fuel)
    else some s

def findLongestMatchedNgramAndProposeTokens (originTokens : List α) (minNgram maxNgram : Nat)
    (maxModelLen k : Int) (fuel : Nat) : Option (List α) :=
  let totalToken := originTokens.length
  if totalToken < minNgram then some []
  else
    let k := min k (maxModelLen - totalToken)
    if k ≤ 0 then some []
    else do
      let s ← ngramLoop originTokens.reverse maxNgram fuel ⟨replicate maxNgram 0, 0, 0, 0, 1⟩
      if s.longestNgram < minNgram then return []
      else
        let startPosition := totalToken - 1 - s.position + s.longestNgram
        let k := min k (totalToken - startPosition)
        return (originTokens.drop startPosition).take k.toNat

/-! ## The loop -/

variable {β : Type} {t : Nat → β} {maxNgram : Nat} {s : NgramState}

/-- What holds before each pass. The first `prevLps` tokens stand at the end of the first `i`;
no longer ones that the token at `i` extends do. What has been found is the longest border up to
there, at its last place. -/
structure NgramInv (t : Nat → β) (maxNgram : Nat) (s : NgramState) : Prop where
  pos : 0 < s.i
  length : s.lps.length = maxNgram
  table : ∀ j < s.i, j < maxNgram → ∃ v, s.lps[j]? = some v ∧ LongestBorder t (j + 1) v (j + 1)
  rest : ∀ j, s.i ≤ j → j < maxNgram → s.lps[j]? = some 0
  prev_lt_max : s.prevLps < maxNgram
  prev_lt : s.prevLps < s.i
  prev_border : Border t s.prevLps s.i
  prev_longest : ∀ u < maxNgram, u < s.i → Border t u s.i → t u = t s.i → u ≤ s.prevLps
  longest : ∀ e ≤ s.i, ∀ u ≤ maxNgram, u < e → Border t u e → u ≤ s.longestNgram
  longest_le : s.longestNgram ≤ maxNgram
  found : s.longestNgram ≠ 0 → s.longestNgram ≤ s.position ∧ s.position < s.i ∧
    Border t s.longestNgram (s.position + 1) ∧
    ∀ e ≤ s.i, s.position + 1 < e → ¬ Border t s.longestNgram e

theorem ngramInv_start (t : Nat → β) (hmax : 0 < maxNgram) :
    NgramInv t maxNgram ⟨replicate maxNgram 0, 0, 0, 0, 1⟩ where
  pos := one_pos
  length := length_replicate
  table j hj hjm := by
    obtain rfl : j = 0 := Nat.lt_one_iff.mp hj
    exact ⟨0, getElem?_replicate_of_lt hjm, longestBorder_one t 1⟩
  rest j _ hj := getElem?_replicate_of_lt hj
  prev_lt_max := hmax
  prev_lt := one_pos
  prev_border := border_zero t 1
  prev_longest u _ hu _ _ := le_of_lt_succ hu
  longest e he u _ hu _ := by
    have : e ≤ 1 := he
    show u ≤ 0
    omega
  longest_le := Nat.zero_le _
  found h := absurd rfl h

namespace NgramInv

theorem mismatch (h : NgramInv t maxNgram s) (hne : t s.prevLps ≠ t s.i) (hpos : s.prevLps ≠ 0) :
    ∃ v, s.lps[s.prevLps - 1]? = some v ∧ v < s.prevLps ∧ NgramInv t maxNgram { s with prevLps := v } := by
  have hlt := h.prev_lt
  have hmax := h.prev_lt_max
  obtain ⟨v, hget, hv⟩ := h.table (s.prevLps - 1) (by omega) (by omega)
  rw [Nat.sub_add_cancel (Nat.pos_of_ne_zero hpos)] at hv
  refine ⟨v, hget, hv.lt, ?_⟩
  exact { h with
      prev_lt_max := hv.lt.trans hmax
      prev_lt := hv.lt.trans hlt
      prev_border := (border_of_border h.prev_border hv.lt.le).mpr hv.border
      prev_longest := by
        intro u humax hui hu hnext
        have hle := h.prev_longest u humax hui hu hnext
        have hnot : u ≠ s.prevLps := by
          rintro rfl
          exact hne hnext
        have hbelow : u < s.prevLps := by omega
        exact hv.longest u hbelow ((border_of_border h.prev_border hle).mp hu) }

theorem skip (h : NgramInv t maxNgram s) (hne : t s.prevLps ≠ t s.i) (hzero : s.prevLps = 0) :
    NgramInv t maxNgram { s with i := s.i + 1 } := by
  -- what does not stand there can not be extended
  have hnone : ∀ u ≤ maxNgram, u < s.i + 1 → Border t u (s.i + 1) → u = 0 := by
    intro u humax hui hu
    cases u with
    | zero => rfl
    | succ u =>
      obtain ⟨hborder, hnext⟩ := border_succ.mp hu
      have hle := h.prev_longest u humax (lt_of_succ_lt_succ hui) hborder hnext
      rw [hzero] at hle
      obtain rfl : u = 0 := Nat.le_zero.mp hle
      rw [hzero] at hne
      exact absurd hnext hne
  refine
    { pos := succ_pos _
      length := h.length
      table := ?_
      rest := fun j hj => h.rest j (le_of_succ_le hj)
      prev_lt_max := h.prev_lt_max
      prev_lt := lt_succ_of_lt h.prev_lt
      prev_border := by
        show Border t s.prevLps (s.i + 1)
        rw [hzero]
        exact border_zero t _
      prev_longest := fun u humax hui hu _ => (hnone u humax.le hui hu).le.trans (Nat.zero_le _)
      longest := ?_
      longest_le := h.longest_le
      found := ?_ }
  · intro j hj hjmax
    rcases Nat.lt_succ_iff_lt_or_eq.mp hj with hj | rfl
    · exact h.table j hj hjmax
    · refine ⟨0, h.rest s.i (le_refl _) hjmax, succ_pos _, border_zero t _, fun u hu hub => ?_⟩
      exact (hnone u (by omega) hu hub).le
  · intro e he u humax hue hu
    rcases le_succ_iff.mp he with he | rfl
    · exact h.longest e he u humax hue hu
    · rw [hnone u humax hue hu]
      exact Nat.zero_le _
  · intro hfound
    obtain ⟨hle, hpos, hborder, hlast⟩ := h.found hfound
    refine ⟨hle, lt_succ_of_lt hpos, hborder, fun e he hpe hb => ?_⟩
    rcases le_succ_iff.mp he with he | rfl
    · exact hlast e he hpe hb
    · exact hfound (hnone _ h.longest_le (lt_succ_of_le (hle.trans hpos.le)) hb)

/-- What the state after a token that matches has stored and found, before `prevLps` is set. -/
theorem extend (h : NgramInv t maxNgram s) (heq : t s.prevLps = t s.i) {lps : List Nat}
    (hlps : lps = if s.i < maxNgram then s.lps.set s.i (s.prevLps + 1) else s.lps)
    {found : Nat × Nat}
    (hfound : found = if s.longestNgram ≤ s.prevLps + 1 then (s.prevLps + 1, s.i)
      else (s.longestNgram, s.position)) :
    ∃ v, (if s.prevLps + 1 = maxNgram then lps[maxNgram - 1]? else some (s.prevLps + 1)) = some v ∧
      v ≤ s.prevLps + 1 ∧
      NgramInv t maxNgram ⟨lps, found.1, found.2, v, s.i + 1⟩ := by
  have hborder : Border t (s.prevLps + 1) (s.i + 1) := border_succ.mpr ⟨h.prev_border, heq⟩
  have hprev := h.prev_lt
  have hmax := h.prev_lt_max
  have hlongest : ∀ u ≤ maxNgram, u < s.i + 1 → Border t u (s.i + 1) → u ≤ s.prevLps + 1 := by
    intro u humax hui hu
    cases u with
    | zero => exact Nat.zero_le _
    | succ u =>
      obtain ⟨hu, hnext⟩ := border_succ.mp hu
      exact succ_le_succ (h.prev_longest u humax (lt_of_succ_lt_succ hui) hu hnext)
  -- the table with the entry at `i`
  have htable : ∀ j < s.i + 1, j < maxNgram → ∃ v, lps[j]? = some v ∧ LongestBorder t (j + 1) v (j + 1) := by
    intro j hj hjmax
    rcases Nat.lt_succ_iff_lt_or_eq.mp hj with hj | rfl
    · obtain ⟨v, hget, hv⟩ := h.table j hj hjmax
      refine ⟨v, ?_, hv⟩
      rw [hlps]
      split
      · rw [getElem?_set_ne (ne_of_gt hj), hget]
      · exact hget
    · refine ⟨s.prevLps + 1, ?_, succ_lt_succ hprev, hborder, fun u hu hub => ?_⟩
      · rw [hlps, if_pos hjmax, getElem?_set_self (by rw [h.length]; exact hjmax)]
      · exact hlongest u (by omega) hu hub
  have hlength : lps.length = maxNgram := by
    rw [hlps]
    split
    · rw [length_set, h.length]
    · exact h.length
  have hrest : ∀ j, s.i + 1 ≤ j → j < maxNgram → lps[j]? = some 0 := by
    intro j hj hjmax
    rw [hlps]
    split
    · rw [getElem?_set_ne (by omega)]
      exact h.rest j (by omega) hjmax
    · exact h.rest j (by omega) hjmax
  -- the longest border stays below the cap
  obtain ⟨v, hget, hle, hvmax, hvi, hvborder, hvlongest⟩ : ∃ v,
      (if s.prevLps + 1 = maxNgram then lps[maxNgram - 1]? else some (s.prevLps + 1)) = some v ∧
      v ≤ s.prevLps + 1 ∧ v < maxNgram ∧ v < s.i + 1 ∧ Border t v (s.i + 1) ∧
      ∀ u < maxNgram, u < s.i + 1 → Border t u (s.i + 1) → u ≤ v := by
    by_cases hcap : s.prevLps + 1 = maxNgram
    · obtain ⟨v, hv, hlong⟩ := htable (maxNgram - 1) (by omega) (by omega)
      rw [Nat.sub_add_cancel (by omega)] at hlong
      rw [hcap] at hborder
      have hlt := hlong.lt
      refine ⟨v, by rw [if_pos hcap, hv], by omega, hlt, by omega,
        (border_of_border hborder hlt.le).mpr hlong.border, fun u hu _ hub => ?_⟩
      exact hlong.longest u hu ((border_of_border hborder hu.le).mp hub)
    · exact ⟨s.prevLps + 1, if_neg hcap, le_refl _, by omega, by omega, hborder,
        fun u hu hui hub => hlongest u hu.le hui hub⟩
  refine ⟨v, hget, hle, ?_⟩
  exact
    { pos := succ_pos _
      length := hlength
      table := htable
      rest := hrest
      prev_lt_max := hvmax
      prev_lt := hvi
      prev_border := hvborder
      prev_longest := fun u humax hui hub _ => hvlongest u humax hui hub
      longest := by
        intro e he u humax hue hub
        show u ≤ found.1
        have hfirst : s.longestNgram ≤ found.1 ∧ s.prevLps + 1 ≤ found.1 := by
          rw [hfound]
          split <;> constructor <;> simp only <;> omega
        rcases le_succ_iff.mp he with he | rfl
        · exact (h.longest e he u humax hue hub).trans hfirst.1
        · exact (hlongest u humax hue hub).trans hfirst.2
      longest_le := by
        show found.1 ≤ maxNgram
        have := h.longest_le
        rw [hfound]
        split <;> simp only <;> omega
      found := by
        intro hne
        show found.1 ≤ found.2 ∧ found.2 < s.i + 1 ∧ Border t found.1 (found.2 + 1) ∧
          ∀ e ≤ s.i + 1, found.2 + 1 < e → ¬ Border t found.1 e
        rw [hfound]
        by_cases hlonger : s.longestNgram ≤ s.prevLps + 1
        · rw [if_pos hlonger]
          exact ⟨hprev, lt_succ_self _, hborder, fun e he hpe => absurd hpe (by simp only; omega)⟩
        · rw [if_neg hlonger]
          obtain ⟨hpos, hposi, hb, hlast⟩ := h.found (by omega)
          refine ⟨hpos, lt_succ_of_lt hposi, hb, fun e he hpe hbe => ?_⟩
          rcases le_succ_iff.mp he with he | rfl
          · exact hlast e he hpe hbe
          · have := hlongest _ h.longest_le (lt_succ_of_le (hpos.trans hposi.le)) hbe
            omega }

end NgramInv

/-- What each pass makes smaller: it goes on by a token, or back to a shorter border. -/
def NgramState.left (total : Nat) (s : NgramState) : Nat := 2 * (total - s.i) + s.prevLps

variable {tokens : List α}

theorem ngramStep_holds (h : NgramInv (fun x => tokens[x]?) maxNgram s) (hi : s.i < tokens.length) :
    ∃ s', ngramStep tokens maxNgram s = some s' ∧ NgramInv (fun x => tokens[x]?) maxNgram s' ∧
      s'.i ≤ tokens.length ∧ s'.left tokens.length < s.left tokens.length := by
  obtain ⟨prevToken, hprev⟩ : ∃ token, tokens[s.prevLps]? = some token :=
    ⟨_, getElem?_eq_getElem (h.prev_lt.trans hi)⟩
  obtain ⟨token, htoken⟩ : ∃ token, tokens[s.i]? = some token := ⟨_, getElem?_eq_getElem hi⟩
  unfold ngramStep
  rw [hprev, htoken]
  simp only [bind_eq_bind, bind_some]
  by_cases heq : prevToken = token
  · rw [if_pos heq]
    have hsame : tokens[s.prevLps]? = tokens[s.i]? := by rw [hprev, htoken, heq]
    obtain ⟨v, hget, hle, hinv⟩ := h.extend hsame rfl rfl
    have hless : 2 * (tokens.length - (s.i + 1)) + v < 2 * (tokens.length - s.i) + s.prevLps := by omega
    by_cases hcap : s.prevLps + 1 = maxNgram
    · rw [if_pos hcap] at hget ⊢
      rw [hget]
      exact ⟨_, rfl, hinv, hi, hless⟩
    · rw [if_neg hcap] at hget ⊢
      cases hget
      exact ⟨_, rfl, hinv, hi, hless⟩
  · rw [if_neg heq]
    have hne : tokens[s.prevLps]? ≠ tokens[s.i]? := by
      rw [hprev, htoken]
      exact fun h => heq (Option.some.inj h)
    by_cases hzero : s.prevLps = 0
    · rw [if_neg (not_not_intro hzero)]
      refine ⟨_, rfl, h.skip hne hzero, hi, ?_⟩
      show 2 * (tokens.length - (s.i + 1)) + s.prevLps < 2 * (tokens.length - s.i) + s.prevLps
      omega
    · rw [if_pos hzero]
      obtain ⟨v, hget, hlt, hinv⟩ := h.mismatch hne hzero
      rw [hget]
      refine ⟨_, rfl, hinv, hi.le, ?_⟩
      show 2 * (tokens.length - s.i) + v < 2 * (tokens.length - s.i) + s.prevLps
      omega

theorem ngramLoop_holds (fuel : Nat) (h : NgramInv (fun x => tokens[x]?) maxNgram s)
    (hi : s.i ≤ tokens.length) (hfuel : s.left tokens.length < fuel) :
    ∃ s', ngramLoop tokens maxNgram fuel s = some s' ∧ NgramInv (fun x => tokens[x]?) maxNgram s' ∧
      s'.i = tokens.length := by
  induction fuel generalizing s with
  | zero => exact absurd hfuel (Nat.not_lt_zero _)
  | succ fuel ih =>
    rw [ngramLoop]
    by_cases hend : s.i < tokens.length
    · obtain ⟨s', hstep, hinv, hi, hless⟩ := ngramStep_holds h hend
      rw [if_pos hend, hstep]
      exact ih hinv hi (by omega)
    · exact ⟨s, if_neg hend, h, by omega⟩

/-! ## What is proposed -/

/-- The last `n` tokens stand also at `s`, before their place at the end. -/
def OccursAt (tokens : List α) (n s : Nat) : Prop :=
  s + n < tokens.length ∧ ∀ j < n, tokens[s + j]? = tokens[tokens.length - n + j]?

instance (tokens : List α) (n s : Nat) : Decidable (OccursAt tokens n s) :=
  inferInstanceAs (Decidable (_ ∧ _))

/-- `s` is the first place of the longest n-gram at the end of the tokens that stands earlier. -/
structure LongestEarliest (tokens : List α) (minNgram maxNgram n s : Nat) : Prop where
  min_le : minNgram ≤ n
  le_max : n ≤ maxNgram
  occurs : OccursAt tokens n s
  earliest : ∀ s' < s, ¬ OccursAt tokens n s'
  longest : ∀ n' ≤ maxNgram, n < n' → ∀ s', ¬ OccursAt tokens n' s'

omit [DecidableEq α] in
theorem border_iff_occursAt {n e : Nat} (hne : n < e) (he : e ≤ tokens.length) :
    Border (fun x => tokens.reverse[x]?) n e ↔ OccursAt tokens n (tokens.length - e) := by
  rw [border_reverse hne.le he]
  constructor
  · intro h
    exact ⟨by omega, h⟩
  · rintro ⟨-, h⟩
    exact h

omit [DecidableEq α] in
/-- A place where the end of the tokens stands earlier is a border of the reversed tokens. -/
theorem OccursAt.border {n s : Nat} (h : OccursAt tokens n s) :
    n < tokens.length - s ∧ Border (fun x => tokens.reverse[x]?) n (tokens.length - s) := by
  have hlt := h.1
  have hns : n < tokens.length - s := by omega
  refine ⟨hns, (border_iff_occursAt hns (Nat.sub_le _ _)).mpr ?_⟩
  rw [Nat.sub_sub_self (by omega)]
  exact h

namespace NgramInv

omit [DecidableEq α] in
theorem occursAt_le (h : NgramInv (fun x => tokens.reverse[x]?) maxNgram s) (hi : s.i = tokens.length)
    {n p : Nat} (hn : n ≤ maxNgram) (hoccurs : OccursAt tokens n p) : n ≤ s.longestNgram := by
  obtain ⟨hlt, hborder⟩ := hoccurs.border
  exact h.longest _ (by omega) n hn hlt hborder

omit [DecidableEq α] in
theorem longestEarliest (h : NgramInv (fun x => tokens.reverse[x]?) maxNgram s) (hi : s.i = tokens.length)
    {minNgram : Nat} (hmin : 0 < minNgram) (hle : minNgram ≤ s.longestNgram) :
    LongestEarliest tokens minNgram maxNgram s.longestNgram (tokens.length - 1 - s.position) := by
  obtain ⟨hpos, hposi, hborder, hlast⟩ := h.found (by omega)
  refine
    { min_le := hle
      le_max := h.longest_le
      occurs := ?_
      earliest := ?_
      longest := ?_ }
  · rw [border_iff_occursAt (by omega) (by omega)] at hborder
    have hplace : tokens.length - (s.position + 1) = tokens.length - 1 - s.position := by omega
    rw [← hplace]
    exact hborder
  · intro p hp hoccurs
    obtain ⟨-, hb⟩ := hoccurs.border
    exact hlast _ (by omega) (by omega) hb
  · intro n hn hlt p hoccurs
    exact Nat.not_lt_of_le (h.occursAt_le hi hn hoccurs) hlt

end NgramInv

/-- With as many passes as there are tokens twice over, the proposal is returned: the tokens behind
the first place of the longest n-gram at the end that stands earlier, as many as may be added. It is
empty exactly when there is no such n-gram or no token may be added. -/
theorem propose_longest_earliest (originTokens : List α) (minNgram maxNgram : Nat) (maxModelLen k : Int)
    (fuel : Nat) (hmin : 1 ≤ minNgram) (hmax : 1 ≤ maxNgram) (hfuel : 2 * originTokens.length ≤ fuel) :
    ∃ r, findLongestMatchedNgramAndProposeTokens originTokens minNgram maxNgram maxModelLen k fuel = some r ∧
      (r = [] ↔ min k (maxModelLen - originTokens.length) ≤ 0 ∨
        ∀ n s, minNgram ≤ n → n ≤ maxNgram → ¬ OccursAt originTokens n s) ∧
      (r ≠ [] → ∃ n s, LongestEarliest originTokens minNgram maxNgram n s ∧
        r = (originTokens.drop (s + n)).take (min k (maxModelLen - originTokens.length)).toNat) := by
  unfold findLongestMatchedNgramAndProposeTokens
  simp only [Option.pure_def, bind_eq_bind]
  by_cases hshort : originTokens.length < minNgram
  · rw [if_pos hshort]
    refine ⟨[], rfl, ?_, fun h => absurd rfl h⟩
    refine iff_of_true rfl (Or.inr fun n s hn _ hoccurs => ?_)
    have := hoccurs.1
    omega
  rw [if_neg hshort]
  generalize min k (maxModelLen - originTokens.length) = room
  by_cases hroom : room ≤ 0
  · rw [if_pos hroom]
    exact ⟨[], rfl, iff_of_true rfl (Or.inl hroom), fun h => absurd rfl h⟩
  rw [if_neg hroom]
  have hlength : originTokens.reverse.length = originTokens.length := length_reverse
  have hstart := ngramInv_start (fun x => originTokens.reverse[x]?) (lt_of_succ_le hmax)
  obtain ⟨s, hloop, hinv, hi⟩ := ngramLoop_holds fuel hstart
    (by show 1 ≤ originTokens.reverse.length; omega)
    (by show 2 * (originTokens.reverse.length - 1) + 0 < fuel; omega)
  rw [hlength] at hi
  rw [hloop, bind_some]
  by_cases hfew : s.longestNgram < minNgram
  · rw [if_pos hfew]
    refine ⟨[], rfl, ?_, fun h => absurd rfl h⟩
    refine iff_of_true rfl (Or.inr fun n p hn hnmax hoccurs => ?_)
    have := hinv.occursAt_le hi hnmax hoccurs
    omega
  · rw [if_neg hfew]
    have hproposal := hinv.longestEarliest hi (lt_of_succ_le hmin) (Nat.le_of_not_lt hfew)
    have hplace := hproposal.occurs.1
    generalize originTokens.length - 1 - s.position = p at hproposal hplace ⊢
    -- at least the token behind the n-gram is there
    have hsome : (originTokens.drop (p + s.longestNgram)).take room.toNat ≠ [] := by
      rw [ne_eq, take_eq_nil_iff, drop_eq_nil_iff]
      omega
    have hcut : (originTokens.drop (p + s.longestNgram)).take
        (min room (originTokens.length - (p + s.longestNgram : Nat))).toNat =
        (originTokens.drop (p + s.longestNgram)).take room.toNat := by
      rw [take_eq_take_iff, length_drop]
      omega
    refine ⟨_, rfl, ?_, fun _ => ⟨s.longestNgram, p, hproposal, hcut⟩⟩
    rw [hcut]
    refine iff_of_false hsome (not_or.mpr ⟨hroom, fun hnone => ?_⟩)
    exact hnone _ p hproposal.min_le hproposal.le_max hproposal.occurs

example : findLongestMatchedNgramAndProposeTokens [1, 2, 3, 4, 1, 2, 3, 5, 1, 2, 3] 2 3 20 2 22 =
    some [4, 1] := by decide

theorem propose_longest_earliest_repeated :
    ∃ r, findLongestMatchedNgramAndProposeTokens [1, 2, 3, 4, 1, 2, 3, 5, 1, 2, 3] 2 3 20 2 22 = some r ∧
      (r = [] ↔ min 2 ((20 : Int) - 11) ≤ 0 ∨
        ∀ n s, 2 ≤ n → n ≤ 3 → ¬ OccursAt [1, 2, 3, 4, 1, 2, 3, 5, 1, 2, 3] n s) ∧
      (r ≠ [] → ∃ n s, LongestEarliest [1, 2, 3, 4, 1, 2, 3, 5, 1, 2, 3] 2 3 n s ∧
        r = ([1, 2, 3, 4, 1, 2, 3, 5, 1, 2, 3].drop (s + n)).take (min 2 ((20 : Int) - 11)).toNat) :=
  propose_longest_earliest [1, 2, 3, 4, 1, 2, 3, 5, 1, 2, 3] 2 3 20 2 22 (by decide) (by decide)
    (by decide)

end MyOperator.Sampling
