import MyOperator.AscendEplb.InitialPlacement

/-!
# The logical-to-physical maps of the initial placement

On a valid placement the expert map of a rank says where in its slots each expert is.
`generate_log2phy_map` collects for every expert the global slots of its replicas, rank
by rank, and each rank keeps one of them, numbered by the rank modulo the replicas. The
first rank's number of experts serves as everybody's number of slots, and the scatter
needs an entry for every expert number below the number of entries: a valid placement
gives both.
-/

namespace MyOperator.AscendEplb

open Lib List Function Dict
open Eplb (NumpyError row item setItem length_row getElem?_row row_congr mem_row eq_row map_row
  zipIdx_row row_succ replicate_eq_row setItem_row set_row item_natCast getD_row)

/-! ## Expert maps -/

/-- The slot of an expert on its rank. -/
def localSlot (group : List Nat) (e : Nat) : Int := if e ∈ group then (group.idxOf e : Int) else -1

theorem localSlot_ne {group : List Nat} {e : Nat} : localSlot group e ≠ -1 ↔ e ∈ group := by
  unfold localSlot
  split <;> simp_all

theorem expertMap_eq {total : Nat} {group : List Nat} (hnodup : group.Nodup)
    (hlt : ∀ e ∈ group, e < total) : expertMap total group = .ok (row total (localSlot group)) := by
  unfold expertMap
  rw [replicate_eq_row]
  induction group using List.reverseRecOn with
  | nil => rfl
  | append_singleton group a ih =>
    obtain ⟨hgroup, -, hnew⟩ := nodup_append.mp hnodup
    have ha : a ∉ group := fun h => hnew a h a mem_cons_self rfl
    have ih := ih hgroup fun e he => hlt e (mem_append_left _ he)
    rw [zipIdx_append, foldlM_append, ih, ok_bind, zero_add, zipIdx_cons,
      zipIdx_nil, foldlM_cons, setItem_row (hlt a (by simp)), ok_bind, foldlM_nil]
    refine congrArg Except.ok (row_congr fun e _ => ?_)
    by_cases he : e = a
    · subst he
      rw [update_self, localSlot, if_pos (by simp), idxOf_append_of_notMem ha]
      simp
    · rw [update_of_ne he, localSlot, localSlot]
      by_cases hmem : e ∈ group
      · rw [if_pos hmem, if_pos (mem_append_left _ hmem), idxOf_append_of_mem hmem]
      · rw [if_neg hmem, if_neg (by simp [hmem, he])]

theorem countP_localSlot {total : Nat} {group : List Nat} (hnodup : group.Nodup)
    (hlt : ∀ e ∈ group, e < total) :
    (row total (localSlot group)).countP (· ≠ -1) = group.length := by
  have hperm : group.Perm ((range total).filter fun e => decide (localSlot group e ≠ -1)) := by
    rw [perm_ext_iff_of_nodup hnodup (nodup_range.filter _)]
    intro e
    rw [mem_filter, mem_range, decide_eq_true_iff, localSlot_ne]
    exact ⟨fun h => ⟨hlt e h, h⟩, fun h => h.2⟩
  rw [row, countP_map, countP_eq_length_filter, hperm.length_eq]
  rfl

/-! ## The slots of an expert -/

/-- The global slots that hold an expert, rank by rank. -/
def holders (P : List (List Nat)) (slots e : Nat) : List Int :=
  P.zipIdx.flatMap fun g => if e ∈ g.1 then [(g.1.idxOf e + g.2 * slots : Int)] else []

/-- The dictionary lists these slots and has no other entries. -/
structure Collected (d : Dict Nat (List Int)) (L : Nat → List Int) : Prop where
  items : ∀ e, d.items e = L e
  nonempty : ∀ e, d.get? e ≠ some []

theorem Collected.append {d : Dict Nat (List Int)} {L : Nat → List Int} (h : Collected d L)
    (e : Nat) (x : Int) : Collected (d.appendItem e x) fun e' => if e' = e then L e ++ [x] else L e' where
  items := by
    intro e'
    rw [Dict.appendItem, Dict.items_set, h.items]
    split
    · rfl
    · exact h.items e'
  nonempty := by
    intro e'
    rw [Dict.appendItem, get?_set]
    split
    · simp
    · exact h.nonempty e'

theorem Collected.rank {d : Dict Nat (List Int)} {L : Nat → List Int} (h : Collected d L)
    (slots r n : Nat) (φ : Nat → Int) :
    Collected (collectSlots slots d (row n φ, r))
      fun e => L e ++ if e < n ∧ φ e ≠ -1 then [φ e + r * slots] else [] := by
  unfold collectSlots
  dsimp only
  rw [zipIdx_row]
  induction n with
  | zero => simpa [row] using h
  | succ n ih =>
    rw [row_succ, foldl_append, foldl_cons]
    by_cases hφ : φ n = -1
    · rw [if_neg (not_not.mpr hφ)]
      refine ⟨fun e => (ih.items e).trans ?_, ih.nonempty⟩
      have hsame : (e < n + 1 ∧ φ e ≠ -1) ↔ (e < n ∧ φ e ≠ -1) := by
        refine ⟨fun he => ⟨?_, he.2⟩, fun he => ⟨by omega, he.2⟩⟩
        have : e ≠ n := fun heq => he.2 (heq ▸ hφ)
        omega
      simp only [hsame]
    · rw [if_pos hφ]
      have hstep := ih.append n (φ n + r * slots)
      refine ⟨fun e => (hstep.items e).trans ?_, hstep.nonempty⟩
      by_cases he : e = n
      · subst he
        rw [if_pos rfl, if_neg (by simp), append_nil, if_pos ⟨Nat.lt_succ_self e, hφ⟩]
      · have hsame : (e < n + 1 ∧ φ e ≠ -1) ↔ (e < n ∧ φ e ≠ -1) := and_congr_left fun _ => by omega
        rw [if_neg he]
        simp only [hsame]

theorem collected_holders (slots total : Nat) (P : List (List Nat))
    (hlt : ∀ group ∈ P, ∀ e ∈ group, e < total) :
    Collected ((P.map fun group => row total (localSlot group)).zipIdx.foldl (collectSlots slots) .empty)
      (holders P slots) := by
  induction P using List.reverseRecOn with
  | nil =>
    refine ⟨fun _ => rfl, fun e h => ?_⟩
    cases h
  | append_singleton P group ih =>
    have ih := ih fun g hg => hlt g (mem_append_left _ hg)
    have hstep := ih.rank slots P.length total (localSlot group)
    rw [map_append, zipIdx_append, foldl_append, length_map, zero_add,
      map_singleton, zipIdx_cons, zipIdx_nil, foldl_cons, foldl_nil]
    refine ⟨fun e => (hstep.items e).trans ?_, hstep.nonempty⟩
    rw [holders, holders, zipIdx_append, flatMap_append, zero_add, zipIdx_cons,
      zipIdx_nil, flatMap_singleton]
    congr 1
    by_cases he : e ∈ group
    · rw [if_pos ⟨hlt group (by simp) e he, localSlot_ne.mpr he⟩, if_pos he, localSlot, if_pos he]
    · rw [if_neg (fun h => he (localSlot_ne.mp h.2)), if_neg he]

/-! ## The map of a rank -/

theorem scatter_eq (epRank : Nat) {entries : List (Nat × List Int)} {N : Nat} {v : Nat → Int}
    (hnodup : (entries.map Prod.fst).Nodup) (hlt : ∀ x ∈ entries, x.1 < N)
    (hval : ∀ x ∈ entries, item x.2 ((epRank % x.2.length : Nat) : Int) = .ok (v x.1))
    (f : Nat → Int) : entries.foldlM (fun out e => do
        let slot ← item e.2 ((epRank % e.2.length : Nat) : Int)
        setItem out (e.1 : Int) slot) (row N f) =
      (.ok (row N fun e => if e ∈ entries.map Prod.fst then v e else f e) :
        Except NumpyError (List Int)) := by
  induction entries generalizing f with
  | nil => rfl
  | cons x entries ih =>
    obtain ⟨hx, hnodup⟩ := nodup_cons.mp hnodup
    have ih := ih hnodup (fun y hy => hlt y (mem_cons_of_mem _ hy))
      fun y hy => hval y (mem_cons_of_mem _ hy)
    rw [foldlM_cons, hval x mem_cons_self, ok_bind, setItem_row (hlt x mem_cons_self), ok_bind, ih]
    refine congrArg Except.ok (row_congr fun e _ => ?_)
    by_cases he : e = x.1
    · subst he
      rw [if_neg hx, if_pos (by simp), update_self]
    · have hkey : e ∈ (x :: entries).map Prod.fst ↔ e ∈ entries.map Prod.fst := by
        rw [map_cons, mem_cons, or_iff_right he]
      rw [update_of_ne he]
      simp only [hkey]

/-- What the map of a rank has to be: every expert goes to a global slot that holds it, the
one of its replicas that the rank's number selects. -/
structure SendsToHolders (P : List (List Nat)) (slots total epRank : Nat) (log2phy : List Int) :
    Prop where
  length : log2phy.length = total
  holds : ∀ e < total, ∃ r i : Nat, ∃ group, log2phy[e]? = some ((r * slots + i : Nat) : Int) ∧
    P[r]? = some group ∧ group[i]? = some e
  spread : ∀ e < total, log2phy[e]? = (holders P slots e)[epRank % (holders P slots e).length]?
  distinct : ∀ e, (holders P slots e).Nodup

section Maps

variable {P : List (List Nat)} {slots total epRank : Nat}

theorem mem_holders {e : Nat} {x : Int} (hx : x ∈ holders P slots e) :
    ∃ r i : Nat, ∃ group, x = ((r * slots + i : Nat) : Int) ∧ P[r]? = some group ∧ group[i]? = some e := by
  obtain ⟨g, hg, hin⟩ := mem_flatMap.mp hx
  have hget := mk_mem_zipIdx_iff_getElem?.mp hg
  split at hin
  · rename_i he
    rw [mem_singleton] at hin
    refine ⟨g.2, g.1.idxOf e, g.1, ?_, hget, ?_⟩
    · rw [hin]
      push_cast
      ring
    · rw [getElem?_eq_getElem (idxOf_lt_length_iff.mpr he), getElem_idxOf]
  · cases hin

theorem holders_ne_nil {e : Nat} (he : ∃ group ∈ P, e ∈ group) : holders P slots e ≠ [] := by
  obtain ⟨group, hgroup, he⟩ := he
  obtain ⟨r, hr⟩ := mem_iff_getElem?.mp hgroup
  refine ne_nil_of_mem (mem_flatMap.mpr ⟨(group, r), ?_, ?_⟩) (a := (group.idxOf e + r * slots : Int))
  · exact mk_mem_zipIdx_iff_getElem?.mpr hr
  · rw [if_pos he]
    exact mem_singleton_self _

theorem holders_nodup (hslots : ∀ group ∈ P, group.length = slots) (e : Nat) :
    (holders P slots e).Nodup := by
  unfold holders
  rw [nodup_flatMap]
  refine ⟨fun g _ => by split <;> simp, pairwise_iff_getElem.mpr ?_⟩
  intro r r' hr hr' hlt x hx hx'
  rw [length_zipIdx] at hr hr'
  have hbelow : ∀ q (hq : q < P.length) (y : Int),
      y ∈ (if e ∈ P[q] then [(P[q].idxOf e + q * slots : Int)] else []) →
      (q * slots : Int) ≤ y ∧ y < q * slots + slots := by
    intro q hq y hy
    split at hy
    · rename_i he
      have := idxOf_lt_length_iff.mpr he
      rw [hslots _ (getElem_mem hq)] at this
      rw [mem_singleton] at hy
      omega
    · cases hy
  simp only [getElem_zipIdx, zero_add] at hx hx'
  have h := hbelow r hr x hx
  have h' := hbelow r' hr' x hx'
  have hmul : ((r + 1 : Nat) : Int) * slots ≤ r' * slots :=
    Int.mul_le_mul_of_nonneg_right (by omega) (by omega)
  rw [Nat.cast_add, Int.add_mul] at hmul
  omega

/-- **Every rank's map** of a valid placement sends the experts to slots that hold them. -/
theorem generateLog2phyMap_sends (h : SoundPlacement total ranks P) (hranks : 0 < ranks)
    (hslots : ∀ group ∈ P, group.length = slots) :
    ∃ log2phy, P.mapM (expertMap total) = .ok (P.map fun group => row total (localSlot group)) ∧
      generateLog2phyMap (P.map fun group => row total (localSlot group)) epRank = .ok log2phy ∧
      SendsToHolders P slots total epRank log2phy := by
  have hmaps : P.mapM (expertMap total) = .ok (P.map fun group => row total (localSlot group)) :=
    mapM_ok fun group hgroup => expertMap_eq (h.once group hgroup) (h.valid group hgroup)
  have hcollected := collected_holders slots total P h.valid
  -- the first rank's map counts the slots
  have hP : 0 < P.length := by rw [h.ranks]; exact hranks
  have hfirst : item (P.map fun group => row total (localSlot group)) 0 =
      .ok (row total (localSlot P[0])) := by
    refine item_natCast (i := 0) ?_
    rw [getElem?_map, getElem?_eq_getElem hP, Option.map_some]
  have hcount : (row total (localSlot P[0])).countP (· ≠ -1) = slots := by
    have hmem := getElem_mem hP
    rw [countP_localSlot (h.once _ hmem) (h.valid _ hmem), hslots _ hmem]
  unfold generateLog2phyMap
  rw [hfirst, ok_bind]
  dsimp only
  rw [hcount]
  generalize (P.map fun group => row total (localSlot group)).zipIdx.foldl (collectSlots slots) .empty =
    d at hcollected ⊢
  -- its keys are the experts
  have hget : ∀ e l, (e, l) ∈ d.entries → l = holders P slots e ∧ l ≠ [] := by
    intro e l hel
    have hsome := mem_entries_iff.mp hel
    refine ⟨?_, fun hnil => hcollected.nonempty e (hnil ▸ hsome)⟩
    rw [← hcollected.items, Dict.items, hsome]
    rfl
  have hkeys : ∀ e, e ∈ d.entries.map Prod.fst ↔ e < total := by
    intro e
    constructor
    · intro he
      obtain ⟨⟨e', l⟩, hel, rfl⟩ := mem_map.mp he
      obtain ⟨hl, hne⟩ := hget _ _ hel
      obtain ⟨x, hx⟩ := exists_mem_of_ne_nil _ (hl ▸ hne)
      obtain ⟨r, i, group, -, hgroup, hi⟩ := mem_holders hx
      exact h.valid group (mem_of_getElem? hgroup) _ (mem_of_getElem? hi)
    · intro he
      have hne : holders P slots e ≠ [] := holders_ne_nil (h.placed e he)
      rw [← hcollected.items, Dict.items] at hne
      cases hsome : d.get? e with
      | none => rw [hsome] at hne; exact absurd rfl hne
      | some l => exact mem_map.mpr ⟨(e, l), mem_entries_iff.mpr hsome, rfl⟩
  have hlen : d.entries.length = total := by
    have hperm : (d.entries.map Prod.fst).Perm (range total) := by
      rw [perm_ext_iff_of_nodup d.nodupKeys nodup_range]
      intro e
      rw [hkeys, mem_range]
    rw [← length_map (f := Prod.fst), hperm.length_eq, length_range]
  have hpick : ∀ l : List Int, l ≠ [] → l[epRank % l.length]? = some (l.getD (epRank % l.length) 0) := by
    intro l hl
    have hlt : epRank % l.length < l.length := Nat.mod_lt _ (length_pos_iff.mpr hl)
    rw [getD_eq_getElem?_getD, getElem?_eq_getElem hlt, Option.getD_some]
  have hscatter := scatter_eq epRank (N := total)
    (v := fun e => (holders P slots e).getD (epRank % (holders P slots e).length) 0)
    d.nodupKeys (fun x hx => (hkeys x.1).mp (mem_map_of_mem hx)) (fun x hx => by
      obtain ⟨hl, hne⟩ := hget x.1 x.2 hx
      rw [hl] at hne ⊢
      exact item_natCast (hpick _ hne))
    fun _ => 0
  rw [hlen, replicate_eq_row, hscatter]
  have hall : ∀ e < total, (row total fun e =>
      if e ∈ d.entries.map Prod.fst then
        (holders P slots e).getD (epRank % (holders P slots e).length) 0 else 0)[e]? =
      (holders P slots e)[epRank % (holders P slots e).length]? := by
    intro e he
    rw [getElem?_row, if_pos he, if_pos ((hkeys e).mpr he), hpick _ (holders_ne_nil (h.placed e he))]
  refine ⟨_, hmaps, rfl, length_row, fun e he => ?_, hall, holders_nodup hslots⟩
  have hsome := hpick _ (holders_ne_nil (P := P) (h.placed e he) : holders P slots e ≠ [])
  obtain ⟨r, i, group, hx, hgroup, hi⟩ := mem_holders (mem_of_getElem? hsome)
  exact ⟨r, i, group, by rw [hall e he, hsome, hx], hgroup, hi⟩

end Maps

/-! ## The initial placement -/

/-- The placement of `routed` and `shared` experts on `ranks` ranks with `redundant` more slots
is valid, and every rank's map sends the experts to slots that hold them. -/
def PlacesInitially (routed shared ranks redundant : Nat) : Prop :=
  ∃ P slots, generateGlobalPlacement (routed + shared) ranks redundant shared = .ok P ∧
    SoundPlacement (routed + shared) ranks P ∧ (∀ group ∈ P, group.length = slots) ∧
    ∀ epRank < ranks, ∃ maps log2phy, P.mapM (expertMap (routed + shared)) = .ok maps ∧
      generateLog2phyMap maps epRank = .ok log2phy ∧
      SendsToHolders P slots (routed + shared) epRank log2phy ∧
      (ranks ≠ 1 → ∃ localExpertMap,
        initEplbConfig (routed + shared) ranks epRank redundant true shared =
          .ok (maps, localExpertMap, log2phy, redundant + (ranks - 1)))

/-- **The initial placement** is valid and its maps are sound exactly when the groups that the
many ranks as routed experts. -/
theorem placesInitially_iff (routed shared ranks redundant : Nat) (hranks : 0 < ranks)
    (hdvd : ranks ∣ routed + redundant) (hfull : (routed + redundant) / ranks ≤ routed)
    (hshared : shared ≤ ranks) :
    PlacesInitially routed shared ranks redundant ↔ EmptyGroupsFit routed ranks shared := by
  have hred : 0 < routed ∨ redundant = 0 := by
    rcases Nat.eq_zero_or_pos routed with h | h
    · right
      have hzero : (routed + redundant) / ranks = 0 := Nat.le_zero.mp (h ▸ hfull)
      have := Nat.eq_zero_of_dvd_of_div_eq_zero hdvd hzero
      omega
    · exact .inl h
  have hgen : generateGlobalPlacement (routed + shared) ranks redundant shared =
      .ok (row ranks fun i => rankExperts routed ranks shared ((routed + redundant) / ranks) i) :=
    generateGlobalPlacement_eq hranks hdvd hred
  rw [← soundPlacement_iff hranks hdvd hfull hshared]
  constructor
  · rintro ⟨P, slots, hP, hvalid, -⟩
    rw [hgen] at hP
    cases hP
    exact hvalid
  · intro hvalid
    obtain ⟨slots, hslots⟩ := hvalid.slots
    refine ⟨_, slots, hgen, hvalid, hslots, fun epRank hlt => ?_⟩
    obtain ⟨log2phy, hmaps, hlog2phy, hsends⟩ := generateLog2phyMap_sends hvalid hranks hslots
    refine ⟨_, log2phy, hmaps, hlog2phy, hsends, fun hne => ?_⟩
    have hlocal : epRank < ((row ranks fun i =>
        rankExperts routed ranks shared ((routed + redundant) / ranks) i).map
          fun group => row (routed + shared) (localSlot group)).length := by
      rw [length_map, length_row]
      exact hlt
    refine ⟨((row ranks fun i =>
        rankExperts routed ranks shared ((routed + redundant) / ranks) i).map
          fun group => row (routed + shared) (localSlot group))[epRank], ?_⟩
    unfold initEplbConfig
    simp only [if_true]
    rw [if_neg hne, hgen]
    simp only [ok_bind, hmaps]
    rw [item_natCast (getElem?_eq_getElem hlocal), ok_bind, hlog2phy, ok_bind]
    rfl

/-- Eight routed and two shared experts on four ranks with eight redundant slots. -/
theorem placesInitially_iff_four : PlacesInitially 8 2 4 8 ↔ EmptyGroupsFit 8 4 2 :=
  placesInitially_iff 8 2 4 8 (by decide) (by decide) (by decide) (by decide)

/-- Two experts on four ranks with two redundant slots: the ranks get experts 0, 1, 2 and 1, of
which number 2 does not exist. -/
theorem placesInitially_missing : ¬ PlacesInitially 2 0 4 2 := by
  rintro ⟨P, slots, hP, hvalid, -⟩
  cases hP
  have := hvalid.valid [2] (by decide) 2 (by decide)
  omega

end MyOperator.AscendEplb
