import MyOperator.Sched.EncoderChoice

/-!
# Bookkeeping of the encoder cache

The two counters of `EncoderCacheManager` are the capacity left by the cached and by
the referenced entries (`Booked`). Every call keeps this, and the calls that the
scheduler makes never fail: what `can_allocate` found room for and is not allocated
yet still fits (`SessionInv`).
-/

namespace MyOperator.Sched

open Lib List Dict
open KvCache (assert)

/-- "mm_hash of mm_data => num_encoder_embeds of the mm_data": the identifier determines the
number of embeddings. -/
def SizedBy (size : String → Nat) (r : Request) : Prop :=
  ∀ f ∈ r.mmFeatures, f.mmPosition.getNumEmbeds = size f.identifier

/-- The counters and maps of the manager belong together. -/
structure Booked (size : String → Nat) (m : EncoderCacheManager) : Prop where
  numFreeSlots : m.numFreeSlots = m.cacheSize - ∑ h ∈ m.cached.keySet, (size h : Int)
  numFreeableSlots : m.numFreeableSlots = m.numFreeSlots + ∑ h ∈ m.freeable.keySet, (size h : Int)
  freeable_iff : ∀ h, h ∈ m.freeable.keySet ↔ m.cached.get? h = some ∅
  freeable_size : ∀ h n, m.freeable.get? h = some n → n = size h
  nonneg : 0 ≤ m.numFreeSlots

variable {size : String → Nat} {m m' : EncoderCacheManager} {r q : Request}
  {i : Nat} {f : MultiModalFeatureSpec}

theorem Booked.freeable_nonneg (h : Booked size m) : m.numFreeSlots ≤ m.numFreeableSlots := by
  have hsum : 0 ≤ ∑ h ∈ m.freeable.keySet, (size h : Int) :=
    Finset.sum_nonneg fun _ _ => Int.natCast_nonneg _
  rw [h.numFreeableSlots]
  omega

theorem Request.mmFeature_eq (hf : r.mmFeatures[i]? = some f) : r.mmFeature i = .ok f := by
  unfold Request.mmFeature
  rw [hf]

theorem Request.getNumEncoderEmbeds_eq (hf : r.mmFeatures[i]? = some f) :
    r.getNumEncoderEmbeds i = .ok f.mmPosition.getNumEmbeds := by
  unfold Request.getNumEncoderEmbeds
  rw [hf]

theorem SizedBy.embeds (hr : SizedBy size r) (hf : r.mmFeatures[i]? = some f) :
    f.mmPosition.getNumEmbeds = size f.identifier := hr f (mem_of_getElem? hf)

namespace EncoderCacheManager

/-- A call that moves references only. -/
structure KeepsEntries (m m' : EncoderCacheManager) : Prop where
  cacheSize : m'.cacheSize = m.cacheSize
  keySet : m'.cached.keySet = m.cached.keySet
  numFreeSlots : m'.numFreeSlots = m.numFreeSlots

theorem KeepsEntries.refl (m : EncoderCacheManager) : KeepsEntries m m := ⟨rfl, rfl, rfl⟩

theorem KeepsEntries.trans {m₁ m₂ m₃ : EncoderCacheManager} (h : KeepsEntries m₁ m₂)
    (h' : KeepsEntries m₂ m₃) : KeepsEntries m₁ m₃ where
  cacheSize := h'.cacheSize.trans h.cacheSize
  keySet := h'.keySet.trans h.keySet
  numFreeSlots := h'.numFreeSlots.trans h.numFreeSlots

theorem booked_init (cacheSize : Nat) : Booked size (init cacheSize) where
  numFreeSlots := by simp [init, Dict.keySet, Dict.empty]
  numFreeableSlots := by simp [init, Dict.keySet, Dict.empty]
  freeable_iff := by simp [init, Dict.keySet, Dict.empty, Dict.get?, assocGet?]
  freeable_size := by simp [init, Dict.empty, Dict.get?, assocGet?]
  nonneg := Int.natCast_nonneg _

theorem popFreeable_eq (hm : Booked size m) {h : String} (hempty : m.cached.get? h = some ∅) :
    m.popFreeable h = .ok { m with
      freeable := m.freeable.erase h
      numFreeableSlots := m.numFreeableSlots - size h } := by
  obtain ⟨n, hn⟩ := mem_keySet.mp ((hm.freeable_iff h).mpr hempty)
  unfold popFreeable
  rw [hn, hm.freeable_size h n hn]

/-- `check_and_update_cache`: nothing happens to an entry that is not cached, and one that is
gets a reference. -/
theorem checkAndUpdateCache_spec (hm : Booked size m) (hf : r.mmFeatures[i]? = some f) :
    (f.identifier ∉ m.cached.keySet ∧ m.checkAndUpdateCache r i = .ok (false, m)) ∨
      (f.identifier ∈ m.cached.keySet ∧ ∃ m', m.checkAndUpdateCache r i = .ok (true, m') ∧
        Booked size m' ∧ KeepsEntries m m') := by
  unfold checkAndUpdateCache
  rw [Request.mmFeature_eq hf, ok_bind]
  cases hget : m.cached.get? f.identifier with
  | none =>
    refine .inl ⟨fun h => ?_, rfl⟩
    obtain ⟨refs, hrefs⟩ := mem_keySet.mp h
    rw [hget] at hrefs
    cases hrefs
  | some refs =>
    have hmem : f.identifier ∈ m.cached.keySet := mem_keySet.mpr ⟨refs, hget⟩
    have hkeys : (m.cached.set f.identifier (insert r.requestId refs)).keySet =
        m.cached.keySet := by
      rw [keySet_set, Finset.insert_eq_of_mem hmem]
    refine .inr ⟨hmem, ?_⟩
    dsimp only
    by_cases hrefs : refs = ∅
    · rw [if_pos hrefs]
      subst hrefs
      rw [popFreeable_eq hm hget]
      have hin : f.identifier ∈ m.freeable.keySet := (hm.freeable_iff _).mpr hget
      refine ⟨_, rfl, ⟨?_, ?_, ?_, ?_, hm.nonneg⟩, ⟨rfl, hkeys, rfl⟩⟩
      · show m.numFreeSlots = _
        rw [hkeys]
        exact hm.numFreeSlots
      · show m.numFreeableSlots - size f.identifier = m.numFreeSlots + _
        rw [keySet_erase, hm.numFreeableSlots, ← Finset.add_sum_erase _ _ hin]
        omega
      · intro h
        show h ∈ (m.freeable.erase f.identifier).keySet ↔
          (m.cached.set f.identifier (insert r.requestId ∅)).get? h = some ∅
        rw [keySet_erase, Finset.mem_erase, hm.freeable_iff, get?_set]
        by_cases hh : h = f.identifier <;> simp [hh]
      · intro h n hn
        replace hn : (m.freeable.erase f.identifier).get? h = some n := hn
        rw [get?_erase] at hn
        split at hn
        · cases hn
        · exact hm.freeable_size h n hn
    · rw [if_neg hrefs, ok_bind]
      refine ⟨_, rfl, ⟨?_, hm.numFreeableSlots, ?_, hm.freeable_size, hm.nonneg⟩, ⟨rfl, hkeys, rfl⟩⟩
      · show m.numFreeSlots = _
        rw [hkeys]
        exact hm.numFreeSlots
      · intro h
        show h ∈ m.freeable.keySet ↔
          (m.cached.set f.identifier (insert r.requestId refs)).get? h = some ∅
        rw [hm.freeable_iff, get?_set]
        by_cases hh : h = f.identifier
        · subst hh
          simp [hget, hrefs]
        · simp [hh]

theorem checkAndUpdateCache_miss (h : m.checkAndUpdateCache r i = .ok (false, m')) : m' = m := by
  obtain ⟨f, -, h⟩ := bind_ok h
  cases hget : m.cached.get? f.identifier with
  | none =>
    rw [hget] at h
    cases h
    rfl
  | some refs =>
    rw [hget] at h
    obtain ⟨m1, -, h⟩ := bind_ok h
    cases h

/-- What an eviction does. -/
structure Evicts (m m' : EncoderCacheManager) : Prop where
  cacheSize : m'.cacheSize = m.cacheSize
  keySet : m'.cached.keySet ⊆ m.cached.keySet
  numFreeSlots : m.numFreeSlots ≤ m'.numFreeSlots
  numFreeableSlots : m'.numFreeableSlots = m.numFreeableSlots

theorem Evicts.refl (m : EncoderCacheManager) : Evicts m m :=
  ⟨rfl, Finset.Subset.refl _, Int.le_refl _, rfl⟩

theorem Evicts.trans {m₁ m₂ m₃ : EncoderCacheManager} (h : Evicts m₁ m₂) (h' : Evicts m₂ m₃) :
    Evicts m₁ m₃ where
  cacheSize := h'.cacheSize.trans h.cacheSize
  keySet := h'.keySet.trans h.keySet
  numFreeSlots := h.numFreeSlots.trans h'.numFreeSlots
  numFreeableSlots := h'.numFreeableSlots.trans h.numFreeableSlots

theorem evictOldest_spec (hm : Booked size m) (hne : m.freeable.entries ≠ []) :
    ∃ m', m.evictOldest = .ok m' ∧ Booked size m' ∧ Evicts m m' ∧
      m'.freeable.entries.length < m.freeable.entries.length := by
  obtain ⟨⟨h, n⟩, rest, hentries⟩ := exists_cons_of_ne_nil hne
  have hn : m.freeable.get? h = some n := mem_entries_iff.mp (hentries ▸ mem_cons_self)
  have hin : h ∈ m.freeable.keySet := mem_keySet.mpr ⟨n, hn⟩
  have hcached : m.cached.get? h = some ∅ := (hm.freeable_iff h).mp hin
  have hmem : h ∈ m.cached.keySet := mem_keySet.mpr ⟨∅, hcached⟩
  have hsize : n = size h := hm.freeable_size h n hn
  have hshort : (m.freeable.erase h).entries.length < m.freeable.entries.length := by
    show (m.freeable.entries.filter fun e => e.1 ≠ h).length < m.freeable.entries.length
    rw [hentries, filter_cons_of_neg (by simp)]
    exact Nat.lt_succ_of_le (length_filter_le _ _)
  refine ⟨{ m with
    freeable := m.freeable.erase h
    cached := m.cached.erase h
    freed := m.freed ++ [h]
    numFreeSlots := m.numFreeSlots + size h }, ?_, ⟨?_, ?_, ?_, ?_, ?_⟩, ⟨rfl, ?_, ?_, rfl⟩, hshort⟩
  · unfold evictOldest
    rw [hentries]
    dsimp only
    rw [hcached, hsize]
  · show m.numFreeSlots + size h = m.cacheSize - ∑ k ∈ (m.cached.erase h).keySet, (size k : Int)
    rw [keySet_erase, hm.numFreeSlots, ← Finset.add_sum_erase _ _ hmem]
    omega
  · show m.numFreeableSlots = m.numFreeSlots + size h + _
    rw [keySet_erase, hm.numFreeableSlots, ← Finset.add_sum_erase _ _ hin]
    omega
  · intro k
    show k ∈ (m.freeable.erase h).keySet ↔ (m.cached.erase h).get? k = some ∅
    rw [keySet_erase, Finset.mem_erase, hm.freeable_iff, get?_erase]
    by_cases hk : k = h <;> simp [hk]
  · intro k n' hn'
    replace hn' : (m.freeable.erase h).get? k = some n' := hn'
    rw [get?_erase] at hn'
    split at hn'
    · cases hn'
    · exact hm.freeable_size k n' hn'
  · exact Int.add_nonneg hm.nonneg (Int.natCast_nonneg _)
  · show (m.cached.erase h).keySet ⊆ m.cached.keySet
    rw [keySet_erase]
    exact Finset.erase_subset _ _
  · show m.numFreeSlots ≤ m.numFreeSlots + size h
    omega

theorem evictLoop_spec {numEmbeds : Int} {fuel : Nat} (hm : Booked size m)
    (hroom : numEmbeds ≤ m.numFreeableSlots) (hfuel : m.freeable.entries.length ≤ fuel) :
    ∃ m', evictLoop numEmbeds fuel m = .ok m' ∧ Booked size m' ∧ Evicts m m' ∧
      numEmbeds ≤ m'.numFreeSlots := by
  have hne : ∀ {m : EncoderCacheManager}, Booked size m → numEmbeds ≤ m.numFreeableSlots →
      numEmbeds > m.numFreeSlots → m.freeable.entries ≠ [] := by
    intro m hm hroom hgt hnil
    have hkeys : m.freeable.keySet = ∅ := by
      unfold Dict.keySet
      rw [hnil]
      rfl
    have hslots := hm.numFreeableSlots
    rw [hkeys, Finset.sum_empty] at hslots
    omega
  induction fuel generalizing m with
  | zero =>
    have hnil : m.freeable.entries = [] := length_eq_zero_iff.mp (Nat.le_zero.mp hfuel)
    unfold evictLoop
    by_cases hgt : numEmbeds > m.numFreeSlots
    · exact absurd hnil (hne hm hroom hgt)
    · rw [if_neg hgt]
      exact ⟨m, rfl, hm, .refl m, by omega⟩
  | succ fuel ih =>
    unfold evictLoop
    by_cases hgt : numEmbeds > m.numFreeSlots
    · rw [if_pos hgt]
      obtain ⟨m1, hrun, hm1, hev, hlt⟩ := evictOldest_spec hm (hne hm hroom hgt)
      obtain ⟨m2, hrun', hm2, hev', hle⟩ := ih hm1 (hev.numFreeableSlots ▸ hroom) (by omega)
      exact ⟨m2, by rw [hrun, ok_bind, hrun'], hm2, hev.trans hev', hle⟩
    · rw [if_neg hgt]
      exact ⟨m, rfl, hm, .refl m, by omega⟩

theorem canAllocate_spec (hm : Booked size m) (hf : r.mmFeatures[i]? = some f) (budget : Int)
    (n : Nat) : ∃ can m', m.canAllocate r i budget n = .ok (can, m') ∧ Booked size m' ∧
      Evicts m m' ∧ (can = true → (f.mmPosition.getNumEmbeds : Int) + n ≤ m'.numFreeSlots) := by
  unfold canAllocate
  rw [Request.getNumEncoderEmbeds_eq hf, ok_bind]
  split
  · exact ⟨false, m, rfl, hm, .refl m, fun h => (nomatch h)⟩
  · dsimp only
    split
    · rename_i hle
      exact ⟨true, m, rfl, hm, .refl m, fun _ => hle⟩
    · split
      · exact ⟨false, m, rfl, hm, .refl m, fun h => (nomatch h)⟩
      · rename_i hgt
        obtain ⟨m', hrun, hm', hev, hle⟩ := evictLoop_spec hm (Int.not_lt.mp hgt) (Nat.le_refl _)
        exact ⟨true, m', by rw [hrun, ok_bind], hm', hev, fun _ => hle⟩

theorem allocate_spec (hm : Booked size m) (hr : SizedBy size r) (hf : r.mmFeatures[i]? = some f)
    (hnew : f.identifier ∉ m.cached.keySet) (hroom : (size f.identifier : Int) ≤ m.numFreeSlots) :
    ∃ m', m.allocate r i = .ok m' ∧ Booked size m' ∧ m'.cacheSize = m.cacheSize ∧
      m'.cached.keySet = insert f.identifier m.cached.keySet ∧
      m'.numFreeSlots = m.numFreeSlots - size f.identifier := by
  have hfreeable := hm.freeable_nonneg
  have hassert : ∀ k : Int, (size f.identifier : Int) ≤ k →
      assert (decide (k ≥ (size f.identifier : Int))) "" = .ok () := fun k hk => by
    rw [KvCache.assert_eq_ok, decide_eq_true_eq]
    exact hk
  unfold allocate
  rw [Request.mmFeature_eq hf, ok_bind, Request.getNumEncoderEmbeds_eq hf, ok_bind, hr.embeds hf]
  rw [hassert _ hroom, ok_bind, hassert _ (by omega), ok_bind]
  have hkeys : (m.cached.set f.identifier
      (insert r.requestId ((m.cached.get? f.identifier).getD ∅))).keySet =
      insert f.identifier m.cached.keySet := keySet_set _ _ _
  refine ⟨_, rfl, ⟨?_, ?_, ?_, hm.freeable_size, ?_⟩, rfl, hkeys, rfl⟩
  · show m.numFreeSlots - size f.identifier = m.cacheSize - _
    rw [hkeys, Finset.sum_insert hnew, hm.numFreeSlots]
    omega
  · show m.numFreeableSlots - size f.identifier = m.numFreeSlots - size f.identifier +
      ∑ h ∈ m.freeable.keySet, (size h : Int)
    rw [hm.numFreeableSlots]
    omega
  · intro h
    show h ∈ m.freeable.keySet ↔ (m.cached.set f.identifier _).get? h = some ∅
    rw [hm.freeable_iff, get?_set]
    by_cases hh : h = f.identifier
    · subst hh
      have hnone : m.cached.get? f.identifier = none := by
        by_contra hsome
        obtain ⟨refs, hrefs⟩ := Option.ne_none_iff_exists'.mp hsome
        exact hnew (mem_keySet.mpr ⟨refs, hrefs⟩)
      simp [hnone]
    · simp [hh]
  · show 0 ≤ m.numFreeSlots - size f.identifier
    omega

theorem freeEncoderInput_spec (hm : Booked size m) (hr : SizedBy size r)
    (hf : r.mmFeatures[i]? = some f) :
    ∃ m', m.freeEncoderInput r i = .ok m' ∧ Booked size m' ∧ KeepsEntries m m' := by
  unfold freeEncoderInput
  rw [Request.mmFeature_eq hf, ok_bind]
  cases hget : m.cached.get? f.identifier with
  | none => exact ⟨m, rfl, hm, .refl m⟩
  | some refs =>
    dsimp only
    by_cases hrefs : refs = ∅
    · rw [if_pos hrefs]
      exact ⟨m, rfl, hm, .refl m⟩
    · rw [if_neg hrefs]
      have hmem : f.identifier ∈ m.cached.keySet := mem_keySet.mpr ⟨refs, hget⟩
      have hkeys : (m.cached.set f.identifier (refs.erase r.requestId)).keySet =
          m.cached.keySet := by
        rw [keySet_set, Finset.insert_eq_of_mem hmem]
      have hnotin : f.identifier ∉ m.freeable.keySet := by
        rw [hm.freeable_iff, hget]
        exact fun h => hrefs (Option.some.inj h)
      by_cases hlast : refs.erase r.requestId = ∅
      · rw [if_pos hlast, Request.getNumEncoderEmbeds_eq hf, ok_bind, hr.embeds hf]
        refine ⟨_, rfl, ⟨?_, ?_, ?_, ?_, hm.nonneg⟩, ⟨rfl, hkeys, rfl⟩⟩
        · show m.numFreeSlots = _
          rw [hkeys]
          exact hm.numFreeSlots
        · show m.numFreeableSlots + size f.identifier = m.numFreeSlots + _
          rw [keySet_set, Finset.sum_insert hnotin, hm.numFreeableSlots]
          omega
        · intro h
          show h ∈ (m.freeable.set f.identifier _).keySet ↔
            (m.cached.set f.identifier (refs.erase r.requestId)).get? h = some ∅
          rw [keySet_set, Finset.mem_insert, hm.freeable_iff, get?_set]
          by_cases hh : h = f.identifier
          · simp [hh, hlast]
          · simp [hh]
        · intro h n hn
          replace hn : (m.freeable.set f.identifier (size f.identifier)).get? h = some n := hn
          rw [get?_set] at hn
          split at hn
          · rename_i hh
            rw [hh]
            exact (Option.some.inj hn).symm
          · exact hm.freeable_size h n hn
      · rw [if_neg hlast]
        refine ⟨_, rfl, ⟨?_, hm.numFreeableSlots, ?_, hm.freeable_size, hm.nonneg⟩,
          ⟨rfl, hkeys, rfl⟩⟩
        · show m.numFreeSlots = _
          rw [hkeys]
          exact hm.numFreeSlots
        · intro h
          show h ∈ m.freeable.keySet ↔
            (m.cached.set f.identifier (refs.erase r.requestId)).get? h = some ∅
          rw [hm.freeable_iff, get?_set]
          by_cases hh : h = f.identifier
          · subst hh
            simp [hget, hrefs, hlast]
          · simp [hh]

theorem freeInputs_spec (hm : Booked size m) (hr : SizedBy size r) {ids : List Nat}
    (hids : ∀ i ∈ ids, ∃ f, r.mmFeatures[i]? = some f) :
    ∃ m', ids.foldlM (fun m i => m.freeEncoderInput r i) m = .ok m' ∧ Booked size m' ∧
      KeepsEntries m m' := by
  induction ids generalizing m with
  | nil => exact ⟨m, rfl, hm, .refl m⟩
  | cons i ids ih =>
    obtain ⟨f, hf⟩ := hids i mem_cons_self
    obtain ⟨m1, hrun, hm1, hk1⟩ := freeEncoderInput_spec hm hr hf
    obtain ⟨m2, hrun', hm2, hk2⟩ := ih hm1 fun j hj => hids j (mem_cons_of_mem _ hj)
    exact ⟨m2, by rw [foldlM_cons, hrun, ok_bind, hrun'], hm2, hk1.trans hk2⟩

theorem getCachedInputIds_inRange (hi : i ∈ m.getCachedInputIds r) :
    ∃ f, r.mmFeatures[i]? = some f := by
  have hlt : i < r.mmFeatures.length := mem_range.mp (mem_filter.mp hi).1
  exact ⟨_, getElem?_eq_getElem hlt⟩

theorem free_spec (setOrder : SetOrder) (hm : Booked size m) (hr : SizedBy size r) :
    ∃ m', m.free setOrder r = .ok m' ∧ Booked size m' ∧ KeepsEntries m m' :=
  freeInputs_spec hm hr fun _ hi => getCachedInputIds_inRange ((setOrder.perm _).mem_iff.mp hi)

end EncoderCacheManager

/-! ## The calls of the scheduler -/

/-- The manager between two calls: `toSchedule` are the inputs of `request` that
`_try_schedule_encoder_inputs` found room for and that are not allocated yet. -/
structure EncoderSession where
  manager : EncoderCacheManager
  request : Request
  toSchedule : List Nat

namespace EncoderSession

variable (s : EncoderSession)

/-- The items that wait to be allocated. -/
def pending : List MultiModalFeatureSpec := s.toSchedule.filterMap (s.request.mmFeatures[·]?)

def numEmbedsToSchedule : Nat := (s.pending.map (·.mmPosition.getNumEmbeds)).sum

def mmHashesToSchedule : List String := s.pending.map (·.identifier)

end EncoderSession

theorem EncoderSession.pending_append {s : EncoderSession} (hf : s.request.mmFeatures[i]? = some f) :
    ({ s with manager := m', toSchedule := s.toSchedule ++ [i] } : EncoderSession).pending =
      s.pending ++ [f] := by
  unfold EncoderSession.pending
  rw [filterMap_append, filterMap_cons_some hf]
  rfl

/-- One call of the manager, in the order in which the scheduler calls. -/
inductive EncoderCall (size : String → Nat) : EncoderSession → EncoderSession → Prop
  /-- The inputs of another request are tried; what was picked before is dropped. -/
  | start {m q l} (r : Request) : SizedBy size r → EncoderCall size ⟨m, q, l⟩ ⟨m, r, []⟩
  | check {s i f hit m'} : s.request.mmFeatures[i]? = some f →
      f.identifier ∉ s.mmHashesToSchedule →
      s.manager.checkAndUpdateCache s.request i = .ok (hit, m') →
      EncoderCall size s { s with manager := m' }
  | canAllocate {s i f can m'} (budget : Int) : s.request.mmFeatures[i]? = some f →
      s.manager.canAllocate s.request i budget s.numEmbedsToSchedule = .ok (can, m') →
      EncoderCall size s { s with manager := m' }
  /-- An input that is not picked and not cached is picked when there is room. -/
  | pick {s i f m'} (budget : Int) : s.request.mmFeatures[i]? = some f →
      f.identifier ∉ s.mmHashesToSchedule →
      s.manager.checkAndUpdateCache s.request i = .ok (false, s.manager) →
      s.manager.canAllocate s.request i budget s.numEmbedsToSchedule = .ok (true, m') →
      EncoderCall size s { s with manager := m', toSchedule := s.toSchedule ++ [i] }
  | allocate {s i rest m'} : s.toSchedule.Perm (i :: rest) →
      s.manager.allocate s.request i = .ok m' →
      EncoderCall size s { s with manager := m', toSchedule := rest }
  | freeEncoderInput {s i m'} (r : Request) : SizedBy size r →
      s.manager.freeEncoderInput r i = .ok m' → EncoderCall size s { s with manager := m' }
  | free {s m'} (setOrder : SetOrder) (r : Request) : SizedBy size r →
      s.manager.free setOrder r = .ok m' → EncoderCall size s { s with manager := m' }
  | getFreedMmHashes {s} : EncoderCall size s { s with manager := s.manager.getFreedMmHashes.2 }
  | reset {s} : EncoderCall size s { s with manager := s.manager.reset, toSchedule := [] }

/-- The runs of the manager under the scheduler. -/
def encoderCalls (size : String → Nat) (cacheSize : Nat) : TSys EncoderSession where
  init s := s.manager = .init cacheSize ∧ SizedBy size s.request ∧ s.toSchedule = []
  step := EncoderCall size

/-- What was picked still fits, and is not cached. -/
structure SessionInv (size : String → Nat) (s : EncoderSession) : Prop where
  booked : Booked size s.manager
  sized : SizedBy size s.request
  inRange : ∀ i ∈ s.toSchedule, ∃ f, s.request.mmFeatures[i]? = some f
  distinct : s.mmHashesToSchedule.Nodup
  fresh : ∀ f ∈ s.pending, f.identifier ∉ s.manager.cached.keySet
  room : (s.numEmbedsToSchedule : Int) ≤ s.manager.numFreeSlots

namespace SessionInv

variable {s : EncoderSession}

theorem of_manager (h : SessionInv size s) (hm : Booked size m')
    (hkeys : m'.cached.keySet ⊆ s.manager.cached.keySet)
    (hfree : s.manager.numFreeSlots ≤ m'.numFreeSlots) :
    SessionInv size { s with manager := m' } where
  booked := hm
  sized := h.sized
  inRange := h.inRange
  distinct := h.distinct
  fresh := fun f hf hmem => h.fresh f hf (hkeys hmem)
  room := Int.le_trans h.room hfree

theorem keeps (h : SessionInv size s) (hm : Booked size m')
    (hk : EncoderCacheManager.KeepsEntries s.manager m') :
    SessionInv size { s with manager := m' } :=
  h.of_manager hm (by rw [hk.keySet]) (by rw [hk.numFreeSlots])

theorem evicts (h : SessionInv size s) (hm : Booked size m')
    (hev : EncoderCacheManager.Evicts s.manager m') :
    SessionInv size { s with manager := m' } :=
  h.of_manager hm hev.keySet hev.numFreeSlots

theorem empty (hm : Booked size m) (hr : SizedBy size r) : SessionInv size ⟨m, r, []⟩ where
  booked := hm
  sized := hr
  inRange := fun _ h => (nomatch h)
  distinct := nodup_nil
  fresh := fun _ h => (nomatch h)
  room := hm.nonneg

theorem allocate (h : SessionInv size s) {rest : List Nat} (hperm : s.toSchedule.Perm (i :: rest)) :
    ∃ m', s.manager.allocate s.request i = .ok m' ∧
      SessionInv size { s with manager := m', toSchedule := rest } := by
  obtain ⟨f, hf⟩ := h.inRange i (hperm.mem_iff.mpr mem_cons_self)
  let t : EncoderSession := { s with toSchedule := i :: rest }
  have hpend : s.pending.Perm (f :: ({ s with toSchedule := rest } : EncoderSession).pending) := by
    have hcons : t.pending = f :: ({ s with toSchedule := rest } : EncoderSession).pending := by
      show (i :: rest).filterMap (s.request.mmFeatures[·]?) = _
      rw [filterMap_cons_some hf]
      rfl
    rw [← hcons]
    exact hperm.filterMap _
  have hsum : s.numEmbedsToSchedule = size f.identifier +
      ({ s with toSchedule := rest } : EncoderSession).numEmbedsToSchedule := by
    unfold EncoderSession.numEmbedsToSchedule
    rw [(hpend.map _).sum_eq, map_cons, sum_cons, h.sized.embeds hf]
  have hdistinct : (f.identifier ::
      ({ s with toSchedule := rest } : EncoderSession).mmHashesToSchedule).Nodup :=
    (hpend.map MultiModalFeatureSpec.identifier).nodup_iff.mp h.distinct
  have hroom := h.room
  have hnew : f.identifier ∉ s.manager.cached.keySet := h.fresh f (hpend.mem_iff.mpr mem_cons_self)
  obtain ⟨m', hrun, hm', -, hkeys, hslots⟩ :=
    EncoderCacheManager.allocate_spec h.booked h.sized hf hnew (by omega)
  refine ⟨m', hrun, hm', h.sized, ?_, (nodup_cons.mp hdistinct).2, ?_, ?_⟩
  · exact fun j hj => h.inRange j (hperm.mem_iff.mpr (mem_cons_of_mem _ hj))
  · intro g hg hmem
    rw [hkeys, Finset.mem_insert] at hmem
    rcases hmem with heq | hmem
    · exact (nodup_cons.mp hdistinct).1 (heq ▸ mem_map_of_mem hg)
    · exact h.fresh g (hpend.mem_iff.mpr (mem_cons_of_mem _ hg)) hmem
  · show (({ s with toSchedule := rest } : EncoderSession).numEmbedsToSchedule : Int) ≤
      m'.numFreeSlots
    omega

theorem pick (h : SessionInv size s) (hf : s.request.mmFeatures[i]? = some f)
    (hnew : f.identifier ∉ s.mmHashesToSchedule) (hcached : f.identifier ∉ s.manager.cached.keySet)
    (hm : Booked size m') (hev : EncoderCacheManager.Evicts s.manager m')
    (hroom : (f.mmPosition.getNumEmbeds : Int) + s.numEmbedsToSchedule ≤ m'.numFreeSlots) :
    SessionInv size { s with manager := m', toSchedule := s.toSchedule ++ [i] } := by
  have hpend := @EncoderSession.pending_append m' i f s hf
  refine ⟨hm, h.sized, ?_, ?_, ?_, ?_⟩
  · intro j hj
    rcases mem_append.mp hj with hj | hj
    · exact h.inRange j hj
    · rw [mem_singleton.mp hj]
      exact ⟨f, hf⟩
  · unfold EncoderSession.mmHashesToSchedule
    rw [hpend, map_append, map_singleton, ← concat_eq_append]
    exact h.distinct.concat hnew
  · intro g hg hmem
    rw [hpend] at hg
    rcases mem_append.mp hg with hg | hg
    · exact h.fresh g hg (hev.keySet hmem)
    · rw [mem_singleton.mp hg] at hmem
      exact hcached (hev.keySet hmem)
  · unfold EncoderSession.numEmbedsToSchedule
    rw [hpend, map_append, sum_append]
    unfold EncoderSession.numEmbedsToSchedule at hroom
    show (((s.pending.map (·.mmPosition.getNumEmbeds)).sum +
      ([f].map (·.mmPosition.getNumEmbeds)).sum : Nat) : Int) ≤ m'.numFreeSlots
    rw [map_singleton, sum_singleton]
    omega

end SessionInv

open EncoderCacheManager in
theorem encoderCall_inv {s t : EncoderSession} (h : SessionInv size s)
    (hstep : EncoderCall size s t) : SessionInv size t := by
  cases hstep with
  | start r hr => exact .empty h.booked hr
  | check hf _ hrun =>
    rcases checkAndUpdateCache_spec h.booked hf with ⟨-, hmiss⟩ | ⟨-, m1, hhit, hm1, hk⟩
    · rw [hmiss] at hrun
      cases hrun
      exact h
    · rw [hhit] at hrun
      cases hrun
      exact h.keeps hm1 hk
  | canAllocate budget hf hrun =>
    obtain ⟨can, m1, hcan, hm1, hev, -⟩ := canAllocate_spec h.booked hf budget s.numEmbedsToSchedule
    rw [hcan] at hrun
    cases hrun
    exact h.evicts hm1 hev
  | pick budget hf hnew hmiss hrun =>
    obtain ⟨can, m1, hcan, hm1, hev, hroom⟩ :=
      canAllocate_spec h.booked hf budget s.numEmbedsToSchedule
    rw [hcan] at hrun
    cases hrun
    rcases checkAndUpdateCache_spec h.booked hf with ⟨hcached, -⟩ | ⟨-, m1, hhit, -⟩
    · exact h.pick hf hnew hcached hm1 hev (hroom rfl)
    · rw [hhit] at hmiss
      cases hmiss
  | allocate hperm hrun =>
    obtain ⟨m1, halloc, h1⟩ := h.allocate hperm
    rw [halloc] at hrun
    cases hrun
    exact h1
  | @freeEncoderInput _ i m1 r hr hrun =>
    cases hf : r.mmFeatures[i]? with
    | none =>
      unfold freeEncoderInput Request.mmFeature at hrun
      rw [hf] at hrun
      cases hrun
    | some f =>
      obtain ⟨m2, hfree, hm2, hk⟩ := freeEncoderInput_spec h.booked hr hf
      rw [hfree] at hrun
      cases hrun
      exact h.keeps hm2 hk
  | free setOrder r hr hrun =>
    obtain ⟨m2, hfree, hm2, hk⟩ := free_spec setOrder h.booked hr
    rw [hfree] at hrun
    cases hrun
    exact h.keeps hm2 hk
  | getFreedMmHashes =>
    have hm : Booked size s.manager.getFreedMmHashes.2 := ⟨h.booked.numFreeSlots,
      h.booked.numFreeableSlots, h.booked.freeable_iff, h.booked.freeable_size, h.booked.nonneg⟩
    exact h.keeps hm ⟨rfl, rfl, rfl⟩
  | reset => exact .empty (booked_init _) h.sized

theorem encoderCalls_inductive (cacheSize : Nat) :
    (encoderCalls size cacheSize).Inductive (SessionInv size) where
  base := by
    rintro ⟨m, r, l⟩ ⟨rfl, hr, rfl⟩
    exact .empty (EncoderCacheManager.booked_init _) hr
  step := fun _ _ h hstep => encoderCall_inv h hstep

/-- What the encoder cache guarantees between any two calls. -/
structure EncoderCacheSound (size : String → Nat) (s : EncoderSession) : Prop where
  numFreeSlots : s.manager.numFreeSlots =
    s.manager.cacheSize - ∑ h ∈ s.manager.cached.keySet, (size h : Int)
  numFreeableSlots : s.manager.numFreeableSlots =
    s.manager.numFreeSlots + ∑ h ∈ s.manager.freeable.keySet, (size h : Int)
  freeable_iff : ∀ h, h ∈ s.manager.freeable.keySet ↔ s.manager.cached.get? h = some ∅
  free_nonneg : 0 ≤ s.manager.numFreeSlots
  freeable_nonneg : 0 ≤ s.manager.numFreeableSlots
  /-- The assertions of `allocate` hold for whatever was picked. -/
  allocate_ok : ∀ i ∈ s.toSchedule, ∃ m', s.manager.allocate s.request i = .ok m'
  /-- No call looks a hash up that is not there or pops from an empty `freeable`. -/
  canAllocate_ok : ∀ r i f budget n, r.mmFeatures[i]? = some f →
    ∃ can m', s.manager.canAllocate r i budget n = .ok (can, m')
  check_ok : ∀ r i f, r.mmFeatures[i]? = some f →
    ∃ hit m', s.manager.checkAndUpdateCache r i = .ok (hit, m')
  free_ok : ∀ setOrder r, SizedBy size r → ∃ m', s.manager.free setOrder r = .ok m'

/-- Under every sequence of the scheduler's calls the bookkeeping is right and no call fails. -/
theorem encoder_cache_bookkeeping (size : String → Nat) (cacheSize : Nat) :
    (encoderCalls size cacheSize).Invariant (EncoderCacheSound size) := by
  intro s hs
  have h : SessionInv size s := (encoderCalls_inductive cacheSize).invariant s hs
  have hle := h.booked.freeable_nonneg
  have hnonneg := h.booked.nonneg
  refine ⟨h.booked.numFreeSlots, h.booked.numFreeableSlots, h.booked.freeable_iff, hnonneg,
    by omega, ?_, ?_, ?_, ?_⟩
  · intro i hi
    obtain ⟨m', hrun, -⟩ := h.allocate (perm_cons_erase hi)
    exact ⟨m', hrun⟩
  · intro r i f budget n hf
    obtain ⟨can, m', hrun, -⟩ := EncoderCacheManager.canAllocate_spec h.booked hf budget n
    exact ⟨can, m', hrun⟩
  · intro r i f hf
    rcases EncoderCacheManager.checkAndUpdateCache_spec h.booked hf with
      ⟨-, hrun⟩ | ⟨-, m', hrun, -⟩
    · exact ⟨false, s.manager, hrun⟩
    · exact ⟨true, m', hrun⟩
  · intro setOrder r hr
    obtain ⟨m', hrun, -⟩ := EncoderCacheManager.free_spec setOrder h.booked hr
    exact ⟨m', hrun⟩

/-! ## `_try_schedule_encoder_inputs` issues these calls -/

/-- Some calls. -/
abbrev EncoderCalls (size : String → Nat) : EncoderSession → EncoderSession → Prop :=
  Relation.ReflTransGen (EncoderCall size)

/-- The plan of `_try_schedule_encoder_inputs` as a state between calls. -/
structure Tracks (r : Request) (p : EncoderPlan) (s : EncoderSession) : Prop where
  manager : p.manager = .multimodal s.manager
  request : s.request = r
  toSchedule : s.toSchedule.Perm (p.encoderInputsToSchedule ++ p.externalLoadEncoderInput)
  hashes : ∀ h, h ∈ p.mmHashesToSchedule ↔ h ∈ s.mmHashesToSchedule
  embeds : p.numEmbedsToSchedule = s.numEmbedsToSchedule

section
variable {cfg : EncoderConfig} {hasCacheItem : String → Bool} {p : EncoderPlan} {pick : Pick}
  {s : EncoderSession} {numComputedTokens shiftComputedTokens : Int}

theorem Tracks.append (h : Tracks r p s) (hf : s.request.mmFeatures[i]? = some f)
    {p' : EncoderPlan} (hm : p'.manager = .multimodal m')
    (hids : (p'.encoderInputsToSchedule ++ p'.externalLoadEncoderInput).Perm
      (p.encoderInputsToSchedule ++ p.externalLoadEncoderInput ++ [i]))
    (hhash : p'.mmHashesToSchedule = f.identifier :: p.mmHashesToSchedule)
    (hsum : p'.numEmbedsToSchedule = p.numEmbedsToSchedule + f.mmPosition.getNumEmbeds) :
    Tracks r p' { s with manager := m', toSchedule := s.toSchedule ++ [i] } where
  manager := hm
  request := h.request
  toSchedule := (h.toSchedule.append_right [i]).trans hids.symm
  hashes := by
    intro k
    unfold EncoderSession.mmHashesToSchedule
    rw [EncoderSession.pending_append hf, hhash, map_append, mem_append, mem_cons,
      h.hashes, map_singleton, mem_singleton]
    exact or_comm
  embeds := by
    unfold EncoderSession.numEmbedsToSchedule
    rw [EncoderSession.pending_append hf, hsum, h.embeds, map_append, sum_append]
    rfl

theorem Placed.calls (h : Placed r i f p pick) (hs : Tracks r p s)
    (hf : s.request.mmFeatures[i]? = some f) (hnew : f.identifier ∉ s.mmHashesToSchedule)
    (hmiss : s.manager.checkAndUpdateCache s.request i = .ok (false, s.manager)) :
    ∃ s', EncoderCalls size s s' ∧ Tracks r pick.plan s' := by
  have hroom : ∀ {can manager}, p.manager.canAllocate r i p.encoderComputeBudget
      p.numEmbedsToSchedule = .ok (can, manager) → ∃ m', manager = .multimodal m' ∧
        s.manager.canAllocate s.request i p.encoderComputeBudget s.numEmbedsToSchedule =
          .ok (can, m') := by
    intro can manager hrun
    rw [hs.manager, hs.embeds, ← hs.request] at hrun
    obtain ⟨⟨can', m1⟩, hcan, heq⟩ := bind_ok hrun
    cases heq
    exact ⟨m1, rfl, hcan⟩
  cases h with
  | chunk _ _ => exact ⟨s, .refl, hs.manager, hs.request, hs.toSchedule, hs.hashes, hs.embeds⟩
  | full hrun _ _ =>
    obtain ⟨m', rfl, hcan⟩ := hroom hrun
    exact ⟨_, .single (.canAllocate _ hf hcan), rfl, hs.request, hs.toSchedule, hs.hashes, hs.embeds⟩
  | room hrun hpicked =>
    obtain ⟨m', rfl, hcan⟩ := hroom hrun
    cases hpicked with
    | outside =>
      exact ⟨_, .single (.canAllocate _ hf hcan), rfl, hs.request, hs.toSchedule, hs.hashes,
        hs.embeds⟩
    | load =>
      refine ⟨_, .single (.pick _ hf hnew hmiss hcan), hs.append hf rfl ?_ rfl rfl⟩
      exact .of_eq (append_assoc _ _ _).symm
    | schedule =>
      refine ⟨_, .single (.pick _ hf hnew hmiss hcan), hs.append hf rfl ?_ rfl rfl⟩
      show (p.encoderInputsToSchedule ++ [i] ++ p.externalLoadEncoderInput).Perm _
      rw [append_assoc, append_assoc]
      exact perm_append_comm.append_left _

theorem Tried.calls (hcfg : cfg.isEncoderDecoder = false) (hf : r.mmFeatures[i]? = some f)
    (h : Tried cfg r i f p pick) (hs : Tracks r p s) :
    ∃ s', EncoderCalls size s s' ∧ Tracks r pick.plan s' := by
  have hf' : s.request.mmFeatures[i]? = some f := by rw [hs.request, hf]
  have hcheck : ∀ {hit manager}, p.manager.checkAndUpdateCache r i = .ok (hit, manager) →
      ∃ m', manager = .multimodal m' ∧
        s.manager.checkAndUpdateCache s.request i = .ok (hit, m') := by
    intro hit manager hrun
    rw [hs.manager, ← hs.request] at hrun
    obtain ⟨⟨hit', m1⟩, hcheck, heq⟩ := bind_ok hrun
    cases heq
    exact ⟨m1, rfl, hcheck⟩
  cases h with
  | stop => exact ⟨s, .refl, hs⟩
  | next => exact ⟨s, .refl, hs⟩
  | encoderDecoder hdecoder _ =>
    rw [hcfg] at hdecoder
    cases hdecoder
  | hit hnew hrun =>
    rw [hs.hashes] at hnew
    obtain ⟨m', rfl, hhit⟩ := hcheck hrun
    exact ⟨_, .single (.check hf' hnew hhit), rfl, hs.request, hs.toSchedule, hs.hashes, hs.embeds⟩
  | miss hnew hrun hplaced =>
    rw [hs.hashes] at hnew
    obtain ⟨m', rfl, hmiss⟩ := hcheck hrun
    obtain rfl : m' = s.manager := EncoderCacheManager.checkAndUpdateCache_miss hmiss
    exact hplaced.calls ⟨rfl, hs.request, hs.toSchedule, hs.hashes, hs.embeds⟩ hf' hnew hmiss

/-- `_try_schedule_encoder_inputs` is a sequence of calls that leaves picked what it returns. -/
theorem tryScheduleEncoderInputs_calls (hcfg : cfg.isEncoderDecoder = false)
    (hr : SizedBy size r) (l : List Nat) {numNewTokens budget : Int}
    (h : tryScheduleEncoderInputs cfg hasCacheItem (.multimodal m) r numComputedTokens numNewTokens
      budget shiftComputedTokens = .ok p) :
    ∃ s', EncoderCalls size ⟨m, q, l⟩ s' ∧ Tracks r p s' := by
  refine tryScheduleEncoderInputs_keeps
    (P := fun p => ∃ s', EncoderCalls size ⟨m, q, l⟩ s' ∧ Tracks r p s') ?_
    ⟨⟨m, r, []⟩, .single (.start r hr), rfl, rfl, .refl _, fun _ => Iff.rfl, rfl⟩ h
  rintro i f p pick hf htried ⟨s, hcalls, hs⟩
  have hitem : ∃ s', EncoderCalls size s s' ∧ Tracks r pick.plan s' := htried.calls hcfg hf hs
  obtain ⟨s', hcalls', hs'⟩ := hitem
  exact ⟨s', hcalls.trans hcalls', hs'⟩

def pictureRequest : Request := { requestId := 0, mmFeatures := [⟨"a", ⟨0, 2, none⟩⟩] }

/-- The picture is picked for an empty cache. -/
theorem tryScheduleEncoderInputs_calls_picture : ∃ p s', EncoderCalls (fun _ => 2)
    ⟨.init 4, pictureRequest, []⟩ s' ∧ Tracks pictureRequest p s' ∧ p.encoderInputsToSchedule = [0] := by
  have hr : SizedBy (fun _ => 2) pictureRequest := forall_mem_singleton.mpr rfl
  have hrun := eq_ok_get (x := tryScheduleEncoderInputs {} (fun _ => false)
    (.multimodal (.init 4)) pictureRequest 0 5 8 0) (by decide)
  obtain ⟨s', hcalls, hs⟩ := tryScheduleEncoderInputs_calls rfl hr [] hrun
  exact ⟨_, s', hcalls, hs, by decide⟩

end

end MyOperator.Sched
