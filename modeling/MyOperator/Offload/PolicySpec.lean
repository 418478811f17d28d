import MyOperator.Offload.Policy

/-!
# What the policies keep

A policy is seen through its entries, in any order: `t1` and `t2` of ARC together. Each
operation is specified by what it does to them, so that nothing above depends on which
policy it is.
-/

namespace MyOperator.Offload

open Lib List Dict

variable {H F : Type} [DecidableEq H] [PyFloat F]

theorem entries_perm_erase_all {V : Type} {l : List (H × V)} {d : Dict H V}
    (hl : (l.map Prod.fst).Nodup) (hmem : ∀ e ∈ l, d.get? e.1 = some e.2) :
    d.entries.Perm (l ++ (l.foldl (fun d e => d.erase e.1) d).entries) := by
  induction l generalizing d with
  | nil => exact .refl _
  | cons e l ih =>
    rw [map_cons, nodup_cons] at hl
    have hrest : ∀ e' ∈ l, (d.erase e.1).get? e'.1 = some e'.2 := by
      intro e' he'
      have hne : e'.1 ≠ e.1 := fun heq => hl.1 (heq ▸ mem_map_of_mem he')
      rw [get?_erase_of_ne _ hne]
      exact hmem e' (mem_cons_of_mem _ he')
    have hhead := Dict.entries_perm_erase (hmem e mem_cons_self)
    exact hhead.trans ((ih hl.2 hrest).cons e)

namespace ARCCachePolicy

variable {p : ARCCachePolicy H F} {protectedHashes sel : Finset H}

omit [PyFloat F] in
theorem candidate_some {t : Dict H BlockStatus} {e : H × BlockStatus}
    (h : candidate t protectedHashes sel = some e) :
    e ∈ t.entries ∧ evictable protectedHashes e ∧ e.1 ∉ sel := by
  have hsome := find?_some h
  simp only [decide_eq_true_eq] at hsome
  exact ⟨mem_of_find?_eq_some h, hsome⟩

/-- A candidate as the selection loop may choose it. -/
def Selectable (p : ARCCachePolicy H F) (protectedHashes : Finset H)
    (c : H × BlockStatus × Bool) : Prop :=
  evictable protectedHashes (c.1, c.2.1) ∧ (if c.2.2 then p.t1 else p.t2).get? c.1 = some c.2.1

/-- The loop adds as many candidates as it has passes, all of them different. -/
theorem selectCandidates_some {n : Nat} {cs res : List (H × BlockStatus × Bool)} {v : Int}
    (h : p.selectCandidates protectedHashes n cs sel v = some res) :
    ∃ new, res = cs ++ new ∧ new.length = n ∧ (new.map Prod.fst).Nodup ∧
      ∀ c ∈ new, c.1 ∉ sel ∧ p.Selectable protectedHashes c := by
  induction n generalizing cs sel v with
  | zero =>
    cases h
    exact ⟨[], (append_nil _).symm, rfl, nodup_nil, fun c hc => nomatch hc⟩
  | succ n ih =>
    have hstep : ∀ (c : H × BlockStatus × Bool) (v : Int), c.1 ∉ sel →
        p.Selectable protectedHashes c →
        p.selectCandidates protectedHashes n (cs ++ [c]) (Insert.insert c.1 sel) v = some res →
        ∃ new, res = cs ++ new ∧ new.length = n + 1 ∧ (new.map Prod.fst).Nodup ∧
          ∀ c ∈ new, c.1 ∉ sel ∧ p.Selectable protectedHashes c := by
      intro c v hsel hc hrest
      obtain ⟨new, hres, hlen, hnodup, hnew⟩ := ih hrest
      refine ⟨c :: new, by rw [hres, append_assoc]; rfl, congrArg Nat.succ hlen, ?_, ?_⟩
      · rw [map_cons, nodup_cons]
        refine ⟨fun hmem => ?_, hnodup⟩
        obtain ⟨c', hc', heq⟩ := mem_map.mp hmem
        exact (hnew c' hc').1 (heq ▸ Finset.mem_insert_self _ _)
      · intro c' hc'
        rcases mem_cons.mp hc' with rfl | hc'
        · exact ⟨hsel, hc⟩
        · exact ⟨fun hmem => (hnew c' hc').1 (Finset.mem_insert_of_mem hmem), (hnew c' hc').2⟩
    unfold selectCandidates at h
    split at h
    · rename_i blockHash block hfirst
      split at hfirst
      · obtain ⟨hmem, hev, hsel⟩ := candidate_some hfirst
        exact hstep (blockHash, block, true) _ hsel ⟨hev, mem_entries_iff.mp hmem⟩ h
      · cases hfirst
    · split at h
      · rename_i blockHash block hsecond
        obtain ⟨hmem, hev, hsel⟩ := candidate_some hsecond
        exact hstep (blockHash, block, false) _ hsel ⟨hev, mem_entries_iff.mp hmem⟩ h
      · cases h

omit [PyFloat F] in
theorem get?_evictCandidate {c : H × BlockStatus × Bool} {blockHash : H} (h : blockHash ≠ c.1) :
    (p.evictCandidate c).t1.get? blockHash = p.t1.get? blockHash ∧
      (p.evictCandidate c).t2.get? blockHash = p.t2.get? blockHash := by
  unfold evictCandidate
  split
  · exact ⟨get?_erase_of_ne _ h, rfl⟩
  · exact ⟨rfl, get?_erase_of_ne _ h⟩

omit [PyFloat F] in
theorem evictCandidates_perm {cs : List (H × BlockStatus × Bool)} (hcs : (cs.map Prod.fst).Nodup)
    (hmem : ∀ c ∈ cs, (if c.2.2 then p.t1 else p.t2).get? c.1 = some c.2.1) :
    (p.t1.entries ++ p.t2.entries).Perm (cs.map (fun c => (c.1, c.2.1)) ++
        ((cs.foldl evictCandidate p).t1.entries ++ (cs.foldl evictCandidate p).t2.entries)) := by
  induction cs generalizing p with
  | nil => exact .refl _
  | cons c cs ih =>
    rw [map_cons, nodup_cons] at hcs
    have hhead := hmem c mem_cons_self
    have hrest : ∀ c' ∈ cs,
        (if c'.2.2 then (p.evictCandidate c).t1 else (p.evictCandidate c).t2).get? c'.1 =
          some c'.2.1 := by
      intro c' hc'
      have hne : c'.1 ≠ c.1 := fun heq => hcs.1 (heq ▸ mem_map_of_mem hc')
      have hold := hmem c' (mem_cons_of_mem _ hc')
      obtain ⟨h1, h2⟩ := get?_evictCandidate (p := p) hne
      split
      · rename_i hflag
        rw [if_pos hflag] at hold
        exact h1.trans hold
      · rename_i hflag
        rw [if_neg hflag] at hold
        exact h2.trans hold
    have hstep : (p.t1.entries ++ p.t2.entries).Perm ((c.1, c.2.1) ::
          ((p.evictCandidate c).t1.entries ++ (p.evictCandidate c).t2.entries)) := by
      unfold evictCandidate
      split
      · rename_i hflag
        rw [if_pos hflag] at hhead
        exact (Dict.entries_perm_erase hhead).append_right _
      · rename_i hflag
        rw [if_neg hflag] at hhead
        exact ((Dict.entries_perm_erase hhead).append_left _).trans perm_middle
    exact hstep.trans ((ih hcs.2 hrest).cons _)

end ARCCachePolicy

namespace CachePolicy

omit [DecidableEq H] [PyFloat F] in
/-- The offloaded blocks. -/
def entries : CachePolicy H F → List (H × BlockStatus)
  | lru p => p.blocks.entries
  | arc p => p.t1.entries ++ p.t2.entries

omit [DecidableEq H] [PyFloat F] in
/-- No hash is offloaded twice. -/
def WF (p : CachePolicy H F) : Prop := (p.entries.map Prod.fst).Nodup

variable {p p' : CachePolicy H F} {blockHash : H} {block : BlockStatus}

omit [PyFloat F] in
theorem get_eq (p : CachePolicy H F) (blockHash : H) :
    p.get blockHash = assocGet? blockHash p.entries := by
  cases p with
  | lru p => rfl
  | arc p => exact (assocGet?_append ..).symm

omit [PyFloat F] in
theorem mem_entries (hp : p.WF) : (blockHash, block) ∈ p.entries ↔ p.get blockHash = some block := by
  rw [get_eq]
  exact mem_iff_assocGet? hp

omit [DecidableEq H] [PyFloat F] in
theorem WF.perm (hp : p.WF) (h : p'.entries.Perm p.entries) : p'.WF := (h.map _).symm.nodup hp

omit [PyFloat F] in
theorem get_perm (hp : p.WF) (h : p'.entries.Perm p.entries) (blockHash : H) :
    p'.get blockHash = p.get blockHash := by
  rw [get_eq, get_eq]
  exact assocGet?_perm (hp.perm h) h blockHash

omit [DecidableEq H] in
theorem init_entries (cachePolicy : CachePolicyName) (cacheCapacity : Nat) :
    (init cachePolicy cacheCapacity : CachePolicy H F).entries = [] := by
  cases cachePolicy <;> rfl

omit [PyFloat F] in
theorem insert_perm (h : p.get blockHash = none) (block : BlockStatus) :
    (p.insert blockHash block).entries.Perm ((blockHash, block) :: p.entries) := by
  cases p with
  | lru p =>
    show (p.blocks.set blockHash block).entries.Perm _
    rw [Dict.entries_set h]
    exact perm_append_singleton _ _
  | arc p =>
    obtain ⟨h1, -⟩ := Option.or_eq_none_iff.mp h
    show ((p.t1.set blockHash block).entries ++ p.t2.entries).Perm _
    rw [Dict.entries_set h1]
    exact (perm_append_singleton _ _).append_right p.t2.entries

omit [PyFloat F] in
theorem remove_perm (h : p.get blockHash = some block) :
    p.entries.Perm ((blockHash, block) :: (p.remove blockHash).entries) := by
  cases p with
  | lru p => exact Dict.entries_perm_erase h
  | arc p =>
    show (p.t1.entries ++ p.t2.entries).Perm
      ((blockHash, block) :: ((p.remove blockHash).t1.entries ++ (p.remove blockHash).t2.entries))
    replace h : (p.t1.get? blockHash).or (p.t2.get? blockHash) = some block := h
    unfold ARCCachePolicy.remove
    cases h1 : p.t1.get? blockHash with
    | some b =>
      rw [h1] at h
      cases h
      exact (Dict.entries_perm_erase h1).append_right _
    | none =>
      rw [h1] at h
      exact ((Dict.entries_perm_erase h).append_left _).trans perm_middle

omit [PyFloat F] in
theorem modify_perm (h : p.get blockHash = some block) (f : BlockStatus → BlockStatus) :
    ∃ rest, p.entries.Perm ((blockHash, block) :: rest) ∧
      (p.modify blockHash f).entries.Perm ((blockHash, f block) :: rest) := by
  cases p with
  | lru p => exact ⟨_, Dict.entries_perm_erase h, Dict.entries_modify h⟩
  | arc p =>
    replace h : (p.t1.get? blockHash).or (p.t2.get? blockHash) = some block := h
    unfold modify
    cases h1 : p.t1.get? blockHash with
    | some b =>
      rw [h1] at h
      cases h
      have hcontains : p.t1.contains blockHash = true := by rw [Dict.contains, h1]; rfl
      dsimp only
      rw [if_pos hcontains]
      exact ⟨_, (Dict.entries_perm_erase h1).append_right _,
        (Dict.entries_modify h1).append_right _⟩
    | none =>
      rw [h1] at h
      have hcontains : ¬ p.t1.contains blockHash = true := by rw [Dict.contains, h1]; nofun
      dsimp only
      rw [if_neg hcontains]
      exact ⟨_, ((Dict.entries_perm_erase h).append_left _).trans perm_middle,
        ((Dict.entries_modify h).append_left _).trans perm_middle⟩

theorem touchBlock_perm {p : ARCCachePolicy H F} (hp : (arc p).WF) (blockHash : H) :
    (arc (p.touchBlock blockHash)).entries.Perm (arc p).entries := by
  show ((p.touchBlock blockHash).t1.entries ++ (p.touchBlock blockHash).t2.entries).Perm
    (p.t1.entries ++ p.t2.entries)
  unfold ARCCachePolicy.touchBlock
  split
  · rename_i block h1
    have hfirst := Dict.entries_perm_erase h1
    split
    · rw [Dict.entries_erase_set]
      exact ((perm_append_singleton _ _).trans hfirst.symm).append_right _
    · -- a block that is in `t1` is not in `t2`
      have h2 : p.t2.get? blockHash = none := by
        rw [Dict.get?_eq_none_iff]
        have hnodup : ((p.t1.entries ++ p.t2.entries).map Prod.fst).Nodup := hp
        rw [map_append] at hnodup
        exact disjoint_of_nodup_append hnodup (mem_map_of_mem (mem_entries_iff.mpr h1))
      rw [Dict.entries_set h2]
      refine List.Perm.trans ?_ (hfirst.append_right _).symm
      exact (perm_append_singleton _ _).append_left _ |>.trans perm_middle
  · split
    · exact Dict.entries_moveToEnd.append_left _
    · split
      · exact .refl _
      · split
        · exact .refl _
        · exact .refl _

theorem touch_perm (hp : p.WF) (blockHashes : List H) :
    (p.touch blockHashes).entries.Perm p.entries := by
  cases p with
  | lru p =>
    show (p.touch blockHashes).blocks.entries.Perm p.blocks.entries
    unfold LRUCachePolicy.touch
    generalize blockHashes.reverse = l
    clear hp
    induction l generalizing p with
    | nil => exact .refl _
    | cons blockHash l ih => exact (ih (p := ⟨_⟩)).trans Dict.entries_moveToEnd
  | arc p =>
    show (arc (p.touch blockHashes)).entries.Perm (arc p).entries
    unfold ARCCachePolicy.touch
    generalize blockHashes.reverse = l
    induction l generalizing p with
    | nil => exact .refl _
    | cons blockHash l ih =>
      have hhead := touchBlock_perm hp blockHash
      exact (ih _ (hp.perm hhead)).trans hhead

theorem evict_some {n : Nat} {protectedHashes : Finset H} {evicted : List (H × BlockStatus)}
    (h : p.evict n protectedHashes = (some evicted, p')) :
    p.entries.Perm (evicted ++ p'.entries) ∧ evicted.length = n ∧
      ∀ e ∈ evicted, evictable protectedHashes e := by
  cases p with
  | lru p =>
    unfold evict LRUCachePolicy.evict at h
    dsimp only at h
    split at h
    · rename_i hn
      cases h
      exact ⟨.refl _, hn.symm, fun e he => nomatch he⟩
    · split at h
      · cases h
      · rename_i hlen
        cases h
        have hsub : (p.candidates n protectedHashes).Sublist p.blocks.entries :=
          (take_sublist _ _).trans filter_sublist
        have hfold : ∀ (l : List (H × BlockStatus)) (d : Dict H BlockStatus),
            (l.foldl (fun (p : LRUCachePolicy H) e => { blocks := p.blocks.erase e.1 })
              { blocks := d }).blocks = l.foldl (fun d e => d.erase e.1) d := by
          intro l
          induction l with
          | nil => exact fun d => rfl
          | cons e l ih => exact fun d => ih (d.erase e.1)
        refine ⟨?_, ?_, ?_⟩
        · show p.blocks.entries.Perm
            (p.candidates n protectedHashes ++ (LRUCachePolicy.blocks _).entries)
          rw [hfold _ p.blocks]
          exact entries_perm_erase_all ((hsub.map _).nodup p.blocks.nodupKeys)
            fun e he => mem_entries_iff.mp (hsub.subset he)
        · exact Nat.le_antisymm (length_take_le _ _) (Nat.not_lt.mp hlen)
        · intro e he
          exact (mem_filter.mp (mem_of_mem_take he)).2
  | arc p =>
    unfold evict ARCCachePolicy.evict at h
    dsimp only at h
    split at h
    · rename_i hn
      cases h
      exact ⟨.refl _, hn.symm, fun e he => nomatch he⟩
    · cases hsel : p.selectCandidates protectedHashes n [] ∅ p.t1.entries.length with
      | none =>
        rw [hsel] at h
        cases h
      | some cs =>
        rw [hsel] at h
        cases h
        obtain ⟨new, hcs, hlen, hnodup, hnew⟩ := ARCCachePolicy.selectCandidates_some hsel
        subst hcs
        refine ⟨ARCCachePolicy.evictCandidates_perm hnodup fun c hc => (hnew c hc).2.2, ?_, ?_⟩
        · rw [length_map, hlen]
        · intro e he
          obtain ⟨c, hc, rfl⟩ := mem_map.mp he
          exact (hnew c hc).2.1

theorem evict_none {n : Nat} {protectedHashes : Finset H}
    (h : p.evict n protectedHashes = (none, p')) : p' = p := by
  cases p with
  | lru p =>
    unfold evict LRUCachePolicy.evict at h
    dsimp only at h
    split at h
    · cases h
    · split at h
      · cases h
        rfl
      · cases h
  | arc p =>
    unfold evict ARCCachePolicy.evict at h
    dsimp only at h
    split at h
    · cases h
    · split at h
      · cases h
        rfl
      · cases h

end CachePolicy

end MyOperator.Offload
