import MyOperator.KvCache.Block

/-!
# The free block queue is a list

`q.Represents F` says that the doubly linked list of `q` holds exactly the blocks
`F`, in that order. Each operation is the list operation of the same meaning, and
changes nothing but links.
-/

namespace MyOperator.KvCache

open Lib List

namespace Heap

/-- `a` and `b` become neighbours. -/
def join (h : Heap) (a b : BlockRef) : Heap := (h.setNext a (some b)).setPrev b (some a)

/-- `x` has no links any more. -/
def clear (h : Heap) (x : BlockRef) : Heap := (h.setPrev x none).setNext x none

variable (h : Heap) (a b c x r : BlockRef)

@[simp] theorem join_next :
    (h.join a b r).nextFreeBlock = if r = a then some b else (h r).nextFreeBlock := by
  simp [join]

@[simp] theorem join_prev :
    (h.join a b r).prevFreeBlock = if r = b then some a else (h r).prevFreeBlock := by
  simp [join]

@[simp] theorem clear_next :
    (h.clear x r).nextFreeBlock = if r = x then none else (h r).nextFreeBlock := by
  simp [clear]

@[simp] theorem clear_prev :
    (h.clear x r).prevFreeBlock = if r = x then none else (h r).prevFreeBlock := by
  simp [clear]

theorem sameData_join : SameData h (h.join a b) :=
  (h.sameData_setNext _ _).trans (sameData_setPrev _ _ _)

theorem sameData_clear : SameData h (h.clear x) :=
  (h.sameData_setPrev _ _).trans (sameData_setNext _ _ _)

variable {h a b c x}

/-- Heaps are the same when their data and their links are. -/
theorem SameData.ext {g : Heap} (hdata : SameData h g)
    (hnext : ∀ r, (g r).nextFreeBlock = (h r).nextFreeBlock)
    (hprev : ∀ r, (g r).prevFreeBlock = (h r).prevFreeBlock) : g = h := by
  funext r
  obtain ⟨hrefs, hhash, hnull⟩ := hdata r
  have hn := hnext r
  have hp := hprev r
  generalize g r = b at *
  generalize h r = b' at *
  cases b
  cases b'
  simp_all

theorem SameData.symm {g : Heap} (hdata : SameData h g) : SameData g h :=
  fun r => ⟨(hdata r).1.symm, (hdata r).2.1.symm, (hdata r).2.2.symm⟩

theorem join_eq_join_iff {g : Heap} : h.join a b = g.join a b ↔ SameData h g ∧
    (∀ r, r ≠ a → (g r).nextFreeBlock = (h r).nextFreeBlock) ∧
      ∀ r, r ≠ b → (g r).prevFreeBlock = (h r).prevFreeBlock := by
  constructor
  · intro heq
    refine ⟨?_, fun r hr => ?_, fun r hr => ?_⟩
    · have hdata := h.sameData_join a b
      rw [heq] at hdata
      exact hdata.trans (g.sameData_join a b).symm
    · have hnext := congrArg KVCacheBlock.nextFreeBlock (congrFun heq r)
      simpa [hr] using hnext.symm
    · have hprev := congrArg KVCacheBlock.prevFreeBlock (congrFun heq r)
      simpa [hr] using hprev.symm
  · rintro ⟨hdata, hnext, hprev⟩
    refine SameData.ext (((g.sameData_join a b).symm.trans hdata.symm).trans (sameData_join h a b))
      (fun r => ?_) fun r => ?_
    · by_cases hr : r = a <;> simp [hr, hnext]
    · by_cases hr : r = b <;> simp [hr, hprev]

theorem join_self (hnext : (h a).nextFreeBlock = some b) (hprev : (h b).prevFreeBlock = some a) :
    h.join a b = h := by
  refine (h.sameData_join a b).ext (fun r => ?_) fun r => ?_
  · by_cases hr : r = a <;> simp [hr, hnext]
  · by_cases hr : r = b <;> simp [hr, hprev]

theorem setPrev_setNext : (h.setPrev b (some a)).setNext a (some b) = h.join a b :=
  (((sameData_join h a b).symm.trans (h.sameData_setPrev _ _)).trans (sameData_setNext _ _ _)).ext
    (by simp) (by simp)

end Heap

namespace FreeKVCacheBlockQueue

/-- The queue holds the blocks `F`. -/
structure Represents (q : FreeKVCacheBlockQueue) (F : List BlockRef) : Prop where
  seg : Seg (fun r => (q.heap r).nextFreeBlock) (fun r => (q.heap r).prevFreeBlock)
    .fakeHead F .fakeTail
  nodup : (BlockRef.fakeHead :: F ++ [BlockRef.fakeTail]).Nodup
  stop : (q.heap .fakeTail).nextFreeBlock = none
  count : q.numFreeBlocks = F.length

variable {q : FreeKVCacheBlockQueue} {F A B : List BlockRef} {x : BlockRef}

namespace Represents

theorem nodup_blocks (h : q.Represents F) : F.Nodup := by
  have hd := h.nodup
  simp only [cons_append, nodup_cons, nodup_append] at hd
  exact hd.2.1

theorem fakeHead_notMem (h : q.Represents F) : BlockRef.fakeHead ∉ F := by
  have hd := h.nodup
  simp only [cons_append, nodup_cons, mem_append] at hd
  exact fun hm => hd.1 (.inl hm)

theorem fakeTail_notMem (h : q.Represents F) : BlockRef.fakeTail ∉ F := by
  have hd := h.nodup
  simp only [cons_append, nodup_cons, nodup_append] at hd
  exact fun hm => hd.2.2.2 _ hm _ (by simp) rfl

end Represents

/-- The queue that `remove` and `popleft` leave. -/
def unlinked (q : FreeKVCacheBlockQueue) (prev next x : BlockRef) : FreeKVCacheBlockQueue :=
  ⟨(q.heap.join prev next).clear x, q.numFreeBlocks - 1⟩

theorem unlinked_represents {prev next : BlockRef} (h : q.Represents (A ++ x :: B))
    (hp : (q.heap x).prevFreeBlock = some prev) (hn : (q.heap x).nextFreeBlock = some next) :
    (unlinked q prev next x).Represents (A ++ B) := by
  have hnodup := h.nodup
  have hx : x ∈ A ++ x :: B := by simp
  refine ⟨?_, ?_, ?_, ?_⟩
  · refine h.seg.unlink h.nodup (fun w hw => ?_) fun w hw => ?_
    · by_cases hwp : w = prev
      · subst hwp
        simp [unlinked, hw, hp, hn]
      · simp [unlinked, hw, hwp, hp, Ne.symm hwp]
    · by_cases hwn : w = next
      · subst hwn
        simp [unlinked, hw, hp, hn]
      · simp [unlinked, hw, hwn, hn, Ne.symm hwn]
  · have hsub : (A ++ B).Sublist (A ++ x :: B) := (Sublist.refl A).append (sublist_cons_self x B)
    exact hnodup.sublist ((hsub.cons_cons _).append (Sublist.refl _))
  · obtain ⟨px, hpx, -, -, hpxx, -, -, -⟩ := h.seg.mem_links hx
    have hprev : prev = px := Option.some.inj (hp.symm.trans hpxx)
    have hne : BlockRef.fakeTail ≠ px := by
      rintro rfl
      rcases mem_cons.mp hpx with h0 | h0
      · cases h0
      · exact h.fakeTail_notMem h0
    have hxt : BlockRef.fakeTail ≠ x := fun h0 => h.fakeTail_notMem (h0 ▸ hx)
    simp [unlinked, hxt, hprev, hne, h.stop]
  · simp only [unlinked, h.count, length_append, length_cons]
    omega

theorem remove_eq (h : q.Represents (A ++ x :: B)) :
    ∃ prev next, (q.heap x).prevFreeBlock = some prev ∧ (q.heap x).nextFreeBlock = some next ∧
      q.remove x = .ok (unlinked q prev next x) := by
  obtain ⟨prev, -, next, -, hp, -, hn, -⟩ := h.seg.mem_links (x := x) (by simp)
  change (q.heap x).prevFreeBlock = _ at hp
  change (q.heap x).nextFreeBlock = _ at hn
  refine ⟨prev, next, hp, hn, ?_⟩
  simp only [remove, hp, hn]
  rfl

theorem remove_spec (h : q.Represents (A ++ x :: B)) :
    ∃ q', q.remove x = .ok q' ∧ q'.Represents (A ++ B) ∧ q.heap.SameData q'.heap := by
  obtain ⟨prev, next, hp, hn, hrun⟩ := remove_eq h
  exact ⟨_, hrun, unlinked_represents h hp hn,
    (q.heap.sameData_join prev next).trans (Heap.sameData_clear _ x)⟩

theorem popleft_eq (h : q.Represents (x :: F)) :
    ∃ next, (q.heap x).prevFreeBlock = some .fakeHead ∧ (q.heap x).nextFreeBlock = some next ∧
      q.popleft = .ok (x, unlinked q .fakeHead next x) := by
  obtain ⟨hx, hp, -⟩ := h.seg
  obtain ⟨-, -, next, -, -, -, hn, -⟩ := h.seg.mem_links (x := x) (by simp)
  change (q.heap .fakeHead).nextFreeBlock = _ at hx
  change (q.heap x).nextFreeBlock = _ at hn
  have hxt : x ≠ .fakeTail := fun h0 => h.fakeTail_notMem (by simp [h0])
  refine ⟨next, hp, hn, ?_⟩
  simp only [popleft, hx, if_neg hxt, hn]
  rfl

theorem popleft_spec (h : q.Represents (x :: F)) :
    ∃ q', q.popleft = .ok (x, q') ∧ q'.Represents F ∧ q.heap.SameData q'.heap := by
  obtain ⟨next, hp, hn, hrun⟩ := popleft_eq h
  exact ⟨_, hrun, unlinked_represents (A := []) h hp hn,
    (q.heap.sameData_join .fakeHead next).trans (Heap.sameData_clear _ x)⟩

/-! ## Popping a batch

`popleft_n` leaves what `n` calls of `popleft` leave: the links that these set in between are
set again, or reset. -/

variable {P : FreeKVCacheBlockQueue → List BlockRef → Prop} {n : Nat} {h : Heap}
  {bs : List BlockRef}

/-- The links that are set after the loop are not read in it. -/
private theorem popLoop_join {g h' : Heap} {c c' : BlockRef} {ret : List BlockRef}
    (heq : h.join .fakeHead c = g.join .fakeHead c)
    (hrun : popLoop n h (some c) = .ok (ret, h', some c')) (hhead : BlockRef.fakeHead ∉ ret) :
    ∃ g', popLoop n g (some c) = .ok (ret, g', some c') ∧
      h'.join .fakeHead c' = g'.join .fakeHead c' := by
  induction n generalizing h g c ret with
  | zero =>
    cases hrun
    exact ⟨g, rfl, heq⟩
  | succ n ih =>
    obtain ⟨⟨ret', h1, c1⟩, hrec, hret⟩ := bind_ok hrun
    cases hret
    rw [mem_cons, not_or] at hhead
    obtain ⟨hdata, hnext, hprev⟩ := Heap.join_eq_join_iff.mp heq
    cases hlink : (h c).nextFreeBlock with
    | none =>
      rw [hlink] at hrec
      cases n <;> cases hrec
    | some d =>
      rw [hlink] at hrec
      have hclear : (h.clear c).join .fakeHead d = (g.clear c).join .fakeHead d := by
        refine Heap.join_eq_join_iff.mpr ⟨((h.sameData_clear c).symm.trans hdata).trans
          (g.sameData_clear c), fun r hr => ?_, fun r hr => ?_⟩
        · simp [hnext r hr]
        · by_cases hrc : r = c <;> simp [hrc, hprev]
      obtain ⟨g', hrun', hjoin⟩ := ih hclear hrec hhead.2
      refine ⟨g', ?_, hjoin⟩
      rw [popLoop, hnext c (Ne.symm hhead.1), hlink]
      exact congrArg (· >>= _) hrun'

private theorem popLoop_keeps (hrep : ∀ q F, P q F → q.Represents F)
    (hpop : ∀ q x F q', P q (x :: F) → q.popleft = .ok (x, q') → P q' F) (hq : P q F)
    (hn : n ≤ F.length) :
    ∃ h' c, popLoop n q.heap (q.heap .fakeHead).nextFreeBlock = .ok (F.take n, h', some c) ∧
      P ⟨h'.join .fakeHead c, q.numFreeBlocks - n⟩ (F.drop n) := by
  induction n generalizing q F with
  | zero =>
    obtain ⟨c, hc⟩ : ∃ c, (F ++ [BlockRef.fakeTail]).head? = some c := by
      cases F <;> exact ⟨_, rfl⟩
    have hseg := (hrep q F hq).seg
    have hnext : (q.heap .fakeHead).nextFreeBlock = some c := hseg.next_head.trans hc
    refine ⟨q.heap, c, by rw [hnext]; rfl, ?_⟩
    rw [Heap.join_self hnext (hseg.prev_of_next mem_cons_self hnext)]
    simpa using hq
  | succ n ih =>
    cases F with
    | nil => simp at hn
    | cons x F =>
      have hx := hrep q _ hq
      obtain ⟨next, -, hnext, hrun⟩ := popleft_eq hx
      have hfirst : (q.heap .fakeHead).nextFreeBlock = some x := hx.seg.1
      have hxh : BlockRef.fakeHead ≠ x := fun h0 => hx.fakeHead_notMem (by simp [h0])
      obtain ⟨h', c, hloop, hP⟩ := ih (hpop q x F _ hq hrun) (by simpa using hn)
      have hsecond : ((unlinked q .fakeHead next x).heap .fakeHead).nextFreeBlock = some next := by
        simp [unlinked, hxh]
      rw [hsecond] at hloop
      have hjoin : (unlinked q .fakeHead next x).heap.join .fakeHead next =
          (q.heap.clear x).join .fakeHead next := by
        refine Heap.join_eq_join_iff.mpr ⟨(((q.heap.sameData_join _ _).trans
          (Heap.sameData_clear _ x)).symm).trans (q.heap.sameData_clear x),
          fun r hr => ?_, fun r hr => ?_⟩
        · simp [unlinked, hr]
        · simp [unlinked, hr]
      obtain ⟨g', hloop', hjoin'⟩ := popLoop_join hjoin hloop fun hm =>
        hx.fakeHead_notMem (mem_cons_of_mem _ (mem_of_mem_take hm))
      refine ⟨g', c, ?_, ?_⟩
      · rw [hfirst, popLoop, hnext]
        exact congrArg (· >>= _) hloop'
      · rw [← hjoin']
        have hcount : q.numFreeBlocks - 1 - (n : Int) = q.numFreeBlocks - (n + 1 : Nat) := by omega
        rw [← hcount]
        exact hP

/-- What `popleft` keeps, `popleft_n` keeps. -/
theorem popleftN_keeps (hrep : ∀ q F, P q F → q.Represents F)
    (hpop : ∀ q x F q', P q (x :: F) → q.popleft = .ok (x, q') → P q' F) (hq : P q F)
    (hn : n ≤ F.length) : ∃ q', q.popleftN n = .ok (F.take n, q') ∧ P q' (F.drop n) := by
  rcases Nat.eq_zero_or_pos n with rfl | hpos
  · exact ⟨q, by simp [popleftN], hq⟩
  obtain ⟨h', c, hrun, hP⟩ := popLoop_keeps hrep hpop hq hn
  have hle : (n : Int) ≤ q.numFreeBlocks := by
    rw [(hrep q F hq).count]
    omega
  refine ⟨_, ?_, hP⟩
  rw [popleftN, if_neg (by omega), assert, if_pos (by simpa using hle), ok_bind, Int.toNat_natCast,
    hrun]
  rfl

theorem popleftN_spec (h : q.Represents F) (hn : n ≤ F.length) :
    ∃ q', q.popleftN n = .ok (F.take n, q') ∧ q'.Represents (F.drop n) ∧
      q.heap.SameData q'.heap := by
  refine popleftN_keeps (P := fun q' F => q'.Represents F ∧ q.heap.SameData q'.heap)
    (fun _ _ hq => hq.1) ?_ ⟨h, q.heap.sameData_refl⟩ hn
  rintro q1 x F q' ⟨h1, hdata⟩ hrun
  obtain ⟨q2, hrun', h2, hdata'⟩ := popleft_spec h1
  cases hrun.symm.trans hrun'
  exact ⟨h2, hdata.trans hdata'⟩

/-! ## Appending

`append_n` leaves what a call of `append` for each block leaves. -/

theorem append_eq (h : q.Represents F) :
    ∃ last ∈ BlockRef.fakeHead :: F, (q.heap .fakeTail).prevFreeBlock = some last ∧
      q.append x = .ok ⟨(q.heap.join last x).join x .fakeTail, q.numFreeBlocks + 1⟩ := by
  have hlast : (q.heap .fakeTail).prevFreeBlock = (BlockRef.fakeHead :: F).getLast? :=
    h.seg.prev_last
  rw [getLast?_eq_getLast_of_ne_nil (by simp)] at hlast
  refine ⟨_, getLast_mem _, hlast, ?_⟩
  simp only [append, hlast]
  rfl

theorem append_spec (h : q.Represents F)
    (hd : (BlockRef.fakeHead :: (F ++ [x]) ++ [BlockRef.fakeTail]).Nodup) :
    ∃ q', q.append x = .ok q' ∧ q'.Represents (F ++ [x]) ∧ q.heap.SameData q'.heap := by
  obtain ⟨last, hmem, hlast, hrun⟩ := append_eq (x := x) h
  obtain ⟨hxF, hxt⟩ : x ∉ BlockRef.fakeHead :: F ∧ x ≠ .fakeTail := by
    simp [nodup_append] at hd ⊢
    grind
  have hlt : last ≠ .fakeTail := by
    rintro rfl
    rcases mem_cons.mp hmem with h0 | h0
    · cases h0
    · exact h.fakeTail_notMem h0
  refine ⟨_, hrun, ⟨?_, hd, ?_, ?_⟩,
    (q.heap.sameData_join last x).trans (Heap.sameData_join _ _ _)⟩
  · refine Seg.append_iff.mpr ⟨h.seg.link_last (h.nodup.sublist (sublist_append_left _ _))
      h.fakeTail_notMem (fun w hw => ?_) (fun w hw => ?_) ?_, by simp, by simp⟩
    · have hwx : w ≠ x := fun h0 => hxF (h0 ▸ hw)
      by_cases hwl : w = last
      · simp [hwl, hlast, hwl ▸ hwx]
      · simp [hwx, hwl, hlast, Ne.symm hwl]
    · have hwx : w ≠ x := fun h0 => hxF (h0 ▸ mem_cons_of_mem _ hw)
      have hwt : w ≠ .fakeTail := fun h0 => h.fakeTail_notMem (h0 ▸ hw)
      simp [hwx, hwt]
    · simp [hxt, hlast]
  · simp [Ne.symm hxt, Ne.symm hlt, h.stop]
  · simp [h.count]

private theorem linkLoop_join (bs : List BlockRef) {g : Heap} {last : BlockRef}
    (heq : h.join last .fakeTail = g.join last .fakeTail) :
    (linkLoop bs g last).2 = (linkLoop bs h last).2 ∧
      (linkLoop bs h last).1.join (linkLoop bs h last).2 .fakeTail =
        (linkLoop bs g last).1.join (linkLoop bs h last).2 .fakeTail := by
  induction bs generalizing h g last with
  | nil => exact ⟨rfl, heq⟩
  | cons b bs ih =>
    obtain ⟨hdata, hnext, hprev⟩ := Heap.join_eq_join_iff.mp heq
    rw [linkLoop, linkLoop, Heap.setPrev_setNext, Heap.setPrev_setNext]
    refine ih (Heap.join_eq_join_iff.mpr ⟨((h.sameData_join _ _).symm.trans hdata).trans
      (g.sameData_join _ _), fun r hr => ?_, fun r hr => ?_⟩)
    · by_cases hrl : r = last <;> simp [hrl, hnext]
    · simp [hprev r hr]

theorem appendN_eq (last : BlockRef) (hlast : (q.heap .fakeTail).prevFreeBlock = some last) :
    q.appendN (x :: bs) = .ok
      ⟨(linkLoop bs (q.heap.join last x) x).1.join (linkLoop bs (q.heap.join last x) x).2 .fakeTail,
        q.numFreeBlocks + (x :: bs).length⟩ := by
  simp only [appendN, hlast, linkLoop, Heap.setPrev_setNext, reduceCtorEq, if_false]
  rfl

theorem appendN_cons {q' : FreeKVCacheBlockQueue} (hrun : q.append x = .ok q') :
    q.appendN (x :: bs) = q'.appendN bs := by
  unfold append at hrun
  split at hrun
  · cases hrun
  rename_i last hlast
  change Except.ok (⟨(q.heap.join last x).join x .fakeTail, q.numFreeBlocks + 1⟩ :
    FreeKVCacheBlockQueue) = _ at hrun
  cases hrun
  rw [appendN_eq last hlast]
  cases bs with
  | nil => rfl
  | cons b bs =>
    have hself : (q.heap.join last x).join x .fakeTail =
        ((q.heap.join last x).join x .fakeTail).join x .fakeTail :=
      (Heap.join_self (by simp) (by simp)).symm
    obtain ⟨hend, hjoin⟩ := linkLoop_join (b :: bs) hself
    rw [hjoin, ← hend, appendN_eq x (by simp), linkLoop, Heap.setPrev_setNext]
    have hcount : q.numFreeBlocks + (x :: b :: bs).length =
        q.numFreeBlocks + 1 + (b :: bs).length := by
      simp only [length_cons]
      omega
    rw [hcount]

/-- What `append` keeps, `append_n` keeps. -/
theorem appendN_keeps (happ : ∀ q F x, P q F →
      (BlockRef.fakeHead :: (F ++ [x]) ++ [BlockRef.fakeTail]).Nodup →
        ∃ q', q.append x = .ok q' ∧ P q' (F ++ [x])) (hq : P q F)
    (hd : (BlockRef.fakeHead :: (F ++ bs) ++ [BlockRef.fakeTail]).Nodup) :
    ∃ q', q.appendN bs = .ok q' ∧ P q' (F ++ bs) := by
  induction bs generalizing q F with
  | nil => exact ⟨q, rfl, by simpa using hq⟩
  | cons x bs ih =>
    have hsub : (F ++ [x]).Sublist (F ++ x :: bs) := by simp
    obtain ⟨q1, hrun, h1⟩ := happ q F x hq (hd.sublist ((hsub.cons_cons _).append (Sublist.refl _)))
    rw [append_cons F x bs] at hd ⊢
    rw [appendN_cons hrun]
    exact ih h1 hd

theorem appendN_spec (h : q.Represents F)
    (hd : (BlockRef.fakeHead :: (F ++ bs) ++ [BlockRef.fakeTail]).Nodup) :
    ∃ q', q.appendN bs = .ok q' ∧ q'.Represents (F ++ bs) ∧ q.heap.SameData q'.heap := by
  refine appendN_keeps (P := fun q' F => q'.Represents F ∧ q.heap.SameData q'.heap) ?_
    ⟨h, q.heap.sameData_refl⟩ hd
  rintro q1 F x ⟨h1, hdata⟩ hd1
  obtain ⟨q2, hrun, h2, hdata'⟩ := append_spec h1 hd1
  exact ⟨q2, hrun, h2, hdata.trans hdata'⟩

/-! ## The initial list

`__init__` leaves what `append_n` leaves of the empty list. -/

theorem init_nil : (init []).Represents [] :=
  ⟨⟨by simp [init], by simp [init]⟩, by decide, by simp [init, initLoop], rfl⟩

private theorem linkLoop_eq_initLoop (bs : List BlockRef) (h : Heap) (a : BlockRef) :
    (linkLoop bs h a).1 = initLoop (some a) bs (initLink h a none bs.head?) := by
  induction bs generalizing h a with
  | nil => rfl
  | cons c bs ih =>
    rw [linkLoop, Heap.setPrev_setNext, ih]
    cases bs <;> rfl

private theorem linkLoop_last (bs : List BlockRef) (h : Heap) (a : BlockRef) :
    (a :: bs).getLast? = some (linkLoop bs h a).2 := by
  induction bs generalizing h a with
  | nil => rfl
  | cons c bs ih => exact ih _ c

/-- Links that the loop does not set may be set before it. -/
private theorem linkLoop_frame {a b c : BlockRef} (ha : a ∉ c :: bs) (hb : b ∉ bs) :
    linkLoop bs (h.join a b) c = ((linkLoop bs h c).1.join a b, (linkLoop bs h c).2) := by
  induction bs generalizing h c with
  | nil => rfl
  | cons d bs ih =>
    rw [mem_cons, not_or] at ha hb
    have hcomm : (h.join a b).join c d = (h.join c d).join a b := by
      refine Heap.SameData.ext (((h.sameData_join c d).trans (Heap.sameData_join _ a b)).symm.trans
        ((h.sameData_join a b).trans (Heap.sameData_join _ c d))) (fun r => ?_) fun r => ?_
      · by_cases hr : r = a <;> simp [hr, ha.1]
      · by_cases hr : r = b <;> simp [hr, hb.1]
    rw [linkLoop, linkLoop, Heap.setPrev_setNext, Heap.setPrev_setNext, hcomm]
    exact ih ha.2 hb.2

private theorem init_cons {b : BlockRef} : init (b :: bs) =
    ⟨((linkLoop bs (fun _ => {}) b).1.join .fakeHead b).join (linkLoop bs (fun _ => {}) b).2 .fakeTail,
      (b :: bs).length⟩ := by
  simp only [init, head?_cons, linkLoop_last bs (fun _ => {}) b, Heap.setPrev_setNext,
    linkLoop_eq_initLoop]
  rfl

theorem init_eq_appendN (hd : (BlockRef.fakeHead :: bs).Nodup) :
    (init []).appendN bs = .ok (init bs) := by
  cases bs with
  | nil => rfl
  | cons b bs =>
    obtain ⟨hhead, hd⟩ := nodup_cons.mp hd
    have hb : b ∉ bs := (nodup_cons.mp hd).1
    have hfirst : (init []).heap = Heap.join (fun _ => {}) .fakeHead .fakeTail := rfl
    have hstart : Heap.join (Heap.join (fun _ => {}) .fakeHead b) b .fakeTail =
        ((init []).heap.join .fakeHead b).join b .fakeTail := by
      rw [hfirst]
      refine Heap.join_eq_join_iff.mpr ⟨(Heap.sameData_join _ _ _).symm.trans
        ((Heap.sameData_join _ _ _).trans (Heap.sameData_join _ _ _)), fun r _ => ?_, fun r hr => ?_⟩
      · by_cases hr : r = .fakeHead <;> simp [hr]
      · simp [hr]
    obtain ⟨hend, hjoin⟩ := linkLoop_join bs hstart
    rw [linkLoop_frame (h := fun _ => {}) hhead hb] at hend hjoin
    rw [appendN_eq .fakeHead (by simp [hfirst]), hend, ← hjoin, init_cons]
    exact congrArg (fun k => Except.ok (FreeKVCacheBlockQueue.mk _ k)) (Int.zero_add _)

/-- What holds of the empty list and `append` keeps, holds of every initial list. -/
theorem init_keeps (hnil : P (init []) []) (happ : ∀ q F x, P q F →
      (BlockRef.fakeHead :: (F ++ [x]) ++ [BlockRef.fakeTail]).Nodup →
        ∃ q', q.append x = .ok q' ∧ P q' (F ++ [x]))
    (hd : (BlockRef.fakeHead :: bs ++ [BlockRef.fakeTail]).Nodup) : P (init bs) bs := by
  obtain ⟨q', hrun, hq⟩ := appendN_keeps (F := []) happ hnil hd
  rw [init_eq_appendN (hd.sublist (sublist_append_left _ _))] at hrun
  cases hrun
  exact hq

theorem init_spec {blocks : List BlockRef}
    (hd : (BlockRef.fakeHead :: blocks ++ [BlockRef.fakeTail]).Nodup) :
    (init blocks).Represents blocks ∧
      ∀ r, ((init blocks).heap r).refCnt = 0 ∧ ((init blocks).heap r).blockHash = none ∧
        ((init blocks).heap r).isNull = false := by
  refine init_keeps (P := fun q F => q.Represents F ∧ Heap.SameData (fun _ => {}) q.heap)
    ⟨init_nil, Heap.sameData_join _ _ _⟩ ?_ hd
  rintro q F x ⟨hq, hdata⟩ hd1
  obtain ⟨q', hrun, hq', hdata'⟩ := append_spec hq hd1
  exact ⟨q', hrun, hq', hdata.trans hdata'⟩

/-! ## Walking the list -/

private theorem walk_spec {fuel : Nat}
    (hseg : Seg (fun r => (h r).nextFreeBlock) (fun r => (h r).prevFreeBlock) u F .fakeTail)
    (hstop : (h .fakeTail).nextFreeBlock = none) (hfuel : F.length < fuel) :
    ∃ first, (h u).nextFreeBlock = some first ∧ walk h fuel first = some F := by
  induction F generalizing u fuel with
  | nil =>
    obtain ⟨fuel, rfl⟩ := Nat.exists_eq_add_of_lt hfuel
    exact ⟨_, hseg.1, by simp [walk, hstop]⟩
  | cons x F ih =>
    obtain ⟨hux, -, hxF⟩ := hseg
    obtain ⟨fuel, rfl⟩ : ∃ k, fuel = k + 1 := ⟨fuel - 1, by simp at hfuel; omega⟩
    obtain ⟨first, hfirst, hwalk⟩ := ih hxF (by simpa using hfuel)
    exact ⟨x, hux, by simp [walk, hfirst, hwalk]⟩

theorem getAllFreeBlocks_spec {fuel : Nat} (h : q.Represents F) (hfuel : F.length < fuel) :
    q.getAllFreeBlocks fuel = .ok (some F) := by
  obtain ⟨first, hfirst, hwalk⟩ := walk_spec h.seg h.stop hfuel
  change (q.heap .fakeHead).nextFreeBlock = _ at hfirst
  simp [getAllFreeBlocks, hfirst, hwalk]

end FreeKVCacheBlockQueue

end MyOperator.KvCache
