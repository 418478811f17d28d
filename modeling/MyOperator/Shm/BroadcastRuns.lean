import MyOperator.Shm.Broadcast

/-!
# Runs of the broadcast queue

The chunk of the writer is the next one of the message number `sent.length`, that of a
reader the one of the first message that it has not read. The flags of a chunk tell which
readers have read the latest message in it (`Memory`); what the processes know of the flags
stays true while they wait (`WriterKnows`, `ReaderKnows`). So each reader reads the
messages in their order, and nobody reads a chunk that is written (`broadcast_sound`).
-/

namespace MyOperator.Shm

open Lib List Bool Nat

/-- The bytes that were read are those of the message. -/
def Reads (seen : List (Nat × UInt8)) (m : Content) : Prop := ∀ x ∈ seen, m x.1 = x.2

namespace Queue

/-- The number of messages that the reader `r` has read. -/
def done (s : Queue) (r : Nat) : Nat := (s.got r).length

/-- The writer has the chunk. -/
def Writing (s : Queue) : Prop := s.writer = .writing ∨ ∃ i, s.writer = .reset i

/-- The readers have read what was in the next chunk. -/
def Room (s : Queue) (nReader maxChunks : Nat) : Prop :=
  ∀ r < nReader, s.sent.length < s.done r + maxChunks

/-- What the memory says. -/
structure Memory (nReader maxChunks : Nat) (s : Queue) : Prop where
  chunks : 0 < maxChunks
  writerIdx : s.writerIdx = s.sent.length % maxChunks
  readerIdx : ∀ r < nReader, s.readerIdx r = s.done r % maxChunks
  done : ∀ r < nReader, s.done r ≤ s.sent.length
  lap : ∀ r < nReader, s.sent.length ≤ s.done r + maxChunks
  /-- A chunk with a message, other than the next one to write. -/
  full : ∀ k < s.sent.length, s.sent.length < k + maxChunks →
    s.written (k % maxChunks) = true ∧ ∀ r < nReader, s.read (k % maxChunks) r = true ↔ k < s.done r
  /-- A chunk that was never written. -/
  fresh : ∀ k, s.sent.length ≤ k → k < maxChunks → s.written k = false
  /-- The next chunk, if it is written. -/
  next : s.written (s.sent.length % maxChunks) = true →
    ∀ r < nReader, s.read (s.sent.length % maxChunks) r = true ↔
      s.sent.length < s.done r + maxChunks
  /-- The next chunk, if it is not written. -/
  room : s.written (s.sent.length % maxChunks) = false → s.Room nReader maxChunks
  data : ∀ k m, s.sent[k]? = some m → s.sent.length ≤ k + maxChunks →
    (s.sent.length = k + maxChunks → s.written (s.sent.length % maxChunks) = true) →
    s.data (k % maxChunks) = m
  got : ∀ r < nReader, Forall₂ Reads (s.got r) (s.sent.take (s.done r))

/-- What the writer knows. -/
def WriterKnows (nReader maxChunks : Nat) (s : Queue) : Prop :=
  match s.writer with
  | .idle => True
  | .count i readCount => readCount ≤ i ∧
      (readCount = i → ∀ r < nReader, r < i → s.sent.length < s.done r + maxChunks)
  | .found => s.Room nReader maxChunks
  | .writing => s.written (s.sent.length % maxChunks) = false
  | .reset i => s.written (s.sent.length % maxChunks) = false ∧
      ∀ r < i, s.read (s.sent.length % maxChunks) r = false

/-- What the reader `r` knows. -/
def ReaderKnows (maxChunks : Nat) (s : Queue) (r : Nat) : Prop :=
  match s.reader r with
  | .idle => True
  | .poll => True
  | .check readFlag => readFlag = false → s.read (s.done r % maxChunks) r = false
  | .reading seen => s.read (s.done r % maxChunks) r = false ∧
      ∃ m, s.sent[s.done r]? = some m ∧ Reads seen m

/-- What holds in every state. -/
structure Inv (nReader maxChunks : Nat) (s : Queue) : Prop where
  memory : s.Memory nReader maxChunks
  writer : s.WriterKnows nReader maxChunks
  reader : ∀ r < nReader, s.ReaderKnows maxChunks r

variable {nReader maxChunks : Nat} {s : Queue}

theorem mod_ne {N k w : Nat} (h : k < w) (hlap : w < k + N) : k % N ≠ w % N := by
  intro heq
  have hdvd : N ∣ w - k := (modEq_iff_dvd' h.le).mp heq
  have hle : N ≤ w - k := le_of_dvd (by omega) hdvd
  omega

theorem add_mod_lap {N k w : Nat} (h : w = k + N) : w % N = k % N := by
  rw [h, add_mod_right]

/-! ## The writer -/

variable {r : Nat} {s' : Queue}

section

variable (h : s.Memory nReader maxChunks)
include h

theorem Memory.readable (hr : r < nReader) (hlt : s.done r < s.sent.length) :
    s.written (s.done r % maxChunks) = true ∧ s.read (s.done r % maxChunks) r = false := by
  rcases lt_or_ge s.sent.length (s.done r + maxChunks) with hin | hout
  · obtain ⟨hwritten, hread⟩ := h.full (s.done r) hlt hin
    refine ⟨hwritten, eq_false_iff.mpr fun htrue => ?_⟩
    exact absurd ((hread r hr).mp htrue) (lt_irrefl _)
  · have heq : s.sent.length = s.done r + maxChunks := le_antisymm (h.lap r hr) hout
    rw [← add_mod_lap heq]
    cases hwritten : s.written (s.sent.length % maxChunks) with
    | false => exact absurd (h.room hwritten r hr) (by omega)
    | true =>
      refine ⟨rfl, eq_false_iff.mpr fun htrue => ?_⟩
      exact absurd ((h.next hwritten r hr).mp htrue) (by omega)

theorem Memory.content (hr : r < nReader) {m : Content} (hm : s.sent[s.done r]? = some m) :
    s.data (s.done r % maxChunks) = m := by
  have hlt : s.done r < s.sent.length := lt_of_getElem? hm
  refine h.data _ m hm (h.lap r hr) fun heq => ?_
  rw [add_mod_lap heq]
  exact (h.readable hr hlt).1

theorem Memory.unmark (hroom : s.Room nReader maxChunks) :
    (s.setWritten s.writerIdx false).Memory nReader maxChunks := by
  have hkeep : ∀ k < s.sent.length, s.sent.length < k + maxChunks →
      (s.setWritten s.writerIdx false).written (k % maxChunks) = s.written (k % maxChunks) := by
    intro k hk hlap
    refine if_neg ?_
    rw [h.writerIdx]
    exact mod_ne hk hlap
  have hnext : (s.setWritten s.writerIdx false).written (s.sent.length % maxChunks) = false :=
    if_pos h.writerIdx.symm
  refine ⟨h.chunks, h.writerIdx, h.readerIdx, h.done, h.lap, fun k hk hlap => ?_, fun k hk hN => ?_,
    fun htrue => ?_, fun _ => hroom, fun k m hm hle hcond => ?_, h.got⟩
  · rw [hkeep k hk hlap]
    exact h.full k hk hlap
  · show (if k = s.writerIdx then false else s.written k) = false
    rw [h.fresh k hk hN, ite_self]
  · exact absurd (hnext.symm.trans htrue) Bool.false_ne_true
  · refine h.data k m hm hle fun heq => ?_
    exact absurd (hnext.symm.trans (hcond heq)) Bool.false_ne_true

section

variable (hw : s.written (s.sent.length % maxChunks) = false)
include hw

theorem Memory.write (p : Nat) (b : UInt8) :
    (s.setByte s.writerIdx p b).Memory nReader maxChunks := by
  refine ⟨h.chunks, h.writerIdx, h.readerIdx, h.done, h.lap, h.full, h.fresh, h.next, h.room,
    fun k m hm hle hcond => ?_, h.got⟩
  have hk : k < s.sent.length := lt_of_getElem? hm
  have hlap : s.sent.length < k + maxChunks := by
    refine lt_of_le_of_ne hle fun heq => ?_
    exact absurd (hw.symm.trans (hcond heq)) Bool.false_ne_true
  rw [← h.data k m hm hle hcond]
  funext p'
  refine if_neg fun hsame => ?_
  rw [h.writerIdx] at hsame
  exact mod_ne hk hlap hsame.1

theorem Memory.reset (i : Nat) : (s.setRead s.writerIdx i false).Memory nReader maxChunks := by
  refine ⟨h.chunks, h.writerIdx, h.readerIdx, h.done, h.lap, fun k hk hlap => ?_, h.fresh,
    fun htrue => absurd (hw.symm.trans htrue) Bool.false_ne_true, h.room, h.data, h.got⟩
  have hkeep : ∀ r, (s.setRead s.writerIdx i false).read (k % maxChunks) r =
      s.read (k % maxChunks) r := by
    intro r
    refine if_neg fun hsame => ?_
    rw [h.writerIdx] at hsame
    exact mod_ne hk hlap hsame.1
  refine ⟨(h.full k hk hlap).1, fun r hr => ?_⟩
  rw [hkeep]
  exact (h.full k hk hlap).2 r hr

theorem Memory.mark (hreset : ∀ r < nReader, s.read (s.sent.length % maxChunks) r = false) :
    ((s.setWritten s.writerIdx true).enqueued maxChunks).Memory nReader maxChunks := by
  have hroom := h.room hw
  have hN := h.chunks
  have hlen : ((s.setWritten s.writerIdx true).enqueued maxChunks).sent.length =
      s.sent.length + 1 := length_append
  have hmarked : (s.setWritten s.writerIdx true).written (s.sent.length % maxChunks) = true :=
    if_pos h.writerIdx.symm
  have hkeep : ∀ c ≠ s.sent.length % maxChunks,
      (s.setWritten s.writerIdx true).written c = s.written c := by
    intro c hc
    refine if_neg fun hsame => hc ?_
    rw [hsame, h.writerIdx]
  -- the chunks that hold the last `maxChunks` messages now
  have hfull : ∀ k < s.sent.length + 1, s.sent.length < k + maxChunks →
      (s.setWritten s.writerIdx true).written (k % maxChunks) = true ∧
        ∀ r < nReader, s.read (k % maxChunks) r = true ↔ k < s.done r := by
    intro k hk hlap
    rcases Nat.lt_succ_iff_lt_or_eq.mp hk with hlt | rfl
    · rw [hkeep _ (mod_ne hlt hlap)]
      exact h.full k hlt hlap
    · refine ⟨hmarked, fun r hr => ?_⟩
      rw [hreset r hr]
      constructor
      · intro hfalse
        cases hfalse
      · intro hlt
        exact absurd (h.done r hr) (by omega)
  have hlast : maxChunks ≤ s.sent.length + 1 →
      (s.sent.length + 1) % maxChunks = (s.sent.length + 1 - maxChunks) % maxChunks :=
    fun hle => add_mod_lap (Nat.sub_add_cancel hle).symm
  refine ⟨hN, ?_, h.readerIdx, fun r hr => ?_, fun r hr => ?_, fun k hk hlap => ?_, fun k hk hlap => ?_,
    fun htrue r hr => ?_, fun hfalse r hr => ?_, fun k m hm hle hcond => ?_, fun r hr => ?_⟩
  · show (s.writerIdx + 1) % maxChunks = _
    rw [hlen, h.writerIdx, mod_add_mod]
  · rw [hlen]
    exact le_succ_of_le (h.done r hr)
  · rw [hlen]
    exact hroom r hr
  · rw [hlen] at hk hlap
    exact hfull k hk (by omega)
  · have hne : k ≠ s.sent.length % maxChunks := by
      rw [mod_eq_of_lt (by omega)]
      omega
    exact (hkeep k hne).trans (h.fresh k (by omega) hlap)
  · rw [hlen] at htrue ⊢
    rcases lt_or_ge (s.sent.length + 1) maxChunks with hlt | hge
    · have hne : s.sent.length + 1 ≠ s.sent.length % maxChunks := by
        rw [mod_eq_of_lt (by omega)]
        omega
      rw [mod_eq_of_lt hlt] at htrue
      exact absurd (((hkeep _ hne).trans (h.fresh _ (le_succ _) hlt)).symm.trans htrue)
        Bool.false_ne_true
    · show s.read ((s.sent.length + 1) % maxChunks) r = true ↔ s.sent.length + 1 < s.done r + maxChunks
      rw [hlast hge, (hfull (s.sent.length + 1 - maxChunks) (by omega) (by omega)).2 r hr]
      omega
  · rw [hlen] at hfalse ⊢
    rcases lt_or_ge (s.sent.length + 1) maxChunks with hlt | hge
    · exact Nat.lt_add_left _ hlt
    · have htrue := (hfull (s.sent.length + 1 - maxChunks) (by omega) (by omega)).1
      rw [← hlast hge] at htrue
      exact absurd (hfalse.symm.trans htrue) Bool.false_ne_true
  · have hk : k < s.sent.length + 1 := by
      rw [← hlen]
      exact lt_of_getElem? hm
    rcases Nat.lt_succ_iff_lt_or_eq.mp hk with hlt | rfl
    · have hm' : s.sent[k]? = some m := (getElem?_append_left hlt).symm.trans hm
      exact h.data k m hm' (by omega) fun heq => by omega
    · have hm' : s.data s.writerIdx = m := by
        have hlast := (getElem?_concat_length (l := s.sent) (a := s.data s.writerIdx)).symm.trans hm
        exact Option.some.inj hlast
      rw [← h.writerIdx]
      exact hm'
  · show Forall₂ Reads (s.got r) ((s.sent ++ [s.data s.writerIdx]).take (s.done r))
    rw [take_append_of_le_length (h.done r hr)]
    exact h.got r hr

end

end

theorem WriterKnows.mono (h : s.WriterKnows nReader maxChunks) (hwriter : s'.writer = s.writer)
    (hsent : s'.sent = s.sent) (hwritten : s'.written = s.written)
    (hdone : ∀ r < nReader, s.done r ≤ s'.done r) (hread : ∀ i, s.writer = .reset i → ∀ r < i,
      s'.read (s.sent.length % maxChunks) r = s.read (s.sent.length % maxChunks) r) :
    s'.WriterKnows nReader maxChunks := by
  unfold WriterKnows at h ⊢
  rw [hwriter, hsent, hwritten]
  cases hpc : s.writer with
  | idle => trivial
  | count i readCount =>
    rw [hpc] at h
    refine ⟨h.1, fun heq r hr hri => ?_⟩
    exact lt_of_lt_of_le (h.2 heq r hr hri) (Nat.add_le_add_right (hdone r hr) _)
  | found =>
    rw [hpc] at h
    intro r hr
    rw [hsent]
    exact lt_of_lt_of_le (h r hr) (Nat.add_le_add_right (hdone r hr) _)
  | writing =>
    rw [hpc] at h
    exact h
  | reset i =>
    rw [hpc] at h
    refine ⟨h.1, fun r hr => ?_⟩
    rw [hread i hpc r hr]
    exact h.2 r hr

theorem ReaderKnows.mono (h : s.ReaderKnows maxChunks r) (hreader : s'.reader r = s.reader r)
    (hgot : s'.got r = s.got r) (hsent : ∃ l, s'.sent = s.sent ++ l)
    (hread : s.read (s.done r % maxChunks) r = false → s'.read (s.done r % maxChunks) r = false) :
    s'.ReaderKnows maxChunks r := by
  have hdone : s'.done r = s.done r := congrArg List.length hgot
  obtain ⟨l, hsent⟩ := hsent
  unfold ReaderKnows at h ⊢
  rw [hreader, hdone]
  cases hpc : s.reader r with
  | idle => trivial
  | poll => trivial
  | check readFlag =>
    rw [hpc] at h
    exact fun hfalse => hread (h hfalse)
  | reading seen =>
    rw [hpc] at h
    obtain ⟨hflag, m, hm, hseen⟩ := h
    refine ⟨hread hflag, m, ?_, hseen⟩
    rw [hsent, getElem?_append_left (lt_of_getElem? hm)]
    exact hm

theorem Memory.counted (h : s.Memory nReader maxChunks) {i readCount : Nat} (hi : i < nReader)
    (hknows : readCount ≤ i ∧
      (readCount = i → ∀ r < nReader, r < i → s.sent.length < s.done r + maxChunks)) :
    readCount + (s.read s.writerIdx i).toNat ≤ i + 1 ∧
      (readCount + (s.read s.writerIdx i).toNat = i + 1 →
        ∀ r < nReader, r < i + 1 → s.sent.length < s.done r + maxChunks) := by
  obtain ⟨hle, hall⟩ := hknows
  have hbit := toNat_le (s.read s.writerIdx i)
  refine ⟨by omega, fun heq r hr hri => ?_⟩
  rcases Nat.lt_succ_iff_lt_or_eq.mp hri with hlt | rfl
  · exact hall (by omega) r hr hlt
  · cases hwritten : s.written (s.sent.length % maxChunks) with
    | false => exact h.room hwritten r hr
    | true =>
      refine (h.next hwritten r hr).mp ?_
      rw [← h.writerIdx]
      cases hflag : s.read s.writerIdx r with
      | true => rfl
      | false =>
        rw [hflag, toNat_false] at heq
        omega

theorem writer_step (h : s.Inv nReader maxChunks) (hstep : s.WriterStep nReader maxChunks s') :
    s'.Inv nReader maxChunks := by
  obtain ⟨hmem, hwriter, hreader⟩ := h
  have hidx := hmem.writerIdx
  have hwriting : s.writer = .writing → s.written (s.sent.length % maxChunks) = false := by
    intro hpc
    unfold WriterKnows at hwriter
    rw [hpc] at hwriter
    exact hwriter
  have hresetting : ∀ i, s.writer = .reset i → s.written (s.sent.length % maxChunks) = false ∧
      ∀ r < i, s.read (s.sent.length % maxChunks) r = false := by
    intro i hpc
    unfold WriterKnows at hwriter
    rw [hpc] at hwriter
    exact hwriter
  have hcount : ∀ i readCount, s.writer = .count i readCount → readCount ≤ i ∧
      (readCount = i → ∀ r < nReader, r < i → s.sent.length < s.done r + maxChunks) := by
    intro i readCount hpc
    unfold WriterKnows at hwriter
    rw [hpc] at hwriter
    exact hwriter
  have hmem' : ∀ pc, ({ s with writer := pc } : Queue).Memory nReader maxChunks := fun pc =>
    ⟨hmem.chunks, hmem.writerIdx, hmem.readerIdx, hmem.done, hmem.lap, hmem.full, hmem.fresh,
      hmem.next, hmem.room, hmem.data, hmem.got⟩
  cases hstep with
  | acquire hpc => exact ⟨hmem' _, ⟨le_refl _, fun _ r _ hr => absurd hr (Nat.not_lt_zero r)⟩, hreader⟩
  | count i readCount hpc hi =>
    exact ⟨hmem' _, hmem.counted hi (hcount i readCount hpc), hreader⟩
  | wait readCount hpc hw hr =>
    exact ⟨hmem' _, ⟨le_refl _, fun _ r _ hr => absurd hr (Nat.not_lt_zero r)⟩, hreader⟩
  | timeout readCount hpc hw hr => exact ⟨hmem' _, trivial, hreader⟩
  | found readCount hpc hw =>
    refine ⟨hmem' _, ?_, hreader⟩
    show s.Room nReader maxChunks
    rw [hidx] at hw
    cases hwritten : s.written (s.sent.length % maxChunks) with
    | false => exact hmem.room hwritten
    | true =>
      -- all the readers have set their flag
      have hall : readCount = nReader := by
        by_contra hne
        exact hw ⟨hwritten, hne⟩
      exact fun r hr => (hcount _ _ hpc).2 hall r hr hr
  | unmark hpc =>
    have hroom : s.Room nReader maxChunks := by
      unfold WriterKnows at hwriter
      rw [hpc] at hwriter
      exact hwriter
    have hnew := hmem.unmark hroom
    refine ⟨⟨hnew.chunks, hnew.writerIdx, hnew.readerIdx, hnew.done, hnew.lap, hnew.full,
      hnew.fresh, hnew.next, hnew.room, hnew.data, hnew.got⟩, ?_, hreader⟩
    exact if_pos hidx.symm
  | write p b hpc =>
    refine ⟨hmem.write (hwriting hpc) p b, ?_, hreader⟩
    exact hwriter
  | raise hpc => exact ⟨hmem' _, trivial, hreader⟩
  | release hpc =>
    exact ⟨hmem' _, ⟨hwriting hpc, fun r hr => absurd hr (Nat.not_lt_zero r)⟩, hreader⟩
  | reset i hpc hi =>
    obtain ⟨hw, hreset⟩ := hresetting i hpc
    have hnew := hmem.reset hw i
    refine ⟨⟨hnew.chunks, hnew.writerIdx, hnew.readerIdx, hnew.done, hnew.lap, hnew.full,
      hnew.fresh, hnew.next, hnew.room, hnew.data, hnew.got⟩, ⟨hw, fun r hr => ?_⟩, fun r hr => ?_⟩
    · show (if s.sent.length % maxChunks = s.writerIdx ∧ r = i then false
        else s.read (s.sent.length % maxChunks) r) = false
      split
      · rfl
      · rename_i hne
        exact hreset r (by omega)
    · refine (hreader r hr).mono rfl rfl ⟨[], (append_nil _).symm⟩ fun hfalse => ?_
      show (if s.done r % maxChunks = s.writerIdx ∧ r = i then false
        else s.read (s.done r % maxChunks) r) = false
      rw [hfalse, ite_self]
  | mark hpc =>
    obtain ⟨hw, hreset⟩ := hresetting nReader hpc
    refine ⟨hmem.mark hw hreset, trivial, fun r hr => ?_⟩
    exact (hreader r hr).mono rfl rfl ⟨_, rfl⟩ id

/-! ## The readers -/

theorem Memory.dequeue (h : s.Memory nReader maxChunks) (hr : r < nReader) {m : Content}
    {seen : List (Nat × UInt8)} (hm : s.sent[s.done r]? = some m) (hseen : Reads seen m) :
    ((s.setRead (s.readerIdx r) r true).dequeued maxChunks r seen).Memory nReader maxChunks := by
  have hlt : s.done r < s.sent.length := lt_of_getElem? hm
  have hlap := h.lap r hr
  have hdone : ∀ r', ((s.setRead (s.readerIdx r) r true).dequeued maxChunks r seen).done r' =
      if r' = r then s.done r + 1 else s.done r' := by
    intro r'
    show (if r' = r then s.got r ++ [seen] else s.got r').length = _
    split
    · exact length_append
    · rfl
  have hflag : ∀ c r', ((s.setRead (s.readerIdx r) r true).dequeued maxChunks r seen).read c r' =
      if c = s.done r % maxChunks ∧ r' = r then true else s.read c r' := by
    intro c r'
    show (if c = s.readerIdx r ∧ r' = r then true else s.read c r') = _
    rw [h.readerIdx r hr]
  refine ⟨h.chunks, h.writerIdx, fun r' hr' => ?_, fun r' hr' => ?_, fun r' hr' => ?_,
    fun k hk hk' => ⟨(h.full k hk hk').1, fun r' hr' => ?_⟩, h.fresh, fun hw r' hr' => ?_,
    fun hw r' hr' => ?_, h.data, fun r' hr' => ?_⟩
  · rw [hdone]
    show (if r' = r then (s.readerIdx r + 1) % maxChunks else s.readerIdx r') = _
    split
    · rw [h.readerIdx r hr, mod_add_mod]
    · exact h.readerIdx r' hr'
  · rw [hdone]
    split
    · exact hlt
    · exact h.done r' hr'
  · rw [hdone]
    show s.sent.length ≤ _
    split
    · omega
    · exact h.lap r' hr'
  · have hold := (h.full k hk hk').2 r' hr'
    rw [hdone, hflag]
    rcases eq_or_ne r' r with rfl | hne
    · rcases lt_trichotomy k (s.done r') with hkr | hkr | hkr
      · have hdiff : k % maxChunks ≠ s.done r' % maxChunks := mod_ne hkr (lt_trans hlt hk')
        rw [if_neg fun hsame => hdiff hsame.1, if_pos rfl, hold]
        omega
      · rw [hkr, if_pos ⟨rfl, rfl⟩, if_pos rfl]
        exact ⟨fun _ => lt_succ_self _, fun _ => rfl⟩
      · have hdiff : s.done r' % maxChunks ≠ k % maxChunks := mod_ne hkr (lt_of_lt_of_le hk hlap)
        rw [if_neg fun hsame => hdiff hsame.1.symm, if_pos rfl, hold]
        omega
    · rw [if_neg fun hsame => hne hsame.2, if_neg hne]
      exact hold
  · have hold := h.next hw r' hr'
    rw [hdone, hflag]
    show _ ↔ s.sent.length < _
    rcases eq_or_ne r' r with rfl | hne
    · rcases lt_or_ge s.sent.length (s.done r' + maxChunks) with hin | hout
      · have hdiff : s.done r' % maxChunks ≠ s.sent.length % maxChunks := mod_ne hlt hin
        rw [if_neg fun hsame => hdiff hsame.1.symm, if_pos rfl]
        exact ⟨fun _ => by omega, fun _ => hold.mpr hin⟩
      · have heq : s.sent.length = s.done r' + maxChunks := le_antisymm hlap hout
        rw [if_pos ⟨add_mod_lap heq, rfl⟩, if_pos rfl]
        exact ⟨fun _ => by omega, fun _ => rfl⟩
    · rw [if_neg fun hsame => hne hsame.2, if_neg hne]
      exact hold
  · have hold := h.room hw r' hr'
    rw [hdone]
    show s.sent.length < _
    split
    · rename_i heq
      omega
    · exact hold
  · rw [hdone]
    show Forall₂ Reads (if r' = r then s.got r ++ [seen] else s.got r') (s.sent.take _)
    split
    · rw [take_add_one, hm]
      exact rel_append (h.got r hr) (.cons hseen .nil)
    · exact h.got r' hr'

theorem reader_step (h : s.Inv nReader maxChunks) (hr : r < nReader)
    (hstep : s.ReaderStep maxChunks r s') : s'.Inv nReader maxChunks := by
  obtain ⟨hmem, hwriter, hreader⟩ := h
  have hidx := hmem.readerIdx r hr
  have hlocal : ∀ pc, (s.setReader r pc).ReaderKnows maxChunks r →
      (s.setReader r pc).Inv nReader maxChunks := by
    intro pc hpc
    refine ⟨⟨hmem.chunks, hmem.writerIdx, hmem.readerIdx, hmem.done, hmem.lap, hmem.full, hmem.fresh,
      hmem.next, hmem.room, hmem.data, hmem.got⟩, hwriter, fun r' hr' => ?_⟩
    rcases eq_or_ne r' r with rfl | hne
    · exact hpc
    · exact (hreader r' hr').mono (if_neg hne) rfl ⟨[], (append_nil _).symm⟩ id
  have hknows : ∀ pc, (s.setReader r pc).ReaderKnows maxChunks r = (match pc with
      | .idle => True
      | .poll => True
      | .check readFlag => readFlag = false → s.read (s.done r % maxChunks) r = false
      | .reading seen => s.read (s.done r % maxChunks) r = false ∧
          ∃ m, s.sent[s.done r]? = some m ∧ Reads seen m) := by
    intro pc
    unfold ReaderKnows
    rw [show (s.setReader r pc).reader r = pc from if_pos rfl]
    rfl
  have hreading : ∀ seen, s.reader r = .reading seen → s.read (s.done r % maxChunks) r = false ∧
      ∃ m, s.sent[s.done r]? = some m ∧ Reads seen m := by
    intro seen hpc
    have hr := hreader r hr
    unfold ReaderKnows at hr
    rw [hpc] at hr
    exact hr
  cases hstep with
  | acquire hpc => exact hlocal _ (by rw [hknows]; trivial)
  | poll hpc =>
    refine hlocal _ ?_
    rw [hknows, hidx]
    exact id
  | wait readFlag hpc hw => exact hlocal _ (by rw [hknows]; trivial)
  | timeout readFlag hpc hw => exact hlocal _ (by rw [hknows]; trivial)
  | found hpc hw =>
    refine hlocal _ ?_
    rw [hknows]
    have hflag : s.read (s.done r % maxChunks) r = false := by
      have hr := hreader r hr
      unfold ReaderKnows at hr
      rw [hpc] at hr
      exact hr rfl
    -- a chunk without a new message has the read flag
    have hlt : s.done r < s.sent.length := by
      refine lt_of_le_of_ne (hmem.done r hr) fun heq => ?_
      rw [hidx, heq] at hw
      have hset := (hmem.next hw r hr).mpr (by have := hmem.chunks; omega)
      rw [heq] at hflag
      exact absurd (hflag.symm.trans hset) Bool.false_ne_true
    exact ⟨hflag, _, getElem?_eq_getElem hlt, fun x hx => (nomatch hx)⟩
  | look p seen hpc =>
    refine hlocal _ ?_
    rw [hknows]
    obtain ⟨hflag, m, hm, hseen⟩ := hreading seen hpc
    refine ⟨hflag, m, hm, fun x hx => ?_⟩
    rcases mem_append.mp hx with hx | hx
    · exact hseen x hx
    · rw [mem_singleton.mp hx, hidx, hmem.content hr hm]
  | raise seen hpc => exact hlocal _ (by rw [hknows]; trivial)
  | mark seen hpc =>
    obtain ⟨hflag, m, hm, hseen⟩ := hreading seen hpc
    have hlt : s.done r < s.sent.length := lt_of_getElem? hm
    refine ⟨hmem.dequeue hr hm hseen, ?_, fun r' hr' => ?_⟩
    · refine hwriter.mono rfl rfl rfl (fun r' hr' => ?_) fun i hpc' r' hr' => ?_
      · show (s.got r').length ≤ (if r' = r then s.got r ++ [seen] else s.got r').length
        split
        · rename_i heq
          rw [heq, length_append]
          exact Nat.le_add_right _ _
        · exact le_refl _
      · -- the writer resets another chunk
        refine if_neg fun hsame => ?_
        have hw : s.written (s.sent.length % maxChunks) = false := by
          unfold WriterKnows at hwriter
          rw [hpc'] at hwriter
          exact hwriter.1
        rw [hidx] at hsame
        exact mod_ne hlt (hmem.room hw r hr) hsame.1.symm
    · rcases eq_or_ne r' r with rfl | hne
      · have hpc' : ((s.setRead (s.readerIdx r') r' true).dequeued maxChunks r' seen).reader r' =
            .idle := if_pos rfl
        unfold ReaderKnows
        rw [hpc']
        trivial
      · refine (hreader r' hr').mono (if_neg hne) (if_neg hne) ⟨[], (append_nil _).symm⟩
          fun hfalse => ?_
        show (if _ ∧ r' = r then true else s.read _ r') = false
        rw [if_neg fun hsame => hne hsame.2]
        exact hfalse

/-! ## Runs -/

theorem new_inv (data : Nat → Content) (hN : 0 < maxChunks) :
    ({ data } : Queue).Inv nReader maxChunks := by
  refine ⟨⟨hN, (zero_mod _).symm, fun r _ => (zero_mod _).symm, fun r _ => le_refl _,
    fun r _ => Nat.zero_le _, fun k hk => absurd hk (Nat.not_lt_zero k), fun _ _ _ => rfl,
    fun hfalse => ?_, fun _ r _ => ?_, fun k m hm => ?_, fun r _ => .nil⟩, trivial, fun r _ => trivial⟩
  · cases hfalse
  · exact Nat.lt_add_left _ hN
  · cases hm

/-- What the queue promises. -/
structure Sound (nReader maxChunks : Nat) (s : Queue) : Prop where
  /-- A reader has read the first messages, each once and in order. -/
  order : ∀ r < nReader, (s.got r).length ≤ s.sent.length ∧
    Forall₂ Reads (s.got r) (s.sent.take (s.got r).length)
  /-- The chunk that the writer changes has no message that a reader has not finished reading. -/
  finished : s.Writing → ∀ k < s.sent.length, k % maxChunks = s.writerIdx →
    ∀ r < nReader, k < (s.got r).length
  /-- A reader never reads the chunk that is written. -/
  exclusive : s.Writing → ∀ r < nReader, ∀ seen, s.reader r = .reading seen →
    s.readerIdx r ≠ s.writerIdx
  /-- A message that a reader has not read is there to be read. -/
  available : ∀ r < nReader, (s.got r).length < s.sent.length →
    s.written (s.readerIdx r) = true ∧ s.read (s.readerIdx r) r = false

theorem Inv.sound (h : s.Inv nReader maxChunks) : s.Sound nReader maxChunks := by
  obtain ⟨hmem, hwriter, hreader⟩ := h
  have hroom : s.Writing → s.Room nReader maxChunks := by
    intro hwriting
    refine hmem.room ?_
    unfold WriterKnows at hwriter
    rcases hwriting with hpc | ⟨i, hpc⟩
    · rw [hpc] at hwriter
      exact hwriter
    · rw [hpc] at hwriter
      exact hwriter.1
  refine ⟨fun r hr => ⟨hmem.done r hr, hmem.got r hr⟩, fun hwriting k hk hsame r hr => ?_,
    fun hwriting r hr seen hpc hsame => ?_, fun r hr hlt => ?_⟩
  · rw [hmem.writerIdx] at hsame
    have hlap : k + maxChunks ≤ s.sent.length := not_lt.mp fun hlap => mod_ne hk hlap hsame
    have hr := hroom hwriting r hr
    show k < s.done r
    omega
  · have hknows := hreader r hr
    unfold ReaderKnows at hknows
    rw [hpc] at hknows
    obtain ⟨-, m, hm, -⟩ := hknows
    rw [hmem.readerIdx r hr, hmem.writerIdx] at hsame
    exact mod_ne (lt_of_getElem? hm) (hroom hwriting r hr) hsame
  · rw [hmem.readerIdx r hr]
    exact hmem.readable hr hlt

end Queue

/-- In every run of the writer and the readers, each reader reads the messages in their order, and
nobody reads or overwrites a chunk too early. -/
theorem broadcast_sound (nReader maxChunks : Nat) :
    (broadcast nReader maxChunks).Invariant fun s => s.Sound nReader maxChunks := by
  have hinv : (broadcast nReader maxChunks).Invariant fun s => s.Inv nReader maxChunks := by
    refine TSys.Inductive.invariant ⟨?_, ?_⟩
    · rintro s ⟨hN, data, rfl⟩
      exact Queue.new_inv data hN
    · rintro s s' h (hstep | ⟨r, hr, hstep⟩)
      · exact Queue.writer_step h hstep
      · exact Queue.reader_step h hr hstep
  intro s hs
  exact (hinv s hs).sound

end MyOperator.Shm
