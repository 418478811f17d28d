import MyOperator.Detok.Detokenizer
import MyOperator.Lib.TSys

/-!
# Streamed text

A request in delta mode: updates and calls of `get_next_output_text` in any order, a
reported stop string followed by the finished call only. A session with streaming
input, for which stop strings are refused, goes on after a finished call. What has
been streamed is always a part of the output text that no truncation reaches.
-/

namespace MyOperator.Detok

open Lib List

/-- Where a request is: `OutputProcessor` finishes it when a stop string is reported. -/
inductive Phase
  | running
  | stopped
  | finished
  deriving DecidableEq

/-- A request in delta mode, with the tokens decoded and the texts returned so far. -/
structure Stream where
  detok : BaseIncrementalDetokenizer
  decoded : List Token
  emitted : List Str
  phase : Phase

namespace Stream

/-- A new request. -/
def new (params : SamplingParams) : Stream where
  detok := .init params
  decoded := []
  emitted := []
  phase := .running

def update (s : Stream) (newTokens : List Token) (stopTerminated : Bool) : Stream where
  detok := (s.detok.update newTokens stopTerminated).2
  decoded := s.decoded ++ BaseIncrementalDetokenizer.decodedPart s.detok.includeStopStrInOutput
    newTokens stopTerminated
  emitted := s.emitted
  phase := if (s.detok.update newTokens stopTerminated).1.isSome then .stopped else .running

/-- `get_next_output_text` in delta mode. -/
def nextOutputText (s : Stream) (finished : Bool) : Stream where
  detok := (s.detok.getNextOutputText finished true).2
  decoded := s.decoded
  emitted := s.emitted ++ [(s.detok.getNextOutputText finished true).1]
  phase := if finished then .finished else s.phase

/-- The next chunk of a session with streaming input. -/
def resume (s : Stream) : Stream := { s with phase := .running }

end Stream

/-- The calls that the output processor makes. The request may finish at any time: by a stop
string, by a stop token or its length in the engine core, or by an abort. -/
inductive StreamStep : Stream → Stream → Prop
  | update {s : Stream} (newTokens : List Token) (stopTerminated : Bool) :
      s.phase = .running → StreamStep s (s.update newTokens stopTerminated)
  | next {s : Stream} : s.phase = .running → StreamStep s (s.nextOutputText false)
  | finish {s : Stream} : s.phase ≠ .finished → StreamStep s (s.nextOutputText true)
  | resume {s : Stream} : s.phase = .finished → s.detok.stop = [] → StreamStep s s.resume

/-- A request with the given parameters. -/
def streaming (params : SamplingParams) : TSys Stream where
  init s := s = .new params
  step := StreamStep

/-- What was streamed is the text up to the offset, and while the request runs, what may become
part of a stop string lies beyond it. -/
structure StreamInv (s : Stream) : Prop where
  stop_ne : ∀ p ∈ s.detok.stop, p ≠ []
  buffer : s.detok.includeStopStrInOutput = false →
    ∀ p ∈ s.detok.stop, p.length ≤ s.detok.stopBufferLength + 1
  offset_le : s.detok.lastOutputTextOffset ≤ s.detok.outputText.length
  held : s.phase = .running →
    s.detok.lastOutputTextOffset ≤ s.detok.outputText.length - s.detok.stopBufferLength
  emitted : s.emitted.flatten = s.detok.outputText.take s.detok.lastOutputTextOffset
  whole : s.phase = .running ∨ s.detok.stop = [] → s.detok.outputText = textOf s.decoded
  unbuffered : s.detok.stop = [] → s.detok.stopBufferLength = 0
  decoded : s.detok.outputText <+: textOf s.decoded
  finished : s.phase = .finished → s.detok.lastOutputTextOffset = s.detok.outputText.length

variable {params : SamplingParams} {s : Stream} {newTokens : List Token} {stopTerminated : Bool}

theorem streamInv_new : StreamInv (.new params) where
  stop_ne := params.stop_ne
  buffer := by
    intro hincl p hp
    have hmax : p.length ≤ (params.stop.toList.map List.length).foldl max 0 :=
      (max?_le_iff max?_cons').mp le_rfl _ (mem_cons_of_mem _ (mem_map_of_mem hp))
    show p.length ≤ ite _ _ _ + 1
    rw [if_pos ⟨ne_nil_of_mem hp, hincl⟩]
    omega
  offset_le := le_refl 0
  held := fun _ => Nat.zero_le _
  emitted := rfl
  whole := fun _ => rfl
  unbuffered := fun hnil => if_neg fun h => h.1 hnil
  decoded := nil_prefix
  finished := fun h => nomatch h

theorem offset_le_cut {d : BaseIncrementalDetokenizer} {text p : Str} {lo e : Nat}
    (hbuf : d.includeStopStrInOutput = false → p.length ≤ d.stopBufferLength + 1)
    (hheld : d.lastOutputTextOffset ≤ d.outputText.length - d.stopBufferLength)
    (hlo : d.outputText.length ≤ lo) (h : FirstEnd p text lo e) :
    d.lastOutputTextOffset ≤ cutAt d.includeStopStrInOutput p e := by
  have hafter := h.after
  cases hincl : d.includeStopStrInOutput with
  | true =>
    simp only [cutAt, if_true]
    omega
  | false =>
    have hlen := hbuf hincl
    simp only [cutAt, Bool.false_eq_true, if_false]
    omega

theorem streamInv_update (h : StreamInv s) (hrun : s.phase = .running) :
    StreamInv (s.update newTokens stopTerminated) := by
  have hout := @BaseIncrementalDetokenizer.update_outcome _ newTokens stopTerminated h.stop_ne
  have htext := h.whole (.inl hrun)
  have hheld := h.held hrun
  have hoff := h.offset_le
  unfold Stream.update
  generalize hr : s.detok.update newTokens stopTerminated = r at hout ⊢
  cases hout with
  | none hno =>
    exact {
      stop_ne := h.stop_ne
      buffer := h.buffer
      offset_le := by
        show _ ≤ (s.detok.outputText ++ _).length
        rw [length_append]
        exact hoff.trans (Nat.le_add_right _ _)
      held := fun _ => by
        show s.detok.lastOutputTextOffset ≤
          (s.detok.outputText ++ _).length - s.detok.stopBufferLength
        rw [length_append]
        omega
      emitted := h.emitted.trans (take_append_of_le_length hoff).symm
      whole := fun _ => by
        rw [textOf_append, ← htext]
        rfl
      unbuffered := h.unbuffered
      decoded := by
        rw [textOf_append, ← htext]
        exact prefix_refl _
      finished := fun hf => nomatch hf }
  | @some p e hlisted =>
    have hbuf := fun hincl => h.buffer hincl p hlisted.mem
    have hcut := offset_le_cut hbuf hheld BaseIncrementalDetokenizer.le_unsearched hlisted.first
    have hlen : s.detok.lastOutputTextOffset ≤
        (s.detok.extended newTokens stopTerminated).outputText.length := by
      show _ ≤ (s.detok.outputText ++ _).length
      rw [length_append]
      exact hoff.trans (Nat.le_add_right _ _)
    exact {
      stop_ne := h.stop_ne
      buffer := h.buffer
      offset_le := by
        show _ ≤ (List.take _ _).length
        rw [length_take]
        exact Nat.le_min.mpr ⟨hcut, hlen⟩
      held := fun hf => nomatch hf
      emitted := by
        show s.emitted.flatten = ((s.detok.outputText ++ _).take
          (cutAt s.detok.includeStopStrInOutput p e)).take s.detok.lastOutputTextOffset
        rw [take_take, min_eq_left hcut, take_append_of_le_length hoff]
        exact h.emitted
      whole := by
        rintro (hf | hnil)
        · cases hf
        · exact absurd hnil (ne_nil_of_mem hlisted.mem)
      unbuffered := h.unbuffered
      decoded := by
        rw [textOf_append, ← htext]
        exact take_prefix _ _
      finished := fun hf => nomatch hf }

/-- The length of the text that may be streamed. -/
def streamable (d : BaseIncrementalDetokenizer) (finished : Bool) : Nat :=
  d.outputText.length - if finished then 0 else d.stopBufferLength

theorem getNextOutputText_delta (d : BaseIncrementalDetokenizer) (finished : Bool) :
    d.getNextOutputText finished true =
      ((d.outputText.take (streamable d finished)).drop d.lastOutputTextOffset,
        { d with lastOutputTextOffset := max d.lastOutputTextOffset (streamable d finished) }) := by
  rw [BaseIncrementalDetokenizer.getNextOutputText]
  dsimp only
  rw [if_neg (Bool.noConfusion : ¬ (true = false)), ← streamable]
  generalize streamable d finished = length
  split_ifs with hlt
  · rw [max_eq_right hlt.le]
  · have hle := not_lt.mp hlt
    have hnil : (d.outputText.take length).drop d.lastOutputTextOffset = [] := by
      rw [drop_eq_nil_iff, length_take]
      omega
    rw [hnil, max_eq_left hle]

theorem take_append_drop_take (text : Str) (off length : Nat) :
    text.take off ++ (text.take length).drop off = text.take (max off length) := by
  rcases le_total off length with hle | hle
  · rw [max_eq_right hle]
    conv_rhs => rw [← take_append_drop off (text.take length), take_take, min_eq_left hle]
  · have hnil : (text.take length).drop off = [] := by
      rw [drop_eq_nil_iff, length_take]
      omega
    rw [hnil, append_nil, max_eq_left hle]

theorem streamInv_nextOutputText (h : StreamInv s) (finished : Bool)
    (hphase : finished = false → s.phase = .running) : StreamInv (s.nextOutputText finished) := by
  have hoff := h.offset_le
  unfold Stream.nextOutputText
  rw [getNextOutputText_delta]
  have hlen : streamable s.detok finished ≤ s.detok.outputText.length := Nat.sub_le _ _
  exact {
    stop_ne := h.stop_ne
    buffer := h.buffer
    offset_le := Nat.max_le.mpr ⟨hoff, hlen⟩
    held := by
      intro hrun
      cases finished with
      | true => cases hrun
      | false => exact Nat.max_le.mpr ⟨h.held (hphase rfl), Nat.le_refl _⟩
    emitted := by
      show (s.emitted ++ [_]).flatten = s.detok.outputText.take (max _ _)
      rw [flatten_append, h.emitted, flatten_singleton]
      exact take_append_drop_take _ _ _
    whole := by
      rintro (hrun | hnil)
      · cases finished with
        | true => cases hrun
        | false => exact h.whole (.inl (hphase rfl))
      · exact h.whole (.inr hnil)
    unbuffered := h.unbuffered
    decoded := h.decoded
    finished := by
      intro hf
      cases finished with
      | true => exact max_eq_right hoff
      | false =>
        have hrun := (hphase rfl).symm.trans hf
        cases hrun }

theorem streamInv_resume (h : StreamInv s) (hnil : s.detok.stop = []) : StreamInv s.resume where
  stop_ne := h.stop_ne
  buffer := h.buffer
  offset_le := h.offset_le
  held := fun _ => by
    show s.detok.lastOutputTextOffset ≤ s.detok.outputText.length - s.detok.stopBufferLength
    rw [h.unbuffered hnil]
    exact h.offset_le
  emitted := h.emitted
  whole := fun _ => h.whole (.inr hnil)
  unbuffered := h.unbuffered
  decoded := h.decoded
  finished := fun hf => nomatch hf

theorem streamInv_inductive (params : SamplingParams) :
    TSys.Inductive (streaming params) StreamInv where
  base := by
    rintro _ rfl
    exact streamInv_new
  step := by
    intro s t h hstep
    cases hstep with
    | update newTokens stopTerminated hrun => exact streamInv_update h hrun
    | next hrun => exact streamInv_nextOutputText h false fun _ => hrun
    | finish _ => exact streamInv_nextOutputText h true fun hf => nomatch hf
    | resume _ hnil => exact streamInv_resume h hnil

/-- In every run of a request in delta mode, what has been streamed is a prefix of the output
text, also after a truncation, and the output text is a prefix of the decoded text. With a
finished call all of the output text has been streamed. -/
theorem streaming_text (params : SamplingParams) : (streaming params).Invariant fun s =>
    s.emitted.flatten <+: s.detok.outputText ∧ s.detok.outputText <+: textOf s.decoded ∧
      (s.phase = .finished → s.emitted.flatten = s.detok.outputText) := by
  intro s hs
  have h := (streamInv_inductive params).invariant s hs
  refine ⟨?_, h.decoded, fun hf => ?_⟩
  · rw [h.emitted]
    exact take_prefix _ _
  · rw [h.emitted, h.finished hf, take_length]

end MyOperator.Detok
