import MyOperator.Lib.TSys

/-!
# The broadcast queue in shared memory

`MessageQueue.acquire_write` and `MessageQueue.acquire_read` on a `ShmRingBuffer`: one
writer and `n_reader` readers share `max_chunks` chunks. The metadata of a chunk is the
written flag and a read flag for each reader. A step reads or writes one flag, or one byte
of a chunk; every process may take the next step.
-/

namespace MyOperator.Shm

open Lib

/-- Where the writer is in `acquire_write`. -/
inductive WriterPc
  | idle
  /-- `sum(metadata_buffer[1:])` over the first `i` read flags. -/
  | count (i readCount : Nat)
  /-- "found a block that is either (1) not written (2) read by all readers". -/
  | found
  /-- "let caller write to the buffer". -/
  | writing
  /-- "first set the read flags to 0": the first `i` of them. -/
  | reset (i : Nat)
  deriving DecidableEq, Repr

/-- Where a reader is in `acquire_read`. -/
inductive ReaderPc
  | idle
  /-- Before `read_flag` is read. -/
  | poll
  /-- Before `written_flag` is read. -/
  | check (readFlag : Bool)
  /-- "let caller read from the buffer": the bytes that it has read, with their positions. -/
  | reading (seen : List (Nat × UInt8))
  deriving DecidableEq, Repr

/-- What is in a chunk. -/
abbrev Content := Nat → UInt8

/-- The shared memory, the processes, and what was sent and received. -/
structure Queue where
  /-- `get_data`. -/
  data : Nat → Content
  /-- `metadata_buffer[0]`. -/
  written : Nat → Bool := fun _ => false
  /-- `metadata_buffer[1:]`. -/
  read : Nat → Nat → Bool := fun _ _ => false
  writer : WriterPc := .idle
  writerIdx : Nat := 0
  reader : Nat → ReaderPc := fun _ => .idle
  readerIdx : Nat → Nat := fun _ => 0
  /-- The messages that were enqueued. -/
  sent : List Content := []
  /-- For each reader the messages that it has read. -/
  got : Nat → List (List (Nat × UInt8)) := fun _ => []

namespace Queue

variable (s : Queue)

/-- `metadata_buffer[0] = flag` in the metadata of the chunk `c`. -/
def setWritten (c : Nat) (flag : Bool) : Queue :=
  { s with written := fun c' => if c' = c then flag else s.written c' }

/-- `metadata_buffer[r + 1] = flag` in the metadata of the chunk `c`. -/
def setRead (c r : Nat) (flag : Bool) : Queue :=
  { s with read := fun c' r' => if c' = c ∧ r' = r then flag else s.read c' r' }

/-- `buf[p] = b` in the chunk `c`. -/
def setByte (c p : Nat) (b : UInt8) : Queue :=
  { s with data := fun c' p' => if c' = c ∧ p' = p then b else s.data c' p' }

/-- The reader `r` is at `pc`. -/
def setReader (r : Nat) (pc : ReaderPc) : Queue :=
  { s with reader := fun r' => if r' = r then pc else s.reader r' }

/-- The writer has marked the block as written. -/
def enqueued (maxChunks : Nat) : Queue := { s with
    sent := s.sent ++ [s.data s.writerIdx]
    writerIdx := (s.writerIdx + 1) % maxChunks
    writer := .idle }

/-- The reader `r` has set its read flag. -/
def dequeued (maxChunks r : Nat) (seen : List (Nat × UInt8)) : Queue := { s with
    got := fun r' => if r' = r then s.got r ++ [seen] else s.got r'
    readerIdx := fun r' => if r' = r then (s.readerIdx r + 1) % maxChunks else s.readerIdx r'
    reader := fun r' => if r' = r then .idle else s.reader r' }

/-- A step of the writer. -/
inductive WriterStep (nReader maxChunks : Nat) (s : Queue) : Queue → Prop
  /-- `acquire_write` is called. -/
  | acquire (h : s.writer = .idle) : WriterStep nReader maxChunks s { s with writer := .count 0 0 }
  /-- `sum` reads the next flag. -/
  | count (i readCount : Nat) (h : s.writer = .count i readCount) (hi : i < nReader) :
      WriterStep nReader maxChunks s
        { s with writer := .count (i + 1) (readCount + (s.read s.writerIdx i).toNat) }
  /-- `written_flag` is read: "this block is written and not read by all readers". -/
  | wait (readCount : Nat) (h : s.writer = .count nReader readCount)
      (hw : s.written s.writerIdx = true) (hr : readCount ≠ nReader) :
      WriterStep nReader maxChunks s { s with writer := .count 0 0 }
  /-- "if we time out, raise an exception". -/
  | timeout (readCount : Nat) (h : s.writer = .count nReader readCount)
      (hw : s.written s.writerIdx = true) (hr : readCount ≠ nReader) :
      WriterStep nReader maxChunks s { s with writer := .idle }
  /-- `written_flag` is read, and the block can be written. -/
  | found (readCount : Nat) (h : s.writer = .count nReader readCount)
      (hw : ¬ (s.written s.writerIdx = true ∧ readCount ≠ nReader)) :
      WriterStep nReader maxChunks s { s with writer := .found }
  /-- "mark the block as not written". -/
  | unmark (h : s.writer = .found) :
      WriterStep nReader maxChunks s { s.setWritten s.writerIdx false with writer := .writing }
  /-- The caller writes a byte. -/
  | write (p : Nat) (b : UInt8) (h : s.writer = .writing) :
      WriterStep nReader maxChunks s (s.setByte s.writerIdx p b)
  /-- The caller raises. -/
  | raise (h : s.writer = .writing) : WriterStep nReader maxChunks s { s with writer := .idle }
  /-- "caller has written to the buffer". -/
  | release (h : s.writer = .writing) : WriterStep nReader maxChunks s { s with writer := .reset 0 }
  /-- "set read flag to 0, meaning it is not read yet". -/
  | reset (i : Nat) (h : s.writer = .reset i) (hi : i < nReader) :
      WriterStep nReader maxChunks s { s.setRead s.writerIdx i false with writer := .reset (i + 1) }
  /-- "mark the block as written". -/
  | mark (h : s.writer = .reset nReader) :
      WriterStep nReader maxChunks s ((s.setWritten s.writerIdx true).enqueued maxChunks)

/-- A step of the reader `r`. -/
inductive ReaderStep (maxChunks : Nat) (s : Queue) (r : Nat) : Queue → Prop
  /-- `acquire_read` is called. -/
  | acquire (h : s.reader r = .idle) : ReaderStep maxChunks s r (s.setReader r .poll)
  /-- `read_flag` is read. -/
  | poll (h : s.reader r = .poll) :
      ReaderStep maxChunks s r (s.setReader r (.check (s.read (s.readerIdx r) r)))
  /-- `written_flag` is read: "not written" or "already read by this reader". -/
  | wait (readFlag : Bool) (h : s.reader r = .check readFlag)
      (hw : s.written (s.readerIdx r) = false ∨ readFlag = true) :
      ReaderStep maxChunks s r (s.setReader r .poll)
  /-- The reader times out or is cancelled. -/
  | timeout (readFlag : Bool) (h : s.reader r = .check readFlag)
      (hw : s.written (s.readerIdx r) = false ∨ readFlag = true) :
      ReaderStep maxChunks s r (s.setReader r .idle)
  /-- "found a block that is not read by this reader". -/
  | found (h : s.reader r = .check false) (hw : s.written (s.readerIdx r) = true) :
      ReaderStep maxChunks s r (s.setReader r (.reading []))
  /-- The caller reads a byte. -/
  | look (p : Nat) (seen : List (Nat × UInt8)) (h : s.reader r = .reading seen) :
      ReaderStep maxChunks s r (s.setReader r (.reading (seen ++ [(p, s.data (s.readerIdx r) p)])))
  /-- The caller raises. -/
  | raise (seen : List (Nat × UInt8)) (h : s.reader r = .reading seen) :
      ReaderStep maxChunks s r (s.setReader r .idle)
  /-- "set the read flag". -/
  | mark (seen : List (Nat × UInt8)) (h : s.reader r = .reading seen) :
      ReaderStep maxChunks s r ((s.setRead (s.readerIdx r) r true).dequeued maxChunks r seen)

end Queue

/-- The runs of the writer and `nReader` readers on a new buffer. A shared memory has at least one
byte. -/
def broadcast (nReader maxChunks : Nat) : TSys Queue where
  init s := 0 < maxChunks ∧ ∃ data, s = { data }
  step s s' := s.WriterStep nReader maxChunks s' ∨ ∃ r < nReader, s.ReaderStep maxChunks r s'

end MyOperator.Shm
