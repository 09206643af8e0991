import FlintZilla.Aio.Buffers
import FlintZilla.Lib.Lts

/-!
# The file reader

`reader_base` and `file_reader` of `engine/reader.cpp`. The worker thread fills the buffers behind
the ready ones from the file, the consumer takes the first ready one. As for the writer, everything
between two operations on the mutex is one step. `seek` joins the worker in the middle, so it is two
steps: the call, and what it does when the worker has returned.
-/

namespace FlintZilla

open Lib Lib.Ring

/-- `aio_base::nosize`. -/
def nosize : Nat := 2 ^ 64 - 1

/-- Where the worker thread stands. -/
inductive ReaderWorker where
  /-- `thread_` is not set. -/
  | none
  /-- About to test the loop condition. -/
  | top
  /-- In `cond_.wait`. -/
  | waiting
  /-- In `file_.read`, without the mutex. -/
  | reading (k : Fin bufferCount) (toRead : Nat)
  /-- `file_.read` returned that many bytes, `none` for a failure. -/
  | filled (k : Fin bufferCount) (read : Option Nat)
  | exited
deriving DecidableEq

/-- How the calls on the file and on the thread pool end when `seek` restarts the worker. -/
inductive SeekOutcome where
  | ok
  | seekFailed
  | sizeFailed
  | spawnFailed
deriving DecidableEq

/-- The file and its position, the members of `file_reader`, the worker, the arguments of a `seek`
that waits for the worker, the content of the buffers the consumer was given since the last `seek`
and the bytes that `seek` asked for. -/
structure FileReader where
  file : List UInt8
  filePos : Nat
  memory : AioMemory
  buffers : Fin bufferCount → NonowningBuffer
  readyPos : Nat
  readyCount : Nat
  processing : Bool
  quit : Bool
  error : Bool
  handlerWaiting : Bool
  startOffset : Nat
  maxSize : Nat
  size : Nat
  remaining : Nat
  calledRead : Bool
  worker : ReaderWorker
  /-- The number of `read_ready_event`s that are queued. -/
  events : Nat
  pending : Option (Nat × Nat)
  received : List (List UInt8)
  requested : List UInt8

/-- The bytes from `offset` on, at most `maxSize` of them. -/
def fileRange (file : List UInt8) (offset maxSize : Nat) : List UInt8 :=
  if maxSize = nosize then file.drop offset else (file.drop offset).take maxSize

namespace FileReader

/-- A reader before the `seek` of `file_reader::open`. -/
def opened (file : List UInt8) (memory : AioMemory) : FileReader where
  file := file
  filePos := 0
  memory := memory
  buffers := fun i => ⟨i, 0, 0⟩
  readyPos := 0
  readyCount := 0
  processing := false
  quit := false
  error := false
  handlerWaiting := false
  startOffset := 0
  maxSize := nosize
  size := nosize
  remaining := 0
  calledRead := false
  worker := .none
  events := 0
  pending := .none
  received := []
  requested := file

/-! ## The consumer -/

/-- `cond_.signal`: a waiting worker wakes. -/
def signalCapacity (s : FileReader) : FileReader :=
  { s with worker := if s.worker = .waiting then .top else s.worker }

/-- `if (processing_)`: give back the buffer handed out last. -/
def release (s : FileReader) : FileReader :=
  if s.processing then
    let s := if s.readyCount = bufferCount then s.signalCapacity else s
    { s with readyPos := (s.readyPos + 1) % bufferCount, readyCount := s.readyCount - 1 }
  else s

/-- `reader_base::read`. -/
def read (s : FileReader) : (AioResult × Option NonowningBuffer) × FileReader :=
  if s.error then ((.error, .none), s)
  else
    let s := s.release
    if s.readyCount ≠ 0 then
      let b := s.buffers (slot bufferCount s.readyPos 0)
      ((.ok, some b), { s with
        calledRead := true, processing := true, received := s.received ++ [b.content s.memory] })
    else ((.wait, .none), { s with handlerWaiting := true, processing := false })

/-- `bool change` of `seek`. -/
def changes (s : FileReader) (offset maxSize : Nat) : Bool :=
  if s.worker = .none then true
  else if s.calledRead then true
  else offset != nosize && (offset != s.startOffset || maxSize != s.maxSize)

/-- `file_reader::seek` up to `thread_.join`. -/
def seek (s : FileReader) (offset maxSize : Nat) : FileReader :=
  if s.error then s
  else
    let s' := { s with
      requested := if offset = nosize then s.requested else fileRange s.file offset maxSize }
    if s.changes offset maxSize then
      -- the buffers handed out before are void
      { s'.signalCapacity with
        quit := s.quit || (s.worker != .none), pending := some (offset, maxSize), received := [] }
    else s'

/-- The reset of the members after `thread_.join`. -/
def reset (s : FileReader) (offset maxSize : Nat) : FileReader :=
  { s with
    readyCount := 0, readyPos := 0, processing := false, quit := false, handlerWaiting := false
    calledRead := false, worker := .none, pending := .none
    events := if s.worker = .none then s.events else 0
    startOffset := if offset = nosize then s.startOffset else offset
    maxSize := if offset = nosize then s.maxSize else maxSize }

/-- The rest of `file_reader::seek`. -/
def restart (s : FileReader) (offset maxSize : Nat) (outcome : SeekOutcome) : FileReader :=
  let s := s.reset offset maxSize
  if outcome = .seekFailed ∨ outcome = .sizeFailed then { s with error := true }
  else if s.file.length < s.startOffset then { s with error := true }
  else
    let size := s.file.length - s.startOffset
    let size := if s.maxSize ≠ nosize ∧ s.maxSize < size then s.maxSize else size
    let s := { s with size := size, remaining := size, filePos := s.startOffset }
    if outcome = .spawnFailed then { s with error := true } else { s with worker := .top }

/-! ## The worker -/

/-- Tell a waiting handler. -/
def notifyHandler (s : FileReader) : FileReader :=
  if s.handlerWaiting then { s with handlerWaiting := false, events := s.events + 1 } else s

/-- The end of the loop body of `entry`, from `if (read >= 0)` on. -/
def finishRead (s : FileReader) (k : Fin bufferCount) : Option Nat → FileReader
  | .none => notifyHandler { s with error := true, worker := .exited }
  | some n => notifyHandler { s with
      buffers := Function.update s.buffers k ((s.buffers k).add n)
      readyCount := s.readyCount + 1
      remaining := s.remaining - n
      worker := if n = 0 then .exited else .top }

/-- The loop of `entry` up to the point where the mutex is given up. -/
def turn (s : FileReader) : FileReader :=
  if s.quit || s.error then { s with worker := .exited }
  else if bufferCount ≤ s.readyCount then { s with worker := .waiting }
  else
    let k := slot bufferCount s.readyPos s.readyCount
    let s := { s with buffers := Function.update s.buffers k (s.buffers k).clear }
    let toRead := if s.remaining < bufferSize then s.remaining else bufferSize
    -- at the end an empty buffer is made ready without a read
    if toRead = 0 then s.finishRead k (some 0) else { s with worker := .reading k toRead }

/-- `file_.read` puts `n` bytes into buffer `k`. -/
def readFile (s : FileReader) (k : Fin bufferCount) (n : Nat) : FileReader :=
  { s with
    memory := s.memory.append (s.buffers k) ((s.file.drop s.filePos).take n)
    filePos := s.filePos + n
    worker := .filled k (some n) }

/-- The worker takes the mutex again. -/
def relock (s : FileReader) (k : Fin bufferCount) (read : Option Nat) : FileReader :=
  if s.quit then { s with worker := .exited } else s.finishRead k read

end FileReader

/-! ## The system -/

inductive ReaderEvent where
  | read
  | seek (offset maxSize : Nat)
  | restart (outcome : SeekOutcome)
  | turn
  | readFile (n : Nat)
  | readFailed
  | relock
  /-- A wakeup without a signal. -/
  | wake
deriving DecidableEq

/-- The system returns no bytes from a file only at its end. -/
def FileReader.step (s : FileReader) : ReaderEvent → Option FileReader
  | .read => if s.pending.isNone then some s.read.2 else none
  | .seek offset maxSize => if s.pending.isNone then some (s.seek offset maxSize) else none
  | .restart outcome =>
    match s.pending with
    | some (offset, maxSize) =>
      if s.worker = .none ∨ s.worker = .exited then some (s.restart offset maxSize outcome)
      else none
    | none => none
  | .turn => if s.worker = .top then some s.turn else none
  | .readFile n =>
    match s.worker with
    | .reading k toRead =>
      if n ≤ toRead ∧ s.filePos + n ≤ s.file.length ∧ (n = 0 → s.file.length ≤ s.filePos) then
        some (s.readFile k n)
      else none
    | _ => none
  | .readFailed =>
    match s.worker with
    | .reading k _ => some { s with worker := .filled k .none }
    | _ => none
  | .relock =>
    match s.worker with
    | .filled k read => some (s.relock k read)
    | _ => none
  | .wake => if s.worker = .waiting then some { s with worker := .top } else none

/-- Every interleaving of the consumer with the worker. -/
def readerSystem : Lts FileReader ReaderEvent :=
  Lts.ofFun (fun s => ∃ file memory, s = FileReader.opened file memory) FileReader.step

/-- Nothing fails, and `seek` is not asked for an offset behind the end of the file. -/
def FileReader.Admits (s : FileReader) : ReaderEvent → Prop
  | .seek offset _ => offset = nosize ∨ offset ≤ s.file.length
  | .restart outcome => outcome = .ok
  | .readFailed => False
  | _ => True

instance FileReader.decidableAdmits (s : FileReader) (e : ReaderEvent) :
    Decidable (s.Admits e) := by
  unfold FileReader.Admits
  split <;> infer_instance

def goodReaderSystem : Lts FileReader ReaderEvent := readerSystem.restrict FileReader.Admits

/-! ## Who takes a step -/

def ReaderEvent.IsConsumer : ReaderEvent → Prop
  | .read | .restart _ => True
  | _ => False

def ReaderEvent.IsWorker : ReaderEvent → Prop
  | .turn | .readFile _ | .relock => True
  | _ => False

/-- The consumer has something to do unless it waits for an event or for the worker to return. -/
def FileReader.ConsumerReady (s : FileReader) : Prop :=
  (s.pending = none ∧ s.handlerWaiting = false) ∨
    (s.pending ≠ none ∧ (s.worker = .none ∨ s.worker = .exited))

/-- The worker is blocked in `cond_.wait` only. -/
def FileReader.WorkerReady (s : FileReader) : Prop :=
  s.worker ≠ .none ∧ s.worker ≠ .waiting ∧ s.worker ≠ .exited

end FlintZilla
