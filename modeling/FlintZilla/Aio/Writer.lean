import FlintZilla.Aio.Buffers
import FlintZilla.Lib.Lts

/-!
# The file writer

`writer_base` and `file_writer` of `engine/writer.cpp`. The producer passes its buffer by reference
to `get_write_buffer`, `retire` and `finalize` and fills the one it gets back; the worker thread
writes the ready buffers to the file. Everything between two operations on the mutex is one step.
The worker gives the mutex up while it writes, so a write takes three steps: the loop reaches it,
the system writes some bytes, the worker takes the mutex again.
-/

namespace FlintZilla

open Lib Lib.Ring

/-- Where the worker thread stands. -/
inductive WriterWorker where
  /-- About to test the loop condition. -/
  | top
  /-- In `cond_.wait`. -/
  | waiting
  /-- In `file_.write`, without the mutex. -/
  | writing
  /-- `file_.write` returned that many bytes; zero stands for every failure. -/
  | written (n : Nat)
  | exited
deriving DecidableEq

/-- The members of `file_writer`, the worker, the buffer variable of the producer (`none` after
`reset`), the bytes in the file since it was opened and all bytes the producer has put into
buffers. -/
structure FileWriter where
  memory : AioMemory
  buffers : Fin bufferCount → NonowningBuffer
  readyPos : Nat
  readyCount : Nat
  processing : Bool
  quit : Bool
  error : Bool
  handlerWaiting : Bool
  finalized : Bool
  worker : WriterWorker
  /-- The number of `write_ready_event`s sent. -/
  events : Nat
  lastWritten : Option NonowningBuffer
  file : List UInt8
  produced : List UInt8

namespace FileWriter

/-- `file_writer::open` after the file was opened; the memory is not initialised. -/
def opened (memory : AioMemory) : FileWriter where
  memory := memory
  buffers := fun i => ⟨i, 0, 0⟩
  readyPos := 0
  readyCount := 0
  processing := false
  quit := false
  error := false
  handlerWaiting := false
  finalized := false
  worker := .top
  events := 0
  lastWritten := none
  file := []
  produced := []

/-- `last_written.operator bool`. -/
def hasLastWritten (s : FileWriter) : Bool := s.lastWritten.any fun b => b.size != 0

/-! ## The producer -/

/-- `cond_.signal`: a waiting worker wakes. -/
def signalCapacity (s : FileWriter) : FileWriter :=
  { s with worker := if s.worker = .waiting then .top else s.worker }

/-- Hand the buffer `b` to the worker. -/
def pushReady (s : FileWriter) (b : NonowningBuffer) : FileWriter :=
  let signal := s.readyCount = 0
  let s := { s with
    buffers := Function.update s.buffers (slot bufferCount s.readyPos s.readyCount) b
    readyCount := s.readyCount + 1 }
  if signal then s.signalCapacity else s

/-- `if (processing_ && last_written)` and the reset of `last_written` behind it. -/
def pushLastWritten (s : FileWriter) : FileWriter :=
  match s.lastWritten with
  | none => s
  | some b =>
    let s := if s.processing && s.hasLastWritten then s.pushReady b else s
    { s with lastWritten := none }

/-- `writer_base::get_write_buffer`; the buffer it returns becomes the producer's. -/
def getWriteBuffer (s : FileWriter) : AioResult × FileWriter :=
  if s.error then (.error, s)
  else
    let s := s.pushLastWritten
    if bufferCount ≤ s.readyCount then
      (.wait, { s with handlerWaiting := true, processing := false })
    else
      let b := s.buffers (slot bufferCount s.readyPos s.readyCount)
      (.ok, { s with processing := true, lastWritten := some b.clear })

/-- `writer_base::retire`. -/
def retire (s : FileWriter) : AioResult × FileWriter :=
  if s.error then (.error, s)
  else if !s.processing then (if s.hasLastWritten then .error else .ok, s)
  else (.ok, { s.pushLastWritten with processing := false })

/-- `writer_base::finalize`; `synced` is the success of `continue_finalize`. -/
def finalize (s : FileWriter) (synced : Bool) : AioResult × FileWriter :=
  if s.error then (.error, s)
  else if s.finalized then (.ok, s)
  else
    -- an empty buffer stays with the producer
    let s := if s.processing && s.hasLastWritten then { s.pushLastWritten with processing := false }
      else s
    if s.readyCount ≠ 0 then (.wait, { s with handlerWaiting := true })
    else if synced then (.ok, { s with finalized := true })
    else (.error, { s with error := true })

/-- The producer puts bytes behind the content of its buffer. -/
def fill (s : FileWriter) (bytes : List UInt8) : Option FileWriter :=
  match s.lastWritten with
  | none => none
  | some b =>
    if bufferSize < b.start + b.size + bytes.length then none
    else some { s with
      memory := s.memory.append b bytes
      lastWritten := some (b.add bytes.length)
      produced := s.produced ++ bytes }

/-! ## The worker -/

/-- Tell a waiting handler. -/
def notifyHandler (s : FileWriter) : FileWriter :=
  if s.handlerWaiting then { s with handlerWaiting := false, events := s.events + 1 } else s

/-- The end of the loop body of `entry`, behind the inner loop. -/
def retireFront (s : FileWriter) : FileWriter :=
  notifyHandler { s with
    readyPos := (s.readyPos + 1) % bufferCount, readyCount := s.readyCount - 1, worker := .top }

/-- The loop of `entry` up to the point where the mutex is given up. -/
def turn (s : FileWriter) : FileWriter :=
  if s.quit || s.error then { s with worker := .exited }
  else if s.readyCount = 0 then
    if s.handlerWaiting then { s.notifyHandler with worker := .exited }
    else { s with worker := .waiting }
  else if (s.buffers (slot bufferCount s.readyPos 0)).size = 0 then s.retireFront
  else { s with worker := .writing }

/-- `file_.write` takes the first `n` bytes of the front buffer as they are in memory. -/
def write (s : FileWriter) (n : Nat) : FileWriter :=
  let b := s.buffers (slot bufferCount s.readyPos 0)
  { s with worker := .written n, file := s.file ++ (b.content s.memory).take n }

/-- The inner loop after a write that returned `n`. -/
def relock (s : FileWriter) (n : Nat) : FileWriter :=
  let b := s.buffers (slot bufferCount s.readyPos 0)
  if s.quit then { s with worker := .exited }
  else if n = 0 then retireFront { s with error := true }
  else
    let s := { s with
      buffers := Function.update s.buffers (slot bufferCount s.readyPos 0) (b.consume n) }
    if b.size - n = 0 then s.retireFront else { s with worker := .writing }

end FileWriter

/-! ## The system -/

inductive WriterEvent where
  | getWriteBuffer
  | retire
  | finalize (synced : Bool)
  | fill (bytes : List UInt8)
  | turn
  | write (n : Nat)
  | relock
  /-- A wakeup without a signal. -/
  | wake
  /-- The first part of `close`. -/
  | close
deriving DecidableEq

def FileWriter.step (s : FileWriter) : WriterEvent → Option FileWriter
  | .getWriteBuffer => some s.getWriteBuffer.2
  | .retire => some s.retire.2
  | .finalize synced => some (s.finalize synced).2
  | .fill bytes => s.fill bytes
  | .turn => if s.worker = .top then some s.turn else none
  | .write n =>
    if s.worker = .writing ∧ n ≤ (s.buffers (slot bufferCount s.readyPos 0)).size then
      some (s.write n)
    else none
  | .relock =>
    match s.worker with
    | .written n => some (s.relock n)
    | _ => none
  | .wake => if s.worker = .waiting then some { s with worker := .top } else none
  | .close => some { s with quit := true }.signalCapacity

/-- Every interleaving of the producer with the worker. -/
def writerSystem : Lts FileWriter WriterEvent :=
  Lts.ofFun (fun s => ∃ memory, s = FileWriter.opened memory) FileWriter.step

/-- No write fails and the writer is not closed. -/
def WriterEvent.Undisturbed : WriterEvent → Prop
  | .write n => 0 < n
  | .close => False
  | _ => True

/-- The runs in which every write makes progress. -/
def goodWriterSystem : Lts FileWriter WriterEvent :=
  writerSystem.restrict fun _ e => e.Undisturbed

/-- The producer fills no buffer after `finalize` has succeeded. -/
def FileWriter.Admits (s : FileWriter) : WriterEvent → Prop
  | .fill _ => s.finalized = false
  | e => e.Undisturbed

def closingWriterSystem : Lts FileWriter WriterEvent :=
  writerSystem.restrict FileWriter.Admits

theorem FileWriter.Admits.undisturbed {s : FileWriter} {e : WriterEvent} (h : s.Admits e) :
    e.Undisturbed := by
  cases e with
  | fill bytes => trivial
  | _ => exact h

instance WriterEvent.decidableUndisturbed (e : WriterEvent) : Decidable e.Undisturbed := by
  unfold WriterEvent.Undisturbed
  split <;> infer_instance

instance FileWriter.decidableAdmits (s : FileWriter) (e : WriterEvent) :
    Decidable (s.Admits e) := by
  unfold FileWriter.Admits
  split <;> infer_instance

end FlintZilla
