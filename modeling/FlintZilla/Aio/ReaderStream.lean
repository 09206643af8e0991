import FlintZilla.Aio.Reader

/-!
# What the file reader delivers

What the consumer was given and what is ready make up the `stream`. While the worker runs it
consists of non-empty buffers with the part of the requested bytes read so far; when the worker has
returned it is the whole range, followed by one empty buffer.

Main results:

* `FileReader.step_cases`: what a step of the system without read errors can be.
* `ReaderInv.step`, `goodReaderSystem_inv`: the stream of every reachable state is as described.
-/

namespace FlintZilla

open Lib Lib.Ring NonowningBuffer FileReader List Nat

/-- The range starts at the offset. -/
theorem fileRange_eq_take (file : List UInt8) (offset maxSize : Nat) :
    fileRange file offset maxSize =
      (file.drop offset).take (fileRange file offset maxSize).length := by
  unfold fileRange
  split_ifs with hmax
  · rw [take_length]
  · rw [length_take, ← take_take, take_length]

/-- The range ends with the file or after the given number of bytes. -/
theorem length_fileRange (file : List UInt8) (offset maxSize : Nat) :
    (fileRange file offset maxSize).length =
      if maxSize ≠ nosize ∧ maxSize < file.length - offset then maxSize
      else file.length - offset := by
  unfold fileRange
  by_cases hmax : maxSize = nosize
  · rw [if_pos hmax, if_neg (by simp [hmax]), length_drop]
  · rw [if_neg hmax, length_take, length_drop]
    split_ifs with hlt
    · omega
    · omega

/-- Non-empty buffers, with an empty one behind them if the end was reached. -/
def Marked (ended : Prop) (bufs : List (List UInt8)) : Prop :=
  (ended → ∃ front, bufs = front ++ [[]] ∧ ∀ b ∈ front, b ≠ []) ∧ (¬ ended → ∀ b ∈ bufs, b ≠ [])

namespace FileReader

/-- The ready buffers the consumer was not given yet. -/
def unread (s : FileReader) : List NonowningBuffer :=
  (queue s.buffers s.readyPos s.readyCount).drop (if s.processing then 1 else 0)

def stream (s : FileReader) : List (List UInt8) :=
  s.received ++ s.unread.map fun b => b.content s.memory

/-- How many of the requested bytes have been read. -/
def consumed (s : FileReader) : Nat := s.requested.length - s.remaining

/-- Buffer `k` is the one behind the ready ones, and empty. -/
def Filling (s : FileReader) (k : Fin bufferCount) : Prop :=
  k = slot bufferCount s.readyPos s.readyCount ∧ s.readyCount < bufferCount ∧
    s.buffers k = ⟨k, 0, 0⟩

/-- The buffer behind the ready ones is cleared. -/
def cleared (s : FileReader) : FileReader :=
  let k := slot bufferCount s.readyPos s.readyCount
  { s with buffers := Function.update s.buffers k (s.buffers k).clear }

def WorkerOk (s : FileReader) : Prop :=
  match s.worker with
  | .none => False
  | .top => s.filePos = s.startOffset + s.consumed
  | .waiting => s.readyCount = bufferCount ∧ s.filePos = s.startOffset + s.consumed
  | .reading k toRead =>
    s.Filling k ∧ 0 < toRead ∧ toRead ≤ s.remaining ∧ s.filePos = s.startOffset + s.consumed
  | .filled k read => ∃ n, read = some n ∧ s.Filling k ∧ n ≤ s.remaining ∧
      (n = 0 → s.remaining = 0) ∧ s.filePos = s.startOffset + s.consumed + n ∧
      ((s.buffers k).add n).content s.memory = (s.file.drop (s.startOffset + s.consumed)).take n
  | .exited => s.remaining = 0

/-- The start and the length in effect once a pending `seek` has returned. -/
def target (s : FileReader) : Nat × Nat :=
  match s.pending with
  | some (offset, maxSize) =>
    if offset = nosize then (s.startOffset, s.maxSize) else (offset, maxSize)
  | none => (s.startOffset, s.maxSize)

end FileReader

/-- The state between two `seek`s. -/
structure Streaming (s : FileReader) : Prop where
  running : s.quit = false
  count_le : s.readyCount ≤ bufferCount
  held : s.processing = true → 0 < s.readyCount
  fresh : s.calledRead = false → s.received = []
  /-- The handler is not left waiting with a buffer ready. -/
  quiet : s.handlerWaiting = true → s.readyCount = 0
  bound : s.startOffset + s.requested.length ≤ s.file.length
  range : s.requested = (s.file.drop s.startOffset).take s.requested.length
  remaining_le : s.remaining ≤ s.requested.length
  worker : s.WorkerOk
  bytes : s.stream.flatten = s.requested.take s.consumed
  marked : Marked (s.worker = .exited) s.stream

structure ReaderInv (s : FileReader) : Prop where
  /-- A slot keeps the region it was allocated with. -/
  regions : ∀ i, (s.buffers i).region = i
  no_error : s.error = false
  target_le : s.target.1 ≤ s.file.length
  requested_eq : s.requested = fileRange s.file s.target.1 s.target.2
  void : s.pending ≠ none ∨ s.worker = .none → s.received = []
  unstarted : s.pending = none → s.worker = .none → s.readyCount = 0 ∧ s.processing = false
  stopping : s.pending ≠ none → s.worker ≠ .none → s.quit = true ∧ s.worker ≠ .waiting
  streaming : s.pending = none → s.worker ≠ .none → Streaming s

/-! ## Steps of the consumer -/

namespace Streaming

variable {s : FileReader} {n : Nat}

/-- The next `n` bytes of the range are at the position in the file. -/
theorem take_requested (h : Streaming s) (hn : n ≤ s.remaining) :
    s.requested.take s.consumed ++ (s.file.drop (s.startOffset + s.consumed)).take n =
      s.requested.take (s.consumed + n) := by
  have hle := h.remaining_le
  have hdrop : (s.requested.drop s.consumed).take n =
      (s.file.drop (s.startOffset + s.consumed)).take n := by
    rw [h.range, drop_take, drop_drop, take_take]
    refine congrArg (fun m => take m _) ?_
    unfold consumed
    omega
  rw [take_add, hdrop]

theorem ne_none (h : Streaming s) : s.worker ≠ .none := by
  intro hw
  have hok := h.worker
  rw [FileReader.WorkerOk, hw] at hok
  exact hok

/-- One worker that has not returned is exchanged for another one. -/
theorem marked_as (h : Streaming s) (hs : s.worker ≠ .exited) {w : ReaderWorker}
    (hw : w ≠ .exited) : Marked (w = .exited) s.stream :=
  ⟨fun hexit => absurd hexit hw, fun _ => h.marked.2 hs⟩

/-- The queue without its first buffer, seen from the next position. -/
theorem unread_of_processing (h : Streaming s) (hproc : s.processing) :
    s.unread = queue s.buffers ((s.readyPos + 1) % bufferCount) (s.readyCount - 1) := by
  rcases exists_eq_succ_of_ne_zero (ne_of_gt (h.held hproc)) with ⟨c, hc⟩
  unfold unread
  rw [if_pos hproc, hc, queue_succ]
  rfl

variable {k : Fin bufferCount}

/-- A worker that fills a buffer does not notice that the first ready buffer is given back. -/
theorem filling_release (hpos : 0 < s.readyCount) (hk : s.Filling k) :
    FileReader.Filling { s with
      readyPos := (s.readyPos + 1) % bufferCount, readyCount := s.readyCount - 1
      processing := false } k := by
  rcases hk with ⟨hk, hroom, hempty⟩
  refine ⟨?_, Nat.lt_of_le_of_lt (Nat.sub_le _ _) hroom, hempty⟩
  show k = slot bufferCount ((s.readyPos + 1) % bufferCount) (s.readyCount - 1)
  rw [slot_succ, Nat.sub_add_cancel hpos, hk]

/-- Giving back a buffer changes neither what was received nor what is unread. -/
theorem release (h : Streaming s) : Streaming { s.release with processing := false } := by
  by_cases hproc : s.processing = true
  · have hpos := h.held hproc
    have hle : s.readyCount - 1 ≤ bufferCount := le_trans (sub_le _ _) h.count_le
    have hquiet : s.handlerWaiting = true → s.readyCount - 1 = 0 := by
      intro hwait
      rw [h.quiet hwait]
    have hbytes := h.bytes
    have hmarked := h.marked
    rw [FileReader.stream, h.unread_of_processing hproc] at hbytes hmarked
    have hok := h.worker
    unfold FileReader.WorkerOk at hok
    unfold FileReader.release FileReader.signalCapacity
    rw [if_pos hproc]
    by_cases hwaiting : s.worker = .waiting
    · -- it waits because all buffers are ready, and is woken
      rw [hwaiting] at hok hmarked
      simp only [hok.1, hwaiting]
      rw [hok.1] at hle hquiet hbytes hmarked
      exact { h with
        count_le := hle, held := by simp, quiet := hquiet, worker := hok.2, bytes := hbytes
        marked := ⟨fun hw => (by cases hw), fun _ => hmarked.2 (by simp)⟩ }
    · -- a worker that does not wait is not woken
      have hsame : (if s.readyCount = bufferCount then
          { s with worker := if s.worker = .waiting then .top else s.worker } else s) = s := by
        rw [if_neg hwaiting, ite_self]
      simp only [hsame]
      refine { h with
        count_le := hle, held := by simp, quiet := hquiet, worker := ?_, bytes := hbytes
        marked := hmarked }
      cases hworker : s.worker with
      | none | top =>
        rw [hworker] at hok
        exact hok
      | waiting => exact absurd hworker hwaiting
      | reading k toRead =>
        rw [hworker] at hok
        rcases hok with ⟨hk, hrest⟩
        exact ⟨filling_release hpos hk, hrest⟩
      | filled k read =>
        rw [hworker] at hok
        rcases hok with ⟨n, hn, hk, hrest⟩
        exact ⟨n, hn, filling_release hpos hk, hrest⟩
      | exited =>
        rw [hworker] at hok
        exact hok
  · have hsame : ({ s.release with processing := false } : FileReader) = s := by
      have hfalse : s.processing = false := by simpa using hproc
      unfold FileReader.release
      rw [if_neg hproc, ← hfalse]
    rw [hsame]
    exact h

/-- Handing out the first ready buffer moves it from the unread ones to the received ones. -/
theorem take (h : Streaming s) (hproc : s.processing = false) (hcount : s.readyCount ≠ 0) :
    Streaming { s with
      calledRead := true, processing := true
      received :=
        s.received ++ [(s.buffers (slot bufferCount s.readyPos 0)).content s.memory] } := by
  rcases exists_eq_succ_of_ne_zero hcount with ⟨c, hc⟩
  have hstream : s.stream =
      s.received ++ [(s.buffers (slot bufferCount s.readyPos 0)).content s.memory] ++
        ((queue s.buffers s.readyPos s.readyCount).drop 1).map fun b => b.content s.memory := by
    rw [stream, unread, hproc, hc, queue_succ]
    simp
  have hbytes := h.bytes
  have hmarked := h.marked
  rw [hstream] at hbytes hmarked
  exact { h with
    held := fun _ => pos_of_ne_zero hcount, fresh := by simp, bytes := hbytes, marked := hmarked }

/-- A `read` gives back the buffer in hand and takes the next one if there is one. -/
theorem read (h : Streaming s) : Streaming s.read.2 := by
  unfold FileReader.read
  by_cases herror : s.error = true
  · rw [if_pos herror]
    exact h
  · have hrelease := h.release
    dsimp only
    split_ifs with hcount
    · exact hrelease.take rfl hcount
    · exact { hrelease with held := by simp, quiet := fun _ => not_not.mp hcount }

/-! ## Steps of the worker -/

theorem notifyHandler (h : Streaming { s with handlerWaiting := false }) :
    Streaming s.notifyHandler := by
  unfold FileReader.notifyHandler
  split_ifs with hwait
  · exact { h with }
  · have hfalse : s.handlerWaiting = false := by simpa using hwait
    rw [← hfalse] at h
    exact h

section

variable (h : Streaming s)

include h

/-- The bytes at the position are there. -/
theorem length_take_file (hn : n ≤ s.remaining) :
    ((s.file.drop (s.startOffset + s.consumed)).take n).length = n := by
  have hbound := h.bound
  have hle := h.remaining_le
  rw [length_take, length_drop]
  unfold consumed
  omega

/-- The buffer is made ready; after an empty one the worker returns. -/
theorem finishRead (hfilled : s.worker = .filled k (some n)) :
    Streaming (s.finishRead k (some n)) := by
  have hok := h.worker
  rw [FileReader.WorkerOk, hfilled] at hok
  rcases hok with ⟨m, hm, ⟨hk, hroom, -⟩, hn, hend, hpos, hcontent⟩
  cases hm
  have hdrop : (if s.processing then 1 else 0) ≤
      (queue s.buffers s.readyPos s.readyCount).length := by
    rw [length_queue]
    split_ifs with hproc
    · exact h.held hproc
    · exact zero_le _
  have hle := h.remaining_le
  have hconsumed : s.requested.length - (s.remaining - n) = s.consumed + n := by
    unfold consumed
    omega
  -- the filled buffer comes behind those that are ready
  have hstream : s.received ++
      ((queue (Function.update s.buffers k ((s.buffers k).add n)) s.readyPos
        (s.readyCount + 1)).drop
        (if s.processing then 1 else 0)).map (fun b => b.content s.memory) =
      s.stream ++ [(s.file.drop (s.startOffset + s.consumed)).take n] := by
    rw [← hcontent]
    nth_rewrite 1 [hk]
    rw [queue_push hroom, drop_append_of_le_length hdrop, map_append, ← append_assoc]
    rfl
  have hbytes : (s.stream ++ [(s.file.drop (s.startOffset + s.consumed)).take n]).flatten =
      s.requested.take (s.consumed + n) := by
    rw [flatten_append, h.bytes, ← h.take_requested hn]
    simp
  have hstreaming : Streaming { s with
      handlerWaiting := false
      buffers := Function.update s.buffers k ((s.buffers k).add n)
      readyCount := s.readyCount + 1
      remaining := s.remaining - n
      worker := if n = 0 then .exited else .top } := by
    refine { h with
      count_le := hroom, held := fun _ => succ_pos _, quiet := by simp
      remaining_le := le_trans (sub_le _ _) hle, worker := ?_, bytes := ?_, marked := ?_ }
    · by_cases hzero : n = 0
      · simp only [hzero]
        exact hend hzero
      · simp only [hzero]
        show s.filePos = s.startOffset + (s.requested.length - (s.remaining - n))
        omega
    · show (s.received ++ map _ (drop _ (queue _ _ _))).flatten =
        s.requested.take (s.requested.length - (s.remaining - n))
      rw [hstream, hbytes, hconsumed]
    · show Marked _ (s.received ++ map _ (drop _ (queue _ _ _)))
      rw [hstream]
      -- the worker has not returned, so there is no empty buffer yet
      have hold : ∀ b ∈ s.stream, b ≠ [] := h.marked.2 (by simp [hfilled])
      by_cases hzero : n = 0
      · simp only [hzero, if_true]
        exact ⟨fun _ => ⟨s.stream, by simp, hold⟩, fun hne => absurd trivial hne⟩
      · simp only [hzero]
        refine ⟨fun hexit => (by cases hexit), ?_⟩
        intro _ b hb
        rcases mem_append.mp hb with hb | hb
        · exact hold b hb
        · have hlen := h.length_take_file hn
          rw [mem_singleton.mp hb]
          intro hnil
          rw [hnil] at hlen
          exact hzero hlen.symm
  exact hstreaming.notifyHandler

/-- Clearing the buffer behind the ready ones does not touch them. -/
theorem cleared (hroom : s.readyCount < bufferCount) (hs : s.worker ≠ .exited)
    {w : ReaderWorker} (hw : w ≠ .exited) (hok : WorkerOk { s.cleared with worker := w }) :
    Streaming { s.cleared with worker := w } := by
  have hstream : FileReader.stream { s.cleared with worker := w } = s.stream := by
    unfold stream unread FileReader.cleared
    rw [queue_update_of_le hroom (le_refl _)]
  refine { h with worker := hok, bytes := ?_, marked := ?_ }
  · rw [hstream]
    exact h.bytes
  · rw [hstream]
    exact h.marked_as hs hw

/-- The worker claims the slot behind the ready buffers, returns at the end of the range, or
waits. -/
theorem turn (herror : s.error = false) (hregions : ∀ i, (s.buffers i).region = i)
    (htop : s.worker = .top) : Streaming s.turn := by
  have hok := h.worker
  rw [FileReader.WorkerOk, htop] at hok
  have hne : s.worker ≠ .exited := by simp [htop]
  unfold FileReader.turn
  rw [if_neg (by simp [h.running, herror])]
  by_cases hfull : bufferCount ≤ s.readyCount
  · -- all buffers are ready, and the worker waits
    rw [if_pos hfull]
    exact { h with
      worker := ⟨Nat.le_antisymm h.count_le hfull, hok⟩, marked := h.marked_as hne (by simp) }
  · rw [if_neg hfull]
    have hroom : s.readyCount < bufferCount := Nat.lt_of_not_le hfull
    have hfilling : s.cleared.Filling (slot bufferCount s.readyPos s.readyCount) :=
      ⟨rfl, hroom, by simp [FileReader.cleared, clear, hregions]⟩
    dsimp only
    generalize htoRead : (if s.remaining < bufferSize then s.remaining else bufferSize) = toRead
    have htoRead_le : toRead ≤ s.remaining := by
      rw [← htoRead]
      split_ifs with hlt
      · exact Nat.le_refl _
      · exact Nat.le_of_not_lt hlt
    by_cases hzero : toRead = 0
    · -- nothing is left: an empty buffer becomes ready, as if a read had returned 0
      rw [if_pos hzero]
      have hend : s.remaining = 0 := by
        rw [← htoRead] at hzero
        split_ifs at hzero with hlt
        · exact hzero
        · exact absurd hzero (by decide)
      have hcontent : ((s.cleared.buffers (slot bufferCount s.readyPos s.readyCount)).add 0).content
          s.memory = [] := by
        rw [hfilling.2.2]
        rfl
      have hvirtual := h.cleared hroom hne (w := .filled _ (some 0)) (by simp)
        ⟨0, rfl, hfilling, Nat.zero_le _, fun _ => hend, hok, hcontent⟩
      exact hvirtual.finishRead rfl
    · rw [if_neg hzero]
      exact h.cleared hroom hne (by simp) ⟨hfilling, Nat.pos_of_ne_zero hzero, htoRead_le, hok⟩

/-- What the system puts into the buffer of the worker is not seen by anybody else. -/
theorem readFile (hregions : ∀ i, (s.buffers i).region = i) {toRead : Nat}
    (hreading : s.worker = .reading k toRead) (hn : n ≤ toRead)
    (hzero : n = 0 → s.file.length ≤ s.filePos) : Streaming (s.readFile k n) := by
  have hok := h.worker
  rw [FileReader.WorkerOk, hreading] at hok
  rcases hok with ⟨⟨hk, hroom, hempty⟩, hpos, hrem, hfile⟩
  have hbound := h.bound
  have hle := h.remaining_le
  have hconsumed : s.consumed = s.requested.length - s.remaining := rfl
  have hlen := h.length_take_file (le_trans hn hrem)
  have hunread : s.unread.map (fun b => b.content (s.memory.append (s.buffers k)
      ((s.file.drop s.filePos).take n))) = s.unread.map fun b => b.content s.memory := by
    refine map_congr_left ?_
    intro b hb
    rcases mem_queue (mem_of_mem_drop hb) with ⟨l, hl, rfl⟩
    refine content_append_of_ne _ ?_
    rw [hregions, hregions, hk]
    exact slot_ne (by omega) hroom (by omega)
  have hstream : (s.readFile k n).stream = s.stream := congrArg (s.received ++ ·) hunread
  refine { h with
    worker := ⟨n, rfl, ⟨hk, hroom, hempty⟩, le_trans hn hrem, ?_, ?_, ?_⟩
    bytes := ?_, marked := ?_ }
  · omega
  · show s.filePos + n = _
    rw [hfile]
    rfl
  · show content (add (s.buffers k) n)
      (s.memory.append (s.buffers k) ((s.file.drop s.filePos).take n)) =
      (s.file.drop (s.startOffset + s.consumed)).take n
    have happend : ∀ bytes : List UInt8, bytes.length = n →
        ((s.buffers k).add n).content (s.memory.append (s.buffers k) bytes) = bytes := by
      rintro bytes rfl
      rw [content_append, hempty]
      rfl
    rw [hfile]
    exact happend _ hlen
  · rw [hstream]
    exact h.bytes
  · rw [hstream]
    exact h.marked_as (by simp [hreading]) (by simp [FileReader.readFile])

theorem wake (hwaiting : s.worker = .waiting) : Streaming { s with worker := .top } := by
  have hok := h.worker
  rw [FileReader.WorkerOk, hwaiting] at hok
  exact { h with worker := hok.2, marked := h.marked_as (by simp [hwaiting]) (by simp) }

end

end Streaming

/-! ## What no step but `seek` changes -/

/-- The same request on the same file, with every slot in its own region and the thread still
there. -/
structure SameRequest (s s' : FileReader) : Prop where
  file : s'.file = s.file
  requested : s'.requested = s.requested
  pending : s'.pending = s.pending
  startOffset : s'.startOffset = s.startOffset
  maxSize : s'.maxSize = s.maxSize
  error : s'.error = s.error
  regions : ∀ i, (s'.buffers i).region = (s.buffers i).region
  worker : s.worker ≠ .none → s'.worker ≠ .none

namespace SameRequest

variable {s : FileReader}

/-- The worker's own state is no part of the request. -/
theorem of_worker {w : ReaderWorker} (hw : w ≠ .none) : SameRequest s { s with worker := w } :=
  ⟨rfl, rfl, rfl, rfl, rfl, rfl, fun _ => rfl, fun _ => hw⟩

theorem release (s : FileReader) : SameRequest s s.release := by
  unfold FileReader.release FileReader.signalCapacity
  split_ifs with hproc hfull hwaiting
  · exact ⟨rfl, rfl, rfl, rfl, rfl, rfl, fun _ => rfl, fun _ => by simp⟩
  · exact ⟨rfl, rfl, rfl, rfl, rfl, rfl, fun _ => rfl, id⟩
  · exact ⟨rfl, rfl, rfl, rfl, rfl, rfl, fun _ => rfl, id⟩
  · exact ⟨rfl, rfl, rfl, rfl, rfl, rfl, fun _ => rfl, id⟩

theorem read (s : FileReader) : SameRequest s s.read.2 := by
  have h := release s
  unfold FileReader.read
  dsimp only
  split_ifs
  · exact ⟨rfl, rfl, rfl, rfl, rfl, rfl, fun _ => rfl, id⟩
  · exact { h with }
  · exact { h with }

theorem finishRead (s : FileReader) (k : Fin bufferCount) (n : Nat) :
    SameRequest s (s.finishRead k (some n)) := by
  have hworker : (if n = 0 then ReaderWorker.exited else .top) ≠ .none := by split_ifs <;> simp
  unfold FileReader.finishRead FileReader.notifyHandler
  dsimp only
  by_cases hwait : s.handlerWaiting = true
  · rw [if_pos hwait]
    exact ⟨rfl, rfl, rfl, rfl, rfl, rfl, region_update rfl, fun _ => hworker⟩
  · rw [if_neg hwait]
    exact ⟨rfl, rfl, rfl, rfl, rfl, rfl, region_update rfl, fun _ => hworker⟩

variable {s : FileReader}

theorem trans {t u : FileReader} (h : SameRequest s t) (h' : SameRequest t u) : SameRequest s u :=
  ⟨h'.file.trans h.file, h'.requested.trans h.requested, h'.pending.trans h.pending,
    h'.startOffset.trans h.startOffset, h'.maxSize.trans h.maxSize, h'.error.trans h.error,
    fun i => (h'.regions i).trans (h.regions i), h'.worker ∘ h.worker⟩

theorem turn (s : FileReader) : SameRequest s s.turn := by
  have hclear : SameRequest s s.cleared := ⟨rfl, rfl, rfl, rfl, rfl, rfl, region_update rfl, id⟩
  unfold FileReader.turn
  by_cases hstop : (s.quit || s.error) = true
  · rw [if_pos hstop]
    exact of_worker (by simp)
  rw [if_neg hstop]
  by_cases hfull : bufferCount ≤ s.readyCount
  · rw [if_pos hfull]
    exact of_worker (by simp)
  dsimp only
  generalize (if s.remaining < bufferSize then s.remaining else bufferSize) = toRead
  split_ifs
  · exact hclear.trans (finishRead _ _ 0)
  · exact hclear.trans (of_worker (by simp))

theorem readFile (s : FileReader) (k : Fin bufferCount) (n : Nat) :
    SameRequest s (s.readFile k n) :=
  ⟨rfl, rfl, rfl, rfl, rfl, rfl, fun _ => rfl, fun _ => by simp [FileReader.readFile]⟩

/-- Which range is meant does not depend on whether the seek is still pending. -/
theorem target_eq {s' : FileReader} (h : SameRequest s s') : s'.target = s.target := by
  unfold target
  rw [h.pending, h.startOffset, h.maxSize]

end SameRequest

/-! ## The system -/

/-- The steps of the good system, one constructor for each event with what enables it. -/
inductive GoodReaderStep (s : FileReader) : ReaderEvent → FileReader → Prop where
  | read (hp : s.pending = none) : GoodReaderStep s .read s.read.2
  | seek {offset maxSize : Nat} (hp : s.pending = none)
      (hoffset : offset = nosize ∨ offset ≤ s.file.length) :
      GoodReaderStep s (.seek offset maxSize) (s.seek offset maxSize)
  | restart {offset maxSize : Nat} (hp : s.pending = some (offset, maxSize)) :
      GoodReaderStep s (.restart .ok) (s.restart offset maxSize .ok)
  | turn (htop : s.worker = .top) : GoodReaderStep s .turn s.turn
  | readFile {k : Fin bufferCount} {toRead n : Nat} (hreading : s.worker = .reading k toRead)
      (hn : n ≤ toRead) (hzero : n = 0 → s.file.length ≤ s.filePos) :
      GoodReaderStep s (.readFile n) (s.readFile k n)
  | relock {k : Fin bufferCount} {read : Option Nat} (hfilled : s.worker = .filled k read) :
      GoodReaderStep s .relock (s.relock k read)
  | wake (hwaiting : s.worker = .waiting) : GoodReaderStep s .wake { s with worker := .top }

variable {s : FileReader}

/-- The steps of the source, with what they require of the state. -/
theorem FileReader.step_cases {s' : FileReader} {e : ReaderEvent} (hstep : s.step e = some s')
    (hadm : s.Admits e) : GoodReaderStep s e s' := by
  cases e <;> simp only [step, Option.ite_none_right_eq_some, Option.some.injEq] at hstep
  case read =>
    obtain ⟨hp, rfl⟩ := hstep
    exact .read (by simpa using hp)
  case seek offset maxSize =>
    obtain ⟨hp, rfl⟩ := hstep
    exact .seek (by simpa using hp) hadm
  case restart outcome =>
    cases hadm
    split at hstep
    · next offset maxSize hp =>
      split_ifs at hstep
      cases hstep
      exact .restart hp
    · cases hstep
  case turn =>
    obtain ⟨htop, rfl⟩ := hstep
    exact .turn htop
  case readFile n =>
    split at hstep
    · next k toRead hreading =>
      split_ifs at hstep with hn
      cases hstep
      exact .readFile hreading hn.1 hn.2.2
    · cases hstep
  case readFailed => exact absurd hadm id
  case relock =>
    split at hstep
    · next k read hfilled =>
      cases hstep
      exact .relock hfilled
    · cases hstep
  case wake =>
    obtain ⟨hwaiting, rfl⟩ := hstep
    exact .wake hwaiting

namespace ReaderInv

variable {s s' : FileReader}

/-- A reader that was opened has nothing to deliver yet. -/
theorem opened (file : List UInt8) (memory : AioMemory) : ReaderInv (.opened file memory) := by
  refine ⟨fun _ => rfl, rfl, zero_le _, ?_, fun _ => rfl, fun _ _ => ⟨rfl, rfl⟩, ?_, ?_⟩
  · simp [FileReader.opened, FileReader.target, fileRange]
  · intro hp
    exact absurd rfl hp
  · intro _ hw
    exact absurd rfl hw

variable (h : ReaderInv s)

include h

/-- What is known about the request goes on to be true. -/
theorem request (hsame : SameRequest s s') : (∀ i, (s'.buffers i).region = i) ∧ s'.error = false ∧
    s'.target.1 ≤ s'.file.length ∧ s'.requested = fileRange s'.file s'.target.1 s'.target.2 := by
  rw [hsame.target_eq, hsame.file, hsame.requested]
  exact ⟨fun i => (hsame.regions i).trans (h.regions i), hsame.error.trans h.no_error, h.target_le,
    h.requested_eq⟩

/-- A step of a streaming reader. -/
theorem of_streaming (hsame : SameRequest s s') (hp : s.pending = none) (hs : Streaming s') :
    ReaderInv s' := by
  have hp' : s'.pending = none := hsame.pending.trans hp
  obtain ⟨hregions, herror, hle, hrequested⟩ := h.request hsame
  refine ⟨hregions, herror, hle, hrequested, ?_, ?_, ?_, fun _ _ => hs⟩
  · rintro (hne | hw)
    · exact absurd hp' hne
    · exact absurd hw hs.ne_none
  · intro _ hw
    exact absurd hw hs.ne_none
  · intro hne
    exact absurd hp' hne

/-- A step of a worker that `seek` waits for. -/
theorem of_stopping (hsame : SameRequest s s') (hp : s.pending ≠ none)
    (hreceived : s'.received = s.received)
    (hstop : s'.worker ≠ .none → s'.quit = true ∧ s'.worker ≠ .waiting) : ReaderInv s' := by
  have hp' : s'.pending ≠ none := by
    rw [hsame.pending]
    exact hp
  obtain ⟨hregions, herror, hle, hrequested⟩ := h.request hsame
  refine ⟨hregions, herror, hle, hrequested, ?_, ?_, fun _ => hstop, ?_⟩
  · intro _
    rw [hreceived]
    exact h.void (.inl hp)
  · intro hnone
    exact absurd hnone hp'
  · intro hnone
    exact absurd hnone hp'

theorem read (hp : s.pending = none) : ReaderInv s.read.2 := by
  by_cases hw : s.worker = .none
  · -- no thread was started yet
    rcases h.unstarted hp hw with ⟨hcount, hproc⟩
    have hread : s.read.2 = { s with handlerWaiting := true, processing := false } := by
      simp [FileReader.read, FileReader.release, h.no_error, hproc, hcount]
    rw [hread]
    exact { h with
      unstarted := fun _ _ => ⟨hcount, rfl⟩, streaming := fun _ hne => absurd hw hne }
  · exact h.of_streaming (SameRequest.read s) hp (h.streaming hp hw).read

/-- A worker that is to seek returns at the top of its loop. -/
theorem turn_of_pending (hp : s.pending ≠ none) (htop : s.worker = .top) :
    s.turn = { s with worker := .exited } := by
  rcases h.stopping hp (by simp [htop]) with ⟨hquit, -⟩
  simp [turn, hquit]

theorem turn (htop : s.worker = .top) : ReaderInv s.turn := by
  have hne : s.worker ≠ .none := by simp [htop]
  by_cases hp : s.pending = none
  · exact h.of_streaming (SameRequest.turn s) hp
      ((h.streaming hp hne).turn h.no_error h.regions htop)
  · rw [h.turn_of_pending hp htop]
    exact h.of_stopping (SameRequest.of_worker (by simp)) hp rfl
      fun _ => ⟨(h.stopping hp hne).1, by simp⟩

variable {k : Fin bufferCount}

theorem readFile {toRead n : Nat} (hreading : s.worker = .reading k toRead)
    (hn : n ≤ toRead) (hzero : n = 0 → s.file.length ≤ s.filePos) : ReaderInv (s.readFile k n) := by
  have hne : s.worker ≠ .none := by simp [hreading]
  by_cases hp : s.pending = none
  · exact h.of_streaming (SameRequest.readFile s k n) hp
      ((h.streaming hp hne).readFile h.regions hreading hn hzero)
  · exact h.of_stopping (SameRequest.readFile s k n) hp rfl
      fun _ => ⟨(h.stopping hp hne).1, by simp [FileReader.readFile]⟩

variable {read : Option Nat}

/-- A streaming worker makes its buffer ready, one that is stopped returns. -/
theorem relock_cases (hfilled : s.worker = .filled k read) :
    (s.pending = none ∧ ∃ n, read = some n ∧ n ≤ s.remaining ∧
      s.relock k read = s.finishRead k (some n)) ∨
    (s.pending ≠ none ∧ s.relock k read = { s with worker := .exited }) := by
  have hne : s.worker ≠ .none := by simp [hfilled]
  by_cases hp : s.pending = none
  · have hs := h.streaming hp hne
    have hok := hs.worker
    rw [FileReader.WorkerOk, hfilled] at hok
    rcases hok with ⟨n, rfl, -, hn, -⟩
    exact .inl ⟨hp, n, rfl, hn, by simp [relock, hs.running]⟩
  · rcases h.stopping hp hne with ⟨hquit, -⟩
    exact .inr ⟨hp, by simp [relock, hquit]⟩

theorem relock (hfilled : s.worker = .filled k read) : ReaderInv (s.relock k read) := by
  have hne : s.worker ≠ .none := by simp [hfilled]
  rcases h.relock_cases hfilled with ⟨hp, n, rfl, -, hrelock⟩ | ⟨hp, hrelock⟩
  · rw [hrelock]
    exact h.of_streaming (SameRequest.finishRead s k n) hp ((h.streaming hp hne).finishRead hfilled)
  · rw [hrelock]
    exact h.of_stopping (SameRequest.of_worker (by simp)) hp rfl
      fun _ => ⟨(h.stopping hp hne).1, by simp⟩

theorem wake (hwaiting : s.worker = .waiting) : ReaderInv { s with worker := .top } := by
  have hne : s.worker ≠ .none := by simp [hwaiting]
  by_cases hp : s.pending = none
  · exact h.of_streaming (SameRequest.of_worker (by simp)) hp
      ((h.streaming hp hne).wake hwaiting)
  · exact absurd hwaiting (h.stopping hp hne).2

omit h

variable {offset maxSize : Nat}

/-- Without a change the reader already stands at the start of what is asked for. -/
theorem changes_eq_false (hchange : ¬ s.changes offset maxSize) :
    s.worker ≠ .none ∧ s.calledRead = false ∧
      (offset = nosize ∨ (offset = s.startOffset ∧ maxSize = s.maxSize)) := by
  unfold changes at hchange
  split_ifs at hchange with hw hcalled
  · exact absurd rfl hchange
  · exact absurd rfl hchange
  · refine ⟨hw, by simpa using hcalled, ?_⟩
    by_cases ho : offset = nosize
    · exact .inl ho
    · exact .inr (by simpa [ho] using hchange)

/-- A `seek` while the worker runs leaves a pending request, otherwise it starts anew. -/
theorem seek (h : ReaderInv s) (hp : s.pending = none)
    (hoffset : offset = nosize ∨ offset ≤ s.file.length) : ReaderInv (s.seek offset maxSize) := by
  have htarget : s.target = (s.startOffset, s.maxSize) := by simp [FileReader.target, hp]
  have hle := h.target_le
  have hrequested := h.requested_eq
  rw [htarget] at hle hrequested
  unfold FileReader.seek
  rw [if_neg (by simp [h.no_error])]
  by_cases hchange : s.changes offset maxSize = true
  · rw [if_pos hchange]
    unfold FileReader.signalCapacity
    refine ⟨h.regions, h.no_error, ?_, ?_, fun _ => rfl, ?_, ?_, ?_⟩
    · simp only [FileReader.target]
      split_ifs with ho
      · exact hle
      · exact hoffset.resolve_left ho
    · simp only [FileReader.target]
      split_ifs with ho
      · exact hrequested
      · rfl
    · intro hnone
      cases hnone
    · intro _ hw
      dsimp only at hw ⊢
      split_ifs at hw ⊢ with hwaiting
      · simp [hwaiting]
      · simp [hw, hwaiting]
    · intro hnone
      cases hnone
  · rw [if_neg hchange]
    rcases changes_eq_false hchange with ⟨-, -, hsame⟩
    have hrange : (if offset = nosize then s.requested else fileRange s.file offset maxSize) =
        s.requested := by
      split_ifs with ho
      · rfl
      · rcases hsame.resolve_left ho with ⟨rfl, rfl⟩
        exact hrequested.symm
    rw [hrange]
    exact h

/-- With an admissible offset the worker is started on the requested range. -/
theorem restart_eq (h : ReaderInv s) (hp : s.pending = some (offset, maxSize)) :
    s.restart offset maxSize .ok = { s with
      readyCount := 0, readyPos := 0, processing := false, quit := false, handlerWaiting := false
      calledRead := false, pending := none
      events := if s.worker = .none then s.events else 0
      startOffset := s.target.1, maxSize := s.target.2, filePos := s.target.1
      size := s.requested.length, remaining := s.requested.length, worker := .top } := by
  have hstart : (if offset = nosize then s.startOffset else offset) = s.target.1 := by
    simp only [target, hp]
    split_ifs <;> rfl
  have hmax : (if offset = nosize then s.maxSize else maxSize) = s.target.2 := by
    simp only [target, hp]
    split_ifs <;> rfl
  have hlength := length_fileRange s.file s.target.1 s.target.2
  rw [← h.requested_eq] at hlength
  unfold restart reset
  simp only [hstart, hmax]
  rw [if_neg (by simp), if_neg (not_lt.mpr h.target_le), if_neg (by simp), ← hlength]

/-- The requested range lies within the file. -/
theorem length_requested_le (h : ReaderInv s) :
    s.target.1 + s.requested.length ≤ s.file.length := by
  have hle := h.target_le
  have hlength := length_fileRange s.file s.target.1 s.target.2
  rw [← h.requested_eq] at hlength
  rw [hlength]
  split_ifs with hmost <;> omega

/-- The thread that takes up a pending seek starts with an empty ring. -/
theorem restart (h : ReaderInv s) (hp : s.pending = some (offset, maxSize)) :
    ReaderInv (s.restart offset maxSize .ok) := by
  have hreceived : s.received = [] := h.void (.inl (by simp [hp]))
  have hrange : s.requested = (s.file.drop s.target.1).take s.requested.length := by
    nth_rewrite 1 [h.requested_eq]
    rw [fileRange_eq_take, ← h.requested_eq]
  rw [h.restart_eq hp]
  refine ⟨h.regions, h.no_error, h.target_le, h.requested_eq, fun _ => hreceived, ?_, ?_, ?_⟩
  · intro _ hw
    cases hw
  · intro hne
    exact absurd rfl hne
  · intro _ _
    refine ⟨rfl, zero_le _, by simp, fun _ => hreceived, by simp, h.length_requested_le, hrange,
      le_refl _, ?_, ?_, ?_⟩
    · simp [FileReader.WorkerOk, consumed]
    · simp [stream, unread, consumed, hreceived]
    · simp [stream, unread, hreceived, Marked]

/-- Every step of the system keeps the invariant. -/
theorem step (h : ReaderInv s) {e : ReaderEvent} (hstep : GoodReaderStep s e s') :
    ReaderInv s' := by
  cases hstep with
  | read hp => exact h.read hp
  | seek hp hoffset => exact h.seek hp hoffset
  | restart hp => exact h.restart hp
  | turn htop => exact h.turn htop
  | readFile hreading hn hzero => exact h.readFile hreading hn hzero
  | relock hfilled => exact h.relock hfilled
  | wake hwaiting => exact h.wake hwaiting

end ReaderInv

/-- The invariant holds whatever consumer and worker do. -/
theorem goodReaderSystem_inv (h : goodReaderSystem.Reach s) : ReaderInv s := by
  refine Lts.Reach.invariant ReaderInv ?_ ?_ h
  · rintro s ⟨file, memory, rfl⟩
    exact ReaderInv.opened file memory
  · rintro s e s' ⟨hstep, hadm⟩ hs
    exact hs.step (step_cases hstep hadm)

end FlintZilla
