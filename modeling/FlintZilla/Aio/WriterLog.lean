import FlintZilla.Aio.Writer

/-!
# What the file writer writes

The ring, the worker and the producer's buffer partition the bytes the producer has put into
buffers: what is in the file, what is ready, and what the producer still holds. `WriterInv` states
this with the ownership of the regions; each step of the system keeps it.

Main results:

* `WriterInv.step`, `goodWriterSystem_inv`: the bytes of the producer are in the file, ready, or
  held, in this order, in every reachable state.
* `fileWriter_writes_all`: after a successful `finalize` the file is what the producer wrote.
* `fileWriter_file_begins`: before that, the file is a beginning of it.
-/

namespace FlintZilla

open Lib Lib.Ring NonowningBuffer FileWriter List

/-- How many bytes of the front buffer the system has written already. -/
def WriterWorker.inFlight : WriterWorker → Nat
  | .written n => n
  | _ => 0

/-- Where the worker can be, given the number of ready buffers and the size of the first. -/
def WriterWorker.Ok (count size : Nat) (error : Bool) : WriterWorker → Prop
  | .top => True
  | .waiting => count = 0
  | .writing => 0 < count
  | .written n => 0 < count ∧ 0 < n ∧ n ≤ size
  | .exited => error = true

namespace FileWriter

/-- The buffer at `ready_pos_`. -/
def front (s : FileWriter) : NonowningBuffer := s.buffers (slot bufferCount s.readyPos 0)

/-- The bytes of the ready buffers. -/
def ready (s : FileWriter) : List UInt8 :=
  (queue s.buffers s.readyPos s.readyCount).flatMap fun b => b.content s.memory

/-- The bytes in the buffer of the producer. -/
def held (s : FileWriter) : List UInt8 :=
  match s.lastWritten with
  | none => []
  | some b => b.content s.memory

end FileWriter

/-- The producer holds bytes exactly while it has a buffer that is not empty. -/
theorem FileWriter.held_eq_nil_iff (s : FileWriter) : s.held = [] ↔ s.hasLastWritten = false := by
  unfold held hasLastWritten
  cases s.lastWritten with
  | none => simp
  | some b => simp [← length_eq_zero_iff]

structure WriterInv (s : FileWriter) : Prop where
  /-- A slot keeps the region it was allocated with. -/
  regions : ∀ i, (s.buffers i).region = i
  count_le : s.readyCount ≤ bufferCount
  room : s.processing = true → s.readyCount < bufferCount
  /-- The producer holds the region behind the ready ones. -/
  owner : ∀ b, s.lastWritten = some b →
    s.processing = true ∧ b.region = slot bufferCount s.readyPos s.readyCount
  waiting : s.handlerWaiting = true → 0 < s.readyCount ∧ s.error = false
  running : s.quit = false
  worker : s.worker.Ok s.readyCount s.front.size s.error
  log : s.file ++ s.ready.drop s.worker.inFlight ++ s.held = s.produced

namespace WriterInv

variable {s : FileWriter}

/-- The front buffer is read first. -/
theorem ready_eq_cons {s : FileWriter} {c : Nat} (hc : s.readyCount = c + 1) :
    s.ready = s.front.content s.memory ++
      (queue s.buffers ((s.readyPos + 1) % bufferCount) c).flatMap fun b => b.content s.memory := by
  unfold ready
  rw [hc, queue_succ]
  rfl

/-- What is in flight is part of the front buffer. -/
theorem inFlight_le (h : WriterInv s) : s.worker.inFlight ≤ s.ready.length := by
  have hw := h.worker
  cases hworker : s.worker with
  | written n =>
    rw [hworker] at hw
    rcases hw with ⟨hcount, -, hn⟩
    rcases Nat.exists_eq_succ_of_ne_zero (Nat.ne_of_gt hcount) with ⟨c, hc⟩
    rw [ready_eq_cons hc, length_append, length_content]
    show n ≤ _
    omega
  | _ => exact Nat.zero_le _

variable {b : NonowningBuffer} {n : Nat} (h : WriterInv s)

include h

/-- The region of the producer is not the one the worker writes from. -/
theorem owner_ne_front (hb : s.lastWritten = some b) (hcount : 0 < s.readyCount) :
    b.region ≠ s.front.region := by
  rcases h.owner b hb with ⟨hproc, hregion⟩
  have hroom := h.room hproc
  rw [hregion, front, h.regions]
  exact slot_ne hroom (by decide) (by omega)

/-! ## Steps of the producer -/

theorem signalCapacity : WriterInv s.signalCapacity := by
  unfold FileWriter.signalCapacity
  by_cases hw : s.worker = .waiting
  · have hlog := h.log
    rw [hw] at hlog
    rw [if_pos hw]
    exact { h with worker := trivial, log := hlog }
  · rw [if_neg hw]
    exact h

/-- Writing the slot behind the ready buffers moves the bytes of the producer to them. A worker that
waits for a buffer has to be woken first. -/
theorem push (hb : s.lastWritten = some b) (hawake : s.worker ≠ .waiting) :
    WriterInv { s with
      buffers := Function.update s.buffers (slot bufferCount s.readyPos s.readyCount) b
      readyCount := s.readyCount + 1, lastWritten := none, processing := false } := by
  rcases h.owner b hb with ⟨hproc, hregion⟩
  have hroom := h.room hproc
  refine ⟨?_, hroom, by simp, by simp, fun hw => ⟨Nat.succ_pos _, (h.waiting hw).2⟩, h.running,
    ?_, ?_⟩
  · intro i
    exact (region_update (hregion.trans (h.regions _).symm) i).trans (h.regions i)
  · -- a worker that is writing has a ready buffer, which is another slot
    have hw := h.worker
    have hfront : 0 < s.readyCount →
        Function.update s.buffers (slot bufferCount s.readyPos s.readyCount) b
          (slot bufferCount s.readyPos 0) = s.front := by
      intro hcount
      have hne : slot bufferCount s.readyPos 0 ≠ slot bufferCount s.readyPos s.readyCount :=
        slot_ne (by decide) hroom (by omega)
      exact Function.update_of_ne hne b s.buffers
    cases hworker : s.worker with
    | written n =>
      rw [hworker] at hw
      rcases hw with ⟨hcount, hpos, hn⟩
      exact ⟨Nat.succ_pos _, hpos, hn.trans_eq (congrArg size (hfront hcount).symm)⟩
    | writing => exact Nat.succ_pos _
    | exited =>
      rw [hworker] at hw
      exact hw
    | top => trivial
    | waiting => exact absurd hworker hawake
  · have hready : (queue (Function.update s.buffers (slot bufferCount s.readyPos s.readyCount) b)
        s.readyPos (s.readyCount + 1)).flatMap (fun b => b.content s.memory) =
        s.ready ++ s.held := by
      rw [queue_push hroom]
      simp [ready, held, hb]
    show s.file ++ (flatMap _ _).drop _ ++ [] = s.produced
    rw [hready, drop_append_of_le_length h.inFlight_le, append_nil, ← append_assoc]
    exact h.log

/-- The buffer of the producer goes to the back of the ring with its bytes. -/
theorem pushReady (hb : s.lastWritten = some b) :
    WriterInv { s.pushReady b with lastWritten := none, processing := false } := by
  unfold FileWriter.pushReady
  by_cases hcount : s.readyCount = 0
  · -- the signal changes nothing but the worker, so it may as well come first
    have hawake : s.signalCapacity.worker ≠ .waiting := by
      unfold FileWriter.signalCapacity
      dsimp only
      split_ifs with hwaiting
      · decide
      · exact hwaiting
    rw [if_pos hcount]
    exact h.signalCapacity.push hb hawake
  · rw [if_neg hcount]
    refine h.push hb fun hwaiting => hcount ?_
    have hw := h.worker
    rw [hwaiting] at hw
    exact hw

/-- An empty buffer can be dropped. -/
theorem dropHeld (hheld : s.held = []) :
    WriterInv { s with lastWritten := none, processing := false } := by
  have hlog := h.log
  rw [hheld] at hlog
  exact { h with room := by simp, owner := by simp, log := hlog }

/-- Nothing is held if there is no buffer to push. -/
theorem held_eq_nil (hno : (s.processing && s.hasLastWritten) = false) : s.held = [] := by
  cases hb : s.lastWritten with
  | none => simp [held, hb]
  | some b =>
    rw [(h.owner b hb).1] at hno
    exact s.held_eq_nil_iff.mpr hno

/-- Pushing the producer's buffer, as `finalize` does it, and what it leaves behind. -/
theorem pushLastWritten : WriterInv { s.pushLastWritten with processing := false } ∧
      s.pushLastWritten.lastWritten = none := by
  unfold FileWriter.pushLastWritten
  cases hb : s.lastWritten with
  | none =>
    have hheld : s.held = [] := by simp [FileWriter.held, hb]
    have hdrop := h.dropHeld hheld
    rw [← hb] at hdrop
    exact ⟨hdrop, hb⟩
  | some b =>
    refine ⟨?_, rfl⟩
    by_cases hpush : (s.processing && s.hasLastWritten) = true
    · simp only [hpush]
      exact h.pushReady hb
    · simp only [hpush]
      exact h.dropHeld (h.held_eq_nil (by simpa using hpush))

omit h in
/-- Handing over a buffer sets neither of the flags that callers look at. -/
theorem flags_pushLastWritten (s : FileWriter) :
    s.pushLastWritten.error = s.error ∧ s.pushLastWritten.finalized = s.finalized := by
  unfold FileWriter.pushLastWritten FileWriter.pushReady
  split
  · exact ⟨rfl, rfl⟩
  · dsimp only
    split_ifs <;> exact ⟨rfl, rfl⟩

/-- The buffer that is handed out is empty, and its region is nobody else's. -/
theorem getWriteBuffer : WriterInv s.getWriteBuffer.2 := by
  unfold FileWriter.getWriteBuffer
  dsimp only
  split_ifs with herror hfull
  · exact h
  · -- every slot is ready: the handler waits
    rcases h.pushLastWritten with ⟨hpush, -⟩
    have hpos : 0 < s.pushLastWritten.readyCount := Nat.lt_of_lt_of_le (by decide) hfull
    have hfine : s.pushLastWritten.error = false := by
      rw [(flags_pushLastWritten s).1]
      exact eq_false_of_ne_true herror
    exact { hpush with room := by simp, waiting := fun _ => ⟨hpos, hfine⟩ }
  · rcases h.pushLastWritten with ⟨hpush, hnone⟩
    refine { hpush with room := fun _ => by simpa using hfull, owner := ?_, log := ?_ }
    · rintro b hb
      cases hb
      exact ⟨rfl, hpush.regions _⟩
    · have hlog := hpush.log
      simp only [hnone] at hlog
      exact hlog

/-- A buffer that is retired is pushed, or dropped when it is empty. -/
theorem retire : WriterInv s.retire.2 := by
  unfold FileWriter.retire
  by_cases herror : s.error = true
  · rw [if_pos herror]
    exact h
  · rw [if_neg herror]
    by_cases hproc : (!s.processing) = true
    · rw [if_pos hproc]
      exact h
    · rw [if_neg hproc]
      exact h.pushLastWritten.1

/-- Neither a `finalize` that waits nor one that is done loses bytes. -/
theorem finalize (synced : Bool) : WriterInv (s.finalize synced).2 := by
  -- the state after the buffer of the producer was taken over
  have hmid : WriterInv (if s.processing && s.hasLastWritten then
      { s.pushLastWritten with processing := false } else s) ∧
      (if s.processing && s.hasLastWritten then
        { s.pushLastWritten with processing := false } else s).error = s.error := by
    split_ifs
    · exact ⟨h.pushLastWritten.1, (flags_pushLastWritten s).1⟩
    · exact ⟨h, rfl⟩
  unfold FileWriter.finalize
  dsimp only
  generalize (if s.processing && s.hasLastWritten then
      { s.pushLastWritten with processing := false } else s) = m at hmid
  obtain ⟨hmid, hsame⟩ := hmid
  split_ifs with herror hfin hcount hsync
  · exact h
  · exact h
  · have hfine : m.error = false := hsame.trans (eq_false_of_ne_true herror)
    exact { hmid with waiting := fun _ => ⟨Nat.pos_of_ne_zero hcount, hfine⟩ }
  · exact { hmid with }
  · -- nobody waits while the ring is empty
    have hwaiting : m.handlerWaiting = true → 0 < m.readyCount ∧ true = false :=
      fun hw => absurd (hmid.waiting hw).1 (by omega)
    refine { hmid with worker := ?_, waiting := hwaiting }
    have hw := hmid.worker
    cases hworker : m.worker with
    | exited => rfl
    | _ =>
      rw [hworker] at hw
      exact hw

variable {s' : FileWriter}

/-- The producer writes to its own region only. -/
theorem fill {bytes : List UInt8} (hfill : s.fill bytes = some s') : WriterInv s' := by
  unfold FileWriter.fill at hfill
  split at hfill
  · cases hfill
  · next b hb =>
    split_ifs at hfill
    cases hfill
    rcases h.owner b hb with ⟨hproc, hregion⟩
    have hroom := h.room hproc
    refine { h with owner := ?_, log := ?_ }
    · rintro b' hb'
      cases hb'
      exact ⟨hproc, hregion⟩
    · have hready : (queue s.buffers s.readyPos s.readyCount).flatMap
          (fun c => c.content (s.memory.append b bytes)) = s.ready := by
        refine flatMap_congr ?_
        intro c hc
        rcases mem_queue hc with ⟨k, hk, rfl⟩
        refine content_append_of_ne bytes ?_
        rw [h.regions, hregion]
        exact slot_ne (by omega) hroom (by omega)
      have hheld : s.held = b.content s.memory := by simp [FileWriter.held, hb]
      show s.file ++ (flatMap _ _).drop _ ++ content _ _ = s.produced ++ bytes
      rw [hready, content_append, ← hheld, ← append_assoc, h.log]

/-! ## Steps of the worker -/

/-- Dropping an empty front buffer loses nothing; whoever waits for a free slot is told. -/
theorem retireFront (hcount : 0 < s.readyCount) (hidle : s.worker.inFlight = 0)
    (hsize : s.front.size = 0) : WriterInv s.retireFront := by
  rcases Nat.exists_eq_succ_of_ne_zero (Nat.ne_of_gt hcount) with ⟨c, hc⟩
  have hle := h.count_le
  have hlog : s.file ++
      (queue s.buffers ((s.readyPos + 1) % bufferCount) (s.readyCount - 1)).flatMap
      (fun b => b.content s.memory) ++ s.held = s.produced := by
    have hfront : s.front.content s.memory = [] :=
      length_eq_zero_iff.mp (by rw [length_content, hsize])
    have hold := h.log
    rw [hidle, ready_eq_cons hc, hfront] at hold
    rw [hc]
    exact hold
  have howner : ∀ b, s.lastWritten = some b → s.processing = true ∧
      b.region = slot bufferCount ((s.readyPos + 1) % bufferCount) (s.readyCount - 1) := by
    intro b hb
    rw [slot_succ, Nat.sub_add_cancel hcount]
    exact h.owner b hb
  unfold FileWriter.retireFront FileWriter.notifyHandler
  split_ifs with hwait
  · exact ⟨h.regions, by dsimp only; omega, fun hp => by have := h.room hp; dsimp only; omega,
      howner, by simp, h.running, trivial, hlog⟩
  · exact ⟨h.regions, by dsimp only; omega, fun hp => by have := h.room hp; dsimp only; omega,
      howner, fun hw => absurd hw hwait, h.running, trivial, hlog⟩

/-- The worker takes up the front buffer, waits, or returns. -/
theorem turn (htop : s.worker = .top) : WriterInv s.turn := by
  have hlog := h.log
  rw [htop] at hlog
  unfold FileWriter.turn
  split_ifs with hstop hcount hwait hsize
  · have herror : s.error = true := by simpa [h.running] using hstop
    exact { h with worker := herror, log := hlog }
  · -- nobody waits on an empty ring
    have := (h.waiting hwait).1
    omega
  · exact { h with worker := hcount, log := hlog }
  · exact h.retireFront (Nat.pos_of_ne_zero hcount) (by rw [htop]; rfl) hsize
  · exact { h with worker := Nat.pos_of_ne_zero hcount, log := hlog }

/-- The bytes of a write leave the ready ones when the system has taken them. -/
theorem write (hwriting : s.worker = .writing) (hpos : 0 < n) (hn : n ≤ s.front.size) :
    WriterInv (s.write n) := by
  have hcount := h.worker
  rw [hwriting] at hcount
  refine { h with worker := ⟨hcount, hpos, hn⟩, log := ?_ }
  rcases Nat.exists_eq_succ_of_ne_zero (Nat.ne_of_gt hcount) with ⟨c, hc⟩
  have hlog := h.log
  rw [hwriting] at hlog
  have htake : (s.front.content s.memory).take n ++ s.ready.drop n = s.ready := by
    have hlen : n ≤ (s.front.content s.memory).length := by
      rw [length_content]
      exact hn
    rw [ready_eq_cons hc, drop_append_of_le_length hlen, ← append_assoc, take_append_drop]
  show s.file ++ (s.front.content s.memory).take n ++ s.ready.drop n ++ s.held = s.produced
  rw [append_assoc s.file, htake]
  exact hlog

/-- Consuming the written bytes leaves the rest of the front buffer in front. -/
theorem consume (hwritten : s.worker = .written n) :
    WriterInv { s with
      buffers := Function.update s.buffers (slot bufferCount s.readyPos 0) (s.front.consume n)
      worker := .writing } := by
  have hw := h.worker
  rw [hwritten] at hw
  rcases hw with ⟨hcount, -, hn⟩
  rcases Nat.exists_eq_succ_of_ne_zero (Nat.ne_of_gt hcount) with ⟨c, hc⟩
  have hle := h.count_le
  refine { h with regions := ?_, worker := hcount, log := ?_ }
  · intro i
    have hregion : (s.front.consume n).region = s.front.region := rfl
    exact (region_update hregion i).trans (h.regions i)
  · have hlog := h.log
    rw [hwritten, ready_eq_cons hc] at hlog
    have hlen : n ≤ (s.front.content s.memory).length := by
      rw [length_content]
      exact hn
    have hready : (queue (Function.update s.buffers (slot bufferCount s.readyPos 0)
        (s.front.consume n)) s.readyPos s.readyCount).flatMap (fun b => b.content s.memory) =
        (s.front.content s.memory).drop n ++
          (queue s.buffers ((s.readyPos + 1) % bufferCount) c).flatMap
            fun b => b.content s.memory := by
      rw [hc, queue_update_head (by omega), flatMap_cons, content_consume]
    show s.file ++ flatMap _ _ ++ s.held = s.produced
    rw [hready, ← drop_append_of_le_length hlen]
    exact hlog

/-- The worker takes off the ring what was written. -/
theorem relock (hwritten : s.worker = .written n) : WriterInv (s.relock n) := by
  have hw := h.worker
  rw [hwritten] at hw
  rcases hw with ⟨hcount, hpos, -⟩
  have hconsume := h.consume hwritten
  unfold FileWriter.relock
  rw [if_neg (by simp [h.running]), if_neg (Nat.ne_of_gt hpos)]
  split_ifs with hrest
  · have hsize : (Function.update s.buffers (slot bufferCount s.readyPos 0) (s.front.consume n)
        (slot bufferCount s.readyPos 0)).size = 0 := by
      rw [Function.update_self]
      exact hrest
    exact hconsume.retireFront hcount rfl hsize
  · exact hconsume

omit h

/-! ## The system -/

theorem opened (memory : AioMemory) : WriterInv (.opened memory) :=
  ⟨fun _ => rfl, Nat.zero_le _, by simp [FileWriter.opened], by simp [FileWriter.opened],
    by simp [FileWriter.opened], rfl, trivial, rfl⟩

/-- Every step of a system without disturbances keeps the invariant. -/
theorem step (h : WriterInv s) {e : WriterEvent} (hstep : s.step e = some s')
    (hgood : e.Undisturbed) : WriterInv s' := by
  cases e <;> simp only [FileWriter.step, Option.ite_none_right_eq_some, Option.some.injEq] at hstep
  case getWriteBuffer =>
    subst hstep
    exact h.getWriteBuffer
  case retire =>
    subst hstep
    exact h.retire
  case finalize synced =>
    subst hstep
    exact h.finalize synced
  case fill bytes => exact h.fill hstep
  case turn =>
    obtain ⟨htop, rfl⟩ := hstep
    exact h.turn htop
  case write n =>
    obtain ⟨hwriting, rfl⟩ := hstep
    exact h.write hwriting.1 hgood hwriting.2
  case relock =>
    split at hstep
    · next n hwritten =>
      cases hstep
      exact h.relock hwritten
    · cases hstep
  case wake =>
    obtain ⟨hwait, rfl⟩ := hstep
    have hwoken := h.signalCapacity
    rw [FileWriter.signalCapacity, if_pos hwait] at hwoken
    exact hwoken
  case close => exact absurd hgood id

end WriterInv

variable {s : FileWriter}

/-- The invariant holds whatever producer and worker do. -/
theorem goodWriterSystem_inv (h : goodWriterSystem.Reach s) : WriterInv s := by
  refine Lts.Reach.invariant WriterInv ?_ ?_ h
  · rintro s ⟨memory, rfl⟩
    exact WriterInv.opened memory
  · rintro s e s' ⟨hstep, hgood⟩ hs
    exact hs.step hstep hgood

/-! ## Finalisation -/

/-- Nothing is left to write. -/
def FileWriter.Drained (s : FileWriter) : Prop := s.readyCount = 0 ∧ s.held = []

/-- With nothing ready and nothing held, everything is in the file. -/
theorem WriterInv.file_eq_of_drained (h : WriterInv s) (hs : s.Drained) : s.file = s.produced := by
  have hlog := h.log
  have hready : s.ready = [] := by rw [ready, hs.1, queue_zero, flatMap_nil]
  rw [hready, hs.2, drop_nil, append_nil, append_nil] at hlog
  exact hlog

/-- An empty buffer is not handed over. -/
theorem FileWriter.pushLastWritten_of_held (hheld : s.held = []) :
    s.pushLastWritten = { s with lastWritten := none } := by
  have hno := s.held_eq_nil_iff.mp hheld
  rcases s with ⟨memory, buffers, readyPos, readyCount, processing, quit, error, handlerWaiting,
    finalized, worker, events, lastWritten, file, produced⟩
  cases lastWritten with
  | none => rfl
  | some b => simp only [pushLastWritten, hno, Bool.and_false, Bool.false_eq_true, if_false]

variable {synced : Bool}

/-- Only a `finalize` that has marked the writer returns `ok`. -/
theorem FileWriter.finalized_of_ok (hok : (s.finalize synced).1 = .ok) :
    (s.finalize synced).2.finalized = true := by
  unfold finalize at hok ⊢
  dsimp only at hok ⊢
  split_ifs at hok ⊢ with herror hfin
  · exact hfin
  · rfl
  · rfl

/-- `finalize` finalises a writer only when nothing is left. -/
theorem WriterInv.drained_finalize (h : WriterInv s) (hs : s.finalized = true → s.Drained)
    (hfin' : (s.finalize synced).2.finalized) : (s.finalize synced).2.Drained := by
  unfold FileWriter.finalize at hfin' ⊢
  -- a buffer that is handed over is not written yet
  have hmid : (if s.processing && s.hasLastWritten then
      { s.pushLastWritten with processing := false } else s).held = [] ∧
      (if s.processing && s.hasLastWritten then
        { s.pushLastWritten with processing := false } else s).finalized = s.finalized := by
    split_ifs with hpush
    · rcases h.pushLastWritten with ⟨-, hnone⟩
      exact ⟨by simp only [FileWriter.held, hnone], (WriterInv.flags_pushLastWritten s).2⟩
    · exact ⟨h.held_eq_nil (by simpa using hpush), rfl⟩
  dsimp only at hfin' ⊢
  generalize (if s.processing && s.hasLastWritten then
      { s.pushLastWritten with processing := false } else s) = m at hmid hfin' ⊢
  split_ifs at hfin' ⊢ with herror hfin hcount hsync
  · exact hs hfin'
  · exact hs hfin
  · exact absurd (hmid.2 ▸ hfin') hfin
  · exact ⟨not_not.mp hcount, hmid.1⟩
  · exact absurd (hmid.2 ▸ hfin') hfin

theorem FileWriter.Drained.getWriteBuffer (hs : s.Drained) : s.getWriteBuffer.2.Drained := by
  unfold FileWriter.getWriteBuffer
  dsimp only
  rw [FileWriter.pushLastWritten_of_held hs.2]
  split_ifs with herror hfull
  · exact hs
  · exact ⟨hs.1, rfl⟩
  · exact ⟨hs.1, content_clear⟩

theorem FileWriter.Drained.retire (hs : s.Drained) : s.retire.2.Drained := by
  unfold FileWriter.retire
  rw [FileWriter.pushLastWritten_of_held hs.2]
  by_cases herror : s.error = true
  · rw [if_pos herror]
    exact hs
  · rw [if_neg herror]
    by_cases hproc : (!s.processing) = true
    · rw [if_pos hproc]
      exact hs
    · rw [if_neg hproc]
      exact ⟨hs.1, rfl⟩

/-- The worker finds nothing to do in a drained writer. -/
theorem FileWriter.Drained.turn (hs : s.Drained) : s.turn.Drained := by
  unfold FileWriter.turn FileWriter.notifyHandler
  split_ifs with hstop hcount hwait hsize
  · exact hs
  · exact hs
  · exact hs
  · exact absurd hs.1 hcount
  · exact absurd hs.1 hcount

variable {s s' : FileWriter} {e : WriterEvent}

/-- Only `finalize` finalises. -/
theorem FileWriter.finalized_step (hstep : s.step e = some s')
    (hfin : s'.finalized) : s.finalized = true ∨ ∃ synced, e = .finalize synced := by
  -- no other call sets the flag
  cases e with
  | finalize synced => exact .inr ⟨synced, rfl⟩
  | getWriteBuffer =>
    cases hstep
    unfold getWriteBuffer at hfin
    dsimp only at hfin
    split_ifs at hfin
    · exact .inl hfin
    · exact .inl ((WriterInv.flags_pushLastWritten s).2 ▸ hfin)
    · exact .inl ((WriterInv.flags_pushLastWritten s).2 ▸ hfin)
  | retire =>
    cases hstep
    unfold retire at hfin
    split_ifs at hfin
    · exact .inl hfin
    · exact .inl hfin
    · exact .inl hfin
    · exact .inl ((WriterInv.flags_pushLastWritten s).2 ▸ hfin)
  | fill bytes =>
    simp only [step, fill] at hstep
    split at hstep
    · cases hstep
    · split_ifs at hstep
      cases hstep
      exact .inl hfin
  | turn =>
    simp only [step, turn, retireFront, notifyHandler] at hstep
    split_ifs at hstep <;> cases hstep <;> exact .inl hfin
  | write n =>
    simp only [step] at hstep
    split_ifs at hstep
    cases hstep
    exact .inl hfin
  | relock =>
    simp only [step, relock, retireFront, notifyHandler] at hstep
    split at hstep
    · split_ifs at hstep <;> cases hstep <;> exact .inl hfin
    · cases hstep
  | wake =>
    simp only [step] at hstep
    split_ifs at hstep
    cases hstep
    exact .inl hfin
  | close =>
    cases hstep
    exact .inl hfin

/-- A writer that was finalised stays drained as long as the producer fills nothing. -/
theorem WriterInv.drained_step (h : WriterInv s) (hstep : s.step e = some s') (hadm : s.Admits e)
    (hs : s.finalized = true → s.Drained) : s'.finalized = true → s'.Drained := by
  intro hfin'
  rcases FileWriter.finalized_step hstep hfin' with hfin | ⟨synced, rfl⟩
  · have hd := hs hfin
    have hw := h.worker
    rw [hd.1] at hw
    cases e <;> simp only [FileWriter.step, Option.ite_none_right_eq_some, Option.some.injEq]
      at hstep
    case getWriteBuffer =>
      subst hstep
      exact hd.getWriteBuffer
    case retire =>
      subst hstep
      exact hd.retire
    case finalize synced =>
      subst hstep
      exact h.drained_finalize hs hfin'
    case fill bytes =>
      have hopen : s.finalized = false := hadm
      rw [hfin] at hopen
      cases hopen
    case turn =>
      obtain ⟨-, rfl⟩ := hstep
      exact hd.turn
    case write n =>
      rw [hstep.1.1] at hw
      exact absurd hw (Nat.lt_irrefl 0)
    case relock =>
      split at hstep
      · next n hwritten =>
        rw [hwritten] at hw
        exact absurd hw.1 (Nat.lt_irrefl 0)
      · cases hstep
    case wake =>
      obtain ⟨-, rfl⟩ := hstep
      exact hd
    case close => exact absurd hadm id
  · cases hstep
    exact h.drained_finalize hs hfin'

/-- A writer that was finalized stays drained. -/
theorem closingWriterSystem_drained (h : closingWriterSystem.Reach s) :
    WriterInv s ∧ (s.finalized = true → s.Drained) := by
  refine Lts.Reach.invariant (fun s => WriterInv s ∧ (s.finalized = true → s.Drained)) ?_ ?_ h
  · rintro s ⟨memory, rfl⟩
    exact ⟨WriterInv.opened memory, by simp [opened]⟩
  · rintro s e s' ⟨hstep, hadm⟩ ⟨hs, hd⟩
    exact ⟨hs.step hstep hadm.undisturbed, hs.drained_step hstep hadm hd⟩

/-- In every run without failing writes the producer's buffer is not the one the worker writes. If
no buffer is filled after `finalize` returned ok, then at the time it does and ever after the file
holds the bytes of all filled buffers, in order and once. -/
theorem fileWriter_writes_all (s : FileWriter) :
    (goodWriterSystem.Reach s → ∀ b, s.lastWritten = some b →
      (s.worker = .writing ∨ ∃ n, s.worker = .written n) → b.region ≠ s.front.region) ∧
    (closingWriterSystem.Reach s →
      (s.finalized = true → s.file = s.produced) ∧
      ∀ synced, (s.finalize synced).1 = .ok →
        (s.finalize synced).2.file = (s.finalize synced).2.produced) := by
  constructor
  · intro h b hb hbusy
    have hinv := goodWriterSystem_inv h
    have hw := hinv.worker
    refine hinv.owner_ne_front hb ?_
    rcases hbusy with hwriting | ⟨n, hwritten⟩
    · rw [hwriting] at hw
      exact hw
    · rw [hwritten] at hw
      exact hw.1
  · intro h
    rcases closingWriterSystem_drained h with ⟨hinv, hd⟩
    refine ⟨fun hfin => hinv.file_eq_of_drained (hd hfin), ?_⟩
    intro synced hok
    have hfin := finalized_of_ok hok
    exact (hinv.finalize synced).file_eq_of_drained (hinv.drained_finalize hd hfin)

/-- The producer takes a second buffer while the first is written, in two parts. -/
theorem fileWriter_writes_all_two :
    (∃ s : FileWriter, ∃ b, s.lastWritten = some b ∧ s.worker = .writing ∧
      b.region ≠ s.front.region) ∧
    ∃ s : FileWriter, (s.finalize true).1 = .ok ∧ (s.finalize true).2.file = [1, 2] ∧
      (s.finalize true).2.file = (s.finalize true).2.produced := by
  have hfirst : ∃ s, goodWriterSystem.Reach s ∧
      s.lastWritten = some ⟨1, 0, 0⟩ ∧ s.worker = .writing :=
    ⟨_, Lts.reach_restrict_ofFun [.getWriteBuffer, .fill [1, 2], .getWriteBuffer, .turn]
      ⟨fun _ _ => 0, rfl⟩ rfl, rfl, rfl⟩
  have hlast : ∃ s, closingWriterSystem.Reach s ∧
      (s.finalize true).1 = .ok ∧ (s.finalize true).2.file = [1, 2] :=
    ⟨_, Lts.reach_restrict_ofFun [.getWriteBuffer, .fill [1, 2], .getWriteBuffer, .turn, .write 1,
      .relock, .write 1, .finalize true, .relock] ⟨fun _ _ => 0, rfl⟩ rfl, rfl, rfl⟩
  rcases hfirst with ⟨s, hs, hheld, hwriting⟩
  rcases hlast with ⟨t, ht, hok, hfile⟩
  exact ⟨⟨s, _, hheld, hwriting, (fileWriter_writes_all s).1 hs _ hheld (.inl hwriting)⟩,
    t, hok, hfile, ((fileWriter_writes_all t).2 ht).2 true hok⟩

/-- After a first `finalize` the guard on `finalized_` lets a second one succeed at once: the byte
filled in between is never written. -/
theorem finalize_twice_loses : ∃ s : FileWriter, goodWriterSystem.Run (.opened fun _ _ => 0)
        [.finalize true, .getWriteBuffer, .fill [1]] s ∧
      (s.finalize true).1 = .ok ∧ (s.finalize true).2.file = [] ∧
      (s.finalize true).2.produced = [1] :=
  ⟨_, Lts.run_restrict_ofFun rfl, rfl, rfl, rfl⟩

/-- At every moment the file holds a beginning of what was filled in, without the bytes that are in
the buffer of the producer. And the producer waits only while a buffer is left to be written and the
worker has neither gone to wait itself nor left its loop. -/
theorem fileWriter_file_begins {s : FileWriter} (h : goodWriterSystem.Reach s) :
    (∃ rest, s.file ++ rest ++ s.held = s.produced) ∧
      (s.handlerWaiting = true → 0 < s.readyCount ∧ s.worker ≠ .waiting ∧ s.worker ≠ .exited) := by
  have hinv := goodWriterSystem_inv h
  refine ⟨⟨_, hinv.log⟩, fun hwait => ?_⟩
  obtain ⟨hcount, hfine⟩ := hinv.waiting hwait
  have hw := hinv.worker
  refine ⟨hcount, fun hwaiting => ?_, fun hexited => ?_⟩
  · rw [hwaiting] at hw
    exact absurd hw hcount.ne'
  · rw [hexited, hfine] at hw
    cases hw

theorem fileWriter_file_begins_part : ∃ s : FileWriter, s.file = [1] ∧ s.held = [3] ∧
    s.produced = [1, 2, 3] ∧ ∃ rest, s.file ++ rest ++ s.held = s.produced := by
  have hreach : goodWriterSystem.Reach _ := Lts.reach_restrict_ofFun
    [.getWriteBuffer, .fill [1, 2], .getWriteBuffer, .fill [3], .turn, .write 1]
    ⟨fun _ _ => 0, rfl⟩ rfl
  exact ⟨_, rfl, rfl, rfl, (fileWriter_file_begins hreach).1⟩

end FlintZilla
