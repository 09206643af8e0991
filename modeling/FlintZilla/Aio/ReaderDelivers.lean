import FlintZilla.Aio.ReaderStream
import FlintZilla.Lib.Fair

/-!
# The file reader delivers the range

A rank falls with every step but two kinds: a `read` with nothing ready, and the worker going round
a full ring. Under fairness of both threads it is therefore exhausted, and the consumer has the
whole range and the empty buffer behind it.

Main results:

* `rank_step`: no step of the system raises the rank, and one that does not lower it is idle.
* `eventually_complete`: under fairness of both threads the range is delivered.
* `fileReader_delivers`: the same from the call of `seek` on.
-/

namespace FlintZilla

open Lib Lib.Ring FileReader List Nat

/-- The consumer has the requested bytes and the empty buffer that marks the end. -/
def FileReader.Complete (s : FileReader) : Prop :=
  ∃ bufs, s.received = bufs ++ [[]] ∧ (∀ b ∈ bufs, b ≠ []) ∧ bufs.flatten = s.requested

/-- A `seek` was called. -/
def FileReader.Started (s : FileReader) : Prop := s.pending ≠ none ∨ s.worker ≠ .none

/-- The buffer the worker fills. -/
def ReaderWorker.filling : ReaderWorker → Option (Fin bufferCount)
  | .reading k _ => some k
  | .filled k _ => some k
  | _ => Option.none

/-! ## Safety -/

variable {s : FileReader}

/-- The stream of a worker that has returned is the range and the mark. -/
theorem Streaming.stream_of_exited (h : Streaming s) (hexited : s.worker = .exited) :
    ∃ front, s.stream = front ++ [[]] ∧ (∀ b ∈ front, b ≠ []) ∧ front.flatten = s.requested := by
  have hok := h.worker
  rw [FileReader.WorkerOk, hexited] at hok
  rcases h.marked.1 hexited with ⟨front, hstream, hfront⟩
  refine ⟨front, hstream, hfront, ?_⟩
  have hbytes := h.bytes
  rw [hstream, consumed, hok] at hbytes
  simpa using hbytes

/-- The consumer has got everything, or non-empty buffers with a part of the range. -/
theorem Streaming.received (h : Streaming s) :
    s.Complete ∨ ((∀ b ∈ s.received, b ≠ []) ∧ s.received.flatten <+: s.requested) := by
  by_cases hexited : s.worker = .exited
  · rcases h.stream_of_exited hexited with ⟨front, hstream, hfront, hflat⟩
    unfold stream at hstream
    rcases eq_nil_or_concat (s.unread.map fun b => b.content s.memory) with hnil | ⟨u, b, hu⟩
    · rw [hnil, append_nil] at hstream
      exact .inl ⟨front, hstream, hfront, hflat⟩
    · -- the mark is still unread
      right
      rw [hu, concat_eq_append, ← append_assoc] at hstream
      have hrest : s.received ++ u = front := (append_inj' hstream rfl).1
      constructor
      · intro b hb
        exact hfront b (hrest ▸ mem_append_left u hb)
      · rw [← hflat, ← hrest, flatten_append]
        exact prefix_append _ _
  · right
    constructor
    · intro b hb
      exact h.marked.2 hexited b (mem_append_left _ hb)
    · have hpart : s.received.flatten <+: s.stream.flatten := by
        rw [stream, flatten_append]
        exact prefix_append _ _
      rw [h.bytes] at hpart
      exact hpart.trans (List.take_prefix _ _)

theorem ReaderInv.received (h : ReaderInv s) :
    s.Complete ∨ ((∀ b ∈ s.received, b ≠ []) ∧ s.received.flatten <+: s.requested) := by
  by_cases hvoid : s.pending ≠ none ∨ s.worker = .none
  · right
    rw [h.void hvoid]
    exact ⟨by simp, by simp⟩
  · rcases not_or.mp hvoid with ⟨hp, hw⟩
    exact (h.streaming (not_not.mp hp) hw).received

/-- The consumer's buffer is the first ready one, the worker's the one behind the last. -/
theorem ReaderInv.filling_ne (h : ReaderInv s) (hp : s.pending = none) (hproc : s.processing)
    {k : Fin bufferCount} (hk : s.worker.filling = some k) :
    (s.buffers (slot bufferCount s.readyPos 0)).region ≠ (s.buffers k).region := by
  have hne : s.worker ≠ .none := by
    intro hw
    rw [hw] at hk
    cases hk
  have hs := h.streaming hp hne
  have hok := hs.worker
  have hpos := hs.held hproc
  have hfilling : s.Filling k := by
    unfold FileReader.WorkerOk at hok
    cases hw : s.worker with
    | reading l toRead =>
      rw [hw] at hok hk
      cases hk
      exact hok.1
    | filled l read =>
      rw [hw] at hok hk
      cases hk
      rcases hok with ⟨n, -, hl, -⟩
      exact hl
    | _ =>
      rw [hw] at hk
      cases hk
  rw [h.regions, h.regions, hfilling.1]
  exact slot_ne (by decide) hfilling.2.1 (by omega)

/-! ## Progress -/

def ReaderWorker.weight : ReaderWorker → Nat
  | .none => 0
  | .top => 7
  | .waiting => 7
  | .reading _ _ => 6
  | .filled _ _ => 5
  | .exited => 0

/-- The buffer in the hands of the consumer, which weighs less than one that is unread. -/
def FileReader.inHand (s : FileReader) : Nat := if s.processing then 1 else 0

/-- The bytes to read weigh more than what making them ready adds, and a pending `seek` more than
the whole file. -/
def FileReader.load (s : FileReader) : Nat :=
  if s.pending.isSome then 8 * s.file.length + 8
  else 8 * s.remaining + (2 * s.readyCount - s.inHand)

def FileReader.rank (s : FileReader) : Nat := s.worker.weight + s.load

/-- A `read` with nothing ready, or the worker going round with all buffers ready. -/
def FileReader.Idle (s : FileReader) (e : ReaderEvent) (s' : FileReader) : Prop :=
  s.pending = none ∧ s'.pending = none ∧ s'.readyCount = s.readyCount ∧
    ((e = .read ∧ s.readyCount = 0 ∧ s'.worker = s.worker) ∨
      (s.readyCount = bufferCount ∧ (e = .turn ∨ e = .wake)))

theorem FileReader.load_of_none (hp : s.pending = none) :
    s.load = 8 * s.remaining + (2 * s.readyCount - s.inHand) := by
  unfold load
  rw [if_neg (by simp [hp])]

theorem FileReader.release_spec (s : FileReader) :
    s.release.worker.weight = s.worker.weight ∧ s.release.readyCount = s.readyCount - s.inHand ∧
      s.release.remaining = s.remaining ∧ s.release.pending = s.pending := by
  unfold release signalCapacity inHand
  split_ifs with hproc hfull hwaiting
  · exact ⟨by rw [hwaiting]; rfl, rfl, rfl, rfl⟩
  · exact ⟨rfl, rfl, rfl, rfl⟩
  · exact ⟨rfl, rfl, rfl, rfl⟩
  · exact ⟨rfl, rfl, rfl, rfl⟩

namespace ReaderInv

variable {s s' : FileReader}

/-- The consumer takes a buffer, gives one back, or finds nothing. -/
theorem rank_read (h : ReaderInv s) (hp : s.pending = none) (hw : s.worker ≠ .none) :
    s.read.2.rank < s.rank ∨ (s.read.2.rank = s.rank ∧ s.Idle .read s.read.2) := by
  have hs := h.streaming hp hw
  rcases s.release_spec with ⟨hweight, hcount, hrem, hpend⟩
  rw [hp] at hpend
  have hhand : s.inHand ≤ s.readyCount ∧ s.inHand ≤ 1 := by
    unfold FileReader.inHand
    split_ifs with hproc
    · exact ⟨hs.held hproc, le_refl 1⟩
    · exact ⟨zero_le _, zero_le _⟩
  have hload := FileReader.load_of_none hp
  -- the worker is where it was; only the load can fall
  have hrank : s.read.2.rank = s.worker.weight + s.read.2.load := by
    simp only [← hweight, FileReader.read, h.no_error, Bool.false_eq_true, if_false]
    split_ifs <;> rfl
  rw [hrank, FileReader.rank]
  by_cases hready : s.release.readyCount = 0
  · have hread : s.read.2 = { s.release with handlerWaiting := true, processing := false } := by
      simp [FileReader.read, h.no_error, hready]
    have hload' : s.read.2.load = 8 * s.release.remaining + (2 * s.release.readyCount - 0) := by
      rw [hread]
      exact FileReader.load_of_none hpend
    by_cases hzero : s.readyCount = 0
    · -- nothing was ready and nothing was held
      right
      have hproc : s.processing = false := by
        by_contra hproc
        have := hs.held (by simpa using hproc)
        omega
      have hsame : s.release = s := by simp [FileReader.release, hproc]
      refine ⟨by omega, hp, (SameRequest.read s).pending.trans hp, ?_, .inl ⟨rfl, hzero, ?_⟩⟩
      · rw [hread, hsame]
      · rw [hread, hsame]
    · omega
  · have hread : s.read.2 = { s.release with
        calledRead := true, processing := true
        received := s.release.received ++ [(s.release.buffers
          (slot bufferCount s.release.readyPos 0)).content s.release.memory] } := by
      simp [FileReader.read, h.no_error, hready]
    have hload' : s.read.2.load = 8 * s.release.remaining + (2 * s.release.readyCount - 1) := by
      rw [hread]
      exact FileReader.load_of_none hpend
    omega

/-- What is read is paid for by the bytes that are no longer to be read. -/
theorem rank_finishRead (s : FileReader) (hp : s.pending = none) (k : Fin bufferCount) {n : Nat}
    (hn : n ≤ s.remaining) :
    (s.finishRead k (some n)).rank + 8 * n ≤ (if n = 0 then 0 else 7) + s.load + 2 := by
  have hnotify : ∀ t : FileReader, t.notifyHandler.rank = t.rank := by
    intro t
    unfold notifyHandler
    split_ifs <;> rfl
  have hrank : (s.finishRead k (some n)).rank =
      ReaderWorker.weight (if n = 0 then .exited else .top) +
        (8 * (s.remaining - n) + (2 * (s.readyCount + 1) - s.inHand)) := by
    unfold finishRead
    rw [hnotify]
    exact congrArg (ReaderWorker.weight (if n = 0 then .exited else .top) + ·)
      (load_of_none hp)
  rw [hrank, load_of_none hp]
  split_ifs <;> simp only [ReaderWorker.weight] <;> omega

/-- The worker starts to fill a buffer, returns, or finds the ring full. -/
theorem rank_turn (h : ReaderInv s) (htop : s.worker = .top) :
    s.turn.rank < s.rank ∨ (s.turn.rank = s.rank ∧ s.Idle .turn s.turn) := by
  have hne : s.worker ≠ .none := by simp [htop]
  have hrank : s.rank = 7 + s.load := by
    rw [FileReader.rank, htop]
    rfl
  rw [hrank]
  by_cases hp : s.pending = none
  · have hs := h.streaming hp hne
    unfold FileReader.turn
    rw [if_neg (by simp [hs.running, h.no_error])]
    by_cases hfull : bufferCount ≤ s.readyCount
    · rw [if_pos hfull]
      right
      exact ⟨rfl, hp, hp, rfl, .inr ⟨le_antisymm hs.count_le hfull, .inl rfl⟩⟩
    · -- a buffer is cleared for reading, or is made ready empty
      left
      dsimp only
      generalize (if s.remaining < bufferSize then s.remaining else bufferSize) = toRead
      split_ifs with hzero
      · have hle := rank_finishRead { s with
          buffers := Function.update s.buffers (slot bufferCount s.readyPos s.readyCount)
            (s.buffers (slot bufferCount s.readyPos s.readyCount)).clear } hp
          (slot bufferCount s.readyPos s.readyCount) (zero_le _)
        have hlt : 0 + s.load + 2 < 7 + s.load := by omega
        exact lt_of_le_of_lt hle hlt
      · show 6 + s.load < 7 + s.load
        omega
  · -- a seek is pending, and the worker returns
    left
    rw [h.turn_of_pending hp htop]
    show 0 + s.load < 7 + s.load
    omega

/-- A filled buffer becomes ready, or the worker that is to stop returns. -/
theorem rank_relock (h : ReaderInv s) {k : Fin bufferCount} {read : Option Nat}
    (hfilled : s.worker = .filled k read) : (s.relock k read).rank < s.rank := by
  have hrank : s.rank = 5 + s.load := by
    rw [rank, hfilled]
    rfl
  rw [hrank]
  rcases h.relock_cases hfilled with ⟨hp, n, rfl, hn, hrelock⟩ | ⟨hp, hrelock⟩
  · have hle := rank_finishRead s hp k hn
    rw [hrelock]
    split_ifs at hle <;> omega
  · rw [hrelock]
    show 0 + s.load < 5 + s.load
    omega

/-- The new range is accounted for in the load while the seek is pending. -/
theorem rank_restart (h : ReaderInv s) {offset maxSize : Nat}
    (hp : s.pending = some (offset, maxSize)) : (s.restart offset maxSize .ok).rank < s.rank := by
  have hrank : 8 * s.file.length + 8 ≤ s.rank := by
    unfold rank load
    rw [if_pos (by simp [hp])]
    omega
  have hle := h.length_requested_le
  rw [h.restart_eq hp]
  show 7 + (8 * s.requested.length + (2 * 0 - 0)) < s.rank
  omega

variable {e : ReaderEvent}

section

variable (h : ReaderInv s) (hstep : GoodReaderStep s e s')
  (hseek : ∀ offset maxSize, e ≠ .seek offset maxSize) (hstarted : s.Started)

include h hstep hseek hstarted

/-- Every step but `seek` of a reader that was started lowers the rank or is idle. -/
theorem rank_step : s'.rank < s.rank ∨ (s'.rank = s.rank ∧ s.Idle e s') := by
  cases hstep with
  | read hp => exact h.rank_read hp (hstarted.resolve_left fun hne => hne hp)
  | @seek offset maxSize => exact absurd rfl (hseek offset maxSize)
  | restart hp => exact .inl (h.rank_restart hp)
  | turn htop => exact h.rank_turn htop
  | readFile hreading hn hzero =>
    left
    rw [rank, rank, hreading]
    show 5 + s.load < 6 + s.load
    omega
  | relock hfilled => exact .inl (h.rank_relock hfilled)
  | wake hwaiting =>
    right
    have hne : s.worker ≠ .none := by simp [hwaiting]
    have hp : s.pending = none := by
      by_contra hp
      exact (h.stopping hp hne).2 hwaiting
    have hok := (h.streaming hp hne).worker
    rw [FileReader.WorkerOk, hwaiting] at hok
    refine ⟨?_, hp, hp, rfl, .inr ⟨hok.1, .inr rfl⟩⟩
    rw [rank, rank, hwaiting]
    rfl

/-- Without a further `seek` a reader stays started, with the same request. -/
theorem started_step : s'.Started ∧ s'.requested = s.requested := by
  -- a thread that is there stays, and a pending `seek` stays until it starts one
  have hkeep : SameRequest s s' → s'.Started ∧ s'.requested = s.requested := by
    intro hsame
    refine ⟨hstarted.imp ?_ hsame.worker, hsame.requested⟩
    rw [hsame.pending]
    exact id
  cases hstep with
  | read hp => exact hkeep (SameRequest.read s)
  | @seek offset maxSize => exact absurd rfl (hseek offset maxSize)
  | restart hp =>
    rw [h.restart_eq hp]
    exact ⟨.inr (by simp), rfl⟩
  | turn htop => exact hkeep (SameRequest.turn s)
  | @readFile k _ n => exact hkeep (SameRequest.readFile s k n)
  | @relock k read hfilled =>
    rcases h.relock_cases hfilled with ⟨-, n, rfl, -, hrelock⟩ | ⟨-, hrelock⟩
    · rw [hrelock] at hkeep ⊢
      exact hkeep (SameRequest.finishRead s k n)
    · rw [hrelock] at hkeep ⊢
      exact hkeep (SameRequest.of_worker (by simp))
  | wake hwaiting => exact hkeep (SameRequest.of_worker (by simp))

end

end ReaderInv

/-! ## Delivery -/

section Delivery

variable {b : goodReaderSystem.Behavior}

theorem behavior_step (b : goodReaderSystem.Behavior) (i : Nat) :
    GoodReaderStep (b.state i) (b.label i) (b.state (i + 1)) :=
  step_cases (b.step i).1 (b.step i).2

variable {i : Nat}

section

variable (hinv : ∀ i, ReaderInv (b.state i)) (hstarted : ∀ i, (b.state i).Started)
  (hseek : ∀ i offset maxSize, b.label i ≠ .seek offset maxSize)

include hinv hstarted hseek

/-- With a buffer ready the consumer is not left waiting, and its next call lowers the rank. -/
theorem rank_falls_of_ready
    (hfair : Lts.WeakFair b ReaderEvent.IsConsumer FileReader.ConsumerReady)
    (hp : (b.state i).pending = none) (hcount : 0 < (b.state i).readyCount) :
    ∃ j, (b.state j).rank < (b.state i).rank := by
  refine hfair.rank_falls FileReader.rank (P := fun s => ReaderInv s ∧ s.Started ∧
    s.pending = none ∧ 0 < s.readyCount) ?_ ?_ ⟨hinv i, hstarted i, hp, hcount⟩
  · rintro s ⟨hs, hst, hp, hcount⟩
    have hstream := hs.streaming hp (hst.resolve_left fun hne => hne hp)
    refine .inl ⟨hp, ?_⟩
    by_contra hwait
    have := hstream.quiet (by simpa using hwait)
    omega
  · rintro j ⟨hs, hst, hp, hcount⟩
    refine (hs.rank_step (behavior_step b j) (hseek j) hst).imp_right ?_
    rintro ⟨heq, -, hp', hcount', hidle⟩
    refine ⟨heq, ⟨hinv _, hstarted _, hp', hcount' ▸ hcount⟩, ?_⟩
    -- an idle step of the consumer finds nothing ready
    rcases hidle with ⟨-, hzero, -⟩ | ⟨-, hturn | hwake⟩
    · omega
    · exact hturn ▸ id
    · exact hwake ▸ id

/-- With no buffer ready the worker is not left waiting, and its next step lowers the rank. -/
theorem rank_falls_of_empty (hfair : Lts.WeakFair b ReaderEvent.IsWorker FileReader.WorkerReady)
    (hp : (b.state i).pending = none) (hcount : (b.state i).readyCount = 0)
    (hworker : (b.state i).WorkerReady) : ∃ j, (b.state j).rank < (b.state i).rank := by
  refine hfair.rank_falls FileReader.rank (P := fun s => ReaderInv s ∧ s.Started ∧
    s.pending = none ∧ s.readyCount = 0 ∧ s.WorkerReady) ?_ ?_
    ⟨hinv i, hstarted i, hp, hcount, hworker⟩
  · rintro s ⟨-, -, -, -, hready⟩
    exact hready
  · rintro j ⟨hs, hst, hp, hcount, hready⟩
    refine (hs.rank_step (behavior_step b j) (hseek j) hst).imp_right ?_
    rintro ⟨heq, -, hp', hcount', hidle⟩
    rcases hidle with ⟨hread, -, hsame⟩ | ⟨hfull, -⟩
    · refine ⟨heq, ⟨hinv _, hstarted _, hp', hcount'.trans hcount, ?_⟩, hread ▸ id⟩
      unfold FileReader.WorkerReady at hready ⊢
      rw [hsame]
      exact hready
    · rw [hcount] at hfull
      cases hfull

end

/-- A streaming reader with nothing ready and its mark not delivered has a worker that can go on. -/
theorem Streaming.workerReady {s : FileReader} (h : Streaming s) (hcount : s.readyCount = 0)
    (hopen : ¬ s.Complete) : s.WorkerReady := by
  refine ⟨h.ne_none, ?_, ?_⟩
  · intro hwaiting
    have hok := h.worker
    rw [FileReader.WorkerOk, hwaiting, hcount] at hok
    exact absurd hok.1 (by decide)
  · intro hexited
    rcases h.stream_of_exited hexited with ⟨front, hstream, hfront, hflat⟩
    have hreceived : s.stream = s.received := by simp [stream, unread, hcount]
    exact hopen ⟨front, hreceived ▸ hstream, hfront, hflat⟩

theorem eventually_complete (hreach : goodReaderSystem.Reach (b.state 0))
    (hstarted : (b.state 0).Started) (hseek : ∀ i offset maxSize, b.label i ≠ .seek offset maxSize)
    (hconsumer : Lts.WeakFair b ReaderEvent.IsConsumer FileReader.ConsumerReady)
    (hworker : Lts.WeakFair b ReaderEvent.IsWorker FileReader.WorkerReady) :
    ∃ i, (b.state i).Complete ∧ (b.state i).requested = (b.state 0).requested := by
  have hinv : ∀ i, ReaderInv (b.state i) := fun i => goodReaderSystem_inv (b.reach hreach i)
  -- the request is started once and stays the same
  have hkeep : ∀ i, (b.state i).Started ∧ (b.state i).requested = (b.state 0).requested := by
    refine b.invariant (fun s => s.Started ∧ s.requested = (b.state 0).requested)
      ⟨hstarted, rfl⟩ ?_
    rintro i ⟨hst, hsame⟩
    rcases (hinv i).started_step (behavior_step b i) (hseek i) hst with ⟨hst', hsame'⟩
    exact ⟨hst', hsame'.trans hsame⟩
  -- as long as the file is not complete, one of the two threads makes the rank fall
  have hfall : ∀ i, ¬ (b.state i).Complete → ∃ j, (b.state j).rank < (b.state i).rank := by
    intro i hopen
    by_cases hp : (b.state i).pending = none
    · by_cases hcount : (b.state i).readyCount = 0
      · have hne := (hkeep i).1.resolve_left fun hne => hne hp
        exact rank_falls_of_empty hinv (fun j => (hkeep j).1) hseek hworker hp hcount
          (((hinv i).streaming hp hne).workerReady hcount hopen)
      · exact rank_falls_of_ready hinv (fun j => (hkeep j).1) hseek hconsumer hp
          (pos_of_ne_zero hcount)
    · -- no step is idle while a `seek` is pending
      rcases (hinv i).rank_step (behavior_step b i) (hseek i) (hkeep i).1 with
        hlt | ⟨-, hnone, -⟩
      · exact ⟨i + 1, hlt⟩
      · exact absurd hnone hp
  rcases b.eventually_of_rank rank hfall with ⟨i, hi⟩
  exact ⟨i, hi, (hkeep i).2⟩

end Delivery

/-- After the call of `seek` nothing of the range it asks for has been received. -/
theorem ReaderInv.seek_requested (h : ReaderInv s) (hp : s.pending = none) {offset maxSize : Nat}
    (hoffset : offset ≠ nosize) :
    (s.seek offset maxSize).Started ∧ (s.seek offset maxSize).received = [] ∧
      (s.seek offset maxSize).requested = fileRange s.file offset maxSize := by
  unfold FileReader.seek
  rw [if_neg (by simp [h.no_error])]
  rw [if_neg hoffset]
  by_cases hchange : s.changes offset maxSize = true
  · rw [if_pos hchange]
    exact ⟨.inl (by simp), rfl, rfl⟩
  · rw [if_neg hchange]
    rcases changes_eq_false hchange with ⟨hw, hcalled, -⟩
    exact ⟨.inr hw, (h.streaming hp hw).fresh hcalled, rfl⟩

/-- A call of `seek` asks for its range. In every run the consumer has received a part of that
range, or all of it and the empty buffer behind it, and never holds the buffer the worker fills. In
every fair run without a further `seek` it comes to have all of it. -/
theorem fileReader_delivers :
    (∀ s, goodReaderSystem.Reach s → s.pending = none → ∀ offset maxSize, offset ≠ nosize →
      (s.seek offset maxSize).Started ∧ (s.seek offset maxSize).received = [] ∧
      (s.seek offset maxSize).requested = fileRange s.file offset maxSize) ∧
    (∀ s, goodReaderSystem.Reach s →
      (s.Complete ∨ ((∀ b ∈ s.received, b ≠ []) ∧ s.received.flatten <+: s.requested)) ∧
      (s.pending = none → s.processing = true → ∀ k, s.worker.filling = some k →
        (s.buffers (slot bufferCount s.readyPos 0)).region ≠ (s.buffers k).region)) ∧
    (∀ b : goodReaderSystem.Behavior, goodReaderSystem.Reach (b.state 0) → (b.state 0).Started →
      (∀ i offset maxSize, b.label i ≠ .seek offset maxSize) →
      Lts.WeakFair b ReaderEvent.IsConsumer FileReader.ConsumerReady →
      Lts.WeakFair b ReaderEvent.IsWorker FileReader.WorkerReady →
      ∃ i, (b.state i).Complete ∧ (b.state i).requested = (b.state 0).requested) := by
  refine ⟨?_, ?_, ?_⟩
  · intro s hreach hp offset maxSize hoffset
    exact (goodReaderSystem_inv hreach).seek_requested hp hoffset
  · intro s hreach
    have hinv := goodReaderSystem_inv hreach
    exact ⟨hinv.received, fun hp hproc k hk => hinv.filling_ne hp hproc hk⟩
  · intro b hreach hstarted hseek hconsumer hworker
    exact eventually_complete hreach hstarted hseek hconsumer hworker

/-- A `read` that finds the handler waiting already changes nothing. -/
theorem FileReader.read_waiting (herror : s.error = false) (hproc : s.processing = false)
    (hcount : s.readyCount = 0) (hwait : s.handlerWaiting) : s.read.2 = s := by
  have hread : s.read.2 = { s with handlerWaiting := true, processing := false } := by
    simp [read, release, herror, hproc, hcount]
  rw [hread, ← hproc, ← hwait]

/-- Three bytes of four, the first read short; the consumer then keeps asking. -/
theorem fileReader_delivers_three :
    ∃ b : goodReaderSystem.Behavior, (b.state 0).requested = [2, 3, 4] ∧
      ∃ i, (b.state i).Complete ∧ (b.state i).requested = [2, 3, 4] := by
  have hopen : goodReaderSystem.Run (.opened [1, 2, 3, 4] fun _ _ => 0) [.seek 1 3]
      ((opened [1, 2, 3, 4] fun _ _ => 0).seek 1 3) := Lts.run_restrict_ofFun rfl
  have hreach : goodReaderSystem.Reach ((opened [1, 2, 3, 4] fun _ _ => 0).seek 1 3) :=
    Lts.Reach.run (Lts.Reach.init ⟨_, _, rfl⟩) hopen
  -- the worker reads one byte, then two
  have hrun : ∃ t : FileReader, goodReaderSystem.Run
      ((opened [1, 2, 3, 4] fun _ _ => 0).seek 1 3)
      [.restart .ok, .read, .turn, .readFile 1, .relock, .read, .turn, .readFile 2, .relock, .turn,
        .read, .read, .read] t ∧
      t.pending = none ∧ t.worker = .exited ∧ t.read.2 = t :=
    ⟨_, Lts.run_restrict_ofFun rfl, rfl, rfl, read_waiting rfl rfl rfl rfl⟩
  rcases hrun with ⟨t, hrun, hp, hexited, hloop⟩
  -- further reads change nothing
  have hstep : goodReaderSystem.Step t .read t := by
    refine ⟨?_, trivial⟩
    show (if t.pending.isNone then some t.read.2 else none) = some t
    rw [hp, hloop]
    rfl
  rcases hrun.exists_behavior hstep with ⟨b, hb0, hlabel, n, hn⟩
  have hrequested : (b.state 0).requested = [2, 3, 4] := by
    rw [hb0]
    rfl
  refine ⟨b, hrequested, hrequested ▸ fileReader_delivers.2.2 b ?_ ?_ ?_ ?_ ?_⟩
  · rw [hb0]
    exact hreach
  · rw [hb0]
    exact .inl (by decide)
  · intro i offset maxSize hseek
    rcases hlabel i with hmem | hread
    · rw [hseek] at hmem
      simp at hmem
    · rw [hseek] at hread
      cases hread
  · intro i
    refine ⟨max i n, le_max_left _ _, .inl ?_⟩
    rw [(hn _ (le_max_right i n)).2]
    trivial
  · intro i
    refine ⟨max i n, le_max_left _ _, .inr ?_⟩
    rw [(hn _ (le_max_right i n)).1]
    intro hready
    exact hready.2.2 hexited

end FlintZilla
