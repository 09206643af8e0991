import FlintZilla.Aio.Buffers
import FlintZilla.Lib.Lines
import FlintZilla.Lib.Lts
import FlintZilla.Lib.Transducer

/-!
# Transfers in ASCII mode

`ascii_reader` and `ascii_writer` of `engine/ftp/transfersocket.cpp`. Each is put around a reader or
a writer of a file and changes the line ends of what passes through: the reader puts a CR before
every stand-alone LF, the writer drops the CR of every pair.

The writer works in the buffer of the producer. A CR at the end of it may belong to an LF that is to
come; it is taken out of the buffer and put at the start of the next one. Since the producer has a
buffer only when no CR is held back, the loop never writes beyond what it has read.

Main results:

* `run_asciiReaderStep`, `delivered_readAll`: what the reader delivers, however the data is cut.
* `asciiWriterSystem_inv`: what the writer has passed on, in every reachable state.
* `asciiTransfer_roundtrip`: what was read in ASCII mode is written as it was.
* `asciiWriter_drops_paired`: the writer drops the CRs of pairs and no others.
-/

namespace FlintZilla

open Lib Lib.Lines Lib.Transducer List Option

/-! ## The reader -/

/-- The loop body of `ascii_reader::read`. -/
def asciiReaderStep (wasCr : Bool) (c : UInt8) : Bool × List UInt8 :=
  if c = lf then (false, if wasCr then [c] else [cr, c])
  else (c = cr, [c])

/-- `ascii_reader`. -/
structure AsciiReader where
  wasCr : Bool
deriving DecidableEq

/-- `ascii_reader::read`, with the result of the reader below. -/
def AsciiReader.read (s : AsciiReader) (below : AioResult × List UInt8) :
    (AioResult × List UInt8) × AsciiReader :=
  match below.1 with
  | .ok =>
    let r := Transducer.run asciiReaderStep s.wasCr below.2
    ((.ok, r.2), ⟨r.1⟩)
  | .wait | .error => (below, s)

/-- The results of one call after the other. -/
def AsciiReader.readAll : AsciiReader → List (AioResult × List UInt8) →
    List (AioResult × List UInt8)
  | _, [] => []
  | s, below :: rest => (s.read below).1 :: (s.read below).2.readAll rest

/-- The bytes of the calls that succeeded. -/
def delivered (results : List (AioResult × List UInt8)) : List UInt8 :=
  results.flatMap fun r => if r.1 = .ok then r.2 else []

/-! ## The writer -/

/-- The loop body of `ascii_writer::transform`. Of two CRs in a row the first is lost. -/
def asciiWriterStep (wasCr : Bool) (c : UInt8) : Bool × List UInt8 :=
  if c = cr then (true, [])
  else if c = lf then (false, [c])
  else (false, if wasCr then [cr, c] else [c])

/-- A buffer of the writer below. -/
structure WriteBuffer where
  content : List UInt8
  capacity : Nat
deriving DecidableEq

/-- `append` of one byte, which aborts the program if there is no room. -/
def WriteBuffer.append (b : WriteBuffer) (c : UInt8) : Option WriteBuffer :=
  if b.content.length < b.capacity then some { b with content := b.content ++ [c] } else none

/-- `ascii_writer`, with the buffer of the producer (`none` after `reset`), the bytes the writer
below has taken, all bytes the producer has put into buffers, and how the transfer has ended. -/
structure AsciiWriter where
  wasCr : Bool
  buffer : Option WriteBuffer
  received : List UInt8
  produced : List UInt8
  finalized : Bool
  failed : Bool
deriving DecidableEq

namespace AsciiWriter

def new : AsciiWriter where
  wasCr := false
  buffer := none
  received := []
  produced := []
  finalized := false
  failed := false

/-- The bytes in the buffer of the producer. -/
def held (s : AsciiWriter) : List UInt8 := (s.buffer.map (·.content)).getD []

/-- `ascii_writer::transform` of the producer's buffer. -/
def transform (s : AsciiWriter) : AsciiWriter :=
  match s.buffer with
  | none => s
  | some b =>
    if b.content = [] then s
    else
      let r := Transducer.inPlace asciiWriterStep b.content.length b.content 0 0 s.wasCr
      { s with wasCr := r.2.2, buffer := some { b with content := r.1.take r.2.1 } }

/-- The writer below takes the buffer and resets the producer's variable. -/
def handOver (s : AsciiWriter) : AsciiWriter :=
  { s with received := s.received ++ s.held, buffer := none }

/-- `ascii_writer::get_write_buffer`, with the result of the writer below and the capacity of the
buffer that it gives. -/
def getWriteBuffer (s : AsciiWriter) (result : AioResult) (capacity : Nat) : Option AsciiWriter :=
  let s := s.transform
  match result with
  | .error => some { s with failed := true }
  | .wait => some s.handOver
  | .ok =>
    let s := s.handOver
    if s.wasCr then
      match WriteBuffer.append ⟨[], capacity⟩ cr with
      | none => none
      | some b => some { s with buffer := some b, wasCr := false }
    else some { s with buffer := some ⟨[], capacity⟩ }

/-- The CR that is held back goes into the last buffer. -/
def appendCr (s : AsciiWriter) : Option AsciiWriter :=
  if s.wasCr then
    match s.buffer with
    | none => none
    | some b => (b.append cr).map fun b => { s with buffer := some b, wasCr := false }
  else some s

/-- `ascii_writer::finalize`, with the result of the writer below, which leaves an empty buffer with
the producer. -/
def finalize (s : AsciiWriter) (result : AioResult) : Option AsciiWriter :=
  s.transform.appendCr.map fun s =>
    if result = .error then { s with failed := true }
    else { if s.held = [] then s else s.handOver with finalized := true }

/-- The producer puts bytes behind the content of its buffer. -/
def fill (s : AsciiWriter) (bytes : List UInt8) : Option AsciiWriter :=
  match s.buffer with
  | none => none
  | some b =>
    if b.capacity < b.content.length + bytes.length then none
    else some { s with
      buffer := some { b with content := b.content ++ bytes }
      produced := s.produced ++ bytes }

end AsciiWriter

inductive AsciiWriterEvent where
  | getWriteBuffer (result : AioResult) (capacity : Nat)
  | fill (bytes : List UInt8)
  | finalize (result : AioResult)
deriving DecidableEq

/-- The calls of the producer, in any order; after an error there are none, and the producer
finalizes at the end of the stream. -/
def AsciiWriter.step (s : AsciiWriter) : AsciiWriterEvent → Option AsciiWriter
  | .getWriteBuffer result capacity => if s.failed then none else s.getWriteBuffer result capacity
  | .fill bytes => if s.failed || s.finalized then none else s.fill bytes
  | .finalize result => if s.failed then none else s.finalize result

def asciiWriterSystem : Lts AsciiWriter AsciiWriterEvent :=
  Lts.ofFun (fun s => s = .new) AsciiWriter.step

/-! ## What the two do to a stream -/

/-- The stream with a CR before each LF. -/
def insertCr (data : List UInt8) : List UInt8 :=
  data.flatMap fun c => if c = lf then [cr, lf] else [c]

/-- What the writer makes of a stream: a CR at its end is one of the file. -/
def dropCr (stream : List UInt8) : List UInt8 :=
  (Transducer.run asciiWriterStep false stream).2 ++
    if (Transducer.run asciiWriterStep false stream).1 then [cr] else []

theorem insertCr_lf (data : List UInt8) : insertCr (lf :: data) = cr :: lf :: insertCr data := rfl

theorem insertCr_cons {c : UInt8} (h : c ≠ lf) (data : List UInt8) :
    insertCr (c :: data) = c :: insertCr data := by
  simp [insertCr, h]

theorem insertCr_append (l m : List UInt8) : insertCr (l ++ m) = insertCr l ++ insertCr m :=
  flatMap_append

/-- At worst every byte is a line end. -/
theorem length_insertCr_le (data : List UInt8) : (insertCr data).length ≤ 2 * data.length := by
  induction data with
  | nil => exact Nat.zero_le _
  | cons c data ih =>
    by_cases hlf : c = lf
    · rw [hlf, insertCr_lf, length_cons, length_cons, length_cons]
      omega
    · rw [insertCr_cons hlf, length_cons, length_cons]
      omega

theorem length_asciiReaderStep_le (wasCr : Bool) (c : UInt8) :
    (asciiReaderStep wasCr c).2.length ≤ 2 := by
  unfold asciiReaderStep
  split_ifs <;> simp

variable {data : List UInt8}

/-- Without a CR in the data, the reader does not see one. -/
theorem run_asciiReaderStep (h : cr ∉ data) :
    run asciiReaderStep false data = (false, insertCr data) := by
  induction data with
  | nil => rfl
  | cons c data ih =>
    rw [mem_cons, not_or] at h
    rw [run]
    by_cases hlf : c = lf
    · have hstep : asciiReaderStep false c = (false, [cr, lf]) := by simp [asciiReaderStep, hlf]
      rw [hstep, ih h.2, hlf]
      rfl
    · have hstep : asciiReaderStep false c = (false, [c]) := by
        simp [asciiReaderStep, hlf, Ne.symm h.1]
      rw [hstep, ih h.2, insertCr_cons hlf]
      rfl

/-- The calls of the reader, one after the other, convert the data as a whole. -/
theorem delivered_readAll {reads : List (AioResult × List UInt8)} (h : cr ∉ delivered reads) :
    delivered (AsciiReader.readAll ⟨false⟩ reads) = insertCr (delivered reads) := by
  induction reads with
  | nil => rfl
  | cons below rest ih =>
    obtain ⟨result, buffer⟩ := below
    simp only [delivered, flatMap_cons, mem_append, not_or] at h ih ⊢
    rw [insertCr_append]
    cases result with
    | ok =>
      simp only [if_true] at h ⊢
      simp only [AsciiReader.readAll, AsciiReader.read, run_asciiReaderStep h.1,
        flatMap_cons, if_true]
      rw [ih h.2]
    | wait | error =>
      simp only [AsciiReader.readAll, AsciiReader.read, flatMap_cons]
      rw [ih h.2]
      rfl

/-- Twice the size of the buffer below is enough. -/
theorem forall₂_readAll (s : AsciiReader) (reads : List (AioResult × List UInt8)) :
    List.Forall₂ (fun below above => above.2.length ≤ 2 * below.2.length) reads
      (s.readAll reads) := by
  induction reads generalizing s with
  | nil => exact List.Forall₂.nil
  | cons below rest ih =>
    refine List.Forall₂.cons ?_ (ih _)
    obtain ⟨result, buffer⟩ := below
    cases result with
    | ok => exact length_run_le length_asciiReaderStep_le s.wasCr buffer
    | wait | error => exact Nat.le_mul_of_pos_left _ (by decide)

/-- Each CR that was inserted is held back until its LF comes. -/
theorem run_asciiWriterStep_insertCr (h : cr ∉ data) :
    run asciiWriterStep false (insertCr data) = (false, data) := by
  induction data with
  | nil => rfl
  | cons c data ih =>
    rw [mem_cons, not_or] at h
    by_cases hlf : c = lf
    · have hcr : asciiWriterStep false cr = (true, []) := rfl
      have hpair : asciiWriterStep true lf = (false, [lf]) := rfl
      rw [hlf, insertCr_lf, run, hcr, run, hpair, ih h.2]
      rfl
    · have hstep : asciiWriterStep false c = (false, [c]) := by
        simp [asciiWriterStep, Ne.symm h.1]
      rw [insertCr_cons hlf, run, hstep, ih h.2]
      rfl

/-! ## The writer converts the stream, wherever it is cut -/

/-- A CR that is held back is owed to the output. -/
def owed (wasCr : Bool) : Nat := if wasCr then 1 else 0

/-- A step writes no more than it has read, but for a CR that was held back. -/
theorem asciiWriterStep_owed (wasCr : Bool) (c : UInt8) :
    (asciiWriterStep wasCr c).2.length + owed (asciiWriterStep wasCr c).1 ≤ owed wasCr + 1 := by
  unfold asciiWriterStep owed
  cases wasCr <;> split_ifs <;> simp_all

namespace AsciiWriter

variable {s t : AsciiWriter}

/-- What holds between the calls: the producer has a buffer only when no CR is held back, and the
bytes taken so far and those in the buffer are the conversion of the stream. -/
structure Inv (s : AsciiWriter) : Prop where
  owes : s.buffer.isSome = true → s.wasCr = false
  fits : ∀ b, s.buffer = some b → b.content.length ≤ b.capacity
  stream : s.finalized = false → Transducer.run asciiWriterStep false s.produced =
    ((Transducer.run asciiWriterStep s.wasCr s.held).1,
      s.received ++ (Transducer.run asciiWriterStep s.wasCr s.held).2)
  final : s.finalized = true → s.received = dropCr s.produced ∧ s.wasCr = false ∧ s.held = []

/-- In the buffer of a producer the loop gives what it would give in a buffer of its own. -/
theorem transform_spec (howes : s.buffer.isSome = true → s.wasCr = false) :
    s.transform.wasCr = (run asciiWriterStep s.wasCr s.held).1 ∧
      s.transform.held = (run asciiWriterStep s.wasCr s.held).2 ∧
      s.transform.received = s.received ∧ s.transform.produced = s.produced ∧
      s.transform.finalized = s.finalized ∧ s.transform.failed = s.failed := by
  unfold transform
  cases hbuffer : s.buffer with
  | none =>
    have hheld : s.held = [] := by simp [held, hbuffer]
    rw [hheld]
    exact ⟨rfl, rfl, rfl, rfl, rfl, rfl⟩
  | some b =>
    have hheld : s.held = b.content := by simp [held, hbuffer]
    rw [hheld]
    dsimp only
    split_ifs with hempty
    · rw [hempty] at hheld ⊢
      exact ⟨rfl, hheld, rfl, rfl, rfl, rfl⟩
    · have hdebt : owed s.wasCr = 0 := by
        rw [howes (by simp [hbuffer])]
        rfl
      obtain ⟨hout, hcr⟩ := inPlace_eq_run asciiWriterStep_owed b.content s.wasCr hdebt
      exact ⟨hcr, hout, rfl, rfl, rfl, rfl⟩

@[simp] theorem held_handOver : s.handOver.held = [] := rfl

@[simp] theorem received_handOver : s.handOver.received = s.received ++ s.held := rfl

@[simp] theorem wasCr_handOver : s.handOver.wasCr = s.wasCr := rfl

@[simp] theorem produced_handOver : s.handOver.produced = s.produced := rfl

/-- After the buffer has been handed over, everything the stream gives so far has been taken. -/
theorem Inv.handOver (h : Inv s) : Inv s.transform.handOver := by
  obtain ⟨hcr, hheld, hreceived, hproduced, hfinalized, -⟩ := transform_spec h.owes
  constructor
  · nofun
  · nofun
  · intro hopen
    rw [produced_handOver, hproduced, h.stream (hfinalized.symm.trans hopen), received_handOver,
      hreceived, hheld, wasCr_handOver, hcr]
    simp [run]
  · intro hclosed
    obtain ⟨hfile, hnone, hempty⟩ := h.final (hfinalized.symm.trans hclosed)
    rw [hnone, hempty] at hcr hheld
    refine ⟨?_, hcr, rfl⟩
    rw [received_handOver, hreceived, hheld, produced_handOver, hproduced, hfile]
    exact append_nil _

/-- A new buffer, empty or with the CR that was held back. -/
theorem Inv.take (h : Inv s) (hheld : s.held = []) (b : WriteBuffer)
    (hb : b.content = if s.wasCr then [cr] else []) (hfits : b.content.length ≤ b.capacity) :
    Inv { s with buffer := some b, wasCr := false } := by
  have hrun : run asciiWriterStep false b.content = (s.wasCr, []) := by
    rw [hb]
    cases s.wasCr <;> rfl
  constructor
  · exact fun _ => rfl
  · rintro _ ⟨⟩
    exact hfits
  · intro hopen
    have hstream := h.stream hopen
    rw [hheld] at hstream
    have hbuffer : ({ s with buffer := some b, wasCr := false } : AsciiWriter).held = b.content :=
      rfl
    rw [hbuffer, hrun]
    exact hstream
  · intro hclosed
    obtain ⟨hfile, hnone, -⟩ := h.final hclosed
    refine ⟨hfile, rfl, ?_⟩
    rw [hnone] at hb
    exact hb

variable {result : AioResult}

/-- The transformed buffer is handed over, and a new one starts with the CR that is owed. -/
theorem Inv.getWriteBuffer (h : Inv s) {capacity : Nat}
    (ht : s.getWriteBuffer result capacity = some t) : t.failed = true ∨ Inv t := by
  have hover := h.handOver
  unfold AsciiWriter.getWriteBuffer at ht
  cases result with
  | error =>
    obtain rfl := some.inj ht
    exact .inl rfl
  | wait =>
    obtain rfl := some.inj ht
    exact .inr hover
  | ok =>
    right
    dsimp only at ht
    cases hcr : s.transform.handOver.wasCr with
    | true =>
      rw [if_pos hcr] at ht
      split at ht <;> cases ht
      rename_i b hb
      unfold WriteBuffer.append at hb
      split_ifs at hb with hroom
      obtain rfl := some.inj hb
      exact hover.take rfl _ (by rw [hcr]; rfl) hroom
    | false =>
      simp only [hcr] at ht
      obtain rfl := some.inj ht
      exact hover.take rfl ⟨[], capacity⟩ (by rw [hcr]; rfl) (Nat.zero_le _)

/-- The producer adds to its buffer. -/
theorem Inv.fill (h : Inv s) (hopen : s.finalized = false) {bytes : List UInt8}
    (ht : s.fill bytes = some t) : Inv t := by
  unfold AsciiWriter.fill at ht
  cases hbuffer : s.buffer with
  | none => simp [hbuffer] at ht
  | some b =>
    have hcr : s.wasCr = false := h.owes (by simp [hbuffer])
    have hheld : s.held = b.content := by simp [held, hbuffer]
    simp only [hbuffer] at ht
    split_ifs at ht with hroom
    obtain rfl := some.inj ht
    constructor
    · exact fun _ => hcr
    · rintro _ ⟨⟩
      rw [length_append]
      exact Nat.not_lt.mp hroom
    · intro _
      have hstream := h.stream hopen
      rw [hcr, hheld] at hstream
      simp only [held, map_some, getD_some, hcr]
      rw [run_append, hstream, run_append]
      simp only [append_assoc]
    · intro hclosed
      rw [show s.finalized = true from hclosed] at hopen
      cases hopen

/-- A CR that is held back at the end goes out after all. -/
theorem appendCr_spec (ht : s.appendCr = some t) :
    t.wasCr = false ∧ t.held = s.held ++ (if s.wasCr then [cr] else []) ∧
      t.received = s.received ∧ t.produced = s.produced ∧ t.finalized = s.finalized := by
  unfold appendCr at ht
  cases hcr : s.wasCr with
  | false =>
    rw [if_neg (by simp [hcr])] at ht
    obtain rfl := some.inj ht
    exact ⟨hcr, (append_nil _).symm, rfl, rfl, rfl⟩
  | true =>
    rw [if_pos hcr] at ht
    cases hbuffer : s.buffer with
    | none => simp [hbuffer] at ht
    | some b =>
      simp only [hbuffer, WriteBuffer.append] at ht
      split_ifs at ht with hroom
      · obtain rfl := some.inj ht
        simp [held, hbuffer]
      · cases ht

/-- At the end of the stream the last buffer is handed over, with the CR that was held back. -/
theorem Inv.finalize (h : Inv s) (ht : s.finalize result = some t) :
    t.failed = true ∨ t.finalized = true ∧ t.received = dropCr s.produced ∧
      t.produced = s.produced ∧ Inv t := by
  obtain ⟨hcr, hheld, hreceived, hproduced, hfinalized, -⟩ := transform_spec h.owes
  obtain ⟨u, hu, hresult⟩ := map_eq_some_iff.mp ht
  obtain ⟨hnone, hlast, hreceived', hproduced', hfinalized'⟩ := appendCr_spec hu
  rw [hreceived] at hreceived'
  rw [hproduced] at hproduced'
  rw [hheld, hcr] at hlast
  -- a held carriage return belongs to the file, also if the call comes twice
  have hfile : u.received ++ u.held = dropCr s.produced := by
    rw [hreceived', hlast]
    cases hs : s.finalized with
    | false => rw [dropCr, h.stream hs, append_assoc]
    | true =>
      obtain ⟨hfile, hwas, hempty⟩ := h.final hs
      rw [hwas, hempty, hfile]
      exact append_nil _
  split_ifs at hresult with herror hempty <;> obtain rfl := hresult
  · exact .inl rfl
  · rw [hempty, append_nil] at hfile
    refine .inr ⟨rfl, hfile, hproduced', fun _ => hnone, ?_, nofun, ?_⟩
    · intro b hb
      rw [held, show u.buffer = some b from hb] at hempty
      rw [show b.content = [] from hempty]
      exact Nat.zero_le _
    intro _
    exact ⟨hfile.trans (by rw [← hproduced']), hnone, hempty⟩
  · refine .inr ⟨rfl, hfile, hproduced', nofun, nofun, nofun, ?_⟩
    intro _
    exact ⟨hfile.trans (by rw [← hproduced']; rfl), hnone, rfl⟩

/-- The buffer keeps its place and its capacity. -/
theorem buffer_transform {b : WriteBuffer} (hb : s.buffer = some b) :
    s.transform.buffer = some { b with content := s.transform.held } := by
  unfold held transform
  rw [hb]
  dsimp only
  split_ifs
  · rw [hb]
    rfl
  · rfl

/-- The CR has room where it was taken out. -/
theorem Inv.appendCr (h : Inv s) (hbuffer : s.transform.wasCr = false ∨ s.buffer.isSome) :
    ∃ t, s.transform.appendCr = some t ∧ t.failed = s.failed := by
  obtain ⟨hcr, hheld, -, -, -, hfailed⟩ := transform_spec h.owes
  unfold AsciiWriter.appendCr
  split_ifs with howed
  · obtain ⟨b, hb⟩ := isSome_iff_exists.mp (hbuffer.resolve_left (by simp [howed]))
    have hlength := length_run_add_debt_le asciiWriterStep_owed s.wasCr s.held
    rw [← hcr, ← hheld, howed, h.owes (by rw [hb]; rfl), show owed false = 0 from rfl,
      Nat.zero_add, show s.held = b.content by simp [held, hb]] at hlength
    have hroom : s.transform.held.length < b.capacity := Nat.le_trans hlength (h.fits b hb)
    rw [buffer_transform hb]
    dsimp only
    rw [WriteBuffer.append, if_pos hroom]
    exact ⟨_, rfl, hfailed⟩
  · exact ⟨_, rfl, hfailed⟩

/-- A transfer can be finalized, if not a CR has been taken out of a buffer that is gone. -/
theorem Inv.exists_finalize (h : Inv s) (hfailed : s.failed = false) (hresult : result ≠ .error)
    (hbuffer : s.transform.wasCr = false ∨ s.buffer.isSome) :
    ∃ t, s.finalize result = some t ∧ t.finalized = true ∧ t.received = dropCr s.produced := by
  obtain ⟨u, hu, hkept⟩ := h.appendCr hbuffer
  have hdefined : ∃ t, s.finalize result = some t ∧ t.failed = false := by
    rw [AsciiWriter.finalize, hu]
    refine ⟨_, rfl, ?_⟩
    dsimp only
    rw [if_neg hresult]
    split_ifs <;> exact hkept.trans hfailed
  obtain ⟨t, ht, hok⟩ := hdefined
  rcases h.finalize ht with hbad | ⟨hfinalized, hreceived, -⟩
  · rw [hok] at hbad
    cases hbad
  · exact ⟨t, ht, hfinalized, hreceived⟩

/-- Every call keeps the invariant, or the writer below has failed. -/
theorem Inv.step (h : s.failed = true ∨ Inv s) {e : AsciiWriterEvent} (hstep : s.step e = some t) :
    t.failed = true ∨ Inv t := by
  rcases h with hfailed | hinv
  · cases e <;> simp [AsciiWriter.step, hfailed] at hstep
  · cases e with
    | getWriteBuffer result capacity =>
      simp only [AsciiWriter.step] at hstep
      split_ifs at hstep
      exact hinv.getWriteBuffer hstep
    | fill bytes =>
      simp only [AsciiWriter.step] at hstep
      split_ifs at hstep with hclosed
      rw [Bool.or_eq_true, not_or, Bool.not_eq_true, Bool.not_eq_true] at hclosed
      exact .inr (hinv.fill hclosed.2 hstep)
    | finalize result =>
      simp only [AsciiWriter.step] at hstep
      split_ifs at hstep
      exact (hinv.finalize hstep).imp_right fun h => h.2.2.2

end AsciiWriter

/-- Whatever the producer does, it has been converted when the transfer ends. -/
theorem asciiWriterSystem_inv {s : AsciiWriter} (h : asciiWriterSystem.Reach s) :
    s.failed = true ∨ s.Inv := by
  refine h.invariant (fun s => s.failed = true ∨ s.Inv) ?_ ?_
  · rintro s rfl
    exact .inr ⟨nofun, nofun, fun _ => rfl, nofun⟩
  · intro s e t hstep hinv
    exact AsciiWriter.Inv.step hinv hstep

/-- For data without a CR, read in any pieces: what the reader sends is the data with a CR before
each LF, at most twice as much in all and for each buffer. A writer that gets it in any pieces, with
any waiting in between, has received the data when it is finalized, and can be finalized when it has
got all of it. -/
theorem asciiTransfer_roundtrip (reads : List (AioResult × List UInt8))
    (hcr : cr ∉ delivered reads) :
    delivered (AsciiReader.readAll ⟨false⟩ reads) = insertCr (delivered reads) ∧
    (delivered (AsciiReader.readAll ⟨false⟩ reads)).length ≤ 2 * (delivered reads).length ∧
    List.Forall₂ (fun below above => above.2.length ≤ 2 * below.2.length) reads
      (AsciiReader.readAll ⟨false⟩ reads) ∧
    ∀ s, asciiWriterSystem.Reach s → s.failed = false →
      s.produced = delivered (AsciiReader.readAll ⟨false⟩ reads) →
      (s.finalized = true → s.received = delivered reads) ∧
      ∀ result, result ≠ .error →
        ∃ t, s.finalize result = some t ∧ t.finalized = true ∧ t.received = delivered reads := by
  have hstream := delivered_readAll hcr
  have hrun := run_asciiWriterStep_insertCr hcr
  have hdrop : dropCr (insertCr (delivered reads)) = delivered reads := by
    rw [dropCr, hrun]
    exact List.append_nil _
  refine ⟨hstream, ?_, forall₂_readAll _ reads, ?_⟩
  · rw [hstream]
    exact length_insertCr_le _
  intro s hs hfailed hproduced
  have hinv : s.Inv := (asciiWriterSystem_inv hs).resolve_left (by simp [hfailed])
  rw [hstream] at hproduced
  constructor
  · intro hfinalized
    rw [(hinv.final hfinalized).1, hproduced, hdrop]
  · intro result hresult
    -- no CR is held back behind the last LF
    have hnone : s.transform.wasCr = false := by
      rw [(AsciiWriter.transform_spec hinv.owes).1]
      cases hfinalized : s.finalized with
      | false =>
        have hstate := congrArg Prod.fst (hinv.stream hfinalized)
        rw [hproduced, hrun] at hstate
        exact hstate.symm
      | true =>
        obtain ⟨-, hwas, hempty⟩ := hinv.final hfinalized
        rw [hwas, hempty]
        rfl
    rw [← hdrop, ← hproduced]
    exact hinv.exists_finalize hfailed hresult (.inl hnone)

/-- Two lines, read in three pieces and written in two. The second piece ends between CR and LF, and
the writer below makes the producer wait there. -/
theorem asciiTransfer_roundtrip_two_lines : let reads : List (AioResult × List UInt8) :=
      [(.ok, [97, lf]), (.wait, []), (.ok, [98]), (.ok, [lf]), (.ok, [])]
    delivered (AsciiReader.readAll ⟨false⟩ reads) = [97, cr, lf, 98, cr, lf] ∧
    ∃ s t, asciiWriterSystem.Run .new
        [.getWriteBuffer .ok 5, .fill [97, cr, lf], .fill [98, cr], .getWriteBuffer .wait 0,
          .getWriteBuffer .ok 5, .fill [lf]] s ∧
      s.finalize .ok = some t ∧ t.finalized = true ∧ t.received = [97, lf, 98, lf] := by
  have hread := asciiTransfer_roundtrip
    [(.ok, [97, lf]), (.wait, []), (.ok, [98]), (.ok, [lf]), (.ok, [])] (by decide)
  have hrun : asciiWriterSystem.Run .new
      [.getWriteBuffer .ok 5, .fill [97, cr, lf], .fill [98, cr], .getWriteBuffer .wait 0,
        .getWriteBuffer .ok 5, .fill [lf]]
      ⟨false, some ⟨[cr, lf], 5⟩, [97, lf, 98], [97, cr, lf, 98, cr, lf], false, false⟩ :=
    Lts.run_ofFun (by decide)
  have hwrite := (hread.2.2.2 _ (Lts.Reach.run (Lts.Reach.init rfl) hrun) rfl (by decide)).2 .ok
    (by decide)
  obtain ⟨t, ht, hfinalized, hreceived⟩ := hwrite
  exact ⟨by decide, _, t, hrun, ht, hfinalized, hreceived.trans (by decide)⟩

/-! ## Streams with other CRs -/

/-- The stream without the CRs that an LF follows. -/
def withoutPairedCr : List UInt8 → List UInt8
  | [] => []
  | c :: rest =>
    if c = cr ∧ rest.head? = some lf then withoutPairedCr rest else c :: withoutPairedCr rest

/-- The writer with a CR held back is where it would be before that CR. -/
theorem run_asciiWriterStep_paired (wasCr : Bool) (stream : List UInt8)
    (h : ((if wasCr then [cr] else []) ++ stream).IsChain fun a b => a = cr → b ≠ cr) :
    (run asciiWriterStep wasCr stream).2 ++
        (if (run asciiWriterStep wasCr stream).1 then [cr] else []) =
      withoutPairedCr ((if wasCr then [cr] else []) ++ stream) := by
  induction stream generalizing wasCr with
  | nil => cases wasCr <;> rfl
  | cons c stream ih =>
    -- no CR follows the one that is held back
    cases wasCr <;> by_cases hcr : c = cr <;> by_cases hc : c = lf <;>
      simp_all [asciiWriterStep, run, withoutPairedCr, isChain_cons]

/-- A stream without two CRs in a row, however it is cut: the file is the stream without the CRs
that an LF follows, and with a buffer at its end, as after reading, the transfer can be finalized.
-/
theorem asciiWriter_drops_paired {s : AsciiWriter} (h : asciiWriterSystem.Reach s)
    (hfailed : s.failed = false) (hchain : s.produced.IsChain fun a b => a = cr → b ≠ cr) :
    (s.finalized = true → s.received = withoutPairedCr s.produced) ∧
    ∀ result, result ≠ .error → s.buffer.isSome = true →
      ∃ t, s.finalize result = some t ∧ t.finalized = true ∧
        t.received = withoutPairedCr s.produced := by
  have hinv : s.Inv := (asciiWriterSystem_inv h).resolve_left (by simp [hfailed])
  have hdrop : dropCr s.produced = withoutPairedCr s.produced :=
    run_asciiWriterStep_paired false s.produced hchain
  rw [← hdrop]
  constructor
  · intro hfinalized
    exact (hinv.final hfinalized).1
  · intro result hresult hbuffer
    exact hinv.exists_finalize hfailed hresult (.inr hbuffer)

/-- A pair that is cut, and a CR at the end. -/
theorem asciiWriter_drops_paired_cut : ∃ s, asciiWriterSystem.Reach s ∧ s.finalized = true ∧
    s.produced = [97, cr, lf, cr] ∧ s.received = [97, lf, cr] := by
  have hreach : asciiWriterSystem.Reach _ := Lts.reach_ofFun
    [.getWriteBuffer .ok 2, .fill [97, cr], .getWriteBuffer .ok 3, .fill [lf, cr], .finalize .ok]
    rfl rfl
  exact ⟨_, hreach, rfl, rfl, (asciiWriter_drops_paired hreach rfl (by decide)).1 rfl⟩

/-- Of two CRs the first is lost. -/
theorem asciiWriter_loses_cr : ∃ s, asciiWriterSystem.Reach s ∧ s.failed = false ∧
    s.finalized = true ∧ s.produced = [97, cr, cr, 98] ∧ s.received = [97, cr, 98] ∧
    withoutPairedCr s.produced = [97, cr, cr, 98] := by
  have hreach : asciiWriterSystem.Reach _ :=
    Lts.reach_ofFun [.getWriteBuffer .ok 4, .fill [97, cr, cr, 98], .finalize .ok] rfl rfl
  exact ⟨_, hreach, rfl, rfl, rfl, rfl, rfl⟩

end FlintZilla
