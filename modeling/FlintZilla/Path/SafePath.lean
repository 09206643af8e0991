import Mathlib.Data.List.TakeWhile
import FlintZilla.Path.ServerPath
import FlintZilla.Lib.Decimal
import FlintZilla.Lib.Cursor

/-!
# The serialised form of a path

`GetSafePath` computes a length, then writes the type, the prefix and the segments, each with its
length in decimal, through a raw pointer. `SetSafePath` walks such a text with another pointer. The
writer is a chain of cursor operations, so a result at all means that it stayed in its buffer; the
reader works on the text with its terminating zero.

Main results:

* `getSafePath_eq`: the writer stays in its buffer and writes the text that it should.
* `setSafePath_getSafePath`: the reader reads it back.
-/

namespace FlintZilla

open Lib Lib.Decimal List Nat Option Cursor CServerPath

/-- `static_cast<int>(type)`. -/
def ServerType.index : ServerType → Nat
  | .default => 0
  | .unix => 1
  | .vms => 2
  | .dos => 3
  | .mvs => 4
  | .vxworks => 5
  | .zvm => 6
  | .hpNonstop => 7
  | .dosVirtual => 8
  | .cygwin => 9
  | .dosFwdSlashes => 10

/-- `static_cast<ServerType>(type)` of a number below `SERVERTYPE_MAX`. -/
def ServerType.ofIndex : Nat → ServerType
  | 1 => .unix
  | 2 => .vms
  | 3 => .dos
  | 4 => .mvs
  | 5 => .vxworks
  | 6 => .zvm
  | 7 => .hpNonstop
  | 8 => .dosVirtual
  | 9 => .cygwin
  | 10 => .dosFwdSlashes
  | _ => .default

theorem ServerType.ofIndex_index (t : ServerType) : ServerType.ofIndex t.index = t := by
  cases t <;> rfl

/-- `INTLENGTH`, also the size of the scratch array of `fast_sprint_number`. -/
def intLength : Nat := 20

/-- The character that ends a C string. -/
def nul : Char := '\x00'

/-! ## Writing -/

/-- `fast_sprint_number`. -/
def fastSprintNumber (t : Cursor Char) (n : Nat) : Option (Cursor Char) :=
  (digitsLE intLength n).bind fun tmp => t.puts tmp.reverse

/-- `tstrcpy(t, s.c_str()); t += s.size()`: the copy stops at the first zero and writes one. -/
def tstrcpy (t : Cursor Char) (s : WString) : Option (Cursor Char) :=
  (t.copy (s.takeWhile (· ≠ nul) ++ [nul])).bind fun t => t.advance s.length

/-- The length `GetSafePath` computes before it writes. -/
def safePathLength (data : CServerPathData) : Nat :=
  5 + intLength + (data.pfx.getD []).length +
    (data.segments.map fun segment => segment.length + 2 + intLength).sum

def writePrefix (pfx : Option WString) (t : Cursor Char) : Option (Cursor Char) :=
  match pfx with
  | none => some t
  | some x => (t.put ' ').bind fun t => tstrcpy t x

def writeSegment (t : Cursor Char) (segment : WString) : Option (Cursor Char) :=
  (t.put ' ').bind fun t => (fastSprintNumber t segment.length).bind fun t =>
    (t.put ' ').bind fun t => tstrcpy t segment

def writeSafePath (type : ServerType) (data : CServerPathData) (t : Cursor Char) :
    Option (Cursor Char) :=
  (fastSprintNumber t type.index).bind fun t => (t.put ' ').bind fun t =>
    (fastSprintNumber t (data.pfx.getD []).length).bind fun t =>
      (writePrefix data.pfx t).bind fun t => data.segments.foldlM writeSegment t

/-- `CServerPath::GetSafePath`; `none` is a write outside the buffer. -/
def CServerPath.getSafePath (p : CServerPath) : Option WString :=
  match p.data with
  | none => some []
  | some data =>
    (writeSafePath p.type data ⟨[], List.replicate (safePathLength data) nul⟩).map (·.before)

/-! ## Reading -/

/-- The limit on the lengths in a safe path. -/
def saneLength : Nat := 32767

/-- The loop over the segments; the text ends with its zero, and the pointer may stand one behind
it. Every round consumes at least two characters of the text, so its length is enough fuel. -/
def readSegments : Nat → WString → List WString → Option (List WString)
  | 0, _, _ => none
  | fuel + 1, s, segments =>
    if s.length ≤ 1 then some segments
    else match scan saneLength (· == ' ') 0 s with
      | none => none
      | some (len, rest) =>
        let s := rest.drop 1
        if len = 0 then none
        else if s.length - 1 < len then none
        else readSegments fuel (s.drop (len + 1)) (segments ++ [s.take len])

/-- The part of `DoSetSafePath` behind the type. -/
def readSafeData (s : WString) : Option CServerPathData :=
  match scan saneLength (fun c => c == nul || c == ' ') 0 s with
  | none => none
  | some (len, rest) =>
    if rest.head? = some nul then
      -- a root directory
      if len = 0 then some {} else none
    else
      let s := rest.drop 1
      if s.length - 1 < len then none
      else
        let pfx := if len = 0 then none else some (s.take len)
        let s := if len = 0 then s else s.drop (len + 1)
        (readSegments (s.length + 1) s []).map fun segments => ⟨segments, pfx⟩

namespace CServerPath

/-- `CServerPath::DoSetSafePath`: the type changes once it is read, even if the rest is not. -/
def doSetSafePath (p : CServerPath) (path : WString) : ServerType × Option CServerPathData :=
  match scan 10 (· == ' ') 0 (path ++ [nul]) with
  | none => (p.type, none)
  | some (type, rest) => (ServerType.ofIndex type, readSafeData (rest.drop 1))

/-- `CServerPath::SetSafePath`: the result and the path after the call. -/
def setSafePath (p : CServerPath) (path : WString) : Bool × CServerPath :=
  let r := p.doSetSafePath path
  (r.2.isSome, ⟨r.1, r.2⟩)

end CServerPath

/-! ## What is written -/

/-- The decimal text of a number. -/
def decimalText (n : Nat) : WString := ((digitsLE intLength n).getD []).reverse

def segmentText (segment : WString) : WString :=
  ' ' :: (decimalText segment.length ++ ' ' :: segment)

def prefixText (pfx : Option WString) : WString :=
  match pfx with
  | none => []
  | some x => ' ' :: x

def safeText (type : ServerType) (data : CServerPathData) : WString :=
  decimalText type.index ++ ' ' :: (decimalText (data.pfx.getD []).length ++
    (prefixText data.pfx ++ data.segments.flatMap segmentText))

/-- A text that the serialised form carries: free of zeros and of a bounded positive length. -/
structure SafeText (s : WString) : Prop where
  nulFree : ∀ c ∈ s, c ≠ nul
  ne_nil : s ≠ []
  sane : s.length ≤ saneLength

/-- The condition on the prefix and the segments of a path. -/
structure SafeData (d : CServerPathData) : Prop where
  pfx : ∀ x, d.pfx = some x → SafeText x
  segments : ∀ w ∈ d.segments, SafeText w

variable {d : CServerPathData} {t : ServerType} {n : Nat}

theorem digitsLE_intLength (h : n < 2 ^ 64) :
    ∃ ds, digitsLE intLength n = some ds ∧ ds.length ≤ intLength :=
  digitsLE_isSome (lt_trans h (by decide))

/-- The digits fit in the scratch array. -/
theorem length_decimalText (h : n < 2 ^ 64) : (decimalText n).length ≤ intLength := by
  obtain ⟨ds, hds, hlen⟩ := digitsLE_intLength h
  simpa [decimalText, hds] using hlen

theorem wrote_fastSprintNumber (h : n < 2 ^ 64) :
    Cursor.Wrote (fun t => fastSprintNumber t n) (decimalText n) 0 := by
  obtain ⟨ds, hds, -⟩ := digitsLE_intLength h
  simp only [fastSprintNumber, decimalText, hds]
  exact wrote_puts ds.reverse

/-- The copy writes a zero behind the text. -/
theorem wrote_tstrcpy {s : WString} (h : ∀ c ∈ s, c ≠ nul) :
    Cursor.Wrote (fun t => tstrcpy t s) s 1 := by
  have hall : s.takeWhile (· ≠ nul) = s := by
    rw [takeWhile_eq_self_iff]
    intro c hc
    simpa using h c hc
  unfold tstrcpy
  rw [hall]
  exact wrote_copy_advance s nul

theorem wrote_writeSegment {w : WString} (h : SafeText w) :
    Cursor.Wrote (fun t => writeSegment t w) (segmentText w) 1 := by
  have hlen : w.length < 2 ^ 64 := lt_of_le_of_lt h.sane (by decide)
  have hput := (wrote_put ' ').mono (zero_le 1)
  have hnum := (wrote_fastSprintNumber hlen).mono (zero_le 1)
  exact hput.bind (hnum.bind (hput.bind (wrote_tstrcpy h.nulFree)))

theorem wrote_writePrefix {pfx : Option WString} (h : ∀ x, pfx = some x → SafeText x) :
    Cursor.Wrote (writePrefix pfx) (prefixText pfx) 1 := by
  cases pfx with
  | none => exact wrote_nil.mono (zero_le 1)
  | some x => exact ((wrote_put ' ').mono (zero_le 1)).bind (wrote_tstrcpy (h x rfl).nulFree)

/-- All parts, one after the other. -/
theorem wrote_writeSafePath (h : SafeData d) :
    Cursor.Wrote (writeSafePath t d) (safeText t d) 1 := by
  have htype : t.index < 2 ^ 64 := by cases t <;> decide
  have hpfx : (d.pfx.getD []).length < 2 ^ 64 := by
    cases hp : d.pfx with
    | none => decide
    | some x => exact lt_of_le_of_lt (h.pfx x hp).sane (by decide)
  have hput := (wrote_put ' ').mono (zero_le 1)
  have hsegs := wrote_foldlM (k := 1) fun w hw => wrote_writeSegment (h.segments w hw)
  exact ((wrote_fastSprintNumber htype).mono (zero_le 1)).bind (hput.bind
    (((wrote_fastSprintNumber hpfx).mono (zero_le 1)).bind ((wrote_writePrefix h.pfx).bind hsegs)))

/-- The precomputed length covers the text and its terminating zero. -/
theorem length_safeText_lt (h : SafeData d) : (safeText t d).length + 1 ≤ safePathLength d := by
  have htype : (decimalText t.index).length ≤ 2 := by cases t <;> decide
  have hpfx : (decimalText (d.pfx.getD []).length).length + (prefixText d.pfx).length ≤
      intLength + 1 + (d.pfx.getD []).length := by
    cases hp : d.pfx with
    | none => decide
    | some x =>
      have hlen := length_decimalText (lt_of_le_of_lt (h.pfx x hp).sane (by decide))
      simp only [prefixText, getD_some, length_cons]
      omega
  have hsegs : (d.segments.flatMap segmentText).length ≤
      (d.segments.map fun segment => segment.length + 2 + intLength).sum := by
    rw [length_flatMap]
    refine sum_le_sum fun w hw => ?_
    have hlen := length_decimalText (lt_of_le_of_lt (h.segments w hw).sane (by decide))
    simp only [segmentText, length_cons, length_append]
    omega
  simp only [safeText, safePathLength, length_append, length_cons]
  omega

/-- `GetSafePath` stays in its buffer and returns the text. -/
theorem getSafePath_eq (h : SafeData d) : (mk t (some d)).getSafePath = some (safeText t d) := by
  obtain ⟨c, hc, hbefore, -⟩ := wrote_writeSafePath (t := t) h
    ⟨[], replicate (safePathLength d) nul⟩ (by simpa using length_safeText_lt h)
  simp only [getSafePath, hc, map_some, hbefore, nil_append]

/-! ## What is read back -/

/-- The characters that end a number are not digits. -/
theorem stop_of_isDigit {d : Char} (h : isDigit d) : (d == ' ') = false ∧ (d == nul) = false := by
  constructor
  · rw [beq_eq_false_iff_ne]
    rintro rfl
    exact absurd h (by decide)
  · rw [beq_eq_false_iff_ne]
    rintro rfl
    exact absurd h (by decide)

/-- A number is read back if it is within the limit. -/
theorem scan_decimalText {limit n : Nat} {stop : Char → Bool} {c : Char} {rest : WString}
    (hn : n < 2 ^ 64) (hlim : n ≤ limit) (hstop : stop c)
    (hdig : ∀ d, isDigit d = true → stop d = false) :
    scan limit stop 0 (decimalText n ++ c :: rest) = some (n, c :: rest) := by
  obtain ⟨ds, hds, -⟩ := digitsLE_intLength hn
  obtain ⟨hne, hall, hval⟩ := digitsLE_spec hds
  have htext : decimalText n = ds.reverse := by rw [decimalText, hds, getD_some]
  rw [htext, scan_digits (by simpa using hne) ?_ (by rw [hval]; exact hlim) hstop, hval]
  intro d hd
  have hd' := hall d (mem_reverse.mp hd)
  exact ⟨hd', hdig d hd'⟩

/-- The rest of the text behind the blank that starts the first of `segs`. -/
def segmentsTail (segs : List WString) : WString := (segs.flatMap segmentText ++ [nul]).drop 1

theorem segmentsTail_cons (w : WString) (ws : List WString) :
    segmentsTail (w :: ws) =
      decimalText w.length ++ ' ' :: (w ++ (ws.flatMap segmentText ++ [nul])) := by
  simp [segmentsTail, segmentText]

/-- Each segment takes at least one character. -/
theorem length_segmentsTail (segs : List WString) : segs.length ≤ (segmentsTail segs).length := by
  have h : segs.length ≤ (segs.flatMap segmentText).length := by
    induction segs with
    | nil => simp
    | cons w ws ih =>
      rw [flatMap_cons, length_append]
      simp only [segmentText, length_cons]
      omega
  simpa [segmentsTail] using h

/-- The loop over the segments reads them back, given fuel for each. -/
theorem readSegments_segmentsTail {segs : List WString} (h : ∀ w ∈ segs, SafeText w)
    {fuel : Nat} (hfuel : segs.length < fuel) (acc : List WString) :
    readSegments fuel (segmentsTail segs) acc = some (acc ++ segs) := by
  induction segs generalizing fuel acc with
  | nil =>
    obtain ⟨fuel, rfl⟩ := exists_eq_succ_of_ne_zero (ne_of_gt hfuel)
    simp [readSegments, segmentsTail]
  | cons w ws ih =>
    obtain ⟨fuel, rfl⟩ := exists_eq_succ_of_ne_zero (by omega : fuel ≠ 0)
    have hw := h w (by simp)
    have hpos : 0 < w.length := length_pos_of_ne_nil hw.ne_nil
    have hscan : scan saneLength (· == ' ') 0 (segmentsTail (w :: ws)) =
        some (w.length, ' ' :: (w ++ (ws.flatMap segmentText ++ [nul]))) := by
      rw [segmentsTail_cons]
      exact scan_decimalText (lt_of_le_of_lt hw.sane (by decide)) hw.sane rfl
        fun d hd => (stop_of_isDigit hd).1
    have hlong : ¬ (segmentsTail (w :: ws)).length ≤ 1 := by
      rw [segmentsTail_cons]
      simp only [length_append, length_cons]
      omega
    have hrest : (w ++ (ws.flatMap segmentText ++ [nul])).drop (w.length + 1) =
        segmentsTail ws := by
      rw [← drop_drop, drop_left]
      rfl
    have hfit : ¬ (w ++ (ws.flatMap segmentText ++ [nul])).length - 1 < w.length := by
      simp only [length_append, length_singleton]
      omega
    simp only [readSegments, hlong, hscan, drop_one, tail_cons, hrest, ne_of_gt hpos]
    rw [ih (fun v hv => h v (by simp [hv])) (by simpa using hfuel)]
    simp

/-- The prefix and then the segments. -/
theorem readSafeData_safeText (h : SafeData d) : readSafeData (decimalText (d.pfx.getD []).length ++
      (prefixText d.pfx ++ d.segments.flatMap segmentText) ++ [nul]) = some d := by
  obtain ⟨segs, pfx⟩ := d
  have hdig : ∀ c, isDigit c = true → (c == nul || c == ' ') = false := by
    intro c hc
    simp [stop_of_isDigit hc]
  have hsegs := readSegments_segmentsTail h.segments
    (lt_succ_of_le (length_segmentsTail segs)) []
  have hblank : (some ' ' : Option Char) ≠ some nul := by decide
  cases pfx with
  | none =>
    cases segs with
    | nil => decide
    | cons w ws =>
      -- the blank behind the zero length is the one in front of the first segment
      have htext : decimalText 0 ++ ([] ++ (w :: ws).flatMap segmentText) ++ [nul] =
          decimalText 0 ++ ' ' :: segmentsTail (w :: ws) := by
        simp [segmentsTail, segmentText]
      have hscan : scan saneLength (fun c => c == nul || c == ' ') 0
          (decimalText 0 ++ ' ' :: segmentsTail (w :: ws)) =
          some (0, ' ' :: segmentsTail (w :: ws)) :=
        scan_decimalText (by decide) (zero_le _) rfl hdig
      simp only [readSafeData, getD_none, length_nil, prefixText, htext, hscan, reduceIte, drop_one,
        tail_cons, hsegs]
      rfl
  | some x =>
    have hx := h.pfx x rfl
    have htext : decimalText x.length ++ (' ' :: x ++ segs.flatMap segmentText) ++ [nul] =
        decimalText x.length ++ ' ' :: (x ++ (segs.flatMap segmentText ++ [nul])) := by
      simp
    have hscan : scan saneLength (fun c => c == nul || c == ' ') 0
        (decimalText x.length ++ ' ' :: (x ++ (segs.flatMap segmentText ++ [nul]))) =
        some (x.length, ' ' :: (x ++ (segs.flatMap segmentText ++ [nul]))) :=
      scan_decimalText (lt_of_le_of_lt hx.sane (by decide)) hx.sane rfl hdig
    have hfit : ¬ (x ++ (segs.flatMap segmentText ++ [nul])).length - 1 < x.length := by
      simp only [length_append, length_singleton]
      omega
    have hrest : (x ++ (segs.flatMap segmentText ++ [nul])).drop (x.length + 1) =
        segmentsTail segs := by
      rw [← drop_drop, drop_left]
      rfl
    have hpos : x.length ≠ 0 := by simpa using hx.ne_nil
    simp only [readSafeData, getD_some, prefixText, htext, hscan,
      reduceIte, drop_one, tail_cons, hfit, hpos, take_left, hrest, hsegs]
    rfl

theorem setSafePath_safeText (q : CServerPath) (h : SafeData d) :
    q.setSafePath (safeText t d) = (true, ⟨t, some d⟩) := by
  have hscan : scan 10 (· == ' ') 0 (safeText t d ++ [nul]) =
      some (t.index, ' ' :: (decimalText (d.pfx.getD []).length ++
        (prefixText d.pfx ++ d.segments.flatMap segmentText) ++ [nul])) := by
    rw [safeText, append_assoc]
    exact scan_decimalText (by cases t <;> decide) (by cases t <;> decide) rfl
      fun c hc => (stop_of_isDigit hc).1
  simp only [setSafePath, doSetSafePath, hscan, ServerType.ofIndex_index,
    drop_one, tail_cons, readSafeData_safeText h, isSome_some]

/-- For every nonempty path with safe prefix and segments, `GetSafePath` writes its text and the
terminating zero within the length it computed, and `SetSafePath` on any path reads the path back
from it. -/
theorem setSafePath_getSafePath {p : CServerPath} {d : CServerPathData} (hp : p.data = some d)
    (h : SafeData d) (q : CServerPath) :
    ∃ s, p.getSafePath = some s ∧ s.length + 1 ≤ safePathLength d ∧
      q.setSafePath s = (true, p) := by
  obtain ⟨t, data⟩ := p
  have hd : data = some d := hp
  subst hd
  exact ⟨safeText t d, getSafePath_eq h, length_safeText_lt h, setSafePath_safeText q h⟩

/-- A segment made of digits and blanks, behind a VxWorks prefix. -/
theorem setSafePath_getSafePath_vxworks :
    (CServerPath.mk .vxworks (some ⟨["3 a".toList, "10".toList], some ":d:".toList⟩)).getSafePath =
        some "5 3 :d: 3 3 a 2 10".toList ∧
      CServerPath.setSafePath ⟨.default, none⟩ "5 3 :d: 3 3 a 2 10".toList =
        (true, ⟨.vxworks, some ⟨["3 a".toList, "10".toList], some ":d:".toList⟩⟩) := by
  have htext : (CServerPath.mk .vxworks
      (some ⟨["3 a".toList, "10".toList], some ":d:".toList⟩)).getSafePath =
      some "5 3 :d: 3 3 a 2 10".toList := by decide
  have hsafe : SafeData ⟨["3 a".toList, "10".toList], some ":d:".toList⟩ := by
    constructor
    · intro x hx
      cases hx
      exact ⟨by decide, by decide, by decide⟩
    · intro w hw
      have hw' : w = "3 a".toList ∨ w = "10".toList := by simpa using hw
      rcases hw' with rfl | rfl <;> exact ⟨by decide, by decide, by decide⟩
  obtain ⟨s, hs, -, hread⟩ :=
    setSafePath_getSafePath (p := ⟨.vxworks, _⟩) rfl hsafe ⟨.default, none⟩
  cases hs
  exact ⟨htext, hread⟩

end FlintZilla
