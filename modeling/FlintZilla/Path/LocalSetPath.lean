import Mathlib.Data.List.TakeWhile
import FlintZilla.Path.LocalPath

/-!
# The canonical form of local paths

`CLocalPath::SetPath` of `engine/local_path.cpp` on systems other than Windows, without the argument
for a file name: an automaton over the characters that drops `.` and empty segments and lets `..` go
back one segment. The text is a C string, so it ends at the first null character.

A path in canonical form is a root and a list of ordinary segments, and `SetPath` keeps it.

Main results:

* `setPathSegments_ofSegments`, `setPath_canonical`: `SetPath` leaves a canonical path, and a
  canonical path as it is.
* `makeParent_ofSegments`: `MakeParent` on canonical paths.
-/

namespace FlintZilla.CLocalPath

open List

/-- `_last`. -/
inductive LastPart where
  | separator
  | dot
  | dotdot
  | segment
deriving DecidableEq

/-- The segments that are finished, the text behind `segments.back()`, and `last`. -/
structure SetPathState where
  segments : List WString
  out : WString
  last : LastPart
deriving DecidableEq

/-- The loop body for one character. -/
def setPathChar (st : SetPathState) (c : Char) : SetPathState :=
  if c = pathSeparator then
    match st.last with
    | .separator => st
    | .dot => ⟨st.segments, [], .separator⟩
    | .dotdot => ⟨st.segments.dropLast, [], .separator⟩
    | .segment => ⟨st.segments ++ [st.out], [], .separator⟩
  else if c = '.' then
    match st.last with
    | .separator => ⟨st.segments, st.out ++ [c], .dot⟩
    | .dot => ⟨st.segments, st.out ++ [c], .dotdot⟩
    | .dotdot => ⟨st.segments, st.out ++ [c], .segment⟩
    | .segment => ⟨st.segments, st.out ++ [c], .segment⟩
  else ⟨st.segments, st.out ++ [c], .segment⟩

/-- What is done behind the loop. -/
def setPathEnd (st : SetPathState) : List WString :=
  match st.last with
  | .separator => st.segments
  | .dot => st.segments
  | .dotdot => st.segments.dropLast
  | .segment => st.segments ++ [st.out]

/-- The text of a path with these segments. -/
def ofSegments (segments : List WString) : CLocalPath :=
  ⟨pathSeparator :: segments.flatMap (· ++ [pathSeparator])⟩

/-- The segments that `SetPath` finds in a text. -/
def setPathSegments (path : WString) : Option (List WString) :=
  match path.takeWhile (· != '\x00') with
  | [] => none
  | c :: rest =>
    -- only absolute paths are accepted
    if c ≠ pathSeparator then none
    else some (setPathEnd (rest.foldl setPathChar ⟨[], [], .separator⟩))

/-- `CLocalPath::SetPath`. -/
def setPath (path : WString) : Bool × CLocalPath :=
  match setPathSegments path with
  | none => (false, {})
  | some segments => (true, ofSegments segments)

/-! ## Canonical paths -/

/-- A segment that names a directory. -/
structure Ordinary (segment : WString) : Prop where
  ne_nil : segment ≠ []
  ne_dot : segment ≠ ['.']
  ne_dotdot : segment ≠ ['.', '.']
  chars : ∀ c ∈ segment, c ≠ pathSeparator ∧ c ≠ '\x00'

/-- The value of `last` behind a text without separators. -/
def lastOf (out : WString) : LastPart :=
  if out = [] then .separator
  else if out = ['.'] then .dot
  else if out = ['.', '.'] then .dotdot
  else .segment

/-- A dot behind the segment so far. -/
theorem lastOf_concat_dot (out : WString) : lastOf (out ++ ['.']) =
    match lastOf out with
    | .separator => .dot
    | .dot => .dotdot
    | .dotdot => .segment
    | .segment => .segment := by
  match out with
  | [] => rfl
  | [x] =>
    by_cases hx : x = '.'
    · subst hx
      rfl
    · simp [lastOf, hx]
  | [x, y] =>
    by_cases hxy : x = '.' ∧ y = '.'
    · obtain ⟨rfl, rfl⟩ := hxy
      rfl
    · simp [lastOf, hxy]
  | x :: y :: z :: rest => simp [lastOf]

variable {segments : List WString} {st : SetPathState} {segment : WString} {text : WString}
  {c : Char}

theorem lastOf_concat_of_ne (hc : c ≠ '.') (out : WString) : lastOf (out ++ [c]) = .segment := by
  match out with
  | [] => simp [lastOf, hc]
  | [x] => simp [lastOf, hc]
  | x :: y :: rest => simp [lastOf]

/-- A character that is no separator goes to the segment, whose kind is kept. -/
theorem setPathChar_eq {out : WString} (hc : c ≠ pathSeparator) :
    setPathChar ⟨segments, out, lastOf out⟩ c = ⟨segments, out ++ [c], lastOf (out ++ [c])⟩ := by
  unfold setPathChar
  rw [if_neg hc]
  by_cases hdot : c = '.'
  · subst hdot
    rw [lastOf_concat_dot]
    cases lastOf out <;> rfl
  · rw [if_neg hdot, lastOf_concat_of_ne hdot]

/-- Characters other than separators are collected. -/
theorem foldl_setPathChar (segments : List WString) (out : WString)
    (h : ∀ c ∈ text, c ≠ pathSeparator) :
    text.foldl setPathChar ⟨segments, out, lastOf out⟩ =
      ⟨segments, out ++ text, lastOf (out ++ text)⟩ := by
  induction text generalizing out with
  | nil => simp
  | cons c text ih =>
    rw [foldl_cons, setPathChar_eq (h c mem_cons_self),
      ih _ fun x hx => h x (mem_cons_of_mem c hx), append_assoc]
    rfl

/-- An ordinary segment is no dots. -/
theorem lastOf_ordinary (h : Ordinary segment) : lastOf segment = .segment := by
  unfold lastOf
  rw [if_neg h.ne_nil, if_neg h.ne_dot, if_neg h.ne_dotdot]

/-- Ordinary segments are kept one after the other. -/
theorem foldl_setPathChar_flatMap {segments more : List WString} (h : ∀ s ∈ more, Ordinary s) :
    (more.flatMap (· ++ [pathSeparator])).foldl setPathChar ⟨segments, [], .separator⟩ =
      ⟨segments ++ more, [], .separator⟩ := by
  induction more generalizing segments with
  | nil => simp
  | cons s more ih =>
    have hs := h s mem_cons_self
    have hcollect := foldl_setPathChar segments []
      fun c hc => (hs.chars c hc).1
    rw [flatMap_cons, foldl_append, foldl_append,
      show LastPart.separator = lastOf [] from rfl, hcollect, nil_append, lastOf_ordinary hs]
    refine (ih fun x hx => h x (mem_cons_of_mem s hx)).trans ?_
    rw [append_assoc]
    rfl

/-- A canonical path is a C string as it stands. -/
theorem ofSegments_nul (h : ∀ s ∈ segments, Ordinary s) :
    (ofSegments segments).path.takeWhile (· != '\x00') = (ofSegments segments).path := by
  rw [takeWhile_eq_self_iff]
  intro c hc
  rw [bne_iff_ne]
  rcases mem_cons.mp hc with rfl | hc
  · decide
  · obtain ⟨s, hs, hcs⟩ := mem_flatMap.mp hc
    rcases mem_append.mp hcs with hcs | hcs
    · exact ((h s hs).chars c hcs).2
    · cases mem_singleton.mp hcs
      decide

/-- A path in canonical form is kept. -/
theorem setPathSegments_ofSegments (h : ∀ s ∈ segments, Ordinary s) :
    setPathSegments (ofSegments segments).path = some segments := by
  unfold setPathSegments
  rw [ofSegments_nul h]
  unfold ofSegments
  dsimp only
  rw [foldl_setPathChar_flatMap h]
  rfl

/-- Every state of the automaton: the finished segments are ordinary. -/
structure SetPathOk (st : SetPathState) : Prop where
  segments : ∀ s ∈ st.segments, Ordinary s
  out : ∀ c ∈ st.out, c ≠ pathSeparator ∧ c ≠ '\x00'
  last : st.last = lastOf st.out

/-- A segment that is complete is ordinary. -/
theorem SetPathOk.ordinary (h : SetPathOk st) (hlast : st.last = .segment) : Ordinary st.out := by
  have hout := h.last.symm.trans hlast
  unfold lastOf at hout
  refine ⟨?_, ?_, ?_, h.out⟩
  · intro hnil
    rw [if_pos hnil] at hout
    cases hout
  · intro hdot
    rw [hdot] at hout
    cases hout
  · intro hdots
    rw [hdots] at hout
    cases hout

theorem SetPathOk.concat (h : SetPathOk st) (hlast : st.last = .segment) :
    ∀ s ∈ st.segments ++ [st.out], Ordinary s := by
  exact forall_mem_append.mpr ⟨h.segments, forall_mem_singleton.mpr (h.ordinary hlast)⟩

/-- One character. -/
theorem SetPathOk.char (h : SetPathOk st) (hc : c ≠ '\x00') : SetPathOk (setPathChar st c) := by
  by_cases hsep : c = pathSeparator
  · unfold setPathChar
    rw [if_pos hsep]
    split
    · exact h
    · exact ⟨h.segments, by simp, rfl⟩
    · exact ⟨fun s hs => h.segments s (mem_of_mem_dropLast hs), by simp, rfl⟩
    · next hlast => exact ⟨h.concat hlast, by simp, rfl⟩
  · obtain ⟨segments, out, last⟩ := st
    obtain rfl : last = lastOf out := h.last
    rw [setPathChar_eq hsep]
    refine ⟨h.segments, ?_, rfl⟩
    exact forall_mem_append.mpr ⟨h.out, forall_mem_singleton.mpr ⟨hsep, hc⟩⟩

theorem SetPathOk.foldl (h : SetPathOk st) (htext : ∀ c ∈ text, c ≠ '\x00') :
    SetPathOk (text.foldl setPathChar st) := by
  induction text generalizing st with
  | nil => exact h
  | cons c text ih =>
    exact ih (h.char (htext c mem_cons_self)) fun x hx => htext x (mem_cons_of_mem c hx)

/-- `SetPath` ensures that the path is in canonical form on success. -/
theorem setPath_canonical {p : CLocalPath} (h : setPath text = (true, p)) :
    ∃ segments, (∀ s ∈ segments, Ordinary s) ∧ p = ofSegments segments := by
  unfold setPath at h
  split at h
  · cases h
  · next segments hsegments =>
    cases h
    refine ⟨segments, ?_, rfl⟩
    unfold setPathSegments at hsegments
    split at hsegments
    · cases hsegments
    · next c rest htext =>
      split at hsegments
      · cases hsegments
      · cases hsegments
        have hnul : ∀ x ∈ rest, x ≠ '\x00' := by
          intro x hx
          have hmem : x ∈ text.takeWhile (· != '\x00') := by
            rw [htext]
            exact mem_cons_of_mem c hx
          simpa using mem_takeWhile_imp hmem
        have hok : SetPathOk (rest.foldl setPathChar ⟨[], [], .separator⟩) :=
          SetPathOk.foldl ⟨by simp, by simp, rfl⟩ hnul
        -- what stands behind the last separator: nothing, a dot, two dots or a name
        unfold setPathEnd
        split
        · exact hok.segments
        · exact hok.segments
        · exact fun s hs => hok.segments s (mem_of_mem_dropLast hs)
        · next hlast => exact hok.concat hlast

/-! ## Segments below a path -/

theorem addSegment_ofSegments (h : segment ≠ []) :
    (ofSegments segments).addSegment segment = ofSegments (segments ++ [segment]) := by
  simp [addSegment, h, ofSegments]

theorem ofSegments_concat (segments : List WString) :
    ∃ u, (ofSegments segments).path = u ++ [pathSeparator] := by
  obtain rfl | ⟨init, segment, rfl⟩ := eq_nil_or_concat' segments
  · exact ⟨[], rfl⟩
  · refine ⟨(ofSegments init).path ++ segment, ?_⟩
    simp [ofSegments]

/-- What stands behind the last separator of a text is left out. -/
def directoryPart (text : WString) : WString :=
  match Lib.Search.rfind (· == pathSeparator) text with
  | some i => text.take (i + 1)
  | none => []

variable {name : WString}

/-- The last separator is the one in front of the name. -/
theorem rfind_ofSegments (segments : List WString) (h : ∀ c ∈ name, c ≠ pathSeparator) :
    ∃ i, Lib.Search.rfind (· == pathSeparator) ((ofSegments segments).path ++ name) = some i ∧
      ((ofSegments segments).path ++ name).take (i + 1) = (ofSegments segments).path := by
  obtain ⟨u, hu⟩ := ofSegments_concat segments
  refine ⟨u.length, ?_, ?_⟩
  · rw [hu, append_assoc]
    exact Lib.Search.rfind_append_cons (fun c hc => beq_eq_false_iff_ne.mpr (h c hc)) (by simp)
  · rw [hu]
    exact take_left' (by simp)

/-- The name goes, the directory stays. -/
theorem directoryPart_append (segments : List WString) (h : ∀ c ∈ name, c ≠ pathSeparator) :
    directoryPart ((ofSegments segments).path ++ name) = (ofSegments segments).path := by
  obtain ⟨i, hi, htake⟩ := rfind_ofSegments segments h
  unfold directoryPart
  rw [hi]
  exact htake

/-- The parent of a path in canonical form that has one. -/
theorem makeParent_ofSegments (h : Ordinary segment) :
    (ofSegments (segments ++ [segment])).makeParent.2 = ofSegments segments := by
  have htext : (ofSegments (segments ++ [segment])).path =
      (ofSegments segments).path ++ segment ++ [pathSeparator] := by
    simp [ofSegments]
  obtain ⟨i, hi, htake⟩ := rfind_ofSegments segments fun c hc => (h.chars c hc).1
  have hlength : i + 1 ≤ ((ofSegments segments).path ++ segment).length := by
    have := congrArg length htake
    rw [length_take, length_append] at this
    rw [length_append]
    by_contra hlt
    exact h.ne_nil (eq_nil_of_length_eq_zero (by omega))
  unfold makeParent
  rw [htext, dropLast_concat, hi]
  dsimp only
  rw [take_append_of_le_length hlength, htake]

end FlintZilla.CLocalPath
