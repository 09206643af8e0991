import FlintZilla.Path.ServerPath

/-!
# Paths of sites

The paths of the site manager: `EscapeSegment` and `BuildPath` of `commonui/site_manager.cpp` write
the names of the folders and of the site, and `UnescapeSitePath` reads them back. Slashes within
names are escaped with a backslash, as are backslashes.

Main results:

* `unescapeSitePath_buildPath`: the names of the folders are read as they were written.
-/

namespace FlintZilla.SiteManager

open List

/-- `fz::replace_substrings` for a single character. -/
def replaceSubstrings (find : Char) (replacement text : WString) : WString :=
  text.flatMap fun c => if c = find then replacement else [c]

def escapeSegment (segment : WString) : WString :=
  replaceSubstrings '/' ['\\', '/'] (replaceSubstrings '\\' ['\\', '\\'] segment)

def buildPath (root : Char) (segments : List WString) : WString :=
  root :: segments.flatMap fun segment => '/' :: escapeSegment segment

/-- The variables of `UnescapeSitePath`. -/
structure Unescaping where
  result : List WString := []
  name : WString := []
  lastBackslash : Bool := false

namespace Unescaping

/-- The result with the name, if there is one. -/
def push (u : Unescaping) : List WString := if u.name = [] then u.result else u.result ++ [u.name]

/-- The loop body for one character. -/
def char (u : Unescaping) (c : Char) : Unescaping :=
  if c = '\\' then
    if u.lastBackslash then { u with name := u.name ++ ['\\'], lastBackslash := false }
    else { u with lastBackslash := true }
  else if c = '/' then
    if u.lastBackslash then { u with name := u.name ++ ['/'], lastBackslash := false }
    else { u with result := u.push, name := [] }
  else { u with name := u.name ++ [c] }

end Unescaping

/-- `UnescapeSitePath`; the text ends at the first null character. -/
def unescapeSitePath (path : WString) : Bool × List WString :=
  let u := (path.takeWhile (· != '\x00')).foldl Unescaping.char {}
  if u.lastBackslash then (false, u.result) else (!u.push.isEmpty, u.push)

variable {segment : WString} {segments : List WString}

/-- The two passes of `EscapeSegment` escape every character on its own. -/
theorem escapeSegment_cons (c : Char) (segment : WString) : escapeSegment (c :: segment) =
    (if c = '\\' ∨ c = '/' then ['\\', c] else [c]) ++ escapeSegment segment := by
  by_cases hback : c = '\\'
  · simp [escapeSegment, replaceSubstrings, hback]
  · by_cases hslash : c = '/' <;> simp [escapeSegment, replaceSubstrings, hback, hslash]

/-- An escaped segment is read back into the name. -/
theorem foldl_escapeSegment (result : List WString) (name segment : WString) :
    (escapeSegment segment).foldl Unescaping.char ⟨result, name, false⟩ =
      ⟨result, name ++ segment, false⟩ := by
  induction segment generalizing name with
  | nil => rw [append_nil]; rfl
  | cons c segment ih =>
    have hc : (if c = '\\' ∨ c = '/' then ['\\', c] else [c]).foldl Unescaping.char
        ⟨result, name, false⟩ = ⟨result, name ++ [c], false⟩ := by
      split_ifs with hc
      · rcases hc with rfl | rfl <;> rfl
      · rw [not_or] at hc
        simp [Unescaping.char, hc]
    rw [escapeSegment_cons, foldl_append, hc, ih, append_assoc]
    rfl

/-- Every slash in front of a segment ends the name before it. -/
theorem foldl_segments (h : ∀ segment ∈ segments, segment ≠ []) {u : Unescaping}
    (hu : u.lastBackslash = false) {v : Unescaping}
    (hv : (segments.flatMap fun segment => '/' :: escapeSegment segment).foldl
      Unescaping.char u = v) :
    v.lastBackslash = false ∧ v.push = u.push ++ segments := by
  induction segments generalizing u with
  | nil =>
    subst hv
    exact ⟨hu, (append_nil _).symm⟩
  | cons segment segments ih =>
    have hslash : u.char '/' = ⟨u.push, [], false⟩ := by simp [Unescaping.char, hu]
    rw [flatMap_cons, foldl_append, foldl_cons, hslash, foldl_escapeSegment] at hv
    obtain ⟨hlast, hpush⟩ := ih (fun s hs => h s (mem_cons_of_mem _ hs)) rfl hv
    refine ⟨hlast, hpush.trans ?_⟩
    simp [Unescaping.push, h segment mem_cons_self]

/-- Escaping adds no null character. -/
theorem mem_of_mem_escapeSegment (h : '\x00' ∈ escapeSegment segment) : '\x00' ∈ segment := by
  induction segment with
  | nil => exact h
  | cons c segment ih =>
    rw [escapeSegment_cons, mem_append] at h
    rcases h with h | h
    · refine mem_cons.mpr (.inl ?_)
      split_ifs at h <;> simpa using h
    · exact mem_cons_of_mem _ (ih h)

/-- A path of names that are not empty is read back. -/
theorem unescapeSitePath_buildPath (root : Char) (segments : List WString) (hne : segments ≠ [])
    (h : ∀ segment ∈ segments, segment ≠ [] ∧ '\x00' ∉ segment) :
    unescapeSitePath ((buildPath root segments).drop 1) = (true, segments) := by
  have htext : ((buildPath root segments).drop 1).takeWhile (· != '\x00') =
      segments.flatMap fun segment => '/' :: escapeSegment segment := by
    refine takeWhile_eq_self_iff.mpr fun c hc => bne_iff_ne.mpr ?_
    rintro rfl
    obtain ⟨segment, hsegment, hmem⟩ := mem_flatMap.mp hc
    rcases mem_cons.mp hmem with hslash | hmem
    · exact absurd hslash (by decide)
    · exact (h segment hsegment).2 (mem_of_mem_escapeSegment hmem)
  obtain ⟨hlast, hpush⟩ := foldl_segments (fun s hs => (h s hs).1) (u := {}) rfl rfl
  unfold unescapeSitePath
  simp only [htext, hlast, hpush]
  simp [Unescaping.push, hne]

theorem unescapeSitePath_buildPath_slashes :
    unescapeSitePath ((buildPath '0' ["a/b\\".toList, "\\".toList]).drop 1) =
      (true, ["a/b\\".toList, "\\".toList]) :=
  unescapeSitePath_buildPath '0' _ (by decide) (by decide)

end FlintZilla.SiteManager
