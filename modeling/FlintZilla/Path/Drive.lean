import FlintZilla.Path.WellFormed

/-!
# Drives

`SegmentizeAddSegment` removes the last segment for each `..`, whatever it is. For the rooted types
that stops at the root; on `DOS` and `DOS_FWD_SLASHES` the first segment is the drive, and a
relative path can remove it and go on with a name in its place.

* `head?_foldl_segmentizeAddSegment`: the first segment is the one that was there, or comes behind
  the last `..` that left none.
* `changePath_keeps_drive`: the drive stays exactly if no other name follows such a `..`.
-/

namespace FlintZilla

open Lib.Search

/-- `is_absolute` of the `DOS` branch: the first component ends in the first colon. -/
def dosAbsolute (t : ServerType) (dir : WString) : Bool :=
  match find (· == ':') dir with
  | none => false
  | some colon =>
    decide (0 < colon) && colon == (find (isSeparator t) dir).getD dir.length - 1

/-- The components behind the last `..` that leaves no segment, if there is one; there are `count`
segments at first. -/
def behindLastExit : Nat → List WString → Option (List WString)
  | _, [] => none
  | count, w :: ws =>
    if w = ['.'] then behindLastExit count ws
    else if w = ['.', '.'] then
      if count ≤ 1 then some ((behindLastExit 0 ws).getD ws) else behindLastExit (count - 1) ws
    else behindLastExit (count + 1) ws

variable {t : ServerType}

/-- The first of the components that are not `.`. -/
def firstName (ws : List WString) : Option WString := (ws.filter (· ≠ ['.'])).head?

section

variable (hdots : (traits t).hasDots = true) (hesc : (traits t).separatorEscape = none)

include hdots hesc

/-- The first segment, by induction on the components: an exit forgets what was there. -/
theorem head?_foldl_segmentizeAddSegment (ws l : List WString) :
    (ws.foldl (segmentizeAddSegment t) (l, false)).1.head? =
      match behindLastExit l.length ws with
      | none => l.head?.or (firstName ws)
      | some behind => firstName behind := by
  induction ws generalizing l with
  | nil => simp [behindLastExit, firstName]
  | cons w ws ih =>
    rw [List.foldl_cons]
    unfold behindLastExit
    by_cases hdot : w = ['.']
    · have hadd : segmentizeAddSegment t (l, false) w = (l, false) := by
        simp [segmentizeAddSegment, hdots, hdot]
      have hname : firstName (w :: ws) = firstName ws := by simp [firstName, hdot]
      rw [hadd, if_pos hdot, hname]
      exact ih l
    · by_cases hup : w = ['.', '.']
      · have hadd : segmentizeAddSegment t (l, false) w = (l.dropLast, false) := by
          simp [segmentizeAddSegment, hdots, hup]
        rw [hadd, ih, if_neg hdot, if_pos hup, List.length_dropLast]
        -- going up from the only segment leaves none, and a later name comes first
        rcases l with _ | ⟨a, _ | ⟨b, l⟩⟩
        · cases behindLastExit 0 ws <;> rfl
        · rw [List.length_singleton, if_pos le_rfl, Nat.sub_self]
          cases behindLastExit 0 ws <;> rfl
        · rw [if_neg (by simp)]
          rfl
      · have hadd : segmentizeAddSegment t (l, false) w = (l ++ [w], false) :=
          segmentizeAddSegment_plain _ (fun _ => ⟨hdot, hup⟩) (by simp [hesc])
        have hname : firstName (w :: ws) = some w := by simp [firstName, hdot]
        rw [hadd, ih, if_neg hdot, if_neg hup, List.length_append, hname]
        cases l <;> rfl

end

/-- A relative path on a server with drives: what is left of the segments, if anything is. -/
theorem changePath_relative (ht : t = .dos ∨ t = .dosFwdSlashes) {d : CServerPathData} {s : WString}
    (hd : d.segments ≠ []) (hrel : dosAbsolute t s = false)
    (hsep : isSeparator t (s.headD '\x00') = false) :
    CServerPath.changePath ⟨t, some d⟩ s false =
      if walk t d.segments s = [] then (false, ⟨t, none⟩, s)
      else (true, ⟨t, some ⟨walk t d.segments s, d.pfx⟩⟩, s) := by
  have hesc : (traits t).separatorEscape = none := by rcases ht with rfl | rfl <;> rfl
  have hroot : (traits t).hasRoot = false := by rcases ht with rfl | rfl <;> rfl
  -- without a drive and without a separator in front, the segments are walked from the old ones
  have hdos : changeByType t d false s false = some (⟨walk t d.segments s, d.pfx⟩, []) := by
    have hstart : changeDos t d false s false = finishSegments t s [] d.segments d.pfx false := by
      unfold dosAbsolute at hrel
      unfold changeDos
      cases hcolon : find (· == ':') s with
      | none =>
        rw [hsep]
        rfl
      | some colon =>
        rw [hcolon] at hrel
        dsimp only at hrel ⊢
        rw [hrel, hsep]
        rfl
    have hbranch : changeByType t d false s false = changeDos t d false s false := by
      rcases ht with rfl | rfl <;> rfl
    rw [hbranch, hstart, finishSegments, segmentize_eq_walk hesc]
    simp
  unfold CServerPath.changePath CServerPath.doChangePath
  cases s with
  | nil =>
    rw [if_neg (show walk t d.segments [] ≠ [] from hd)]
    rfl
  | cons c s =>
    have hempty : CServerPath.empty ⟨t, some d⟩ = false := rfl
    simp only [List.isEmpty_cons, Bool.false_eq_true, if_false, Option.getD_some, hempty, hdos,
      hroot, Bool.not_false, Bool.true_and, List.isEmpty_iff]
    split_ifs <;> rfl

/-- If a relative path can be followed, the first segment is the drive still. This holds exactly if
behind the last `..` that left no segment there is no name, or the name of the drive itself. -/
theorem changePath_keeps_drive (t : ServerType) (ht : t = .dos ∨ t = .dosFwdSlashes)
    (d : CServerPathData) (drive : WString) (rest : List WString) (hd : d.segments = drive :: rest)
    (s : WString) (hrel : dosAbsolute t s = false)
    (hsep : isSeparator t (s.headD '\x00') = false) :
    (∀ p' s', CServerPath.changePath ⟨t, some d⟩ s false = (true, p', s') →
      ∃ d', p'.data = some d' ∧ d'.segments.head? = some drive) ↔
      ∀ behind, behindLastExit (rest.length + 1) (fields (isSeparator t) s) = some behind →
        ∀ w, firstName behind = some w → w = drive := by
  have hdots : (traits t).hasDots = true := by rcases ht with rfl | rfl <;> rfl
  have hesc : (traits t).separatorEscape = none := by rcases ht with rfl | rfl <;> rfl
  have hhead := head?_foldl_segmentizeAddSegment hdots hesc (fields (isSeparator t) s) d.segments
  rw [changePath_relative ht (by simp [hd]) hrel hsep]
  change (walk t d.segments s).head? = _ at hhead
  generalize walk t d.segments s = segments at hhead ⊢
  rw [hd, List.length_cons] at hhead
  cases hexit : behindLastExit (rest.length + 1) (fields (isSeparator t) s) with
  | none =>
    rw [hexit] at hhead
    refine iff_of_true (fun p' s' h => ?_) nofun
    split_ifs at h with hnil
    · cases h
    · cases h
      exact ⟨⟨segments, d.pfx⟩, rfl, hhead⟩
  | some behind =>
    rw [hexit] at hhead
    dsimp only at hhead
    simp only [Option.some.injEq, forall_eq', ← hhead]
    cases segments with
    | nil => simp
    | cons w segments => simp

/-- Up one directory and down into another. -/
theorem changePath_keeps_drive_sibling :
    ∃ d', (CServerPath.changePath (.ofText "C:\\foo".toList .dos) "..\\bar".toList false).2.1.data =
      some d' ∧ d'.segments.head? = some "C:".toList :=
  (changePath_keeps_drive .dos (.inl rfl) ⟨["C:".toList, "foo".toList], none⟩ "C:".toList
    ["foo".toList] rfl "..\\bar".toList (by decide) (by decide)).mpr
      (by rw [show behindLastExit _ _ = none by decide]; nofun) _ "..\\bar".toList rfl

/-- Two directories up from a directory on drive `C:`, a name takes the place of the drive. -/
theorem changePath_removes_drive :
    CServerPath.changePath (.ofText "C:\\foo".toList .dos) "..\\..\\bar".toList false =
      (true, ⟨.dos, some ⟨["bar".toList], none⟩⟩, "..\\..\\bar".toList) ∧
    (CServerPath.ofText "C:\\foo".toList .dos).data = some ⟨["C:".toList, "foo".toList], none⟩ ∧
    dosAbsolute .dos "..\\..\\bar".toList = false ∧
    isSeparator .dos ("..\\..\\bar".toList.headD '\x00') = false := by
  decide

end FlintZilla
