import FlintZilla.Path.Ancestor
import FlintZilla.Path.Segments
import FlintZilla.Lib.Lts

/-!
# The paths that can be built

The operations on a path are the labels of a transition system, and `WellFormedData` says for each
server type what the body of a path looks like that was built from directory names alone. It is
kept by every branch of `DoChangePath`, whatever text the caller passes.

Main results:

* `changeByType_ok`: each branch of `DoChangePath` leaves a well-formed body.
* `wellFormed_apply`, `directorySystem_wellFormed`: so does every operation, and every run.
-/

namespace FlintZilla

open Lib Lib.Search List CServerPath

/-! ## Operations -/

/-- The mutators of a path; `isFile` is the flag of the calls that split off a file name. -/
inductive PathOp where
  | setPath (newPath : WString) (isFile : Bool)
  | changePath (subdir : WString) (isFile : Bool)
  | makeParent
  | getParent
  | addSegment (segment : WString)
deriving DecidableEq

/-- The path after an operation. -/
def CServerPath.apply (p : CServerPath) : PathOp → CServerPath
  | .setPath newPath isFile => (p.setPath newPath isFile).2.1
  | .changePath subdir isFile => (p.changePath subdir isFile).2.1
  | .makeParent => p.makeParent
  | .getParent => p.getParent
  | .addSegment segment => (p.addSegment segment).2

/-- Any sequence of operations on a path that starts empty, of any type. -/
def pathSystem : Lts CServerPath PathOp :=
  Lts.ofFun (fun p => p.data = none) (fun p op => some (p.apply op))

/-- The operations that name directories only and check what they are given. -/
def PathOp.OnDirectories : PathOp → Prop
  | .setPath _ isFile => isFile = false
  | .changePath _ isFile => isFile = false
  | .makeParent => True
  | .getParent => True
  | .addSegment _ => False

/-- The runs that use those operations. -/
def directorySystem : Lts CServerPath PathOp :=
  pathSystem.restrict fun _ op => op.OnDirectories

/-! ## The invariant -/

/-- What may stand in `m_prefix`. -/
def GoodPrefixFor : ServerType → CServerPathData → Prop
  | .vms, d => ∀ x, d.pfx = some x → x ≠ [] ∧ ∀ c ∈ x, (c == '[') = false
  | .mvs, d => d.pfx = some ['.'] ∨
      d.pfx = none ∧ ∀ w, d.segments.getLast? = some w → w.getLast? ≠ some ')'
  | .vxworks, d => ∃ x, x ≠ [] ∧ (∀ c ∈ x, (c == ':') = false) ∧
      d.pfx = some (':' :: (x ++ [':']))
  | .cygwin, d => d.pfx = none ∨ d.pfx = some ['/']
  | _, d => d.pfx = none

structure WellFormedData (t : ServerType) (d : CServerPathData) : Prop where
  good : ∀ w ∈ d.segments, GoodSegment t w
  rooted : (traits t).hasRoot = false → d.segments ≠ []
  pfx : GoodPrefixFor t d

/-- The body of a path, if there is one, is well formed. -/
def WellFormed (p : CServerPath) : Prop := ∀ d, p.data = some d → WellFormedData p.type d

/-- The body that a branch of `DoChangePath` starts from: a fresh one or a well-formed one. -/
inductive StartData (t : ServerType) : CServerPathData → Bool → Prop where
  | fresh : StartData t {} true
  | old {d : CServerPathData} : WellFormedData t d → StartData t d false

variable {d d' : CServerPathData} {wasEmpty : Bool} {dir f : WString} {t : ServerType}
  {p : CServerPath} {d : CServerPathData}

/-- The types that the definition does not single out have no prefix. -/
theorem goodPrefixFor_iff (ht : t ∉ [ServerType.vms, .mvs, .vxworks, .cygwin]) :
    GoodPrefixFor t d ↔ d.pfx = none := by
  cases t <;> first | exact Iff.rfl | simp at ht

/-- An empty path has no prefix yet. -/
theorem StartData.goodPrefix (ht : t ≠ .vxworks)
    (h : StartData t d wasEmpty) : GoodPrefixFor t d := by
  cases h with
  | fresh => cases t <;> simp [GoodPrefixFor] at ht ⊢
  | old hd => exact hd.pfx

theorem StartData.good (h : StartData t d wasEmpty) : ∀ w ∈ d.segments, GoodSegment t w := by
  cases h with
  | fresh => simp
  | old h => exact h.good

/-! ## The branches keep it

Each lemma leaves out `rooted`, which `DoChangePath` checks for all branches at its end. -/

/-- What a branch guarantees about the body it returns. -/
def BranchOk (t : ServerType) (d : CServerPathData) : Prop :=
  (∀ w ∈ d.segments, GoodSegment t w) ∧ (d.segments ≠ [] ∨ (traits t).hasRoot = true →
    GoodPrefixFor t d)

/-- The common end of the branches. -/
theorem finishSegments_eq_some {dir file f : WString} {segs : List WString} {pfx : Option WString}
    {refuse : Bool} (h : finishSegments t dir file segs pfx refuse = some (d, f)) :
    segmentize t dir segs = some d.segments ∧ d.pfx = pfx ∧ f = file := by
  unfold finishSegments at h
  split at h
  · cases h
  · next segs' hseg =>
    split_ifs at h
    obtain ⟨rfl, rfl⟩ := h
    exact ⟨hseg, rfl, rfl⟩

/-- The branches of the types without a prefix. -/
theorem BranchOk.plain {dir file : WString} {segs : List WString} {refuse : Bool}
    (ht : t ∉ [ServerType.vms, .mvs, .vxworks, .cygwin]) (hd : StartData t d wasEmpty)
    (hsegs : ∀ w ∈ segs, GoodSegment t w)
    (h : finishSegments t dir file segs d.pfx refuse = some (d', f)) : BranchOk t d' := by
  obtain ⟨hseg, hp, -⟩ := finishSegments_eq_some h
  refine ⟨segmentize_good hsegs hseg, fun _ => (goodPrefixFor_iff ht).mpr (hp.trans ?_)⟩
  exact (goodPrefixFor_iff ht).mp (hd.goodPrefix (by rintro rfl; simp at ht))

/-- The branch of the types with one root. -/
theorem changeRooted_ok (ht : t = .default ∨ t = .unix ∨ t = .zvm ∨ t = .dosVirtual)
    (hd : StartData t d wasEmpty) (h : changeRooted t d wasEmpty dir false = some (d', f)) :
    BranchOk t d' := by
  simp only [changeRooted] at h
  split at h
  · cases h
  · next segs hstart =>
    refine .plain (by rcases ht with rfl | rfl | rfl | rfl <;> decide) hd ?_ h
    split_ifs at hstart <;> cases hstart
    · simp
    · exact hd.good

/-- A drive, or a path below the current one. -/
theorem changeDos_ok (ht : t = .dos ∨ t = .dosFwdSlashes) (hd : StartData t d wasEmpty)
    (h : changeDos t d wasEmpty dir false = some (d', f)) : BranchOk t d' := by
  simp only [changeDos] at h
  split at h
  · cases h
  · next dir' segs hstart =>
    refine .plain (by rcases ht with rfl | rfl <;> decide) hd ?_ h
    split_ifs at hstart
    · cases hstart
      simp
    · -- drive-relative: only the drive stays
      split at hstart
      · cases hstart
      · next first rest hfirst =>
        cases hstart
        intro w hw
        rw [mem_singleton.mp hw]
        exact hd.good first (by rw [hfirst]; simp)
    · cases hstart
      exact hd.good

theorem changeHpNonstop_ok (hd : StartData .hpNonstop d wasEmpty)
    (h : changeHpNonstop d wasEmpty dir false = some (d', f)) : BranchOk .hpNonstop d' := by
  refine .plain (by decide) hd ?_ h
  split_ifs
  · simp
  · exact hd.good

/-- Two slashes at the front, or one. -/
theorem changeCygwin_ok (hd : StartData .cygwin d wasEmpty)
    (h : changeCygwin d wasEmpty dir false = some (d', f)) : BranchOk .cygwin d' := by
  have hpfx : d.pfx = none ∨ d.pfx = some ['/'] := hd.goodPrefix (by decide)
  simp only [changeCygwin] at h
  split at h
  · cases h
  · next segs pfx hstart =>
    obtain ⟨hseg, hp, -⟩ := finishSegments_eq_some h
    have hboth : (∀ w ∈ segs, GoodSegment .cygwin w) ∧ (pfx = none ∨ pfx = some ['/']) := by
      split_ifs at hstart <;> cases hstart
      · simp
      · exact ⟨hd.good, hpfx⟩
    refine ⟨segmentize_good hboth.1 hseg, fun _ => ?_⟩
    show d'.pfx = none ∨ d'.pfx = some ['/']
    rw [hp]
    split_ifs
    · exact .inr rfl
    · exact hboth.2

/-- A device, a path from the root of the device, or one below the current path. -/
theorem changeVxworks_ok (hd : StartData .vxworks d wasEmpty)
    (h : changeVxworks d wasEmpty dir false = some (d', f)) : BranchOk .vxworks d' := by
  simp only [changeVxworks] at h
  split at h
  · cases h
  · next dir' segs pfx hstart =>
    obtain ⟨hseg, hp, -⟩ := finishSegments_eq_some h
    have hboth : (∀ w ∈ segs, GoodSegment .vxworks w) ∧ ∃ x, x ≠ [] ∧
        (∀ c ∈ x, (c == ':') = false) ∧ pfx = some (':' :: (x ++ [':'])) := by
      split_ifs at hstart with hcolon hempty
      · -- a relative path keeps the device
        cases hstart
        cases hd with
        | fresh => simp at hempty
        | old hd => exact ⟨hd.good, hd.pfx⟩
      · -- an absolute path starts with its device, between two colons
        split at hstart
        · cases hstart
        · cases hstart
        · next k hfind =>
          cases hstart
          obtain ⟨x, c, y, hx, hlen, hc, hfree⟩ := find_eq_some hfind
          have hdir : dir = ':' :: (x ++ ':' :: y) := by
            rw [not_not] at hcolon
            obtain ⟨rest, rfl⟩ := head?_eq_some_iff.mp hcolon
            have hc' : c = ':' := by simpa using hc
            rw [hc'] at hx
            simpa using hx
          refine ⟨by simp, x, ?_, hfree, ?_⟩
          · rintro rfl
            simp at hlen
          · have htake : (x ++ ':' :: y).take (k + 2) = x ++ [':'] := by
              rw [show k + 2 = (x ++ [':']).length by simp [hlen],
                show x ++ ':' :: y = (x ++ [':']) ++ y by simp, take_left]
            rw [hdir, take_succ_cons, htake]
    refine ⟨segmentize_good hboth.1 hseg, fun _ => ?_⟩
    obtain ⟨x, hx, hfree, rfl⟩ := hboth.2
    exact ⟨x, hx, hfree, hp⟩

/-- A device and a bracket, or segments below the current ones. -/
theorem changeVms_ok (hd : StartData .vms d wasEmpty)
    (h : changeVms d wasEmpty dir false = some (d', f)) : BranchOk .vms d' := by
  have hpfx : ∀ x, d.pfx = some x → x ≠ [] ∧ ∀ c ∈ x, (c == '[') = false :=
    hd.goodPrefix (by decide)
  simp only [changeVms, Bool.false_eq_true, reduceIte] at h
  split at h
  · -- no bracket: a relative path keeps the device
    split_ifs at h
    obtain ⟨hseg, hp, -⟩ := finishSegments_eq_some h
    refine ⟨segmentize_good hd.good hseg, fun _ => ?_⟩
    show ∀ x, d'.pfx = some x → _
    rwa [hp]
  · next pos1 hfind =>
    split at h
    · cases h
    · next pos2 _ =>
      rcases Nat.lt_or_ge (pos1 + 1) pos2 with hpos | hpos
      swap
      · rw [if_pos hpos] at h
        cases h
      rw [if_neg (by omega)] at h
      split_ifs at h with hfile hzero <;>
        obtain ⟨hseg, hp, -⟩ := finishSegments_eq_some h <;>
        refine ⟨segmentize_good (by simp) hseg, fun _ => ?_⟩ <;>
        show ∀ x, d'.pfx = some x → _ <;>
        rw [hp]
      · exact hpfx
      · -- the text in front of the first bracket
        obtain ⟨a, c, b, rfl, rfl, -, hfree⟩ := find_eq_some hfind
        have hle : a.length ≤ pos2 := by omega
        intro x hx
        rw [take_take, Nat.min_eq_left hle, take_left] at hx
        cases hx
        refine ⟨?_, hfree⟩
        rintro rfl
        exact hzero rfl

/-- A quoted name, or one below the current qualifier. -/
theorem changeMvs_ok (hd : StartData .mvs d wasEmpty)
    (h : changeMvs d wasEmpty dir false = some (d', f)) : BranchOk .mvs d' := by
  simp only [changeMvs] at h
  split_ifs at h with hne
  split at h
  · cases h
  · next dir1 segs henc =>
    split at h
    · cases h
    · next dir2 file pfx hmem =>
      obtain ⟨hseg, hp, -⟩ := finishSegments_eq_some h
      have hsegs : (∀ w ∈ segs, GoodSegment .mvs w) ∧ (segs = [] ∨ dir1 ≠ []) := by
        unfold mvsEnclosure at henc
        split_ifs at henc <;> cases henc
        · simp
        · exact ⟨hd.good, .inr (by simpa using hne)⟩
      -- a directory has no member, and a final dot makes it a partial qualifier
      simp only [mvsMember, Bool.not_false, Bool.false_eq_true, reduceIte] at hmem
      split_ifs at hmem with hparen _ hdot <;>
        obtain ⟨rfl, -, rfl⟩ := hmem <;>
        refine ⟨segmentize_good hsegs.1 hseg, fun hroot => ?_⟩ <;>
        have hsegs' : d'.segments ≠ [] := by simpa [traits] using hroot
      · exact .inl hp
      · -- no partial qualifier: the last segment ends as the text does
        refine .inr ⟨hp, ?_⟩
        rw [segmentize_plain rfl rfl, Option.some.injEq] at hseg
        have hdir1 : dir1 ≠ [] := by
          rintro rfl
          rcases hsegs.2 with rfl | hdir1
          · exact hsegs' (by simp [← hseg])
          · exact hdir1 rfl
        obtain ⟨c, hc⟩ : ∃ c, dir1.getLast? = some c :=
          ⟨dir1.getLast hdir1, getLast?_eq_some_getLast hdir1⟩
        have hsep : isSeparator .mvs c = false := by
          have hcdot : c ≠ '.' := by
            rintro rfl
            exact hdot hc
          simpa [isSeparator, traits] using hcdot
        obtain ⟨v, hv, hvc⟩ := fields_getLast? hc hsep
        intro w hw
        have hwv : w = v := by
          rw [← hseg, getLast?_append, hv] at hw
          simpa using hw.symm
        rw [hwv, hvc, ← hc]
        exact hparen

/-- Every server type. -/
theorem changeByType_ok (hd : StartData t d wasEmpty)
    (h : changeByType t d wasEmpty dir false = some (d', f)) : BranchOk t d' := by
  cases t with
  | default | unix => exact changeRooted_ok (by simp) hd h
  | vms => exact changeVms_ok hd h
  | dos => exact changeDos_ok (by simp) hd h
  | mvs => exact changeMvs_ok hd h
  | vxworks => exact changeVxworks_ok hd h
  | zvm => exact changeRooted_ok (by simp) hd h
  | hpNonstop => exact changeHpNonstop_ok hd h
  | dosVirtual => exact changeRooted_ok (by simp) hd h
  | cygwin => exact changeCygwin_ok hd h
  | dosFwdSlashes => exact changeDos_ok (by simp) hd h

/-! ## Every operation on directories keeps it -/

theorem wellFormed_of_data_eq_none (h : p.data = none) : WellFormed p := by
  intro d hd
  rw [h] at hd
  cases hd

/-- `ChangePath` fails and clears the path, leaves it alone, or gives it the body of a branch. -/
theorem changePath_cases {subdir : WString} {isFile : Bool} {r : Bool × CServerPath × WString}
    (h : p.changePath subdir isFile = r) :
    r.1 = false ∧ r.2.1.data = none ∨ r.2.1 = p ∨
      ∃ d file, changeByType p.type (p.data.getD {}) p.empty subdir isFile = some (d, file) ∧
        ((traits p.type).hasRoot = false → d.segments ≠ []) ∧ r.2.1 = ⟨p.type, some d⟩ := by
  subst h
  unfold changePath
  split
  · exact .inl ⟨rfl, rfl⟩
  · next hchange =>
    right
    unfold doChangePath at hchange
    split at hchange
    · split_ifs at hchange
      cases hchange
      exact .inl rfl
    · split at hchange
      · cases hchange
      · next d file hbranch =>
        right
        refine ⟨d, file, hbranch, ?_⟩
        split_ifs at hchange with hroot <;> cases hchange <;>
          exact ⟨fun hr => by simpa [hr] using hroot, rfl⟩

/-- `ChangePath`, whatever text it is given. -/
theorem wellFormed_changePath (subdir : WString) (hp : WellFormed p) :
    WellFormed (p.changePath subdir false).2.1 := by
  rcases changePath_cases (rfl : p.changePath subdir false = _) with
    ⟨-, hnone⟩ | heq | ⟨d, file, hbranch, hrooted, heq⟩
  · exact wellFormed_of_data_eq_none hnone
  · rwa [heq]
  · have hstart : StartData p.type (p.data.getD {}) p.empty := by
      unfold empty
      cases hdata : p.data with
      | none => exact StartData.fresh
      | some d => exact StartData.old (hp d hdata)
    obtain ⟨hgood, hpfx⟩ := changeByType_ok hstart hbranch
    rw [heq]
    rintro d' ⟨⟩
    refine ⟨hgood, hrooted, hpfx ?_⟩
    cases hr : (traits p.type).hasRoot with
    | true => exact .inr rfl
    | false => exact .inl (hrooted hr)

theorem wellFormed_setPath (newPath : WString) (hp : WellFormed p) :
    WellFormed (p.setPath newPath false).2.1 := by
  unfold setPath
  split_ifs
  · exact hp
  · exact wellFormed_changePath newPath (wellFormed_of_data_eq_none rfl)
  · exact wellFormed_changePath newPath (wellFormed_of_data_eq_none rfl)

/-- `MakeParent` takes a segment away, and on MVS marks the qualifier as partial. -/
theorem wellFormed_makeParent (hp : WellFormed p) : WellFormed p.makeParent := by
  rcases makeParent_cases p with hnone | ⟨d, hdata, hparent, heq⟩
  · exact wellFormed_of_data_eq_none hnone
  · have hd := hp d hdata
    rw [heq]
    rintro d' ⟨⟩
    refine ⟨fun w hw => hd.good w (dropLast_subset _ hw), hparent.2, ?_⟩
    have hpfx := hd.pfx
    show GoodPrefixFor p.type _
    revert hpfx
    -- every type but MVS looks at the prefix alone
    cases p.type <;> intro hpfx
    case mvs => exact .inl rfl
    all_goals exact hpfx

/-- Each operation. -/
theorem wellFormed_apply {op : PathOp} (hop : op.OnDirectories) (hp : WellFormed p) :
    WellFormed (p.apply op) := by
  cases op with
  | setPath newPath isFile =>
    have hfile : isFile = false := hop
    subst hfile
    exact wellFormed_setPath newPath hp
  | changePath subdir isFile =>
    have hfile : isFile = false := hop
    subst hfile
    exact wellFormed_changePath subdir hp
  | makeParent | getParent => exact wellFormed_makeParent hp
  | addSegment segment => exact False.elim hop

/-- Every path built from directory names is well formed. -/
theorem directorySystem_wellFormed (h : directorySystem.Reach p) : WellFormed p := by
  refine Lts.Reach.invariant WellFormed ?_ ?_ h
  · intro p hp
    exact wellFormed_of_data_eq_none hp
  · rintro p op p' ⟨hstep, hop⟩ hp
    have hp' : p.apply op = p' := Option.some.inj hstep
    rw [← hp']
    exact wellFormed_apply hop hp

end FlintZilla
