import FlintZilla.Lib.CommonPrefix
import FlintZilla.Path.Names
import FlintZilla.Path.WellFormed

/-!
# The order of ancestors

`GetParent` steps generate an order on the paths of one server type. An ancestor of a path is a
beginning of its segments, with the same prefix or, on MVS, with the mark of a partial qualifier
(`properAncestor_iff`). `IsSubdirOf` decides the strict order, and `GetCommonParent` is its meet.

Both rest on two facts about every path that `SetPath`, `ChangePath`, `AddSegment` and `MakeParent`
can build: where there is no root there is a first segment, and on MVS the suffix is a dot or
absent.

Main results:

* `isSubdirOf_iff_getParent`: `IsSubdirOf` is the order that `GetParent` generates.
* `getCommonParent_eq`, `getCommonParent_greatest`: `GetCommonParent` is the greatest common
  ancestor.
-/

namespace FlintZilla

open Lib CServerPath List

/-! ## What every path keeps -/

/-- A path without a root has a segment, and the suffix on MVS is a dot. -/
def Anchored (p : CServerPath) : Prop :=
  ∀ d, p.data = some d → ((traits p.type).hasRoot = false → d.segments ≠ []) ∧
    (p.type = .mvs → d.pfx = none ∨ d.pfx = some ['.'])

variable {data : CServerPathData} {wasEmpty isFile : Bool} {dir : WString}

/-- The suffix of an MVS path is a dot or absent. -/
theorem mvsMember_pfx {dir' file : WString}
    {pfx : Option WString} (h : mvsMember data wasEmpty dir isFile = some (dir', file, pfx)) :
    pfx = none ∨ pfx = some ['.'] := by
  unfold mvsMember at h
  split_ifs at h
  · split at h
    · cases h
    · dsimp only at h
      split_ifs at h
      cases h
      exact .inl rfl
  · split at h
    · cases h
    · cases h
      exact .inr rfl
  · cases h
    exact .inr rfl
  · cases h
    exact .inl rfl

theorem changeMvs_pfx {d : CServerPathData} {f : WString}
    (h : changeMvs data wasEmpty dir isFile = some (d, f)) : d.pfx = none ∨ d.pfx = some ['.'] := by
  simp only [changeMvs] at h
  split_ifs at h
  split at h
  · cases h
  · split at h
    · cases h
    · next hmember =>
      obtain ⟨-, hpfx, -⟩ := finishSegments_eq_some h
      rw [hpfx]
      exact mvsMember_pfx hmember

variable {p : CServerPath}

theorem anchored_of_data_eq_none (h : p.data = none) : Anchored p := by
  intro d hd
  rw [h] at hd
  cases hd

theorem anchored_changePath (subdir : WString) (isFile : Bool) (hp : Anchored p) :
    Anchored (p.changePath subdir isFile).2.1 := by
  rcases changePath_cases (rfl : p.changePath subdir isFile = _) with
    ⟨-, hnone⟩ | heq | ⟨d, file, hbranch, hrooted, heq⟩
  · exact anchored_of_data_eq_none hnone
  · rwa [heq]
  · rw [heq]
    rintro d' ⟨⟩
    refine ⟨hrooted, fun hmvs => ?_⟩
    rw [show p.type = .mvs from hmvs] at hbranch
    exact changeMvs_pfx hbranch

theorem anchored_makeParent (p : CServerPath) : Anchored p.makeParent := by
  rcases makeParent_cases p with hnone | ⟨d, -, hparent, heq⟩
  · exact anchored_of_data_eq_none hnone
  · rw [heq]
    rintro d' ⟨⟩
    exact ⟨hparent.2, fun hmvs => .inr (if_pos hmvs)⟩

theorem anchored_addSegment (segment : WString) (hp : Anchored p) :
    Anchored (p.addSegment segment).2 := by
  unfold addSegment
  split
  · exact hp
  · next d hd =>
    rintro d' ⟨⟩
    exact ⟨fun _ => by simp, (hp d hd).2⟩

/-- Every path that can be built. -/
theorem anchored_of_reach (h : pathSystem.Reach p) : Anchored p := by
  refine Lts.Reach.invariant Anchored ?_ ?_ h
  · intro p hp
    exact anchored_of_data_eq_none hp
  · intro p op p' hstep hp
    have hp' : p.apply op = p' := Option.some.inj hstep
    subst hp'
    cases op with
    | setPath newPath isFile =>
      show Anchored (p.setPath newPath isFile).2.1
      unfold setPath
      split
      · exact hp
      · exact anchored_changePath _ _ (anchored_of_data_eq_none rfl)
    | changePath subdir isFile => exact anchored_changePath subdir isFile hp
    | makeParent | getParent => exact anchored_makeParent p
    | addSegment segment => exact anchored_addSegment segment hp

theorem reach_ofText (path : WString) (t : ServerType) : pathSystem.Reach (ofText path t) := by
  have hinit : pathSystem.Reach ⟨t, none⟩ := Lts.Reach.init rfl
  exact Lts.Reach.step (e := .setPath path false) hinit rfl

/-! ## The order -/

namespace CServerPath

variable {p q a : CServerPath}

/-- `IsSubdirOf` decides the strict order. -/
theorem isSubdirOf_iff_properAncestor (hq : Anchored q) :
    p.isSubdirOf q (· == ·) false = true ↔ ProperAncestor q p := by
  constructor
  · intro h
    obtain ⟨t, ld⟩ := p
    obtain ⟨t', rd⟩ := q
    cases ld with
    | none => cases h
    | some ld =>
      cases rd with
      | none => cases h
      | some rd =>
        have hparent : (mk t (some ld)).hasParent = true := by
          by_contra hno
          simp [isSubdirOf, hno] at h
        obtain ⟨htype, hpfx, hbegin, hne⟩ := (isSubdirOf_iff rfl rfl hparent).mp h
        cases htype
        obtain ⟨hrooted, hmvs⟩ := hq rd rfl
        rw [properAncestor_iff rfl]
        refine ⟨rd.segments, hbegin, fun heq => (Bool.false_ne_true (hne heq)), hrooted, ?_⟩
        have hsame : rd.pfx = parentPrefix t ld.pfx := by
          unfold parentPrefix
          split_ifs with ht
          · rw [if_pos ht] at hpfx
            exact (hmvs ht).resolve_left hpfx
          · rw [if_neg ht] at hpfx
            exact hpfx.symm
        rw [← hsame]
  · intro h
    exact h.isParentOf

/-- The order in numbers of steps. -/
theorem properAncestor_iff_iterate : ProperAncestor a p ↔
    ∃ k, 1 ≤ k ∧ getParent^[k] p = a ∧ ∀ j < k, (getParent^[j] p).hasParent = true := by
  constructor
  · intro h
    induction h with
    | @parent p hparent hget =>
      refine ⟨1, le_refl 1, hget, ?_⟩
      intro j hj
      obtain rfl : j = 0 := by omega
      exact hparent
    | @above p hparent _ ih =>
      obtain ⟨k, -, hk, hall⟩ := ih
      refine ⟨k + 1, by omega, hk, ?_⟩
      intro j hj
      cases j with
      | zero => exact hparent
      | succ j => exact hall j (by omega)
  · rintro ⟨k, hk, hget, hall⟩
    induction k generalizing p with
    | zero => omega
    | succ k ih =>
      have hparent : p.hasParent = true := hall 0 (by omega)
      cases k with
      | zero => exact ProperAncestor.parent hparent hget
      | succ k =>
        exact ProperAncestor.above hparent
          (ih (by omega) hget fun j hj => hall (j + 1) (by omega))

end CServerPath

/-- `IsSubdirOf` holds for a path that the operations can build exactly if one or more `GetParent`
steps lead to it. -/
theorem isSubdirOf_iff_getParent (p q : CServerPath) (hq : pathSystem.Reach q) :
    p.isSubdirOf q (· == ·) false = true ↔
      ∃ k, 1 ≤ k ∧ CServerPath.getParent^[k] p = q ∧
        ∀ j < k, (CServerPath.getParent^[j] p).hasParent = true := by
  rw [isSubdirOf_iff_properAncestor (anchored_of_reach hq), properAncestor_iff_iterate]

/-- On MVS a data set is below its qualifier with a trailing dot. -/
theorem isSubdirOf_iff_getParent_mvs :
    pathSystem.Reach (.ofText "'FOO.'".toList .mvs) ∧
      ∃ k, 1 ≤ k ∧ CServerPath.getParent^[k] (.ofText "'FOO.BAR.X'".toList .mvs) =
          .ofText "'FOO.'".toList .mvs ∧
        ∀ j < k, (CServerPath.getParent^[j] (.ofText "'FOO.BAR.X'".toList .mvs)).hasParent = true :=
  ⟨reach_ofText _ _, (isSubdirOf_iff_getParent _ _ (reach_ofText _ _)).mp (by decide)⟩

/-- `CControlSocket::InvalidateCurrentWorkingDir`: `currentPath_` and `m_invalidateCurrentPath`
after the call; `operations` says whether there are any. -/
def CServerPath.invalidateCurrentWorkingDir (currentPath : CServerPath) (operations : Bool)
    (path : CServerPath) (invalidate : Bool) : CServerPath × Bool :=
  if path.empty || currentPath.empty then (currentPath, invalidate)
  else if currentPath.isSubdirOf path (· == ·) true then
    if operations then (currentPath, true) else (currentPath.clear, invalidate)
  else (currentPath, invalidate)

namespace CServerPath

/-- A data set on MVS, a path without the dot of a qualifier. -/
def LacksDot (p : CServerPath) : Prop := p.type = .mvs ∧ ∃ d, p.data = some d ∧ d.pfx = none

/-- The qualifier of the same name. -/
def withDot (p : CServerPath) : CServerPath :=
  { p with data := p.data.map fun d => { d with pfx := some ['.'] } }

/-- What the comparison gets wrong: a path without a parent or without the dot is not at or below
itself, and a path without the dot is taken to be below the one with it. -/
def Miscompared (p q : CServerPath) : Prop :=
  p = q ∧ (p.hasParent = false ∨ p.LacksDot) ∨ p.hasParent = true ∧ p.LacksDot ∧ q = p.withDot

variable {p q : CServerPath}

/-- A path without a parent lies below nothing. -/
theorem isSubdirOf_of_no_parent (h : p.hasParent = false) (allowEqual : Bool) :
    p.isSubdirOf q (· == ·) allowEqual = false := by
  unfold isSubdirOf
  rw [h]
  split <;> simp

/-- With `allowEqual` the comparison decides the reflexive order on all other paths. -/
theorem isSubdirOf_allowEqual (hp : Anchored p) (hq : Anchored q) (htype : p.type = q.type) :
    (p.isSubdirOf q (· == ·) true = true ↔ p = q ∨ q.ProperAncestor p) ↔ ¬p.Miscompared q := by
  rw [← isSubdirOf_iff_properAncestor hq]
  cases hparent : p.hasParent with
  | false => simp [isSubdirOf_of_no_parent hparent, Miscompared, hparent]
  | true =>
    obtain ⟨t, ld⟩ := p
    obtain ⟨t', rd⟩ := q
    cases htype
    rcases ld with _ | ld
    · cases hparent
    rcases rd with _ | rd
    · simp [isSubdirOf, Miscompared, withDot]
    rw [isSubdirOf_iff rfl rfl hparent, isSubdirOf_iff rfl rfl hparent]
    by_cases hsegs : rd.segments = ld.segments
    · have hsame : mk t (some ld) = mk t (some rd) ↔ ld.pfx = rd.pfx := by
        cases ld
        cases rd
        cases hsegs
        simp
      have hdot : mk t (some rd) = withDot ⟨t, some ld⟩ ↔ rd.pfx = some ['.'] := by
        cases ld
        cases rd
        cases hsegs
        simp [withDot]
      simp only [hsegs, prefix_rfl, Miscompared, hsame, hdot, hparent, LacksDot]
      by_cases ht : t = .mvs
      · rcases (hp ld rfl).2 ht with hl | hl <;> rcases (hq rd rfl).2 ht with hr | hr <;>
          simp [ht, hl, hr]
      · simp [ht]
    · have hne : mk t (some ld) ≠ ⟨t, some rd⟩ := by
        intro h
        cases h
        exact hsegs rfl
      have hdot : mk t (some rd) ≠ withDot ⟨t, some ld⟩ := by
        intro h
        cases h
        exact hsegs rfl
      simp [hsegs, hne, hdot, Miscompared]

end CServerPath

/-- With `allowEqual` the comparison decides the reflexive order, and the current directory is given
up if it is at or below the path, exactly for the paths that are not `Miscompared`. -/
theorem isSubdirOf_allowEqual_iff (p q : CServerPath) (hp : pathSystem.Reach p)
    (hq : pathSystem.Reach q) (htype : p.type = q.type) :
    ((p.isSubdirOf q (· == ·) true = true ↔ p = q ∨ q.ProperAncestor p) ∧
      (p = q ∨ q.ProperAncestor p → ∀ invalidate,
        p.invalidateCurrentWorkingDir false q invalidate = (p.clear, invalidate) ∧
        p.invalidateCurrentWorkingDir true q invalidate = (p, true))) ↔ ¬p.Miscompared q := by
  rw [← isSubdirOf_allowEqual (anchored_of_reach hp) (anchored_of_reach hq) htype]
  refine and_iff_left_of_imp ?_
  intro hiff h invalidate
  have hsub := hiff.mpr h
  have hdata : q.empty = false ∧ p.empty = false := by
    unfold isSubdirOf at hsub
    cases hl : p.data <;> cases hr : q.data <;> simp [hl, hr, empty] at hsub ⊢
  unfold invalidateCurrentWorkingDir
  rw [hdata.1, hdata.2, hsub]
  exact ⟨rfl, rfl⟩

/-- A directory is at or below itself. -/
theorem isSubdirOf_allowEqual_iff_self :
    (CServerPath.ofText "/a".toList .unix).invalidateCurrentWorkingDir false
      (.ofText "/a".toList .unix) false = (⟨.unix, none⟩, false) :=
  (((isSubdirOf_allowEqual_iff _ _ (reach_ofText "/a".toList .unix) (reach_ofText _ _) rfl).mpr
    (by simp [CServerPath.Miscompared, CServerPath.LacksDot]; decide)).2 (.inl rfl) false).1

/-- The root is not found to be at or below itself, nor is a data set on MVS; and a data set counts
as equal to the qualifier of the same name. -/
theorem isSubdirOf_allowEqual_root :
    (CServerPath.ofText "/".toList .unix).invalidateCurrentWorkingDir false
        (.ofText "/".toList .unix) false = (.ofText "/".toList .unix, false) ∧
      (CServerPath.ofText "'A.B'".toList .mvs).isSubdirOf (.ofText "'A.B'".toList .mvs) (· == ·)
        true = false ∧
      (CServerPath.ofText "'A.B'".toList .mvs).isSubdirOf (.ofText "'A.B.'".toList .mvs) (· == ·)
        true = true := by
  decide

/-! ## The common parent -/

/-- The segments up to `last`: on MVS a path without the dot is no ancestor itself. -/
def innerSegments (t : ServerType) (d : CServerPathData) : List WString :=
  if (traits t).prefixmode = 1 ∧ d.pfx.isNone then d.segments.dropLast else d.segments

/-- The loop of `GetCommonParent` collects the common beginning. -/
theorem CServerPath.commonSegments_eq (hasRoot : Bool) (segments xs ys : List WString) :
    commonSegments hasRoot segments xs ys =
      if hasRoot = false ∧ segments ++ commonPrefix xs ys = [] ∧ xs ≠ [] ∧ ys ≠ [] then none
      else some (segments ++ commonPrefix xs ys) := by
  induction xs generalizing ys segments with
  | nil => cases ys <;> simp [commonSegments, commonPrefix]
  | cons x xs ih =>
    cases ys with
    | nil => simp [commonSegments, commonPrefix]
    | cons y ys =>
      unfold commonSegments commonPrefix
      by_cases hxy : x = y
      · rw [if_pos hxy, if_pos hxy, ih]
        simp
      · rw [if_neg hxy, if_neg hxy]
        simp

namespace CServerPath

variable {p q a : CServerPath} {t : ServerType} {d ld rd : CServerPathData}

/-- The reflexive order. -/
def AncestorOrEqual (a p : CServerPath) : Prop := a = p ∨ ProperAncestor a p

/-- An ancestor at the segments `segs`. -/
def ancestorAt (t : ServerType) (d : CServerPathData) (segs : List WString) : CServerPath :=
  ⟨t, some ⟨segs, parentPrefix t d.pfx⟩⟩

theorem prefixmode_eq_one : (traits t).prefixmode = 1 ↔ t = .mvs := by cases t <;> simp [traits]

theorem prefixmode_eq_zero : (traits t).prefixmode = 0 ↔ t ≠ .mvs := by cases t <;> simp [traits]

/-- A path is a beginning of its own inner segments, unless it lacks the dot on MVS. -/
theorem ancestorOrEqual_iff (h : Anchored ⟨t, some d⟩) : AncestorOrEqual a ⟨t, some d⟩ ↔
    a = ⟨t, some d⟩ ∨ ∃ segs, segs <+: innerSegments t d ∧
      ((traits t).hasRoot = false → segs ≠ []) ∧ a = ancestorAt t d segs := by
  unfold AncestorOrEqual
  rw [properAncestor_iff rfl]
  -- a partitioned data set of MVS is not one of the paths that `ancestorAt` describes
  by_cases hinner : t = .mvs ∧ d.pfx = none
  · obtain ⟨rfl, hpfx⟩ := hinner
    have hsegments : d.segments ≠ [] := (h d rfl).1 rfl
    have hdrop : ∀ segs, segs <+: innerSegments .mvs d ↔
        segs <+: d.segments ∧ segs ≠ d.segments := by
      intro segs
      obtain ⟨init, w, hw⟩ := (eq_nil_or_concat' d.segments).resolve_left hsegments
      have hinner : innerSegments .mvs d = init := by simp [innerSegments, traits, hpfx, hw]
      rw [hinner, hw, prefix_concat_iff]
      constructor
      · intro hsegs
        refine ⟨.inr hsegs, ?_⟩
        rintro rfl
        have := hsegs.length_le
        simp at this
      · rintro ⟨hsegs, hne⟩
        exact hsegs.resolve_left hne
    simp only [hdrop, ancestorAt, and_assoc]
  · have hself : innerSegments t d = d.segments := by
      unfold innerSegments
      rw [if_neg]
      rw [prefixmode_eq_one, Option.isNone_iff_eq_none]
      exact hinner
    have hpfx : parentPrefix t d.pfx = d.pfx := by
      unfold parentPrefix
      split_ifs with ht
      · exact (((h d rfl).2 ht).resolve_left fun hnone => hinner ⟨ht, hnone⟩).symm
      · rfl
    rw [hself]
    constructor
    · rintro (heq | ⟨segs, hsegs, -, hroot, heq⟩)
      · exact .inl heq
      · exact .inr ⟨segs, hsegs, hroot, heq⟩
    · rintro (heq | ⟨segs, hsegs, hroot, heq⟩)
      · exact .inl heq
      · by_cases hne : segs = d.segments
        · left
          rw [heq, ancestorAt, hpfx, hne]
        · exact .inr ⟨segs, hsegs, hne, hroot, heq⟩

/-- The segments that two paths of one type have in common. -/
def common (t : ServerType) (ld rd : CServerPathData) : List WString :=
  commonPrefix (innerSegments t ld) (innerSegments t rd)

/-- There is a common ancestor: the prefixes agree, and so does the first segment if there is no
root. -/
def HasCommon (t : ServerType) (ld rd : CServerPathData) : Prop :=
  parentPrefix t ld.pfx = parentPrefix t rd.pfx ∧ ((traits t).hasRoot = false → common t ld rd ≠ [])

theorem common_comm (t : ServerType) (ld rd : CServerPathData) : common t ld rd = common t rd ld :=
  commonPrefix_comm _ _

theorem HasCommon.symm (h : HasCommon t ld rd) : HasCommon t rd ld := by
  refine ⟨h.1.symm, ?_⟩
  rw [common_comm]
  exact h.2

theorem ancestorAt_eq (h : parentPrefix t ld.pfx = parentPrefix t rd.pfx) (segs : List WString) :
    ancestorAt t ld segs = ancestorAt t rd segs := by
  unfold ancestorAt
  rw [h]

/-- The common ancestors of two different paths. -/
theorem commonAncestor_iff (hp : Anchored ⟨t, some ld⟩) (hq : Anchored ⟨t, some rd⟩)
    (hne : ld ≠ rd) :
    AncestorOrEqual a ⟨t, some ld⟩ ∧ AncestorOrEqual a ⟨t, some rd⟩ ↔
      parentPrefix t ld.pfx = parentPrefix t rd.pfx ∧ ∃ segs, segs <+: common t ld rd ∧
        ((traits t).hasRoot = false → segs ≠ []) ∧ a = ancestorAt t ld segs := by
  rw [ancestorOrEqual_iff hp, ancestorOrEqual_iff hq]
  constructor
  · -- a path that is an ancestor of another one is a beginning of its own inner segments
    have hself : ∀ {d : CServerPathData} {segs pfx}, (⟨t, some d⟩ : CServerPath) =
        ⟨t, some ⟨segs, parentPrefix t pfx⟩⟩ → segs = innerSegments t d ∧
          parentPrefix t d.pfx = parentPrefix t pfx ∧ (⟨t, some d⟩ : CServerPath) =
            ancestorAt t d segs := by
      rintro d segs pfx ⟨⟩
      have hinner : segs = innerSegments t ⟨segs, parentPrefix t pfx⟩ := by
        unfold innerSegments
        rw [if_neg]
        rw [prefixmode_eq_one]
        rintro ⟨rfl, h⟩
        simp [parentPrefix] at h
      refine ⟨hinner, parentPrefix_parentPrefix t pfx, ?_⟩
      unfold ancestorAt
      rw [parentPrefix_parentPrefix]
    -- either path may be the ancestor itself
    rintro ⟨rfl | ⟨segs, hsegs, hroot, rfl⟩, heq | ⟨segs', hsegs', hroot', heq⟩⟩
    · cases heq
      exact absurd rfl hne
    · obtain ⟨hinner, hpfx, hanc⟩ := hself heq
      refine ⟨hpfx, segs', prefix_commonPrefix ?_ hsegs', hroot', hanc⟩
      rw [hinner]
    · obtain ⟨hinner, hpfx, -⟩ := hself heq.symm
      refine ⟨hpfx.symm, segs, prefix_commonPrefix hsegs ?_, hroot, rfl⟩
      rw [hinner]
    · have hsegments : segs = segs' := by
        injection heq with _ hdata
        injection hdata with hdata
        injection hdata
      have hpfx : parentPrefix t ld.pfx = parentPrefix t rd.pfx := by
        injection heq with _ hdata
        injection hdata with hdata
        injection hdata
      subst hsegments
      exact ⟨hpfx, segs, prefix_commonPrefix hsegs hsegs', hroot, rfl⟩
  · rintro ⟨hpfx, segs, hsegs, hroot, rfl⟩
    constructor
    · exact .inr ⟨segs, hsegs.trans (commonPrefix_prefix_left _ _), hroot, rfl⟩
    · exact .inr ⟨segs, hsegs.trans (commonPrefix_prefix_right _ _), hroot, ancestorAt_eq hpfx segs⟩

/-- There is a common ancestor exactly if the segments have one. -/
theorem hasCommon_iff (hp : Anchored ⟨t, some ld⟩) (hq : Anchored ⟨t, some rd⟩) (hne : ld ≠ rd) :
    HasCommon t ld rd ↔ ∃ a, AncestorOrEqual a ⟨t, some ld⟩ ∧ AncestorOrEqual a ⟨t, some rd⟩ := by
  constructor
  · intro h
    exact ⟨_, (commonAncestor_iff hp hq hne).mpr ⟨h.1, common t ld rd, prefix_rfl, h.2, rfl⟩⟩
  · rintro ⟨a, ha⟩
    obtain ⟨hpfx, segs, hsegs, hroot, -⟩ := (commonAncestor_iff hp hq hne).mp ha
    refine ⟨hpfx, ?_⟩
    intro hr hnil
    rw [hnil] at hsegs
    exact hroot hr (prefix_nil.mp hsegs)

/-- A path without a parent is its own only ancestor. -/
theorem AncestorOrEqual.eq_of_not_hasParent (h : AncestorOrEqual a p) (hp : p.hasParent = false) :
    a = p := by
  rcases h with rfl | h
  · rfl
  · cases h.hasParent.symm.trans hp

/-- If one of the paths has no parent, it is the common one or there is none. -/
theorem ite_isSubdirOf_eq (hp : Anchored ⟨t, some ld⟩) (hq : Anchored ⟨t, some rd⟩) (hne : ld ≠ rd)
    (hparent : (mk t (some ld)).hasParent = false) [Decidable (HasCommon t ld rd)] :
    (if (mk t (some rd)).isSubdirOf ⟨t, some ld⟩ (· == ·) false = true
      then ⟨t, some ld⟩ else ⟨.default, none⟩) =
    if HasCommon t ld rd then ancestorAt t ld (common t ld rd) else ⟨.default, none⟩ := by
  have hsubdir := isSubdirOf_iff_properAncestor (p := ⟨t, some rd⟩) hp
  by_cases hcommon : HasCommon t ld rd
  · obtain ⟨hanc, hanc'⟩ := (commonAncestor_iff hp hq hne).mpr
      ⟨hcommon.1, common t ld rd, prefix_rfl, hcommon.2, rfl⟩
    have heq := hanc.eq_of_not_hasParent hparent
    rw [heq] at hanc'
    rw [if_pos hcommon, if_pos, heq]
    refine hsubdir.mpr (hanc'.resolve_left ?_)
    rintro ⟨⟩
    exact hne rfl
  · rw [if_neg hcommon, if_neg]
    intro hbelow
    exact hcommon ((hasCommon_iff hp hq hne).mpr ⟨_, .inl rfl, .inr (hsubdir.mp hbelow)⟩)

/-- Where there is no root, some segment is left. -/
theorem innerSegments_ne_nil (hparent : (mk t (some d)).hasParent = true)
    (hroot : (traits t).hasRoot = false) : innerSegments t d ≠ [] := by
  obtain ⟨hne, hdrop⟩ := (hasParent_iff rfl).mp hparent
  unfold innerSegments
  split
  · exact hdrop hroot
  · exact hne

/-- What `GetCommonParent` returns for two different paths of one type. -/
theorem getCommonParent_eq (hp : Anchored ⟨t, some ld⟩) (hq : Anchored ⟨t, some rd⟩) (hne : ld ≠ rd)
    [Decidable (HasCommon t ld rd)] :
    getCommonParent ⟨t, some ld⟩ ⟨t, some rd⟩ =
      if HasCommon t ld rd then ancestorAt t ld (common t ld rd) else ⟨.default, none⟩ := by
  have hdiffer : (⟨t, some ld⟩ : CServerPath) ≠ ⟨t, some rd⟩ := by
    rintro ⟨⟩
    exact hne rfl
  unfold getCommonParent
  rw [if_neg hdiffer]
  simp only [bne_self_eq_false, Bool.false_or, Bool.and_eq_true, decide_eq_true_eq, bne_iff_ne]
  -- prefixes that must agree and differ: the source gives up at once
  by_cases hpfx : (traits t).prefixmode = 0 ∧ ld.pfx ≠ rd.pfx
  · rw [if_pos hpfx, if_neg]
    intro hcommon
    have hmvs : t ≠ .mvs := prefixmode_eq_zero.mp hpfx.1
    have hsame := hcommon.1
    rw [parentPrefix, if_neg hmvs, parentPrefix, if_neg hmvs] at hsame
    exact hpfx.2 hsame
  · have hsame : parentPrefix t ld.pfx = parentPrefix t rd.pfx := by
      unfold parentPrefix
      split_ifs with hmvs
      · rfl
      · by_contra hdiff
        exact hpfx ⟨prefixmode_eq_zero.mpr hmvs, hdiff⟩
    rw [if_neg hpfx]
    cases hlp : (mk t (some ld)).hasParent with
    | false =>
      -- a path without a parent is the ancestor itself, or there is none
      rw [Bool.not_false, if_pos rfl]
      exact ite_isSubdirOf_eq hp hq hne hlp
    | true =>
      rw [if_neg (by decide)]
      cases hrp : (mk t (some rd)).hasParent with
      | false =>
        rw [Bool.not_false, if_pos rfl]
        have : Decidable (HasCommon t rd ld) := Classical.dec _
        rw [ite_isSubdirOf_eq hq hp (Ne.symm hne) hrp, common_comm, ancestorAt_eq hsame.symm]
        by_cases hcommon : HasCommon t ld rd
        · rw [if_pos hcommon, if_pos hcommon.symm]
        · rw [if_neg hcommon, if_neg fun h => hcommon h.symm]
      | true =>
        rw [if_neg (by decide), commonSegments_eq, nil_append]
        -- on MVS the prefix is that of the parent
        have hpfx' : (if (traits t).prefixmode = 1 then
            (mk t (some ld)).getParent.data.bind (·.pfx) else ld.pfx) = parentPrefix t ld.pfx := by
          rw [getParent_eq hlp rfl]
          unfold parentPrefix
          simp only [prefixmode_eq_one, Option.bind_some]
          split_ifs <;> rfl
        rw [hpfx']
        by_cases hcommon : HasCommon t ld rd
        · rw [if_pos hcommon, if_neg]
          · rfl
          · rintro ⟨hroot, hnil, -⟩
            exact hcommon.2 hroot hnil
        · have hempty : (traits t).hasRoot = false ∧ common t ld rd = [] := by
            by_contra hno
            exact hcommon ⟨hsame, fun hroot hnil => hno ⟨hroot, hnil⟩⟩
          rw [if_neg hcommon, if_pos ⟨hempty.1, hempty.2, innerSegments_ne_nil hlp hempty.1,
            innerSegments_ne_nil hrp hempty.1⟩]

end CServerPath

/-- `GetCommonParent` is the meet in the order of ancestors: it does not depend on the order of the
paths, a path it returns is an ancestor of both or one of them, every common ancestor is one of the
result, and it returns an empty path only if there is no common ancestor. -/
theorem getCommonParent_greatest (p q : CServerPath) (hp : pathSystem.Reach p)
    (hq : pathSystem.Reach q) (hpne : p.empty = false) (hqne : q.empty = false)
    (htype : p.type = q.type) :
    p.getCommonParent q = q.getCommonParent p ∧
      ((p.getCommonParent q).empty = false → (p.getCommonParent q).AncestorOrEqual p ∧
        (p.getCommonParent q).AncestorOrEqual q) ∧
      (∀ a : CServerPath, a.AncestorOrEqual p → a.AncestorOrEqual q →
        a.AncestorOrEqual (p.getCommonParent q)) ∧
      ((p.getCommonParent q).empty = true ↔
        ¬∃ a : CServerPath, a.AncestorOrEqual p ∧ a.AncestorOrEqual q) := by
  classical
  replace hp := anchored_of_reach hp
  replace hq := anchored_of_reach hq
  obtain ⟨t, ld⟩ := p
  obtain ⟨t', rd⟩ := q
  cases htype
  cases ld with
  | none => cases hpne
  | some ld =>
    cases rd with
    | none => cases hqne
    | some rd =>
      by_cases hne : ld = rd
      · subst hne
        have hself : getCommonParent ⟨t, some ld⟩ ⟨t, some ld⟩ = ⟨t, some ld⟩ := if_pos rfl
        rw [hself]
        refine ⟨rfl, fun _ => ⟨.inl rfl, .inl rfl⟩, fun a ha _ => ha, ?_⟩
        constructor
        · rintro ⟨⟩
        · intro hno
          exact absurd ⟨_, .inl rfl, .inl rfl⟩ hno
      · -- two paths that differ: both orders give the same path
        have heq := getCommonParent_eq hp hq hne
        have heq' := getCommonParent_eq hq hp (Ne.symm hne)
        have hcommon := fun a => commonAncestor_iff (a := a) hp hq hne
        by_cases hhas : HasCommon t ld rd
        · rw [if_pos hhas] at heq
          rw [if_pos hhas.symm, common_comm, ancestorAt_eq hhas.1.symm] at heq'
          obtain ⟨hleft, hright⟩ := (hcommon _).mpr
            ⟨hhas.1, common t ld rd, List.prefix_rfl, hhas.2, rfl⟩
          rw [heq, heq']
          refine ⟨rfl, fun _ => ⟨hleft, hright⟩, ?_, ?_⟩
          · -- another common ancestor is a beginning of the common segments
            intro a ha ha'
            obtain ⟨-, segs, hsegs, hroot, rfl⟩ := (hcommon a).mp ⟨ha, ha'⟩
            by_cases hall : segs = common t ld rd
            · rw [hall]
              exact .inl rfl
            · refine .inr ((properAncestor_iff rfl).mpr ⟨segs, hsegs, hall, hroot, ?_⟩)
              unfold ancestorAt
              rw [parentPrefix_parentPrefix]
          · constructor
            · rintro ⟨⟩
            · intro hno
              exact absurd ⟨_, hleft, hright⟩ hno
        · rw [if_neg hhas] at heq
          rw [if_neg fun h => hhas h.symm] at heq'
          have hnone := mt (hasCommon_iff hp hq hne).mpr hhas
          rw [heq, heq']
          refine ⟨rfl, ?_, fun a ha ha' => absurd ⟨a, ha, ha'⟩ hnone, fun _ => hnone, fun _ => rfl⟩
          intro hno
          cases hno

/-- Two members of different data sets under one qualifier. -/
theorem getCommonParent_greatest_mvs :
    ∃ p q : CServerPath, pathSystem.Reach p ∧ pathSystem.Reach q ∧ p.empty = false ∧
      q.empty = false ∧ p.type = q.type ∧ (p.getCommonParent q).getPath = "'FOO.'".toList ∧
      (p.getCommonParent q).AncestorOrEqual p ∧ (p.getCommonParent q).AncestorOrEqual q := by
  have hgreatest := getCommonParent_greatest (.ofText "'FOO.BAR'".toList .mvs)
    (.ofText "'FOO.BAR.'".toList .mvs) (reach_ofText _ _) (reach_ofText _ _) (by decide) (by decide)
    (by decide)
  obtain ⟨hleft, hright⟩ := hgreatest.2.1 (by decide)
  exact ⟨_, _, reach_ofText _ _, reach_ofText _ _, by decide, by decide, by decide, by decide,
    hleft, hright⟩

end FlintZilla
