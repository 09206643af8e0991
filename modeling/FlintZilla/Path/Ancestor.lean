import FlintZilla.Path.ServerPath

/-!
# Ancestors

`IsSubdirOf` compares segments, `GetParent` removes them. `ProperAncestor` is the relation that
`GetParent` generates; the comparison never misses it.

Main results:

* `segmentsBelow_iff`, `isSubdirOf_iff`: what `IsSubdirOf` compares.
* `properAncestor_iff`: what the steps of `GetParent` lead to.
* `ProperAncestor.isParentOf`: the comparison finds every ancestor.
-/

namespace FlintZilla

open List

/-- The loop of `IsSubdirOf` over both segment lists. -/
def segmentsBelow (same : WString → WString → Bool) (allowEqual : Bool) :
    List WString → List WString → Bool
  | [], [] => allowEqual
  | [], _ :: _ => false
  | _ :: _, [] => true
  | x :: xs, y :: ys => if same x y then segmentsBelow same allowEqual xs ys else false

/-- The comparison of the prefixes in `IsSubdirOf`. -/
def samePrefix (same : WString → WString → Bool) : Option WString → Option WString → Bool
  | none, none => true
  | some x, some y => same x y
  | _, _ => false

namespace CServerPath

/-- `CServerPath::IsSubdirOf`; `same` is equality, or equality up to case when `cmpNoCase` is
set. -/
def isSubdirOf (p path : CServerPath) (same : WString → WString → Bool) (allowEqual : Bool) :
    Bool :=
  match p.data, path.data with
  | some ld, some rd =>
    if p.type != path.type then false
    else if !p.hasParent then false
    else if (traits p.type).prefixmode != 1 && !samePrefix same ld.pfx rd.pfx then false
    -- on MVS, dirs like 'FOO.BAR' without trailing dot cannot have subdirectories
    else if (traits p.type).prefixmode == 1 && rd.pfx.isNone then false
    else segmentsBelow same allowEqual ld.segments rd.segments
  | _, _ => false

/-- `CServerPath::IsParentOf(path, false)`. -/
def isParentOf (p path : CServerPath) : Bool := path.isSubdirOf p (· == ·) false

/-- One or more `GetParent` steps lead from `p` to `a`. -/
inductive ProperAncestor (a : CServerPath) : CServerPath → Prop where
  | parent {p : CServerPath} : p.hasParent = true → p.getParent = a → ProperAncestor a p
  | above {p : CServerPath} : p.hasParent = true → ProperAncestor a p.getParent → ProperAncestor a p

end CServerPath

/-- The loop of `IsSubdirOf` looks for a beginning. -/
theorem segmentsBelow_iff {allowEqual : Bool} {xs ys : List WString} :
    segmentsBelow (· == ·) allowEqual xs ys = true ↔ ys <+: xs ∧ (ys = xs → allowEqual = true) := by
  induction xs generalizing ys with
  | nil => cases ys <;> simp [segmentsBelow]
  | cons x xs ih =>
    cases ys with
    | nil => simp [segmentsBelow]
    | cons y ys =>
      rw [segmentsBelow]
      by_cases hxy : x = y
      · subst hxy
        simp [ih]
      · have hyx : y ≠ x := fun h => hxy h.symm
        simp [hxy, hyx]

theorem samePrefix_iff {x y : Option WString} : samePrefix (· == ·) x y = true ↔ x = y := by
  cases x <;> cases y <;> simp [samePrefix]

/-- The prefix of every proper ancestor. -/
def parentPrefix (t : ServerType) (pfx : Option WString) : Option WString :=
  if t = .mvs then some ['.'] else pfx

theorem parentPrefix_parentPrefix (t : ServerType) (pfx : Option WString) :
    parentPrefix t (parentPrefix t pfx) = parentPrefix t pfx := by
  unfold parentPrefix
  split_ifs <;> rfl

namespace CServerPath

variable {p a : CServerPath} {d : CServerPathData}

theorem getParent_eq (h : p.hasParent) (hd : p.data = some d) :
    p.getParent = ⟨p.type, some ⟨d.segments.dropLast, parentPrefix p.type d.pfx⟩⟩ := by
  simp only [getParent, makeParent, hd, h, reduceIte, parentPrefix]

/-- Without a root the first segment has no parent. -/
theorem hasParent_iff (hd : p.data = some d) : p.hasParent = true ↔
    d.segments ≠ [] ∧ ((traits p.type).hasRoot = false → d.segments.dropLast ≠ []) := by
  have hlength : d.segments.dropLast ≠ [] ↔ 1 < d.segments.length := by
    rw [← length_pos_iff_ne_nil, length_dropLast]
    omega
  unfold hasParent
  rw [hd, hlength]
  cases hroot : (traits p.type).hasRoot with
  | false =>
    simp only [Bool.not_false, if_true, decide_eq_true_eq, forall_const]
    rw [← length_pos_iff_ne_nil]
    omega
  | true => simp

/-- `MakeParent` drops the last segment, or leaves an empty path. -/
theorem makeParent_cases (p : CServerPath) : p.makeParent.data = none ∨ ∃ d, p.data = some d ∧
    (d.segments ≠ [] ∧ ((traits p.type).hasRoot = false → d.segments.dropLast ≠ [])) ∧
    p.makeParent = ⟨p.type, some ⟨d.segments.dropLast, parentPrefix p.type d.pfx⟩⟩ := by
  cases hd : p.data with
  | none => exact .inl (by simp [makeParent, hd, clear])
  | some d =>
    by_cases hparent : p.hasParent = true
    · exact .inr ⟨d, rfl, (hasParent_iff hd).mp hparent, getParent_eq hparent hd⟩
    · exact .inl (by simp [makeParent, hd, hparent, clear])

/-- A path with a suffix counts as a parent on MVS; elsewhere the prefixes must agree. -/
theorem isSubdirOf_iff {ld rd : CServerPathData} {allowEqual : Bool} (hp : p.data = some ld)
    (ha : a.data = some rd) (hparent : p.hasParent) :
    p.isSubdirOf a (· == ·) allowEqual = true ↔ p.type = a.type ∧
      (if p.type = .mvs then rd.pfx ≠ none else ld.pfx = rd.pfx) ∧
      rd.segments <+: ld.segments ∧ (rd.segments = ld.segments → allowEqual = true) := by
  have hmode : (traits p.type).prefixmode = if p.type = .mvs then 1 else 0 := by
    cases p.type <;> rfl
  rw [← segmentsBelow_iff, ← samePrefix_iff (x := ld.pfx)]
  simp only [isSubdirOf, hp, ha, hparent, hmode]
  by_cases ht : p.type = a.type
  · by_cases hm : p.type = .mvs
    · cases hr : rd.pfx <;> simp [hm]
    · cases hs : samePrefix (· == ·) ld.pfx rd.pfx <;> simp [hm]
  · simp [ht]

/-- The proper ancestors are the proper beginnings, down to the root or the first segment. -/
theorem properAncestor_iff (hd : p.data = some d) : ProperAncestor a p ↔
    ∃ segs, segs <+: d.segments ∧ segs ≠ d.segments ∧
      ((traits p.type).hasRoot = false → segs ≠ []) ∧
      a = ⟨p.type, some ⟨segs, parentPrefix p.type d.pfx⟩⟩ := by
  constructor
  · intro h
    induction h generalizing d with
    | parent hparent hget =>
      obtain ⟨hne, hroot⟩ := (hasParent_iff hd).mp hparent
      rw [getParent_eq hparent hd] at hget
      refine ⟨d.segments.dropLast, dropLast_prefix _, ?_, hroot, hget.symm⟩
      intro heq
      have hlength := congrArg length heq
      rw [length_dropLast] at hlength
      have := length_pos_iff_ne_nil.mpr hne
      omega
    | @above p hparent _ ih =>
      have hget := getParent_eq hparent hd
      rw [hget] at ih
      obtain ⟨segs, hsegs, -, hroot, heq⟩ := ih rfl
      obtain ⟨hne, -⟩ := (hasParent_iff hd).mp hparent
      refine ⟨segs, hsegs.trans (List.dropLast_prefix _), ?_, hroot, ?_⟩
      · rintro rfl
        have hlength := hsegs.length_le
        rw [length_dropLast] at hlength
        have := length_pos_iff_ne_nil.mpr hne
        omega
      · rw [heq]
        exact congrArg (fun pfx => (⟨p.type, some ⟨segs, pfx⟩⟩ : CServerPath))
          (parentPrefix_parentPrefix p.type d.pfx)
  · rintro ⟨segs, hsegs, hne, hroot, rfl⟩
    -- by induction on the segments from the end
    obtain ⟨segments, pfx⟩ := d
    generalize ht : p.type = t at hroot ⊢
    induction segments using reverseRecOn generalizing p pfx with
    | nil => exact absurd (prefix_nil.mp hsegs) hne
    | append_singleton init w ih =>
      have hinit := (prefix_concat_iff.mp hsegs).resolve_left hne
      have hparent : p.hasParent = true := by
        rw [hasParent_iff hd, ht]
        refine ⟨by simp, ?_⟩
        intro hr hnil
        have hnil' : init = [] := by simpa using hnil
        rw [hnil'] at hinit
        exact hroot hr (prefix_nil.mp hinit)
      have hget : p.getParent = ⟨t, some ⟨init, parentPrefix t pfx⟩⟩ := by
        rw [getParent_eq hparent hd, ht, dropLast_concat]
      by_cases heq : segs = init
      · subst heq
        exact ProperAncestor.parent hparent hget
      · refine ProperAncestor.above hparent ?_
        have habove := ih (parentPrefix t pfx) (p := ⟨t, some ⟨init, parentPrefix t pfx⟩⟩) rfl hinit
          heq rfl
        rw [parentPrefix_parentPrefix] at habove
        rw [hget]
        exact habove

theorem ProperAncestor.hasParent (h : ProperAncestor a p) : p.hasParent = true := by
  cases h <;> assumption

/-- A proper ancestor is a parent in the sense of the comparison. -/
theorem ProperAncestor.isParentOf (h : ProperAncestor a p) : a.isParentOf p = true := by
  have hparent := h.hasParent
  cases hd : p.data with
  | none => simp [CServerPath.hasParent, hd] at hparent
  | some d =>
    obtain ⟨segs, hsegs, hne, -, rfl⟩ := (properAncestor_iff hd).mp h
    refine (isSubdirOf_iff hd rfl hparent).mpr ⟨rfl, ?_, hsegs, fun heq => absurd heq hne⟩
    unfold parentPrefix
    split_ifs
    · simp
    · rfl

end CServerPath

end FlintZilla
