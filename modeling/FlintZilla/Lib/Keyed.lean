import Mathlib.Tactic

/-!
# Lists whose elements carry distinct keys

An arena: each element has a key, and no two elements have the same. A reference to an element is
its key, and following or using a reference touches this element and no other.

Two such lists that refer to each other are given by a permutation: `l.map f` and `m.map g` hold the
same pairs of references.

Main results:

* `map_update`, `splice_perm`, `perm_filter`: changes of one element, and of both lists together.
-/

namespace Lib.Keyed

universe u v w

open List

variable {α : Type u} {β : Type v} {k : α → β} {l : List α} {a : α}

/-- The element with a key stands alone. -/
theorem exists_split (hnodup : (l.map k).Nodup) (ha : a ∈ l) :
    ∃ xs ys, l = xs ++ a :: ys ∧ (∀ b ∈ xs, k b ≠ k a) ∧ ∀ b ∈ ys, k b ≠ k a := by
  obtain ⟨xs, ys, rfl⟩ := append_of_mem ha
  rw [map_append, nodup_append] at hnodup
  obtain ⟨-, hys, hxs⟩ := hnodup
  refine ⟨xs, ys, rfl, ?_, ?_⟩
  · intro b hb
    exact hxs (k b) (mem_map_of_mem hb) (k a) (by simp)
  · intro b hb heq
    refine (nodup_cons.mp hys).1 ?_
    rw [← heq]
    exact mem_map_of_mem hb

section

variable [DecidableEq β]

section

variable (hnodup : (l.map k).Nodup) (ha : a ∈ l)

include hnodup ha

/-- An element that is changed through its key. -/
theorem map_update :
    ∃ xs ys, l = xs ++ a :: ys ∧ ∀ g : α → α,
      l.map (fun b => if k b = k a then g b else b) = xs ++ g a :: ys := by
  obtain ⟨xs, ys, rfl, hxs, hys⟩ := exists_split hnodup ha
  refine ⟨xs, ys, rfl, ?_⟩
  intro g
  have hother : ∀ zs : List α, (∀ b ∈ zs, k b ≠ k a) →
      zs.map (fun b => if k b = k a then g b else b) = zs := by
    intro zs hzs
    conv_rhs => rw [← map_id zs]
    refine map_congr_left ?_
    intro b hb
    rw [if_neg (hzs b hb), id]
  rw [map_append, map_cons, hother xs hxs, hother ys hys, if_pos rfl]

/-- A reference finds its element. -/
theorem find?_key : l.find? (fun b => k b == k a) = some a := by
  obtain ⟨xs, ys, rfl, hxs, -⟩ := exists_split hnodup ha
  rw [find?_append, find?_cons_of_pos (by simp), find?_eq_none.mpr]
  · rfl
  · intro b hb
    simpa using hxs b hb

theorem filter_key : l.filter (fun b => k b == k a) = [a] := by
  obtain ⟨xs, ys, rfl, hxs, hys⟩ := exists_split hnodup ha
  rw [filter_append, filter_cons_of_pos (by simp),
    filter_eq_nil_iff.mpr (by simpa using hxs),
    filter_eq_nil_iff.mpr (by simpa using hys)]
  rfl

/-- An element that moves to the end. -/
theorem splice_perm : ((l.filter fun b => k b != k a) ++ [a]).Perm l := by
  have hperm := filter_append_perm (fun b => k b != k a) l
  have hkey : l.filter (fun b => !(k b != k a)) = [a] := by
    rw [← filter_key hnodup ha]
    refine filter_congr ?_
    intro b _
    rw [bne, Bool.not_not]
  rwa [hkey] at hperm

end

end

/-! ## Lists that refer to each other -/

/-- Dropping an element on one side and its partner on the other keeps the references matched. -/
theorem perm_filter {γ : Type w} {δ : Type*} {f : α → δ} {m : List γ} {g : γ → δ} {p : α → Bool}
    {q : γ → Bool} (h : (l.map f).Perm (m.map g)) (hpq : ∀ a ∈ l, ∀ b ∈ m, f a = g b → p a = q b) :
    ((l.filter p).map f).Perm ((m.filter q).map g) := by
  classical
  -- the test on the references themselves
  let keep : δ → Bool := fun x => decide (∃ b ∈ m, g b = x ∧ q b = true)
  have hm : ∀ b ∈ m, q b = keep (g b) := by
    intro b hb
    rw [Bool.eq_iff_iff, decide_eq_true_iff]
    constructor
    · intro hq
      exact ⟨b, hb, rfl, hq⟩
    · rintro ⟨b', hb', heq, hq⟩
      obtain ⟨a, ha, hab⟩ := mem_map.mp (h.symm.subset (mem_map_of_mem (f := g) hb))
      rw [← hpq a ha b hb hab, hpq a ha b' hb' (hab.trans heq.symm)]
      exact hq
  have hl : ∀ a ∈ l, p a = keep (f a) := by
    intro a ha
    obtain ⟨b, hb, hba⟩ := mem_map.mp (h.subset (mem_map_of_mem (f := f) ha))
    rw [hpq a ha b hb hba.symm, hm b hb, hba]
  rw [filter_congr hl, filter_congr hm]
  have hfilter := h.filter keep
  rw [filter_map, filter_map] at hfilter
  exact hfilter

end Lib.Keyed
