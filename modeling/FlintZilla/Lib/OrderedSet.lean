import Mathlib.Tactic

/-!
# Ordered sets as lists

A set that is ordered by keys is the list of its elements in ascending order, as `std::set` visits
them. The functions take the test whether an element is below the key that is looked for.

Main results:

* `lowerBound_eq_some`, `sorted_insertBehind`: what a search finds, and that insertion keeps the
  order.
-/

namespace Lib.OrderedSet

universe u v

open List

variable {α : Type u} {κ : Type v}

/-- The first element that is not below the key. -/
def lowerBound (below : α → Bool) (l : List α) : Option α := l.find? fun a => !below a

/-- The list with a new element behind those below it. -/
def insertBehind (below : α → Bool) (x : α) (l : List α) : List α :=
  l.takeWhile below ++ x :: l.dropWhile below

/-- The new element is added to the others. -/
theorem insertBehind_perm (below : α → Bool) (x : α) (l : List α) :
    (insertBehind below x l).Perm (x :: l) := by
  refine perm_middle.trans ?_
  rw [takeWhile_append_dropWhile]

variable [Ord κ] (key : α → κ)

/-- Ascending and without equivalent elements. -/
def Sorted (l : List α) : Prop := l.Pairwise fun a b => compare (key a) (key b) = .lt

/-- The test decides the order. -/
def IsBelow (below : α → Bool) (k : κ) : Prop := ∀ a, below a = true ↔ compare (key a) k = .lt

variable {key} {below : α → Bool} {k : κ} {l : List α} {a x : α}

theorem mem_of_lowerBound (h : lowerBound below l = some a) : a ∈ l := mem_of_find?_eq_some h

theorem Sorted.sublist {l' : List α} (h : Sorted key l) (hsub : l'.Sublist l) : Sorted key l' :=
  List.Pairwise.sublist hsub h

variable [Std.TransOrd κ]

/-- An element with the key is found. -/
theorem lowerBound_eq_some (hs : Sorted key l) (hbelow : IsBelow key below k) (ha : a ∈ l)
    (hk : compare (key a) k = .eq) : lowerBound below l = some a := by
  induction l with
  | nil => cases ha
  | cons b l ih =>
    obtain ⟨hb, hl⟩ := pairwise_cons.mp hs
    unfold lowerBound
    rcases mem_cons.mp ha with rfl | ha
    · have hnot : below a = false := by
        rw [← Bool.not_eq_true, hbelow a, hk]
        decide
      rw [find?_cons_of_pos (by simp [hnot])]
    · -- what stands in front is below it
      have hlt : compare (key b) k = .lt := by
        rw [← Std.TransCmp.congr_right hk]
        exact hb a ha
      rw [find?_cons_of_neg (by simp [(hbelow b).mpr hlt])]
      exact ih hl ha

/-- The element goes in front of the first one that is not below it. -/
theorem sorted_insertBehind (hs : Sorted key l) (hbelow : IsBelow key below (key x))
    (hne : ∀ a ∈ l, compare (key a) (key x) ≠ .eq) : Sorted key (insertBehind below x l) := by
  have htake : ∀ a ∈ l.takeWhile below, compare (key a) (key x) = .lt := by
    intro a ha
    have hpos : below a = true := by
      have := all_takeWhile (p := below) (l := l)
      exact all_eq_true.mp this a ha
    exact (hbelow a).mp hpos
  have hsplit : Sorted key (l.takeWhile below ++ l.dropWhile below) := by
    rw [takeWhile_append_dropWhile]
    exact hs
  obtain ⟨hfront, hback, hcross⟩ := pairwise_append.mp hsplit
  have hdrop : ∀ a ∈ l.dropWhile below, compare (key x) (key a) = .lt := by
    cases hd : l.dropWhile below with
    | nil => simp
    | cons b rest =>
      rw [hd] at hback
      have hb : below b = false := by
        have hhead := head?_dropWhile_not below l
        rw [hd] at hhead
        simpa using hhead
      have hmem : b ∈ l := (dropWhile_sublist below).subset (by rw [hd]; simp)
      have hgt : compare (key x) (key b) = .lt := by
        have hnlt : compare (key b) (key x) ≠ .lt := by
          rw [Ne, ← hbelow b, hb]
          decide
        have hneq := hne b hmem
        cases hc : compare (key b) (key x) with
        | lt => exact absurd hc hnlt
        | eq => exact absurd hc hneq
        | gt => exact Std.OrientedCmp.gt_iff_lt.mp hc
      intro a ha
      rcases mem_cons.mp ha with rfl | ha
      · exact hgt
      · exact Std.TransCmp.lt_trans hgt ((pairwise_cons.mp hback).1 a ha)
  refine pairwise_append.mpr ⟨hfront, pairwise_cons.mpr ⟨hdrop, hback⟩, ?_⟩
  intro a ha b hb
  rcases mem_cons.mp hb with rfl | hb
  · exact htake a ha
  · exact hcross a ha b hb

end Lib.OrderedSet
