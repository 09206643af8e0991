import Mathlib.Tactic

/-!
# Common beginnings

The longest common beginning of two lists is their meet in the order of beginnings.
-/

namespace Lib

universe u

open List

variable {α : Type u} [DecidableEq α]

/-- The longest list that both lists begin with. -/
def commonPrefix : List α → List α → List α
  | x :: xs, y :: ys => if x = y then x :: commonPrefix xs ys else []
  | _, _ => []

theorem commonPrefix_comm (xs ys : List α) : commonPrefix xs ys = commonPrefix ys xs := by
  induction xs generalizing ys with
  | nil => cases ys <;> rfl
  | cons x xs ih =>
    cases ys with
    | nil => rfl
    | cons y ys =>
      unfold commonPrefix
      by_cases h : x = y
      · subst h
        rw [if_pos rfl, if_pos rfl, ih ys]
      · rw [if_neg h, if_neg fun h' => h h'.symm]

/-- It is a beginning of the first list. -/
theorem commonPrefix_prefix_left (xs ys : List α) : commonPrefix xs ys <+: xs := by
  induction xs generalizing ys with
  | nil => cases ys <;> exact nil_prefix
  | cons x xs ih =>
    cases ys with
    | nil => exact nil_prefix
    | cons y ys =>
      unfold commonPrefix
      split_ifs with h
      · exact (prefix_cons_inj x).mpr (ih ys)
      · exact nil_prefix

theorem commonPrefix_prefix_right (xs ys : List α) : commonPrefix xs ys <+: ys := by
  rw [commonPrefix_comm]
  exact commonPrefix_prefix_left ys xs

/-- Every common beginning is a beginning of the longest one. -/
theorem prefix_commonPrefix {zs xs ys : List α} (hx : zs <+: xs) (hy : zs <+: ys) :
    zs <+: commonPrefix xs ys := by
  induction zs generalizing xs ys with
  | nil => exact nil_prefix
  | cons z zs ih =>
    obtain ⟨xs', rfl⟩ := hx
    obtain ⟨ys', rfl⟩ := hy
    rw [cons_append, cons_append, commonPrefix, if_pos rfl]
    exact (prefix_cons_inj z).mpr (ih (prefix_append zs xs') (prefix_append zs ys'))

end Lib
