import Mathlib.Tactic

/-!
# Vectors with dead cells at the front

A vector that removes an element near its front by moving the few elements before it one cell
towards the back, so that the dead cell ends up in front of them, and by counting the dead cells.
Elements further behind are erased the ordinary way, and the dead cells go when an element is
pushed.

`live` is what such a vector stands for. Every operation is an ordinary list operation on `live`:
`live_push`, `live_removeAt`, `live_setLive`.
-/

namespace Lib

universe u

open List Nat

/-- The cells of a vector, and how many of them at the front are dead. -/
structure FrontVector (α : Type u) where
  cells : List α
  removed : Nat
  removed_le : removed ≤ cells.length
deriving DecidableEq

namespace FrontVector

variable {α : Type u}

/-- The elements of the vector. -/
def live (v : FrontVector α) : List α := v.cells.drop v.removed

def empty : FrontVector α := ⟨[], 0, Nat.le_refl 0⟩

/-- A vector without dead cells. -/
def ofList (xs : List α) : FrontVector α := ⟨xs, 0, Nat.zero_le _⟩

/-- Other elements behind the same dead cells. -/
def setLive (v : FrontVector α) (xs : List α) : FrontVector α where
  cells := v.cells.take v.removed ++ xs
  removed := v.removed
  removed_le := by
    rw [List.length_append, List.length_take, Nat.min_eq_left v.removed_le]
    exact Nat.le_add_right _ _

/-- Append an element; the dead cells are given back first. -/
def push (v : FrontVector α) (a : α) : FrontVector α := ofList (v.live ++ [a])

/-- `n` assignments `cells[i] = cells[i - 1]`, for `i` from `lo + n` down to `lo + 1`. -/
def shift (lo : Nat) : Nat → List α → List α
  | 0, cells => cells
  | n + 1, cells =>
    match cells[lo + n]? with
    | some a => shift lo n (cells.set (lo + n + 1) a)
    | none => cells

/-- Moving cells keeps their number. -/
theorem length_shift (lo n : Nat) (cells : List α) : (shift lo n cells).length = cells.length := by
  induction n generalizing cells with
  | zero => rfl
  | succ n ih =>
    unfold shift
    split
    · rw [ih, length_set]
    · rfl

/-- Remove the `i`-th element: by moving the elements before it if there are at most `near` of
them, else by erasing its cell. -/
def removeAt (near : Nat) (v : FrontVector α) (i : Nat) : FrontVector α :=
  if h : i < v.live.length then
    if i ≤ near then
      { cells := shift v.removed i v.cells
        removed := v.removed + 1
        removed_le := by
          rw [live, List.length_drop] at h
          rw [length_shift]
          omega }
    else
      { cells := v.cells.eraseIdx (v.removed + i)
        removed := v.removed
        removed_le := by
          rw [live, List.length_drop] at h
          rw [List.length_eraseIdx_of_lt (by omega)]
          omega }
  else v

/-! ## The elements after an operation -/

@[simp] theorem live_empty : (empty : FrontVector α).live = [] := rfl

@[simp] theorem live_ofList (xs : List α) : (ofList xs).live = xs := rfl

@[simp] theorem live_push (v : FrontVector α) (a : α) : (v.push a).live = v.live ++ [a] := rfl

@[simp] theorem live_setLive (v : FrontVector α) (xs : List α) : (v.setLive xs).live = xs := by
  have hlen : (v.cells.take v.removed).length = v.removed := length_take_of_le v.removed_le
  show (v.cells.take v.removed ++ xs).drop v.removed = xs
  rw [drop_append_of_le_length (le_of_eq hlen.symm), drop_of_length_le]
  · rfl
  · exact le_of_eq hlen

/-- After the assignments the cell `lo` is dead, and the cell `lo + n` is the one that is lost. -/
theorem drop_shift (lo n : Nat) (cells : List α) (h : lo + n < cells.length) :
    (shift lo n cells).drop (lo + 1) = (cells.drop lo).eraseIdx n := by
  induction n generalizing cells with
  | zero => rw [shift, drop_eq_getElem_cons (by omega : lo < cells.length), eraseIdx_cons_zero]
  | succ n ih =>
    have hget : cells[lo + n]? = some (cells.get ⟨lo + n, by omega⟩) :=
      getElem?_eq_getElem (by omega)
    rw [shift, hget]
    show (shift lo n (cells.set (lo + n + 1) (cells.get ⟨lo + n, by omega⟩))).drop (lo + 1) = _
    rw [ih _ (by rw [length_set]; omega)]
    -- before position `n` neither side has changed, at `n` stands the moved element, and behind it
    -- both sides skip the element that is lost
    apply ext_getElem?
    intro k
    rw [getElem?_eraseIdx, getElem?_eraseIdx]
    simp only [getElem?_drop]
    rcases lt_trichotomy k n with hk | rfl | hk
    · rw [if_pos hk, if_pos (by omega), getElem?_set_ne (by omega)]
    · rw [if_neg (lt_irrefl k), if_pos (lt_succ_self k),
        show lo + (k + 1) = lo + k + 1 from rfl, getElem?_set_self (by omega), hget]
    · rw [if_neg (by omega), if_neg (by omega), getElem?_set_ne (by omega)]

/-- Erasing behind the dead cells. -/
theorem eraseIdx_drop (cells : List α) (lo i : Nat) :
    (cells.eraseIdx (lo + i)).drop lo = (cells.drop lo).eraseIdx i := by
  induction lo generalizing cells with
  | zero => rw [zero_add, drop_zero, drop_zero]
  | succ lo ih =>
    cases cells with
    | nil => simp
    | cons c cells => rw [add_right_comm, eraseIdx_cons_succ, drop_succ_cons, drop_succ_cons, ih]

/-- Removing an element, near the front or not. -/
@[simp] theorem live_removeAt (near : Nat) (v : FrontVector α) (i : Nat) :
    (v.removeAt near i).live = v.live.eraseIdx i := by
  unfold removeAt
  split_ifs with h hnear
  · have hlen : v.removed + i < v.cells.length := by
      rw [live, length_drop] at h
      omega
    exact drop_shift v.removed i v.cells hlen
  · exact eraseIdx_drop v.cells v.removed i
  · rw [eraseIdx_of_length_le (Nat.le_of_not_lt h)]

end FrontVector

end Lib
