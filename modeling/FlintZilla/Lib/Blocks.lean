import Mathlib.Tactic

/-!
# Positions in a list of blocks

The concatenation of blocks, read by position. `start bs m` is where block `m` begins, and
`At bs k m` says that position `k` lies in block `m`; a position lies in one block only
(`At.unique`), and looking it up is looking it up in its block (`At.getElem?_flatten`).

`Table` is a table of positions: for each of the positions of the first `n` blocks, the entry made
of the start and the number of its block. `Table.extend` adds the next block.
-/

namespace Lib.Blocks

universe u v

open List Nat

variable {β : Type u} {bs : List (List β)} {b : List β} {k m n : Nat}

/-- Where block `m` starts. -/
def start (bs : List (List β)) (m : Nat) : Nat := (bs.take m).flatten.length

@[simp] theorem start_zero (bs : List (List β)) : start bs 0 = 0 := rfl

theorem start_cons (b : List β) (bs : List (List β)) (m : Nat) :
    start (b :: bs) (m + 1) = b.length + start bs m := by
  unfold start
  rw [take_succ_cons, flatten_cons, length_append]

/-- The next block begins where this one ends. -/
theorem start_succ (hb : bs[m]? = some b) : start bs (m + 1) = start bs m + b.length := by
  unfold start
  rw [take_add_one, hb]
  simp

/-- Behind the last block is the end. -/
theorem start_length (bs : List (List β)) : start bs bs.length = bs.flatten.length := by
  rw [start, take_length]

theorem start_mono (bs : List (List β)) (h : m ≤ n) : start bs m ≤ start bs n := by
  unfold start
  have hsplit : bs.take n = bs.take m ++ (bs.drop m).take (n - m) := by
    rw [← take_add, Nat.add_sub_cancel' h]
  rw [hsplit, flatten_append, length_append]
  exact Nat.le_add_right _ _

/-- The concatenation behind the first `m` blocks. -/
theorem drop_start (bs : List (List β)) (m : Nat) :
    bs.flatten.drop (start bs m) = (bs.drop m).flatten := by
  conv_lhs => rw [← take_append_drop m bs, flatten_append]
  unfold start
  rw [take_append_drop, drop_left]

/-! ## The block of a position -/

/-- Position `k` lies in block `m`. -/
structure At (bs : List (List β)) (k m : Nat) : Prop where
  lower : start bs m ≤ k
  upper : k < start bs (m + 1)

theorem At.le (h : At bs k m) (h' : At bs k n) : m ≤ n := by
  by_contra hlt
  have hmono : start bs (n + 1) ≤ start bs m := start_mono bs (by omega)
  have := h'.upper
  have := h.lower
  omega

/-- A position lies in one block only. -/
theorem At.unique (h : At bs k m) (h' : At bs k n) : m = n := le_antisymm (h.le h') (h'.le h)

theorem At.lt_length (h : At bs k m) : m < bs.length := by
  by_contra hge
  have hsame : start bs (m + 1) = start bs m := by
    unfold start
    rw [take_of_length_le (by omega), take_of_length_le (by omega)]
  have := h.lower
  have := h.upper
  omega

/-- Looking up a position is looking it up in its block. -/
theorem At.getElem?_flatten (h : At bs k m) (hb : bs[m]? = some b) :
    bs.flatten[k]? = b[k - start bs m]? := by
  have hlower := h.lower
  have hupper := h.upper
  rw [start_succ hb] at hupper
  have hk : k = start bs m + (k - start bs m) := by omega
  rw [hk, ← getElem?_drop, drop_start, drop_eq_getElem?_toList_append, hb]
  simp only [Option.toList_some, cons_append, flatten_cons]
  rw [getElem?_append_left (by omega), ← hk]

/-- The first position of a block. -/
theorem at_start (hb : bs[m]? = some b) (hne : b ≠ []) : At bs (start bs m) m where
  lower := le_refl _
  upper := by
    rw [start_succ hb]
    have := length_pos_iff.mpr hne
    omega

/-- Every position lies in some block. -/
theorem exists_at (h : k < bs.flatten.length) : ∃ m, At bs k m := by
  rw [← start_length] at h
  -- the first block that ends behind `k`
  have hex : ∃ m, k < start bs m := ⟨bs.length, h⟩
  have hfind := Nat.find_spec hex
  have hmin : ∀ j, j < Nat.find hex → ¬ k < start bs j := fun j => Nat.find_min hex
  cases hm : Nat.find hex with
  | zero =>
    rw [hm] at hfind
    exact absurd hfind (Nat.not_lt_zero k)
  | succ m =>
    rw [hm] at hfind hmin
    exact ⟨m, Nat.le_of_not_lt (hmin m (Nat.lt_succ_self m)), hfind⟩

/-! ## Tables of positions -/

section

variable {γ : Type v} {entry : Nat → Nat → γ} {table table' : List γ}

/-- `table` knows the block of every position before block `n`. -/
def Table (entry : Nat → Nat → γ) (bs : List (List β)) (n : Nat) (table : List γ) : Prop :=
  ∀ k < start bs n, ∃ m, At bs k m ∧ table[k]? = some (entry (start bs m) m)

theorem Table.zero (entry : Nat → Nat → γ) (bs : List (List β)) (table : List γ) :
    Table entry bs 0 table := by
  intro k hk
  exact absurd hk (not_lt_zero k)

/-- One more block: its positions get its entry, the positions before it keep theirs. -/
theorem Table.extend (h : Table entry bs n table)
    (hold : ∀ k < start bs n, table'[k]? = table[k]?)
    (hnew : ∀ k, At bs k n → table'[k]? = some (entry (start bs n) n)) :
    Table entry bs (n + 1) table' := by
  intro k hk
  by_cases hlt : k < start bs n
  · obtain ⟨m, hat, hget⟩ := h k hlt
    exact ⟨m, hat, (hold k hlt).trans hget⟩
  · have hat : At bs k n := ⟨Nat.le_of_not_lt hlt, hk⟩
    exact ⟨n, hat, hnew k hat⟩

/-- The block before `n` that a position just before block `n` lies in is the last one. -/
theorem At.pred (h : At bs k m) (hk : k + 1 = start bs (n + 1)) (hb : bs[n]? = some b)
    (hne : b ≠ []) : m = n := by
  refine h.unique ⟨?_, ?_⟩
  · have := length_pos_iff.mpr hne
    rw [start_succ hb] at hk
    omega
  · omega

end

end Lib.Blocks
