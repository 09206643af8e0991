import Mathlib.Tactic

/-!
# Ring buffers

A ring of `n` slots with the position of its first element and the number of elements. `slot` is the
index arithmetic `(pos + k) % n`, `queue` the elements in order. The lemmas say how the queue
changes when the slot behind the last element is written, when the first element is dropped and when
it is replaced in place; a slot outside the queue can be written at any time.

Main results:

* `queue_push`, `queue_succ`, `queue_update_head`, `queue_update_of_le`: how the queue changes.
-/

namespace Lib.Ring

open List Function

variable {n : Nat} [NeZero n] {α : Type*}

/-- The slot `k` places behind `pos`. -/
def slot (n : Nat) [NeZero n] (pos k : Nat) : Fin n := Fin.ofNat n (pos + k)

/-- The elements of a ring, first to last. -/
def queue (f : Fin n → α) (pos count : Nat) : List α :=
  (List.range count).map fun k => f (slot n pos k)

/-! ## Slots -/

theorem slot_succ (pos k : Nat) : slot n ((pos + 1) % n) k = slot n pos (k + 1) := by
  apply Fin.ext
  show ((pos + 1) % n + k) % n = (pos + (k + 1)) % n
  rw [Nat.mod_add_mod, Nat.add_assoc, Nat.add_comm 1 k]

/-- Slots less than one round apart are different. -/
theorem slot_ne {pos k l : Nat} (hk : k < n) (hl : l < n) (hkl : k ≠ l) :
    slot n pos k ≠ slot n pos l := by
  intro h
  have hmod : (pos + k) % n = (pos + l) % n := congrArg Fin.val h
  have hcancel : k ≡ l [MOD n] := Nat.ModEq.add_left_cancel' pos hmod
  have heq : k % n = l % n := hcancel
  rw [Nat.mod_eq_of_lt hk, Nat.mod_eq_of_lt hl] at heq
  exact hkl heq

/-! ## The queue -/

@[simp] theorem length_queue (f : Fin n → α) (pos count : Nat) :
    (queue f pos count).length = count := by
  simp [queue]

@[simp] theorem queue_zero (f : Fin n → α) (pos : Nat) : queue f pos 0 = [] := rfl

/-- The first element and the queue behind it. -/
theorem queue_succ (f : Fin n → α) (pos count : Nat) :
    queue f pos (count + 1) = f (slot n pos 0) :: queue f ((pos + 1) % n) count := by
  unfold queue
  rw [range_succ_eq_map, map_cons, map_map]
  refine congrArg _ (map_congr_left ?_)
  intro k _
  show f (slot n pos (k + 1)) = f (slot n ((pos + 1) % n) k)
  rw [slot_succ]

variable {f : Fin n → α} {pos count : Nat}

/-- Writing a slot that no element occupies does not change the queue. -/
theorem queue_update_of_le {pos count k : Nat} (hk : k < n) (hcount : count ≤ k) (v : α) :
    queue (update f (slot n pos k) v) pos count = queue f pos count := by
  refine map_congr_left ?_
  intro l hl
  have hl' : l < count := mem_range.mp hl
  have hne : slot n pos l ≠ slot n pos k := slot_ne (by omega) hk (by omega)
  exact update_of_ne hne v f

/-- Writing the slot behind the last element appends. -/
theorem queue_push (hcount : count < n) (v : α) :
    queue (update f (slot n pos count) v) pos (count + 1) = queue f pos count ++ [v] := by
  have hkeep : queue (update f (slot n pos count) v) pos count = queue f pos count :=
    queue_update_of_le hcount (Nat.le_refl count) v
  unfold queue at hkeep ⊢
  rw [range_succ, map_append, hkeep]
  simp

/-- Writing the first slot replaces the first element. -/
theorem queue_update_head (hcount : count < n) (v : α) :
    queue (update f (slot n pos 0) v) pos (count + 1) = v :: queue f ((pos + 1) % n) count := by
  rw [queue_succ, update_self]
  refine congrArg _ ?_
  refine map_congr_left ?_
  intro k hk
  have hk' : k < count := mem_range.mp hk
  have hne : slot n pos (k + 1) ≠ slot n pos 0 := slot_ne (by omega) (by omega) (by omega)
  rw [slot_succ]
  exact update_of_ne hne v f

/-- The elements of a queue sit in slots in front of the one behind it. -/
theorem mem_queue {x : α} (h : x ∈ queue f pos count) : ∃ k < count, x = f (slot n pos k) := by
  rcases mem_map.mp h with ⟨k, hk, rfl⟩
  exact ⟨k, mem_range.mp hk, rfl⟩

end Lib.Ring
