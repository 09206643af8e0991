import Mathlib.Tactic

/-!
# Writing through a pointer

A buffer of fixed length and a pointer into it, as the part of the buffer before the pointer and the
part from it on. A write past the end is `none`, so a computation that returns `some` stayed within
the buffer. `Wrote` is the specification every writer is proved against: the text it leaves
behind, and how many characters beyond that text it may touch.

Main results:

* `Wrote.bind`, `wrote_foldlM`: writers one after the other.
-/

namespace Lib

variable {α : Type*}

/-- The buffer before and from the pointer on. -/
structure Cursor (α : Type*) where
  before : List α
  after : List α
deriving DecidableEq

namespace Cursor

/-- `*(t++) = c`. -/
def put (t : Cursor α) (c : α) : Option (Cursor α) :=
  match t.after with
  | [] => none
  | _ :: rest => some ⟨t.before ++ [c], rest⟩

/-- Write `cs` one after the other. -/
def puts (t : Cursor α) (cs : List α) : Option (Cursor α) := cs.foldlM put t

/-- Copy `cs` to the pointer without moving it. -/
def copy (t : Cursor α) (cs : List α) : Option (Cursor α) :=
  if t.after.length < cs.length then none
  else some ⟨t.before, cs ++ t.after.drop cs.length⟩

/-- `t += n`; the pointer may stop right behind the buffer. -/
def advance (t : Cursor α) (n : Nat) : Option (Cursor α) :=
  if t.after.length < n then none
  else some ⟨t.before ++ t.after.take n, t.after.drop n⟩

/-- Given room for `text` and `slack` more characters, the writer `f` leaves `text` before the
pointer, and the pointer moves by its length. -/
def Wrote (f : Cursor α → Option (Cursor α)) (text : List α) (slack : Nat) : Prop :=
  ∀ t : Cursor α, text.length + slack ≤ t.after.length → ∃ t', f t = some t' ∧
    t'.before = t.before ++ text ∧ t'.after.length + text.length = t.after.length

/-- One character. -/
theorem wrote_put (c : α) : Wrote (fun t => put t c) [c] 0 := by
  rintro ⟨u, v⟩ hroom
  cases v with
  | nil => simp at hroom
  | cons x xs => exact ⟨⟨u ++ [c], xs⟩, rfl, rfl, rfl⟩

/-- Doing nothing writes nothing. -/
theorem wrote_nil : Wrote (some : Cursor α → Option (Cursor α)) [] 0 := by
  intro t _
  exact ⟨t, rfl, by simp, by simp⟩

variable {f : Cursor α → Option (Cursor α)} {u : List α}

theorem Wrote.mono {m n : Nat} (hf : Wrote f u m) (hmn : m ≤ n) : Wrote f u n := by
  intro t hroom
  exact hf t (by omega)

variable {k : Nat}

/-- Two writers in sequence share their slack. -/
theorem Wrote.bind {g : Cursor α → Option (Cursor α)} {v : List α} (hf : Wrote f u k)
    (hg : Wrote g v k) : Wrote (fun t => (f t).bind g) (u ++ v) k := by
  intro t hroom
  rw [List.length_append] at hroom
  obtain ⟨t1, h1, hb1, hl1⟩ := hf t (by omega)
  obtain ⟨t2, h2, hb2, hl2⟩ := hg t1 (by omega)
  refine ⟨t2, by simp [h1, h2], by rw [hb2, hb1, List.append_assoc], ?_⟩
  rw [List.length_append]
  omega

/-- A writer for each element of a list. -/
theorem wrote_foldlM {β : Type*} {f : Cursor α → β → Option (Cursor α)} {text : β → List α}
 {xs : List β} (hf : ∀ x ∈ xs, Wrote (fun t => f t x) (text x) k) :
    Wrote (fun t => xs.foldlM f t) (xs.flatMap text) k := by
  induction xs with
  | nil => exact wrote_nil.mono (Nat.zero_le k)
  | cons x xs ih => exact (hf x (by simp)).bind (ih fun y hy => hf y (by simp [hy]))

/-- A text, character by character. -/
theorem wrote_puts (cs : List α) : Wrote (fun t => puts t cs) cs 0 := by
  have h : Wrote (fun t => cs.foldlM put t) (cs.flatMap fun c => [c]) 0 :=
    wrote_foldlM fun c _ => wrote_put c
  rwa [List.flatMap_singleton'] at h

/-- A copy with a terminator behind it, then a step over the text alone. -/
theorem wrote_copy_advance (cs : List α) (z : α) :
    Wrote (fun t => (copy t (cs ++ [z])).bind fun t => advance t cs.length) cs 1 := by
  rintro ⟨u, v⟩ hroom
  have hroom' : cs.length + 1 ≤ v.length := hroom
  have hcopy : copy ⟨u, v⟩ (cs ++ [z]) = some ⟨u, cs ++ [z] ++ v.drop (cs.length + 1)⟩ := by
    unfold copy
    rw [if_neg (by simp; omega)]
    simp
  have hadv : advance ⟨u, cs ++ [z] ++ v.drop (cs.length + 1)⟩ cs.length =
      some ⟨u ++ cs, z :: v.drop (cs.length + 1)⟩ := by
    unfold advance
    simp
  refine ⟨⟨u ++ cs, z :: v.drop (cs.length + 1)⟩, ?_, rfl, ?_⟩
  · simp only [hcopy, Option.bind_some, hadv]
  · simp
    omega

end Cursor

end Lib
