import Mathlib.Tactic

/-!
# Transducers

A transducer reads a sequence element by element and writes some elements for each. Over a
concatenation it is run part by part, with the state carried over, so it does not matter where a
stream is cut.

`inPlace` is the same loop on one array: it reads at `p` and writes at `q`, over what it has read.
It gives the same output if the state says how much of what was read has not been written yet, its
debt: with the debt paid back, no step writes beyond what has been read.

Main results:

* `run_append`: the parts of a stream, one after the other.
* `inPlace_eq_run`: the loop on one array gives the same output.
-/

namespace Lib.Transducer

universe u v w

open List

variable {σ : Type u} {α : Type v} {β : Type w}

/-- The state behind a sequence and the output for it. -/
def run (f : σ → α → σ × List β) : σ → List α → σ × List β
  | s, [] => (s, [])
  | s, a :: l => ((run f (f s a).1 l).1, (f s a).2 ++ (run f (f s a).1 l).2)

/-- The state is carried over. -/
theorem run_append (f : σ → α → σ × List β) (s : σ) (l m : List α) :
    run f s (l ++ m) = ((run f (run f s l).1 m).1, (run f s l).2 ++ (run f (run f s l).1 m).2) := by
  induction l generalizing s with
  | nil => rfl
  | cons a l ih => simp only [cons_append, run, ih, append_assoc]

/-- The output is bounded if that of each step is. -/
theorem length_run_le {f : σ → α → σ × List β} {k : Nat} (h : ∀ s a, (f s a).2.length ≤ k) (s : σ)
    (l : List α) : (run f s l).2.length ≤ k * l.length := by
  induction l generalizing s with
  | nil => exact Nat.zero_le _
  | cons a l ih =>
    have hhead := h s a
    have htail := ih (f s a).1
    rw [run, length_append, length_cons, Nat.mul_succ]
    omega

/-- What is owed was read and not yet written. -/
theorem length_run_add_debt_le {f : σ → α → σ × List β} {debt : σ → Nat}
    (hdebt : ∀ s a, (f s a).2.length + debt (f s a).1 ≤ debt s + 1) (s : σ) (l : List α) :
    (run f s l).2.length + debt (run f s l).1 ≤ debt s + l.length := by
  induction l generalizing s with
  | nil => exact Nat.le_of_eq (Nat.zero_add _)
  | cons a l ih =>
    have hhead := hdebt s a
    have htail := ih (f s a).1
    simp only [run, length_append, length_cons]
    omega

/-! ## In place -/

/-- Overwrite the elements from `q` on. -/
def writeAt (q : Nat) : List α → List α → List α
  | [], l => l
  | b :: out, l => writeAt (q + 1) out (l.set q b)

/-- The loop on one array, for the given number of elements. -/
def inPlace (f : σ → α → σ × List α) : Nat → List α → Nat → Nat → σ → List α × Nat × σ
  | 0, l, _, q, s => (l, q, s)
  | n + 1, l, p, q, s =>
    match l[p]? with
    | none => (l, q, s)
    | some a =>
      inPlace f n (writeAt q (f s a).2 l) (p + 1) (q + (f s a).2.length) (f s a).1

/-- Writing over what has been read. -/
theorem writeAt_append (done out gap rest : List α) (h : out.length ≤ gap.length) :
    writeAt done.length out (done ++ gap ++ rest) = done ++ out ++ gap.drop out.length ++ rest := by
  induction out generalizing done gap with
  | nil => simp [writeAt]
  | cons b out ih =>
    cases gap with
    | nil => simp at h
    | cons c gap =>
      have hset : (done ++ c :: gap ++ rest).set done.length b = (done ++ [b]) ++ gap ++ rest := by
        simp
      have hlength : done.length + 1 = (done ++ [b]).length := by simp
      rw [writeAt, hset, hlength, ih (done ++ [b]) gap (by simpa using h)]
      simp

section Debt

variable {f : σ → α → σ × List α} {debt : σ → Nat}

/-- The loop from the middle: `done` is written, `gap` is read and may be overwritten. -/
theorem inPlace_from (hdebt : ∀ s a, (f s a).2.length + debt (f s a).1 ≤ debt s + 1)
    (done gap rest : List α) (s : σ) (hgap : debt s ≤ gap.length) :
    ∃ junk, inPlace f rest.length (done ++ gap ++ rest) (done.length + gap.length) done.length s =
      (done ++ (run f s rest).2 ++ junk, (done ++ (run f s rest).2).length, (run f s rest).1) := by
  induction rest generalizing done gap s with
  | nil => exact ⟨gap, by simp [inPlace, run]⟩
  | cons a rest ih =>
    have hstep := hdebt s a
    have hread : (done ++ gap ++ a :: rest)[done.length + gap.length]? = some a := by
      rw [← length_append, getElem?_append_right (le_refl _), Nat.sub_self]
      rfl
    -- what is written fits into the gap and the element just read
    have hwrite : writeAt done.length (f s a).2 (done ++ gap ++ a :: rest) =
        (done ++ (f s a).2) ++ (gap ++ [a]).drop (f s a).2.length ++ rest := by
      rw [← writeAt_append done (f s a).2 (gap ++ [a]) rest (by simp; omega)]
      simp
    have hlength : ((gap ++ [a]).drop (f s a).2.length).length =
        gap.length + 1 - (f s a).2.length := by simp
    have hp : done.length + gap.length + 1 =
        (done ++ (f s a).2).length + ((gap ++ [a]).drop (f s a).2.length).length := by
      rw [length_append]
      omega
    have hq : done.length + (f s a).2.length = (done ++ (f s a).2).length := length_append.symm
    obtain ⟨junk, hjunk⟩ := ih (done ++ (f s a).2) ((gap ++ [a]).drop (f s a).2.length) (f s a).1
      (by omega)
    rw [length_cons, inPlace, hread]
    dsimp only
    rw [hwrite, hp, hq, hjunk]
    simp [run]

/-- Without a debt at the start, the output stands at the front of the array. -/
theorem inPlace_eq_run (hdebt : ∀ s a, (f s a).2.length + debt (f s a).1 ≤ debt s + 1)
    (l : List α) (s : σ) (hs : debt s = 0) :
    (inPlace f l.length l 0 0 s).1.take (inPlace f l.length l 0 0 s).2.1 = (run f s l).2 ∧
      (inPlace f l.length l 0 0 s).2.2 = (run f s l).1 := by
  obtain ⟨junk, hjunk⟩ := inPlace_from hdebt [] [] l s (by omega)
  simp only [nil_append, length_nil] at hjunk
  rw [hjunk]
  exact ⟨take_left, rfl⟩

end Debt

end Lib.Transducer
