import Mathlib.Tactic

/-!
# Lines that end in CR LF

A receiver that waits for a whole line looks for CR LF in the bytes it has so far. `scan` is the
search of a strict one: a CR without LF and a NUL are errors, and the last byte is not looked at
before its successor is there. Its lemmas say what the search finds when the bytes so far are any
initial part of a stream that starts with a line.

Main results:

* `scan_ended`, `scan_cut`: what is found when the line is complete, and when it may not be.
-/

namespace Lib.Lines

open List

def cr : UInt8 := 13

def lf : UInt8 := 10

/-- A line with its end. -/
def ended (text : List UInt8) : List UInt8 := text ++ [cr, lf]

inductive Scan where
  | line (text rest : List UInt8)
  | badEnding
  | nul
  | incomplete
deriving DecidableEq

/-- Put a byte before the line that was found. -/
def Scan.cons (b : UInt8) : Scan → Scan
  | .line text rest => .line (b :: text) rest
  | s => s

def scan : List UInt8 → Scan
  | b :: c :: rest =>
    if b = cr then if c = lf then .line [] rest else .badEnding
    else if b = 0 then .nul
    else (scan (c :: rest)).cons b
  | _ => .incomplete

/-- A text that may stand in a line. -/
def Clean (text : List UInt8) : Prop := ∀ b ∈ text, b ≠ cr ∧ b ≠ 0

instance decidableClean (text : List UInt8) : Decidable (Clean text) :=
  inferInstanceAs (Decidable (∀ b ∈ text, b ≠ cr ∧ b ≠ 0))

variable {text rest buffer input missing : List UInt8}

theorem length_lt_ended (text rest : List UInt8) : rest.length < (ended text ++ rest).length := by
  simp only [ended, length_append, length_cons]
  omega

theorem Clean.tail {b : UInt8} (h : Clean (b :: text)) : Clean text := by
  intro x hx
  exact h x (mem_cons_of_mem b hx)

theorem scan_cons {b c : UInt8} (hb : b ≠ cr ∧ b ≠ 0) :
    scan (b :: c :: rest) = (scan (c :: rest)).cons b := by
  rw [scan, if_neg hb.1, if_neg hb.2]

/-- A line without CR and NUL is found whole. -/
theorem scan_ended (h : Clean text) : scan (ended text ++ rest) = .line text rest := by
  unfold ended
  induction text with
  | nil => rfl
  | cons b text ih =>
    have hb := h b mem_cons_self
    have htail := ih h.tail
    cases text with
    | nil =>
      rw [show [b] ++ [cr, lf] ++ rest = b :: cr :: lf :: rest from rfl, scan_cons hb]
      rfl
    | cons c text =>
      rw [show b :: c :: text ++ [cr, lf] ++ rest = b :: c :: (text ++ [cr, lf] ++ rest) from rfl,
        scan_cons hb]
      rw [show c :: text ++ [cr, lf] ++ rest = c :: (text ++ [cr, lf] ++ rest) from rfl] at htail
      rw [htail]
      rfl

/-- Nothing is found before the LF is there. -/
theorem scan_incomplete (h : Clean text) (hcut : buffer ++ missing = ended text)
    (hmissing : missing ≠ []) : scan buffer = .incomplete := by
  unfold ended at hcut
  induction buffer generalizing text with
  | nil => rfl
  | cons b buffer ih =>
    cases buffer with
    | nil => rfl
    | cons c buffer =>
      cases text with
      | nil =>
        -- both bytes of the line end would be in the buffer
        have hlen := congrArg length hcut
        have hpos := length_pos_iff.mpr hmissing
        simp only [length_append, length_cons, length_nil] at hlen
        omega
      | cons x text =>
        have hx : b = x ∧ c :: buffer ++ missing = text ++ [cr, lf] := by simpa using hcut
        rw [scan_cons (hx.1 ▸ h x mem_cons_self), ih h.tail hx.2]
        rfl

/-- The bytes so far hold the line, or they are too few. -/
theorem scan_cut (h : Clean text) (hcut : buffer ++ input = ended text ++ rest) :
    (scan buffer = .incomplete ∧ buffer.length < text.length + 2 ∧ rest.length < input.length) ∨
      ∃ tail, scan buffer = .line text tail ∧ buffer = ended text ++ tail ∧
        tail ++ input = rest := by
  rcases append_eq_append_iff.mp hcut with ⟨missing, hended, hinput⟩ | ⟨tail, hbuffer, hrest⟩
  · cases missing with
    | nil =>
      have hbuffer : buffer = ended text ++ [] := by simpa using hended.symm
      refine .inr ⟨[], ?_, hbuffer, by simpa using hinput⟩
      rw [hbuffer]
      exact scan_ended h
    | cons b missing =>
      refine .inl ⟨scan_incomplete h hended.symm (cons_ne_nil b missing), ?_, ?_⟩
      · have hlen := congrArg length hended
        simp [ended] at hlen
        omega
      · rw [hinput]
        simp
  · refine .inr ⟨tail, ?_, hbuffer, hrest.symm⟩
    rw [hbuffer]
    exact scan_ended h

end Lib.Lines
