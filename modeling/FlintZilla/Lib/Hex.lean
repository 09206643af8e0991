import Mathlib.Tactic

/-!
# Hexadecimal text

Bytes are written with two lower-case digits each. A reader takes digits of either case, so a text
that becomes the encoding of some bytes when its case is changed is read as those bytes.

Main results:

* `decode_of_encode_eq_map`: decoding the encoding, in either case, gives the bytes.
-/

namespace Lib.Hex

def digit (d : Nat) : Char := if d < 10 then Char.ofNat (48 + d) else Char.ofNat (87 + d)

def encode (bytes : List UInt8) : List Char :=
  bytes.flatMap fun b => [digit (b.toNat / 16), digit (b.toNat % 16)]

def value (c : Char) : Option Nat :=
  if 48 ≤ c.toNat ∧ c.toNat ≤ 57 then some (c.toNat - 48)
  else if 97 ≤ c.toNat ∧ c.toNat ≤ 102 then some (c.toNat - 87)
  else if 65 ≤ c.toNat ∧ c.toNat ≤ 70 then some (c.toNat - 55)
  else none

def decodePairs : List Char → Option (List UInt8)
  | [] => some []
  | [_] => none
  | high :: low :: rest =>
    match value high, value low with
    | some h, some l => (decodePairs rest).map (UInt8.ofNat (16 * h + l) :: ·)
    | _, _ => none

/-- The bytes of a text, and none if it is not hexadecimal. -/
def decode (text : List Char) : List UInt8 := (decodePairs text).getD []

theorem value_digit : ∀ d < 16, value (digit d) = some d := by decide

/-- A change of letters under which digits keep their value does not change the bytes. -/
theorem decode_of_encode_eq_map {f : Char → Char} {bytes : List UInt8} {text : List Char}
    (hf : ∀ c v, value (f c) = some v → value c = some v) (h : encode bytes = text.map f) :
    decode text = bytes := by
  have hpairs : decodePairs text = some bytes := by
    induction bytes generalizing text with
    | nil =>
      rw [List.map_eq_nil_iff.mp h.symm]
      rfl
    | cons b bytes ih =>
      rcases text with _ | ⟨high, _ | ⟨low, text⟩⟩
      · simp [encode] at h
      · simp [encode] at h
      · simp only [encode, List.flatMap_cons, List.cons_append, List.map_cons, List.cons.injEq] at h
        obtain ⟨hhigh, hlow, hrest⟩ := h
        have hb := b.toNat_lt
        have hh := hf high (b.toNat / 16) (by rw [← hhigh]; exact value_digit _ (by omega))
        have hl := hf low (b.toNat % 16) (by rw [← hlow]; exact value_digit _ (by omega))
        rw [decodePairs, hh, hl]
        dsimp only
        rw [ih hrest, Option.map_some, Nat.div_add_mod, UInt8.ofNat_toNat]
  rw [decode, hpairs, Option.getD_some]

end Lib.Hex
