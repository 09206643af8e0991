import Mathlib.Tactic

/-!
# ASCII texts

The source writes the texts it compares with as narrow literals. A byte string is a list of bytes.
The changes of case are those of libfilezilla, which the source links to.
-/

namespace FlintZilla

/-- What holds of the characters of a text is decided along the text, not over all characters. -/
instance (priority := high) decidableForallMem {α : Type} (text : List α) (p : α → Prop)
    [DecidablePred p] : Decidable (∀ c ∈ text, p c) := List.decidableBAll p text

/-- The bytes of an ASCII text. -/
def ascii (text : String) : List UInt8 := text.toList.map fun c => c.toNat.toUInt8

/-- The byte of an ASCII character. -/
def asciiChar (c : Char) : UInt8 := c.toNat.toUInt8

/-- `fz::tolower_ascii`. -/
def toLowerAscii (b : UInt8) : UInt8 :=
  if asciiChar 'A' ≤ b ∧ b ≤ asciiChar 'Z' then b + 32 else b

/-- `fz::str_tolower_ascii`. -/
def strToLowerAscii (s : List UInt8) : List UInt8 := s.map toLowerAscii

/-- `fz::tolower_ascii` of wide characters. -/
def wideToLowerAscii (c : Char) : Char :=
  if 'A' ≤ c ∧ c ≤ 'Z' then Char.ofNat (c.toNat + 32)
  else if c.toNat = 0x130 ∨ c.toNat = 0x131 then 'i'
  else c

/-- `fz::str_tolower_ascii` of wide strings. -/
def wideStrToLowerAscii (s : List Char) : List Char := s.map wideToLowerAscii

/-- `fz::toupper_ascii` of wide characters. -/
def wideToUpperAscii (c : Char) : Char :=
  if 'a' ≤ c ∧ c ≤ 'z' then Char.ofNat (c.toNat - 32)
  else if c.toNat = 0x130 ∨ c.toNat = 0x131 then 'I'
  else c

/-- `fz::str_toupper_ascii` of wide strings. -/
def wideStrToUpperAscii (s : List Char) : List Char := s.map wideToUpperAscii

end FlintZilla
