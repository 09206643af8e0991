import FlintZilla.Lib.Hex
import FlintZilla.Listing.Parser

/-!
# Hexadecimal sizes in a listing

The hexadecimal part of `CToken::GetNumber`, and `ParseAsIBM_MVS_PDS2`, the format that uses it, of
`engine/directorylistingparser.cpp`. Numbers are `int64_t`: where the source does not check for an
overflow, they wrap.

The tokens are those of a line that no other format has looked at. `ParseAsIbm` can store a null
token behind the end of a line, at position 5; the size is set before that position is read.

Main results:

* `hexNumber_eq`, `hexNumber_ne`: digits without a small letter are read as their value, and with
  one as something else, also when the number wraps.
* `hexNumber_other`: any other character makes the number -1.
* `getHexNumber_spec`: the same for `GetNumber` and for the size that the format sets.
-/

namespace FlintZilla

open Lib.Search List CLine

/-! ## Numbers -/

/-- `int64_t`. -/
def wrap64 (n : Int) : Int := n.bmod (2 ^ 64)

def int64Max : Int := 2 ^ 63 - 1

/-- The difference of a digit and `'0'`. -/
def digitValue (c : Char) : Int := c.toNat - '0'.toNat

/-- The loop of `GetNumber` on hexadecimal digits. The value of a small letter is what the source
computes for it. -/
def hexNumber : Int → List Char → Int
  | number, [] => number
  | number, c :: rest =>
    if (int64Max - 15) / 16 < number then -1
    else if c.isDigit then hexNumber (wrap64 (number * 16 + digitValue c)) rest
    else if 'a' ≤ c ∧ c ≤ 'f' then hexNumber (wrap64 (number * 16 + (digitValue c + 10))) rest
    else if 'A' ≤ c ∧ c ≤ 'F' then
      hexNumber (wrap64 (number * 16 + (c.toNat - 'A'.toNat + 10))) rest
    else -1

/-! ## Tokens -/

abbrev CToken := WString

namespace CToken

/-- `IsNumeric()`. -/
def isNumeric (token : CToken) : Bool := token.all Char.isDigit

/-- `IsNumeric(hex)`. -/
def isHexNumeric (token : CToken) : Bool :=
  token.all fun c => c.isDigit || ('A' ≤ c && c ≤ 'F') || ('a' ≤ c && c ≤ 'f')

/-- `GetNumber(hex)`. -/
def getHexNumber (token : CToken) : Int := hexNumber 0 token

end CToken

namespace CLine

def tokens (l : CLine) : List CToken := fields isBlank l.line

/-- `GetToken(n)`. -/
def getToken (l : CLine) (n : Nat) : Option CToken := l.tokens[n]?

end CLine

/-! ## The format -/

/-- A function that fills in an entry and may give up. What it has stored until then stays. -/
abbrev Format := OptionT (StateM CDirentry)

namespace Format

variable {α β : Type}

/-- The result of a format and the entry that it leaves. -/
def exec (m : Format α) (e : CDirentry) : Option α × CDirentry := (OptionT.run m).run e

def expect : Option α → Format α
  | some a => pure a
  | none => failure

def setName (name : WString) : Format Unit := modify fun e => { e with name := name }

def setSize (size : Int) : Format Unit := modify fun e => { e with size := size }

def setPermissions (permissions : WString) : Format Unit :=
  modify fun e => { e with permissions := permissions }

def setOwnerGroup (ownerGroup : WString) : Format Unit :=
  modify fun e => { e with ownerGroup := ownerGroup }

/-- `flags = 0`. -/
def clearFlags : Format Unit :=
  modify fun e => { e with isDir := false, isLink := false, isUnsure := false }

def isNumericOrAny (token : CToken) : Bool := token.isNumeric || token == "ANY".toList

/-- The tokens behind the numbers of a load module: words in capitals, and two that are numbers or
`ANY`. -/
def arePds2Attributes (rest : List CToken) : Bool :=
  2 ≤ rest.length && (rest.drop (rest.length - 2)).all isNumericOrAny &&
    (rest.take (rest.length - 2)).all fun token => token.all fun c => 'A' ≤ c && c ≤ 'Z'

/-- `ParseAsIBM_MVS_PDS2`. A name alone is accepted. -/
def parseAsIbmMvsPds2 (line : CLine) : Format FormatResult := do
  let name ← expect (line.getToken 0)
  setName name
  clearFlags
  setOwnerGroup []
  setPermissions []
  setSize (-1)
  match line.getToken 1 with
  | none => pure .accepted
  | some token => do
    setSize token.getHexNumber
    guard (token.getHexNumber ≠ -1)
    let unused ← expect (line.getToken 2)
    guard unused.isHexNumeric
    let numeric ← expect (line.getToken 3)
    guard numeric.isNumeric
    guard (arePds2Attributes (line.tokens.drop 4))
    pure .accepted

/-- A check that fails ends the function with the entry as it is. -/
theorem exec_guard_bind (p : Prop) [Decidable p] (k : Unit → Format α) (e : CDirentry) :
    exec (guard p >>= k) e = if p then exec (k ()) e else (none, e) := by
  by_cases hp : p
  · rw [guard, if_pos hp, if_pos hp]
    rfl
  · rw [guard, if_neg hp, if_neg hp]
    rfl

theorem exec_expect_bind (o : Option β) (k : β → Format α) (e : CDirentry) :
    exec (expect o >>= k) e = o.elim (none, e) fun b => exec (k b) e := by
  cases o <;> rfl

/-- The size is set before the tokens behind it are looked at. -/
theorem size_parseAsIbmMvsPds2 {line : CLine} {token : CToken}
    (h : line.getToken 1 = some token) (e : CDirentry) :
    (exec (parseAsIbmMvsPds2 line) e).2.size = token.getHexNumber := by
  obtain ⟨hlt, -⟩ := List.getElem?_eq_some_iff.mp h
  obtain ⟨name, hname⟩ : ∃ name, line.getToken 0 = some name :=
    ⟨_, List.getElem?_eq_getElem (Nat.zero_lt_of_lt hlt)⟩
  -- what follows only checks tokens
  let checks : Format FormatResult := do
    guard (token.getHexNumber ≠ -1)
    let unused ← expect (line.getToken 2)
    guard unused.isHexNumeric
    let numeric ← expect (line.getToken 3)
    guard numeric.isNumeric
    guard (arePds2Attributes (line.tokens.drop 4))
    pure .accepted
  have hchecks : ∀ e, (exec checks e).2 = e := by
    intro e
    simp only [checks, exec_guard_bind, exec_expect_bind]
    cases line.getToken 2 <;> cases line.getToken 3 <;> simp only [Option.elim] <;>
      split_ifs <;> rfl
  unfold parseAsIbmMvsPds2
  rw [hname, h]
  exact congrArg CDirentry.size (hchecks _)

end Format

/-! ## Hexadecimal numbers -/

/-- The base-16 value of digits in either case, behind a number that was read before. -/
def base16 (n : Nat) (token : WString) : Option Nat :=
  token.foldlM (fun n c => (Lib.Hex.value c).map (16 * n + ·)) n

theorem base16_cons (n : Nat) (c : Char) (rest : WString) :
    base16 n (c :: rest) = (Lib.Hex.value c).bind fun d => base16 (16 * n + d) rest := by
  rw [base16, foldlM_cons]
  cases Lib.Hex.value c <;> rfl

/-- More digits make the number larger. -/
theorem le_base16 {n v : Nat} {token : WString} (h : base16 n token = some v) : n ≤ v := by
  induction token generalizing n with
  | nil => exact (Option.some.inj h).le
  | cons c rest ih =>
    rw [base16_cons] at h
    obtain ⟨d, -, hrest⟩ := Option.bind_eq_some_iff.mp h
    have := ih hrest
    omega

/-- One digit. The value of a small letter is 49 too high. -/
theorem hexNumber_cons {number : Int} (hle : number ≤ (int64Max - 15) / 16) (c : Char)
    (rest : WString) : hexNumber number (c :: rest) =
      match Lib.Hex.value c with
      | none => -1
      | some d => hexNumber (wrap64 (number * 16 +
          (d + if 'a' ≤ c ∧ c ≤ 'f' then 49 else 0))) rest := by
  rw [hexNumber, if_neg (not_lt.mpr hle)]
  simp only [Lib.Hex.value, Char.isDigit, digitValue, Char.le_def, UInt32.le_iff_toNat_le,
    Char.toNat_val, ge_iff_le, Bool.and_eq_true, decide_eq_true_eq, Char.reduceVal,
    Char.reduceToNat, UInt32.reduceToNat]
  split_ifs <;> first | omega | rfl | (dsimp only; congr 2; omega)

/-- Small letters stand for ten and more. -/
theorem ten_le_of_small {c : Char} {d : Nat} (hd : Lib.Hex.value c = some d)
    (hc : 'a' ≤ c ∧ c ≤ 'f') : 10 ≤ d := by
  simp only [Lib.Hex.value, Char.le_def, UInt32.le_iff_toNat_le, Char.toNat_val, Char.reduceVal,
    UInt32.reduceToNat] at hd hc
  split_ifs at hd <;> simp only [Option.some.injEq] at hd <;> omega

/-- By induction on the digits that are left. -/
theorem hexNumber_eq {n v : Nat} {token : WString}
    (hsmall : ∀ c ∈ token, ¬('a' ≤ c ∧ c ≤ 'f')) (h : base16 n token = some v)
    (hv : v < 2 ^ 63) : hexNumber n token = v := by
  induction token generalizing n with
  | nil => exact congrArg Nat.cast (Option.some.inj h)
  | cons c rest ih =>
    rw [base16_cons] at h
    obtain ⟨d, hd, hrest⟩ := Option.bind_eq_some_iff.mp h
    have hle := le_base16 hrest
    have hmax : (n : Int) ≤ (int64Max - 15) / 16 := by
      unfold int64Max
      omega
    -- no digit takes the number beyond the value, so nothing wraps
    have hwrap : wrap64 ((n : Int) * 16 + (d + 0)) = ((16 * n + d : Nat) : Int) := by
      unfold wrap64
      rw [Int.bmod_eq_of_le] <;> omega
    rw [hexNumber_cons hmax, hd]
    dsimp only
    rw [if_neg (hsmall c mem_cons_self), hwrap]
    exact ih (fun x hx => hsmall x (mem_cons_of_mem c hx)) hrest

/-- 49 is odd, so its multiples go round only with their factor. -/
theorem add_multiple_ne {n x : Nat} {k : Int} (hx : x ≤ n) (hpos : 0 < x) (hn : n < 2 ^ 63) :
    (n : Int) + 49 * x + 2 ^ 64 * k ≠ n := by
  intro h
  have hdvd : (2 : Int) ^ 64 ∣ 49 * x := ⟨-k, by linarith only [h]⟩
  have hodd : IsCoprime ((2 : Int) ^ 64) 49 := IsCoprime.pow_left ⟨-24, 1, by norm_num⟩
  have hle : 2 ^ 64 ≤ x := Nat.le_of_dvd hpos (by exact_mod_cast hodd.dvd_of_dvd_mul_left hdvd)
  clear h hdvd
  omega

/-- A small letter makes the number too high by 49 times a number that is neither zero nor larger
than the value, and so it is wrong modulo two to the 64 as well. -/
theorem hexNumber_ne {n v x : Nat} {number k : Int} {token : WString}
    (hnumber : number = n + 49 * x + 2 ^ 64 * k) (hx : x ≤ n)
    (hsmall : 0 < x ∨ ∃ c ∈ token, 'a' ≤ c ∧ c ≤ 'f') (h : base16 n token = some v)
    (hv : v < 2 ^ 63) : hexNumber number token ≠ v := by
  induction token generalizing n x number k with
  | nil =>
    obtain rfl : n = v := Option.some.inj h
    rw [hexNumber, hnumber]
    exact add_multiple_ne hx (hsmall.resolve_right (by simp)) hv
  | cons c rest ih =>
    rw [base16_cons] at h
    obtain ⟨d, hd, hrest⟩ := Option.bind_eq_some_iff.mp h
    -- each small letter adds 49 to the number, and no later digit takes that back
    by_cases hmax : number ≤ (int64Max - 15) / 16
    · rw [hexNumber_cons hmax, hd]
      obtain ⟨j, hj⟩ := Int.dvd_bmod_sub_self (x := number * 16 +
        (d + if 'a' ≤ c ∧ c ≤ 'f' then 49 else 0)) (m := 2 ^ 64)
      refine ih (x := 16 * x + if 'a' ≤ c ∧ c ≤ 'f' then 1 else 0) (k := 16 * k + j) ?_ ?_ ?_ hrest
      · rw [wrap64, sub_eq_iff_eq_add.mp hj, hnumber]
        split_ifs <;> push_cast <;> ring
      · clear hnumber hj
        split_ifs with hc
        · have := ten_le_of_small hd hc
          omega
        · omega
      · clear hnumber hj
        split_ifs with hc
        · omega
        · refine hsmall.imp (by omega) ?_
          rintro ⟨e, he, hletter⟩
          refine ⟨e, (List.mem_cons.mp he).resolve_left ?_, hletter⟩
          rintro rfl
          exact hc hletter
    · -- the number is too large, and the result is negative
      rw [hexNumber, if_pos (not_le.mp hmax)]
      exact fun h => absurd h (by omega)

theorem hexNumber_other {n : Nat} {number : Int} {token : WString} (h : base16 n token = none) :
    hexNumber number token = -1 := by
  induction token generalizing n number with
  | nil => cases h
  | cons c rest ih =>
    by_cases hle : number ≤ (int64Max - 15) / 16
    · rw [base16_cons] at h
      rw [hexNumber_cons hle]
      cases hc : Lib.Hex.value c with
      | none => rfl
      | some d =>
        rw [hc] at h
        exact ih h
    · rw [hexNumber, if_pos (not_le.mp hle)]

/-- `GetNumber(hex)` is the base-16 value of a token exactly if the token has no small letter, and
so are the sizes that `ParseAsIBM_MVS_PDS2` sets; with any other character than a digit it is -1. -/
theorem getHexNumber_spec (token : CToken) :
    (∀ v < 2 ^ 63, base16 0 token = some v →
      (token.getHexNumber = v ↔ ∀ c ∈ token, ¬('a' ≤ c ∧ c ≤ 'f')) ∧
      ∀ line e, CLine.getToken line 1 = some token →
        ((Format.exec (Format.parseAsIbmMvsPds2 line) e).2.size = v ↔
          ∀ c ∈ token, ¬('a' ≤ c ∧ c ≤ 'f'))) ∧
    (base16 0 token = none → token.getHexNumber = -1) := by
  refine ⟨?_, hexNumber_other⟩
  intro v hv h
  have hnumber : token.getHexNumber = v ↔ ∀ c ∈ token, ¬('a' ≤ c ∧ c ≤ 'f') := by
    refine ⟨fun heq c hc hsmall => ?_, fun hsmall => hexNumber_eq hsmall h hv⟩
    exact hexNumber_ne (x := 0) (k := 0) rfl le_rfl (.inr ⟨c, hc, hsmall⟩) h hv heq
  refine ⟨hnumber, fun line e hline => ?_⟩
  rw [Format.size_parseAsIbmMvsPds2 hline e, hnumber]

theorem getHexNumber_spec_capitals : CToken.getHexNumber "00FA".toList = 250 :=
  ((getHexNumber_spec "00FA".toList).1 250 (by decide) (by decide)).1.mpr (by decide)

/-- `a` is read as 59. -/
theorem getHexNumber_small : base16 0 "a".toList = some 10 ∧
    CToken.getHexNumber "a".toList = 59 := by decide

end FlintZilla
