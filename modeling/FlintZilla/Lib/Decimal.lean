import Mathlib.Tactic

/-!
# Decimal numbers in text

The digit loop of a hand-written number printer, which fills a scratch array from the least
significant digit on, and the digit loop of a hand-written scanner, which stops at a given kind of
character and gives up above a limit. Each loop is related to `value`, the number a list of digits
stands for.

Main results:

* `digitsLE_spec`: the digits that are printed stand for the number.
* `scan_digits`: scanning digits gives the number they stand for.
-/

namespace Lib.Decimal

/-- The character of a digit. -/
def digitChar (d : Nat) : Char := Char.ofNat ('0'.toNat + d)

def isDigit (c : Char) : Bool := decide ('0' ≤ c) && decide (c ≤ '9')

/-- The digits of `n`, least significant first, in an array of `room` characters; `none` means the
array was overrun. -/
def digitsLE : Nat → Nat → Option (List Char)
  | 0, _ => none
  | room + 1, n =>
    if n / 10 = 0 then some [digitChar (n % 10)]
    else (digitsLE room (n / 10)).map (digitChar (n % 10) :: ·)

/-- The number that digits stand for when they follow digits of value `acc`. -/
def value (acc : Nat) (ds : List Char) : Nat :=
  ds.foldl (fun n c => n * 10 + (c.toNat - '0'.toNat)) acc

/-- Scan digits until `stop` holds of the next character; the first character must be a digit, and
no intermediate value may exceed `limit`. The rest starts with the character that stopped it. -/
def scan (limit : Nat) (stop : Char → Bool) : Nat → List Char → Option (Nat × List Char)
  | _, [] => none
  | acc, c :: rest =>
    if !isDigit c then none
    else
      let n := acc * 10 + (c.toNat - '0'.toNat)
      if limit < n then none
      else if rest.head?.any stop then some (n, rest)
      else scan limit stop n rest

/-! ## Digits -/

theorem isDigit_digitChar : ∀ d < 10, isDigit (digitChar d) = true := by decide

theorem toNat_digitChar : ∀ d < 10, (digitChar d).toNat - '0'.toNat = d := by decide

theorem value_append_singleton (acc : Nat) (ds : List Char) (c : Char) :
    value acc (ds ++ [c]) = value acc ds * 10 + (c.toNat - '0'.toNat) := by
  simp [value]

/-- More digits make the number larger. -/
theorem le_value (acc : Nat) (ds : List Char) : acc ≤ value acc ds := by
  induction ds generalizing acc with
  | nil => exact Nat.le_refl acc
  | cons c cs ih =>
    have h := ih (acc * 10 + (c.toNat - '0'.toNat))
    have hcons : value acc (c :: cs) = value (acc * 10 + (c.toNat - '0'.toNat)) cs := rfl
    omega

/-! ## Printing -/

/-- An array of `room` characters is enough below `10 ^ room`. -/
theorem digitsLE_isSome {room n : Nat} (h : n < 10 ^ (room + 1)) :
    ∃ ds, digitsLE (room + 1) n = some ds ∧ ds.length ≤ room + 1 := by
  induction room generalizing n with
  | zero =>
    have hn : n / 10 = 0 := by omega
    exact ⟨[digitChar (n % 10)], by simp [digitsLE, hn], by simp⟩
  | succ room ih =>
    by_cases hn : n / 10 = 0
    · exact ⟨[digitChar (n % 10)], by simp [digitsLE, hn], by simp⟩
    · have hdiv : n / 10 < 10 ^ (room + 1) := by
        omega
      obtain ⟨ds, hds, hlen⟩ := ih hdiv
      refine ⟨digitChar (n % 10) :: ds, ?_, by simpa using hlen⟩
      rw [digitsLE, if_neg hn, hds]
      rfl

/-- The reversed digits stand for the number. -/
theorem digitsLE_spec {room n : Nat} {ds : List Char} (h : digitsLE room n = some ds) :
    ds ≠ [] ∧ (∀ c ∈ ds, isDigit c = true) ∧ value 0 ds.reverse = n := by
  induction room generalizing n ds with
  | zero => simp [digitsLE] at h
  | succ room ih =>
    have hmod : n % 10 < 10 := Nat.mod_lt _ (by decide)
    rw [digitsLE] at h
    split_ifs at h with hn
    · cases h
      refine ⟨by simp, ?_, ?_⟩
      · intro c hc
        rw [List.mem_singleton.mp hc]
        exact isDigit_digitChar _ hmod
      · show 0 * 10 + ((digitChar (n % 10)).toNat - '0'.toNat) = n
        rw [toNat_digitChar _ hmod]
        omega
    · rw [Option.map_eq_some_iff] at h
      obtain ⟨cs, hcs, rfl⟩ := h
      obtain ⟨-, hdig, hval⟩ := ih hcs
      refine ⟨by simp, ?_, ?_⟩
      · intro c hc
        rcases List.mem_cons.mp hc with rfl | hc
        · exact isDigit_digitChar _ hmod
        · exact hdig c hc
      · rw [List.reverse_cons, value_append_singleton, toNat_digitChar _ hmod]
        omega

/-! ## Scanning -/

/-- Digits of a value within the limit are scanned up to the stop character. -/
theorem scan_digits {limit : Nat} {stop : Char → Bool} {ds rest : List Char} {c : Char} {acc : Nat}
    (hne : ds ≠ []) (hdig : ∀ d ∈ ds, isDigit d = true ∧ stop d = false)
    (hlim : value acc ds ≤ limit) (hstop : stop c) :
    scan limit stop acc (ds ++ c :: rest) = some (value acc ds, c :: rest) := by
  induction ds generalizing acc with
  | nil => exact absurd rfl hne
  | cons d ds ih =>
    have hd := hdig d (by simp)
    have hval : value acc (d :: ds) = value (acc * 10 + (d.toNat - '0'.toNat)) ds := rfl
    have hle := le_value (acc * 10 + (d.toNat - '0'.toNat)) ds
    have hnot : ¬ limit < acc * 10 + (d.toNat - '0'.toNat) := by omega
    rw [List.cons_append, scan]
    simp only [hd.1, Bool.not_true, Bool.false_eq_true, reduceIte, hnot]
    cases ds with
    | nil => simp [hstop, value]
    | cons e es =>
      have he := (hdig e (by simp)).2
      rw [if_neg (by simp [he]), ih (by simp) (fun x hx => hdig x (by simp [hx])) (by omega), hval]

end Lib.Decimal
