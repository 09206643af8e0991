import FlintZilla.CommonUi.Updater
import FlintZilla.Lib.Decimal

/-!
# The order of version numbers

`ConvertToVersionNumber` packs a version into one number: ten bits for each of four components, and
below them twenty for the stage, which are highest for final releases. A component moves up when the
next one starts, and those that are missing are made up for at the `-` or at the end of the text.

Main results:

* `convertToVersionNumber_text`: the number of a version is the one its fields make up.
* `compare_convertToVersionNumber`: the numbers are in the order of the versions.
-/

namespace FlintZilla

open Lib List

/-! ## Versions and their order -/

/-- A number between two bounds, as it is written. -/
structure Numeral (low high : Nat) where
  digits : WString
  ne_nil : digits ≠ []
  isDigit : ∀ c ∈ digits, Decimal.isDigit c = true
  low_le : low ≤ Decimal.value 0 digits
  le_high : Decimal.value 0 digits ≤ high

def Numeral.value {low high : Nat} (n : Numeral low high) : Nat := Decimal.value 0 n.digits

/-- What stands behind the `-` of a version; final releases have none. -/
inductive VersionStage where
  | beta (n : Numeral 1 1023)
  | rc (n : Numeral 1 511)
  | final

/-- A version in one of the formats that `ConvertToVersionNumber` supports. -/
structure Version where
  first : Numeral 0 1023
  more : List (Numeral 0 1023)
  count : more.length ≤ 3
  stage : VersionStage

namespace VersionStage

def text : VersionStage → WString
  | .beta n => "-beta".toList ++ n.digits
  | .rc n => "-rc".toList ++ n.digits
  | .final => []

/-- A beta comes before a release candidate, which comes before the final release. -/
def cmp : VersionStage → VersionStage → Ordering
  | .beta n, .beta m => compare n.value m.value
  | .rc n, .rc m => compare n.value m.value
  | .final, .final => .eq
  | .beta _, _ | .rc _, .final => .lt
  | _, .beta _ | .final, .rc _ => .gt

/-- What the loop leaves in the lower twenty bits. -/
def low : VersionStage → Nat
  | .beta n => n.value
  | .rc n => n.value * 2 ^ 10
  | .final => 0

/-- The lower twenty bits of the number. -/
def field (s : VersionStage) : Nat := if s.low = 0 then 2 ^ 19 else s.low

end VersionStage

namespace Version

def text (v : Version) : WString :=
  v.first.digits ++ v.more.flatMap (fun n => '.' :: n.digits) ++ v.stage.text

/-- The four components; those that are not written are 0. -/
def components (v : Version) : List Nat :=
  v.first.value :: (v.more.map Numeral.value ++ replicate (3 - v.more.length) 0)

/-- The components decide, the first one first, and then the stage. -/
def cmp (v w : Version) : Ordering :=
  (compare v.components w.components).then (v.stage.cmp w.stage)

end Version

/-! ## Numbers made of fields -/

/-- The number with these fields of ten bits below `x`. -/
def packFields (x : Nat) (fields : List Nat) : Nat := fields.foldl (fun x d => x * 2 ^ 10 + d) x

/-- Fields take a number no further than their bits. -/
theorem packFields_lt {x b : Nat} {l : List Nat} (hx : x < b) (hl : ∀ d ∈ l, d ≤ 1023) :
    packFields x l < b * 2 ^ (10 * l.length) := by
  induction l generalizing x b with
  | nil => simpa [packFields] using hx
  | cons d l ih =>
    obtain ⟨hd, hl⟩ := forall_mem_cons.mp hl
    have hrest := ih (show x * 2 ^ 10 + d < b * 2 ^ 10 by omega) hl
    rwa [mul_assoc, ← pow_add, add_comm 10, ← Nat.mul_succ] at hrest

/-- A field below decides if what is above is equal. -/
theorem compare_mul_add {x y r s t : Nat} (hs : s < r) (ht : t < r) :
    compare (x * r + s) (y * r + t) = (compare x y).then (compare s t) := by
  rcases Nat.lt_trichotomy x y with hlt | rfl | hgt
  · have hmul : (x + 1) * r ≤ y * r := Nat.mul_le_mul_right r hlt
    rw [Nat.compare_eq_lt.mpr hlt, Nat.compare_eq_lt.mpr (by rw [Nat.succ_mul] at hmul; omega)]
    rfl
  · rw [Nat.compare_eq_eq.mpr rfl, Ordering.then, Nat.compare_eq_ite_lt, Nat.compare_eq_ite_lt]
    simp only [Nat.add_lt_add_iff_left]
  · have hmul : (y + 1) * r ≤ x * r := Nat.mul_le_mul_right r hgt
    rw [Nat.compare_eq_gt.mpr hgt, Nat.compare_eq_gt.mpr (by rw [Nat.succ_mul] at hmul; omega)]
    rfl

/-- Numbers with equally many fields are in the order of the lists of fields. -/
theorem compare_packFields {x y : Nat} {l m : List Nat} (hlength : l.length = m.length)
    (hl : ∀ d ∈ l, d ≤ 1023) (hm : ∀ d ∈ m, d ≤ 1023) :
    compare (packFields x l) (packFields y m) = (compare x y).then (compare l m) := by
  induction l generalizing x y m with
  | nil =>
    obtain rfl := length_eq_zero_iff.mp hlength.symm
    simp [packFields]
  | cons d l ih =>
    cases m with
    | nil => cases hlength
    | cons e m =>
      obtain ⟨hd, hl⟩ := forall_mem_cons.mp hl
      obtain ⟨he, hm⟩ := forall_mem_cons.mp hm
      have hrest := ih (x := x * 2 ^ 10 + d) (y := y * 2 ^ 10 + e) (Nat.succ.inj hlength) hl hm
      rwa [compare_mul_add (by omega) (by omega), Ordering.then_assoc,
        ← List.compare_cons_cons] at hrest

/-! ## The loop -/

/-- The state of the loop, for numbers that fit. -/
def versionState (v segment : Nat) (shifts : Int) : BitVec 64 × BitVec 32 × Int :=
  (BitVec.ofNat 64 v, BitVec.ofNat 32 segment, shifts)

variable {v segment : Nat} {shifts : Int}

theorem shiftLeft_ofNat (x k : Nat) : BitVec.ofNat 64 x <<< k = BitVec.ofNat 64 (x * 2 ^ k) := by
  apply BitVec.eq_of_toNat_eq
  simp [Nat.shiftLeft_eq]

/-- A segment is added as the number it is. -/
theorem add_segment (h : segment ≤ 1023) :
    BitVec.ofNat 64 v + (BitVec.ofNat 32 segment).signExtend 64 =
      BitVec.ofNat 64 (v + segment) := by
  have hextend : (BitVec.ofNat 32 segment).signExtend 64 = BitVec.ofNat 64 segment := by
    rw [BitVec.signExtend_eq_setWidth_of_msb_false]
    · apply BitVec.eq_of_toNat_eq
      rw [BitVec.toNat_setWidth, BitVec.toNat_ofNat, BitVec.toNat_ofNat]
      omega
    · rw [BitVec.msb_eq_decide, BitVec.toNat_ofNat, decide_eq_false_iff_not]
      omega
  rw [hextend, BitVec.ofNat_add]

/-- Digits go to the segment. -/
theorem foldl_digits {digits : WString} (h : ∀ c ∈ digits, Decimal.isDigit c = true) :
    digits.foldl versionStep (versionState v segment shifts) =
      versionState v (Decimal.value segment digits) shifts := by
  induction digits generalizing segment with
  | nil => rfl
  | cons c digits ih =>
    obtain ⟨hc, hdigits⟩ := forall_mem_cons.mp h
    have hrange : '0' ≤ c ∧ c ≤ '9' := by simpa [Decimal.isDigit] using hc
    have hother : ¬(c = '.' ∨ c = '-' ∨ c = 'b') := by
      rintro (rfl | rfl | rfl) <;> exact absurd hc (by decide)
    have hstep : versionStep (versionState v segment shifts) c =
        versionState v (segment * 10 + (c.toNat - '0'.toNat)) shifts := by
      unfold versionStep
      rw [if_neg hother, if_neg (fun hdash => hother (.inr (.inl hdash.1))), if_pos hrange]
      simp only [versionState, BitVec.ofNat_add, BitVec.ofNat_mul]
      rfl
    rw [foldl_cons, hstep]
    exact ih hdigits

/-- A `.` and the `b` of a beta move what there is up by one field. -/
theorem versionStep_next {c : Char} (hc : c = '.' ∨ c = 'b') (h : segment ≤ 1023) :
    versionStep (versionState v segment shifts) c =
      versionState ((v + segment) * 2 ^ 10) 0 (shifts + 1) := by
  rcases hc with rfl | rfl <;> simp [versionStep, versionState, add_segment h, shiftLeft_ofNat]

/-- The other letters of a stage are passed over. -/
theorem foldl_letters (s : BitVec 64 × BitVec 32 × Int) :
    "-rc".toList.foldl versionStep s = versionStep s '-' ∧
      "-beta".toList.foldl versionStep s = versionStep (versionStep s '-') 'b' := ⟨rfl, rfl⟩

/-- The components that are missing are made up for. -/
theorem versionStep_dash {k : Nat} (h : segment ≤ 1023) (hk : k ≤ 3) :
    versionStep (versionState v segment k) '-' =
      versionState ((v + segment) * 2 ^ (10 * (3 - k)) * 2 ^ 10) 0 4 := by
  unfold versionStep versionState
  simp only [add_segment h, shiftLeft_ofNat]
  interval_cases k <;> simp [shiftLeft_ofNat, mul_assoc]

/-- The components behind the first one. -/
theorem foldl_components (more : List (Numeral 0 1023)) {k : Nat} (h : segment ≤ 1023) :
    ∃ v' segment', segment' ≤ 1023 ∧
      (more.flatMap fun n => '.' :: n.digits).foldl versionStep (versionState v segment k) =
        versionState v' segment' (k + more.length : Nat) ∧
      v' + segment' = packFields (v + segment) (more.map Numeral.value) := by
  induction more generalizing v segment k with
  | nil => exact ⟨v, segment, h, rfl, rfl⟩
  | cons n more ih =>
    obtain ⟨v', segment', hsegment, hfold, hsum⟩ := ih (k := k + 1) n.le_high
    refine ⟨v', segment', hsegment, ?_, hsum⟩
    rw [flatMap_cons, foldl_append, foldl_cons, versionStep_next (.inl rfl) h,
      foldl_digits n.isDigit, length_cons, ← add_assoc, add_right_comm]
    exact hfold

/-- The whole text. What is still to be shifted at the end is what `shifts` lacks of five. -/
theorem foldl_text (v : Version) : ∃ m segment k, segment ≤ 1023 ∧ k ≤ 5 ∧
    v.text.foldl versionStep (0, 0, 0) = versionState m segment (k : Nat) ∧
    (m + segment) * 2 ^ (10 * (5 - k)) = packFields 0 v.components * 2 ^ 20 + v.stage.low := by
  have hcount := v.count
  have hle : v.first.value ≤ 1023 := v.first.le_high
  obtain ⟨m, segment, hsegment, hfold, hsum⟩ := foldl_components (v := 0) (k := 0) v.more hle
  rw [zero_add] at hfold hsum
  have hfirst : v.first.digits.foldl versionStep (0, 0, 0) =
      versionState 0 v.first.value (0 : Nat) := foldl_digits v.first.isDigit
  have hnumber : packFields 0 v.components = (m + segment) * 2 ^ (10 * (3 - v.more.length)) := by
    rw [hsum, Version.components]
    interval_cases v.more.length <;> simp [packFields, mul_assoc]
  rw [Version.text, foldl_append, foldl_append, hfirst, hfold]
  cases v.stage with
  | final =>
    refine ⟨m, segment, v.more.length, hsegment, by omega, rfl, ?_⟩
    rw [hnumber, VersionStage.low, mul_assoc, ← pow_add, add_zero]
    congr 2
    omega
  | rc n =>
    refine ⟨packFields 0 v.components * 2 ^ 10, n.value, 4, n.le_high.trans (by decide),
      by decide, ?_, ?_⟩
    · rw [VersionStage.text, foldl_append, (foldl_letters _).1, versionStep_dash hsegment hcount,
        ← hnumber, foldl_digits n.isDigit]
      rfl
    · rw [VersionStage.low]
      omega
  | beta n =>
    refine ⟨packFields 0 v.components * 2 ^ 10 * 2 ^ 10, n.value, 5, n.le_high, le_rfl, ?_, ?_⟩
    · rw [VersionStage.text, foldl_append, (foldl_letters _).2, versionStep_dash hsegment hcount,
        ← hnumber, versionStep_next (.inr rfl) (Nat.zero_le _), add_zero,
        foldl_digits n.isDigit]
      rfl
    · rw [VersionStage.low]
      omega

/-! ## The number -/

/-- The end of `ConvertToVersionNumber`: a number without a stage gets the bit of final releases. -/
theorem toInt_marked {x : Nat} (hx : x < 2 ^ 62) :
    (if BitVec.ofNat 64 x &&& 0x0FFFFF = 0 then BitVec.ofNat 64 x ||| 0x080000
      else BitVec.ofNat 64 x).toInt = (if x % 2 ^ 20 = 0 then x + 2 ^ 19 else x : Nat) := by
  have hnat : (BitVec.ofNat 64 x).toNat = x := by
    rw [BitVec.toNat_ofNat]
    omega
  have hmask : BitVec.ofNat 64 x &&& 0x0FFFFF = 0 ↔ x % 2 ^ 20 = 0 := by
    rw [← BitVec.toNat_inj, BitVec.toNat_and, hnat]
    show x &&& (2 ^ 20 - 1) = 0 ↔ _
    rw [Nat.and_two_pow_sub_one_eq_mod]
  simp only [hmask]
  split_ifs with hzero
  · have hor : (BitVec.ofNat 64 x ||| 0x080000).toNat = x + 2 ^ 19 := by
      obtain ⟨q, rfl⟩ := Nat.dvd_of_mod_eq_zero hzero
      rw [BitVec.toNat_or, hnat]
      exact (Nat.two_pow_add_eq_or_of_lt (by decide) q).symm
    rw [BitVec.toInt_eq_toNat_of_lt (by omega), hor]
  · rw [BitVec.toInt_eq_toNat_of_lt (by omega), hnat]

theorem VersionStage.low_lt (s : VersionStage) : s.low < 2 ^ 20 := by
  cases s with
  | beta n => exact n.le_high.trans_lt (by decide)
  | rc n =>
    have hn : n.value ≤ 511 := n.le_high
    rw [VersionStage.low]
    omega
  | final => decide

theorem Version.components_le (v : Version) : ∀ d ∈ v.components, d ≤ 1023 := by
  refine forall_mem_cons.mpr ⟨v.first.le_high, forall_mem_append.mpr ⟨?_, ?_⟩⟩
  · exact forall_mem_map.mpr fun n _ => n.le_high
  · intro d hd
    rw [eq_of_mem_replicate hd]
    exact Nat.zero_le _

theorem Version.length_components (v : Version) : v.components.length = 4 := by
  have hcount := v.count
  rw [Version.components, length_cons, length_append, length_map, length_replicate]
  omega

/-- A version has no character that ends the text. -/
theorem Version.nul_notMem (v : Version) : '\x00' ∉ v.text := by
  have hdigits {low high : Nat} (n : Numeral low high) : '\x00' ∉ n.digits :=
    fun h => absurd (n.isDigit _ h) (by decide)
  have hstage : '\x00' ∉ v.stage.text := by
    cases v.stage <;> simp [VersionStage.text, hdigits]
  simp [Version.text, hdigits, hstage]

/-- The number of a version: the components, and below them the stage. -/
theorem convertToVersionNumber_text (v : Version) : convertToVersionNumber v.text =
    (packFields 0 v.components * 2 ^ 20 + v.stage.field : Nat) := by
  have hnul : v.text.takeWhile (· ≠ '\x00') = v.text :=
    takeWhile_eq_self_iff.mpr fun c hc => decide_eq_true fun h => v.nul_notMem (h ▸ hc)
  obtain ⟨c, digits, hdigits⟩ := exists_cons_of_ne_nil v.first.ne_nil
  have hc : '0' ≤ c ∧ c ≤ '9' := by
    simpa [Decimal.isDigit] using v.first.isDigit c (hdigits ▸ mem_cons_self)
  obtain ⟨rest, htext⟩ : ∃ rest, v.text = c :: rest := by
    rw [Version.text, hdigits]
    exact ⟨_, rfl⟩
  obtain ⟨m, segment, k, hsegment, hk, hfold, hnumber⟩ := foldl_text v
  have hpack : packFields 0 v.components < 2 ^ 40 := by
    have hlt := packFields_lt (x := 0) (b := 1) (by decide) v.components_le
    rwa [v.length_components, one_mul] at hlt
  have hlow := v.stage.low_lt
  have hshift : (((5 - (k : Int)) * 10) % 64).toNat = 10 * (5 - k) := by omega
  unfold convertToVersionNumber
  rw [hnul, htext]
  dsimp only
  rw [if_neg (by rw [not_or, Char.not_lt, Char.not_lt]; exact hc), ← htext, hfold, versionState]
  dsimp only
  rw [add_segment hsegment, hshift, shiftLeft_ofNat, hnumber, toInt_marked (by omega),
    VersionStage.field]
  have hmod : (packFields 0 v.components * 2 ^ 20 + v.stage.low) % 2 ^ 20 = v.stage.low := by omega
  rw [hmod]
  split_ifs with hzero
  · rw [hzero, add_zero]
  · rfl

example : convertToVersionNumber "2.2.26-beta3".toList = 2254026754228227 := by decide +kernel

/-! ## The order -/

/-- The lower bits are in the order of the stages. -/
theorem VersionStage.compare_field (s t : VersionStage) : compare s.field t.field = s.cmp t := by
  have hbeta (n : Numeral 1 1023) : (beta n).field = n.value ∧ 1 ≤ n.value ∧ n.value ≤ 1023 :=
    ⟨if_neg (Nat.ne_of_gt n.low_le), n.low_le, n.le_high⟩
  have hrc (n : Numeral 1 511) : (rc n).field = n.value * 2 ^ 10 ∧ 1 ≤ n.value ∧ n.value ≤ 511 := by
    have hlow : 1 ≤ n.value := n.low_le
    exact ⟨if_neg (by rw [low]; omega), hlow, n.le_high⟩
  have hfinal : final.field = 2 ^ 19 := if_pos rfl
  cases s with
  | beta n =>
    obtain ⟨hn, -, hle⟩ := hbeta n
    cases t with
    | beta m => rw [hn, (hbeta m).1, cmp]
    | rc m => exact Nat.compare_eq_lt.mpr (by have := hrc m; omega)
    | final => exact Nat.compare_eq_lt.mpr (by omega)
  | rc n =>
    obtain ⟨hn, hge, hle⟩ := hrc n
    cases t with
    | beta m => exact Nat.compare_eq_gt.mpr (by have := hbeta m; omega)
    | rc m =>
      rw [hn, (hrc m).1, cmp, Nat.compare_eq_ite_lt, Nat.compare_eq_ite_lt]
      simp only [Nat.mul_lt_mul_right (show 0 < 2 ^ 10 by decide)]
    | final => exact Nat.compare_eq_lt.mpr (by omega)
  | final =>
    cases t with
    | beta m => exact Nat.compare_eq_gt.mpr (by have := hbeta m; omega)
    | rc m => exact Nat.compare_eq_gt.mpr (by have := hrc m; omega)
    | final => exact Nat.compare_eq_eq.mpr rfl

theorem VersionStage.field_lt (s : VersionStage) : s.field < 2 ^ 20 := by
  unfold VersionStage.field
  split_ifs
  · decide
  · exact s.low_lt

/-- Comparing the numbers is comparing the components, the first one first, and then the stages. -/
theorem compare_convertToVersionNumber (v w : Version) :
    compare (convertToVersionNumber v.text) (convertToVersionNumber w.text) = v.cmp w := by
  have hcast (a b : Nat) : compare (a : Int) (b : Int) = compare a b := by
    simp [compare, compareOfLessAndEq]
  rw [convertToVersionNumber_text, convertToVersionNumber_text, hcast,
    compare_mul_add v.stage.field_lt w.stage.field_lt, VersionStage.compare_field,
    compare_packFields (v.length_components.trans w.length_components.symm) v.components_le
      w.components_le, Nat.compare_eq_eq.mpr rfl]
  rfl

end FlintZilla
