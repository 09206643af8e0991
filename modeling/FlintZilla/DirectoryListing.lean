import FlintZilla.Path.ServerPath
import Mathlib.Data.Multiset.Basic

/-!
# Directory listings

`CDirentry` and `CDirectoryListing` of `include/directorylisting.h`. The flags of an entry are
booleans. A time is a number, or absent.
-/

namespace FlintZilla

structure CDirentry where
  name : WString := []
  size : Int := -1
  permissions : WString := []
  ownerGroup : WString := []
  isDir : Bool := false
  isLink : Bool := false
  isUnsure : Bool := false
  target : Option WString := none
  time : Option Int := none
deriving DecidableEq

structure CDirectoryListing where
  path : CServerPath
  entries : List CDirentry
  failed : Bool := false
deriving DecidableEq

namespace CDirectoryListing

def getFilenames (l : CDirectoryListing) : List WString := l.entries.map (·.name)

/-- The names after `std::sort`. -/
def sortedNames (l : CDirectoryListing) : List WString :=
  l.getFilenames.mergeSort fun a b => !decide (b < a)

/-- The loop of `CheckInclusion` over the names that `iter1` has not passed. It ends when `iter2`,
a position in `names2`, is the first one. -/
def inclusionLoop (names2 : List WString) : List WString → Nat → Bool
  | _, 0 => true
  | [], _ + 1 => false
  | name :: names1, iter2 + 1 =>
    inclusionLoop names2 names1
      (if names2[iter2 + 1]? = some name then iter2 + 2 else iter2 + 1)

/-- `CheckInclusion`. -/
def checkInclusion (listing1 listing2 : CDirectoryListing) : Bool :=
  if listing1.entries.length < listing2.entries.length then false
  else inclusionLoop listing2.sortedNames listing1.sortedNames 0

/-- `iter2` is the first position when the loop starts, so no name is compared: the answer is right
exactly for listings of which the second has more entries, or its names are contained. -/
theorem checkInclusion_iff (l1 l2 : CDirectoryListing) :
    (checkInclusion l1 l2 = true ↔ l2.entries.length ≤ l1.entries.length) ∧
      ((checkInclusion l1 l2 = true ↔ (l2.getFilenames : Multiset WString) ≤ l1.getFilenames) ↔
        l1.entries.length < l2.entries.length ∨
          (l2.getFilenames : Multiset WString) ≤ l1.getFilenames) := by
  have hloop : checkInclusion l1 l2 = true ↔ l2.entries.length ≤ l1.entries.length := by
    simp [checkInclusion, inclusionLoop]
  have hcard : (l2.getFilenames : Multiset WString) ≤ l1.getFilenames →
      l2.entries.length ≤ l1.entries.length := by
    intro h
    simpa [getFilenames] using Multiset.card_le_card h
  refine ⟨hloop, ?_⟩
  rw [hloop, ← not_le]
  tauto

/-- A listing of `a` is found to contain one of `b`. -/
theorem checkInclusion_other_name :
    checkInclusion ⟨⟨.unix, none⟩, [{ name := ['a'] }], false⟩
        ⟨⟨.unix, none⟩, [{ name := ['b'] }], false⟩ = true ∧
      ¬(([['b']] : List WString) : Multiset WString) ≤ ([['a']] : List WString) :=
  ⟨by simp [checkInclusion, inclusionLoop], by decide⟩

end CDirectoryListing

end FlintZilla
