import FlintZilla.Cache.Listing
import FlintZilla.Lib.Lts

/-!
# The search maps of a listing

A search map holds the names of the first entries of the listing, as many as it has elements. The
find functions extend it, and every function that changes the positions or the names of entries
drops it. `ClearFindMap` drops both maps, but only if there is a map for the names as they are:
after a rename the map for the names in lower case stays if it was the only one.

Main results:

* `findIn_spec`: a search in a map that is right finds what a search of the listing finds.
* `MapsOk.apply`, `mapsOk_of_reach`: the maps are right as long as every rename drops them.
* `findFile_linear`: then every search is a linear one.
-/

namespace FlintZilla

open Lib DirectoryListing List

/-- What can be done to a listing. A rename is a change through `get` followed by `ClearFindMap`. -/
inductive ListingOp where
  | assign (entries : List CDirentry)
  | append (entry : CDirentry)
  | removeEntry (index : Nat)
  | rename (index : Nat) (name : WString)
  | findCmpCase (name : WString) (choice : Nat)
  | findCmpNoCase (name : WString) (choice : Nat)
deriving DecidableEq

namespace DirectoryListing

def apply (lower : WString → WString) (l : DirectoryListing) : ListingOp → DirectoryListing
  | .assign entries => l.assign entries
  | .append entry => l.append entry
  | .removeEntry index => (l.removeEntry index).2
  | .rename index name => (l.modifyEntry index fun e => { e with name := name }).clearFindMap
  | .findCmpCase name choice => (l.findFileCmpCase name choice).2
  | .findCmpNoCase name choice => (l.findFileCmpNoCase lower name choice).2

end DirectoryListing

/-- Every sequence of changes and lookups. -/
def listingSystem (lower : WString → WString) : Lts DirectoryListing ListingOp :=
  Lts.ofFun (fun l => l.entries = [] ∧ l.searchmapCase = none ∧ l.searchmapNocase = none)
    fun l op => some (l.apply lower op)

/-- `ClearFindMap` has a map for the names as they are to see, or nothing to drop. -/
def DirectoryListing.Clears (l : DirectoryListing) : ListingOp → Prop
  | .rename _ _ => l.searchmapCase.isSome ∨ l.searchmapNocase = none
  | _ => True

/-! ## Maps of the first entries -/

/-- The names and positions of entries that start at `i`. -/
def namesFrom (fold : WString → WString) (i : Nat) (entries : List CDirentry) : FindMap :=
  (entries.zipIdx i).map fun p => (fold p.1.name, p.2)

section

variable {fold : WString → WString} {entries : List CDirentry} {map : FindMap} {key name : WString}

theorem namesFrom_append (fold : WString → WString) (i : Nat) (xs ys : List CDirentry) :
    namesFrom fold i (xs ++ ys) = namesFrom fold i xs ++ namesFrom fold (i + xs.length) ys := by
  simp [namesFrom, zipIdx_append]

theorem length_namesFrom (fold : WString → WString) (i : Nat) (xs : List CDirentry) :
    (namesFrom fold i xs).length = xs.length := by
  simp [namesFrom]

/-- The positions under which a name is filed. -/
theorem mem_namesFrom {i : Nat} : (key, i) ∈ namesFrom fold 0 entries ↔
    ∃ e, entries[i]? = some e ∧ fold e.name = key := by
  simp only [namesFrom, mem_map, Prod.mk.injEq, Prod.exists, mem_zipIdx_iff_getElem?]
  constructor
  · rintro ⟨e, j, hj, hkey, rfl⟩
    exact ⟨e, hj, hkey⟩
  · rintro ⟨e, hi, hkey⟩
    exact ⟨e, i, hi, hkey, rfl⟩

/-- The map holds the first entries. -/
theorem eq_namesFrom_take (h : map <+: namesFrom fold 0 entries) :
    map = namesFrom fold 0 (entries.take map.length) := by
  have hlength : map.length ≤ entries.length := by
    have := h.length_le
    rwa [length_namesFrom] at this
  have hsplit := namesFrom_append fold 0 (entries.take map.length) (entries.drop map.length)
  rw [take_append_drop] at hsplit
  rw [hsplit] at h
  refine (prefix_of_prefix_length_le h (prefix_append _ _) ?_).eq_of_length ?_
  · rw [length_namesFrom, length_take]
    omega
  · rw [length_namesFrom, length_take]
    omega

/-- The result of a linear search: some position with the key, or none if there is none. -/
def FindsIn (fold : WString → WString) (entries : List CDirentry) (key : WString) :
    Option Nat → Prop
  | some i => ∃ e, entries[i]? = some e ∧ fold e.name = key
  | none => ∀ e ∈ entries, fold e.name ≠ key

/-- The loop finds the first entry with the key, and the map grows along; by induction on the
entries that are left. -/
theorem completeMap_spec (fold : WString → WString) (key : WString) (done : List CDirentry) :
    ∀ rest : List CDirentry, ((completeMap fold key done.length rest (namesFrom fold 0 done)).2 <+:
        namesFrom fold 0 (done ++ rest)) ∧
      ((∀ e ∈ done, fold e.name ≠ key) → FindsIn fold (done ++ rest) key
          (completeMap fold key done.length rest (namesFrom fold 0 done)).1) := by
  intro rest
  -- `done` are the entries whose names are in the map
  induction rest generalizing done with
  | nil =>
    rw [append_nil]
    exact ⟨prefix_rfl, fun hdone => hdone⟩
  | cons e rest ih =>
    have hmap : namesFrom fold 0 done ++ [(fold e.name, done.length)] =
        namesFrom fold 0 (done ++ [e]) := by
      rw [namesFrom_append, Nat.zero_add]
      rfl
    have hsplit : done ++ e :: rest = (done ++ [e]) ++ rest := by simp
    unfold completeMap
    rw [hmap]
    by_cases hkey : fold e.name = key
    · rw [if_pos hkey, hsplit]
      refine ⟨?_, fun _ => ⟨e, ?_, hkey⟩⟩
      · rw [namesFrom_append fold 0 (done ++ [e])]
        exact prefix_append _ _
      · simp
    · rw [if_neg hkey, hsplit]
      have hrest := ih (done ++ [e])
      rw [length_append] at hrest
      refine ⟨hrest.1, fun hdone => hrest.2 ?_⟩
      exact forall_mem_append.mpr ⟨hdone, forall_mem_singleton.mpr hkey⟩

theorem mem_positions {i : Nat} : i ∈ positions map key ↔ (key, i) ∈ map := by simp [positions]

/-- A map of the first entries stays one, and the search agrees with a linear search. -/
theorem findIn_spec {found : Option FindMap}
    (h : ∀ m, found = some m → m <+: namesFrom fold 0 entries) (name : WString) (choice : Nat) :
    (∀ m, (findIn fold entries found name choice).2 = some m → m <+: namesFrom fold 0 entries) ∧
      FindsIn fold entries (fold name) (findIn fold entries found name choice).1 := by
  have hmap : found.getD [] <+: namesFrom fold 0 entries := by
    cases found with
    | none => exact List.nil_prefix
    | some m => exact h m rfl
  unfold findIn
  by_cases hempty : entries.isEmpty = true
  · rw [if_pos hempty]
    rw [List.isEmpty_iff] at hempty
    refine ⟨h, ?_⟩
    intro e he
    rw [hempty] at he
    cases he
  rw [if_neg hempty]
  generalize found.getD [] = map at hmap
  dsimp only
  split
  · next first others hpositions =>
    refine ⟨by rintro m ⟨⟩; exact hmap, ?_⟩
    -- every element with the key is at the position of an entry with it
    have hlt : choice % (others.length + 1) < (first :: others).length :=
      Nat.mod_lt _ (Nat.succ_pos _)
    rw [List.getElem?_eq_getElem hlt]
    have hmem : (first :: others)[choice % (others.length + 1)] ∈ positions map (fold name) := by
      rw [hpositions]
      exact List.getElem_mem hlt
    exact mem_namesFrom.mp (hmap.subset (mem_positions.mp hmem))
  · next hpositions =>
    have htake := eq_namesFrom_take hmap
    have hdone : ∀ e ∈ entries.take map.length, fold e.name ≠ fold name := by
      intro e he hkey
      obtain ⟨i, hi⟩ := List.getElem?_of_mem he
      have hmem : (fold name, i) ∈ map := by
        rw [htake]
        exact mem_namesFrom.mpr ⟨e, hi, hkey⟩
      have hpos := mem_positions.mpr hmem
      rw [hpositions] at hpos
      cases hpos
    split
    · next hlength =>
      refine ⟨by rintro m ⟨⟩; exact hmap, ?_⟩
      rw [hlength, List.take_length] at hdone
      exact hdone
    · have hle : map.length ≤ entries.length := by
        have := hmap.length_le
        rwa [length_namesFrom] at this
      have hspec := completeMap_spec fold (fold name) (entries.take map.length)
        (entries.drop map.length)
      rw [List.take_append_drop, ← htake, List.length_take, min_eq_left hle] at hspec
      refine ⟨by rintro m ⟨⟩; exact hspec.1, hspec.2 hdone⟩

end

/-! ## Whole runs -/

/-- Both maps hold the first entries. -/
structure MapsOk (lower : WString → WString) (l : DirectoryListing) : Prop where
  cmpCase : ∀ m, l.searchmapCase = some m → m <+: namesFrom id 0 l.entries
  cmpNoCase : ∀ m, l.searchmapNocase = some m → m <+: namesFrom lower 0 l.entries

section

variable {lower : WString → WString} {l : DirectoryListing}

/-- A listing without maps. -/
theorem mapsOk_of_none (hcase : l.searchmapCase = none) (hnocase : l.searchmapNocase = none) :
    MapsOk lower l := by
  constructor
  · intro m hm
    rw [hcase] at hm
    cases hm
  · intro m hm
    rw [hnocase] at hm
    cases hm

/-- One call that drops the maps where it has to. -/
theorem MapsOk.apply (h : MapsOk lower l) {op : ListingOp} (hclears : l.Clears op) :
    MapsOk lower (l.apply lower op) := by
  cases op with
  | assign entries => exact mapsOk_of_none rfl rfl
  | append entry =>
    -- the maps hold a first part of the names, which is one of the longer list too
    constructor
    · intro m hm
      refine (h.cmpCase m hm).trans ?_
      show _ <+: namesFrom id 0 (l.entries ++ [entry])
      rw [namesFrom_append]
      exact prefix_append _ _
    · intro m hm
      refine (h.cmpNoCase m hm).trans ?_
      show _ <+: namesFrom lower 0 (l.entries ++ [entry])
      rw [namesFrom_append]
      exact prefix_append _ _
  | removeEntry index =>
    show MapsOk lower (l.removeEntry index).2
    unfold removeEntry
    split
    · exact h
    · exact mapsOk_of_none rfl rfl
  | rename index name =>
    show MapsOk lower (clearFindMap _)
    unfold clearFindMap
    split
    · next hnone =>
      have hcase : l.searchmapCase = none := Option.isNone_iff_eq_none.mp hnone
      rcases hclears with hsome | hnocase
      · rw [hcase] at hsome
        cases hsome
      · exact mapsOk_of_none hcase hnocase
    · exact mapsOk_of_none rfl rfl
  | findCmpCase name choice => exact ⟨(findIn_spec h.cmpCase name choice).1, h.cmpNoCase⟩
  | findCmpNoCase name choice => exact ⟨h.cmpCase, (findIn_spec h.cmpNoCase name choice).1⟩

/-- Whole runs of such calls. -/
theorem mapsOk_of_reach (h : ((listingSystem lower).restrict DirectoryListing.Clears).Reach l) :
    MapsOk lower l := by
  refine Lts.Reach.invariant (MapsOk lower) ?_ ?_ h
  · rintro l ⟨-, hcase, hnocase⟩
    exact mapsOk_of_none hcase hnocase
  · rintro l op l' ⟨hstep, hclears⟩ hl
    have hl' : l.apply lower op = l' := Option.some.inj hstep
    subst hl'
    exact hl.apply hclears

end

/-- If no rename leaves `ClearFindMap` without a map for the names as they are while there is one
for the names in lower case, both find functions agree with a linear search: they return the
position of an entry that has the name, and no position only if there is no such entry. -/
theorem findFile_linear (lower : WString → WString) (l : DirectoryListing)
    (h : ((listingSystem lower).restrict DirectoryListing.Clears).Reach l) (name : WString)
    (choice : Nat) :
    FindsIn id l.entries name (l.findFileCmpCase name choice).1 ∧
      FindsIn lower l.entries (lower name) (l.findFileCmpNoCase lower name choice).1 := by
  have hmaps := mapsOk_of_reach h
  exact ⟨(findIn_spec hmaps.cmpCase name choice).2, (findIn_spec hmaps.cmpNoCase name choice).2⟩

/-- An entry is renamed after both kinds of lookups. -/
theorem findFile_linear_renamed :
    ∃ l, ((listingSystem (·.map Char.toLower)).restrict DirectoryListing.Clears).Reach l ∧
      l.entries.map (·.name) = ["B".toList] ∧
      FindsIn (·.map Char.toLower) l.entries "a".toList
        (l.findFileCmpNoCase (·.map Char.toLower) "a".toList 0).1 := by
  have hrun : ((listingSystem (·.map Char.toLower)).restrict DirectoryListing.Clears).Run {}
      [.assign [{ name := "A".toList }], .findCmpCase "a".toList 0, .findCmpNoCase "a".toList 0,
        .rename 0 "B".toList] _ :=
    Lts.Run.cons ⟨rfl, trivial⟩ <| Lts.Run.cons ⟨rfl, trivial⟩ <| Lts.Run.cons ⟨rfl, trivial⟩ <|
      Lts.Run.cons ⟨rfl, .inl rfl⟩ (Lts.Run.nil _)
  have hinit : ((listingSystem (·.map Char.toLower)).restrict DirectoryListing.Clears).Reach {} :=
    Lts.Reach.init ⟨rfl, rfl, rfl⟩
  have hreach := hinit.run hrun
  exact ⟨_, hreach, rfl, (findFile_linear _ _ hreach "a".toList 0).2⟩

/-- The only lookup before the rename was one that ignores case: the old name is still found. -/
theorem findFile_stale : ∃ l, (listingSystem (·.map Char.toLower)).Run {}
        [.assign [{ name := "A".toList }], .findCmpNoCase "a".toList 0, .rename 0 "B".toList] l ∧
      l.entries.map (·.name) = ["B".toList] ∧
      (l.findFileCmpNoCase (·.map Char.toLower) "a".toList 0).1 = some 0 ∧
      (l.findFileCmpNoCase (·.map Char.toLower) "b".toList 0).1 = none :=
  ⟨_, Lts.run_ofFun rfl, rfl, rfl, rfl⟩

end FlintZilla
