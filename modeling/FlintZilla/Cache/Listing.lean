import FlintZilla.DirectoryListing

/-!
# Directory listings with their search maps

`CDirectoryListing` of `engine/directorylisting.cpp` as an object that is changed in place: the
entries, the flags, the time of the listing, and the two maps from names to positions that the find
functions fill on demand. Copies share their data until one of them is changed, so a listing is a
value.

A map is an `unordered_multimap`: it is given as the list of its elements in the order in which they
were put in. `find` may return any of the elements with the key, and `choice` says which.
-/

namespace FlintZilla

/-- The elements of a search map. -/
abbrev FindMap := List (WString × Nat)

/-- `CDirectoryListing`. -/
structure DirectoryListing where
  path : CServerPath := ⟨.default, none⟩
  firstListTime : Int := 0
  flags : BitVec 32 := 0
  entries : List CDirentry := []
  searchmapCase : Option FindMap := none
  searchmapNocase : Option FindMap := none
deriving DecidableEq

namespace DirectoryListing

def unsureFileAdded : BitVec 32 := 0x01
def unsureFileRemoved : BitVec 32 := 0x02
def unsureFileChanged : BitVec 32 := 0x04
def unsureDirAdded : BitVec 32 := 0x08
def unsureDirRemoved : BitVec 32 := 0x10
def unsureDirChanged : BitVec 32 := 0x20
def unsureUnknown : BitVec 32 := 0x40
def unsureInvalid : BitVec 32 := 0x80
def unsureMask : BitVec 32 := 0xff
def listingHasDirs : BitVec 32 := 0x200
def listingHasPerms : BitVec 32 := 0x400
def listingHasUsergroup : BitVec 32 := 0x800

def size (l : DirectoryListing) : Nat := l.entries.length

/-- `get_unsure_flags`. -/
def getUnsureFlags (l : DirectoryListing) : BitVec 32 := l.flags &&& unsureMask

/-- `m_flags |= flags`. -/
def addFlags (l : DirectoryListing) (flags : BitVec 32) : DirectoryListing :=
  { l with flags := l.flags ||| flags }

/-- A change through the reference that `get(index)` returns. -/
def modifyEntry (l : DirectoryListing) (index : Nat) (f : CDirentry → CDirentry) :
    DirectoryListing :=
  { l with entries := l.entries.modify index f }

/-- `Assign`. -/
def assign (l : DirectoryListing) (entries : List CDirentry) : DirectoryListing :=
  let kept := l.flags &&& ~~~(listingHasDirs ||| listingHasPerms ||| listingHasUsergroup)
  let dirs := if entries.any (·.isDir) then listingHasDirs else 0
  let perms := if entries.any (!·.permissions.isEmpty) then listingHasPerms else 0
  let usergroup := if entries.any (!·.ownerGroup.isEmpty) then listingHasUsergroup else 0
  { l with
    entries := entries
    flags := kept ||| dirs ||| perms ||| usergroup
    searchmapCase := none
    searchmapNocase := none }

/-- `RemoveEntry`. -/
def removeEntry (l : DirectoryListing) (index : Nat) : Bool × DirectoryListing :=
  match l.entries[index]? with
  | none => (false, l)
  | some entry =>
    (true, { l with
      entries := l.entries.eraseIdx index
      flags := l.flags ||| (if entry.isDir then unsureDirRemoved else unsureFileRemoved)
      searchmapCase := none
      searchmapNocase := none })

/-- `Append`. -/
def append (l : DirectoryListing) (entry : CDirentry) : DirectoryListing :=
  { l with entries := l.entries ++ [entry] }

/-- `ClearFindMap`. -/
def clearFindMap (l : DirectoryListing) : DirectoryListing :=
  if l.searchmapCase.isNone then l else { l with searchmapCase := none, searchmapNocase := none }

/-- The loop that completes a map, from the entry at `i` on. -/
def completeMap (fold : WString → WString) (key : WString) :
    Nat → List CDirentry → FindMap → Option Nat × FindMap
  | _, [], map => (none, map)
  | i, entry :: entries, map =>
    let map := map ++ [(fold entry.name, i)]
    if fold entry.name = key then (some i, map) else completeMap fold key (i + 1) entries map

/-- The positions of the elements with a key. -/
def positions (map : FindMap) (key : WString) : List Nat :=
  (map.filter fun p => p.1 == key).map (·.2)

/-- What both find functions do; `fold` is applied to the names. -/
def findIn (fold : WString → WString) (entries : List CDirentry) (map : Option FindMap)
    (name : WString) (choice : Nat) : Option Nat × Option FindMap :=
  if entries.isEmpty then (none, map)
  else
    let map := map.getD []
    match positions map (fold name) with
    | first :: others =>
      ((first :: others)[choice % (others.length + 1)]?, some map)
    | [] =>
      if map.length = entries.length then (none, some map)
      else
        let r := completeMap fold (fold name) map.length (entries.drop map.length) map
        (r.1, some r.2)

/-- `FindFile_CmpCase`. -/
def findFileCmpCase (l : DirectoryListing) (name : WString) (choice : Nat) :
    Option Nat × DirectoryListing :=
  let r := findIn id l.entries l.searchmapCase name choice
  (r.1, { l with searchmapCase := r.2 })

/-- `FindFile_CmpNoCase`; `lower` is `fz::str_tolower`. -/
def findFileCmpNoCase (lower : WString → WString) (l : DirectoryListing) (name : WString)
    (choice : Nat) : Option Nat × DirectoryListing :=
  let r := findIn lower l.entries l.searchmapNocase name choice
  (r.1, { l with searchmapNocase := r.2 })

end DirectoryListing

end FlintZilla
