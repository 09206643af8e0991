import FlintZilla.Cache.Listing
import FlintZilla.Lib.Lts
import FlintZilla.Lib.OrderedSet
import FlintZilla.Path.Ancestor
import FlintZilla.Path.Order
import FlintZilla.Server

/-!
# The directory cache

`CDirectoryCache` of `engine/directorycache.cpp`: a list of servers, each with the set of its cached
listings ordered by path, and across all servers one list of the cached listings in the order of
their last use.

Server entries, cache entries and the nodes of the list carry a number each, and an iterator is the
number of what it points to. A node names the server entry and the cache entry, the cache entry
names its node. The numbers come from one counter, so a number is never used twice.

Times are milliseconds. The public functions hold the mutex, so each is one step. A loop over the
cached listings of a server whose iterations call `UpdateLru` and then change the listing is written
as the `UpdateLru` of all iterations followed by the changes of all: the first does not look at
listings, the second does not look at the list.
-/

namespace FlintZilla

open Lib

/-- How `libfilezilla` compares names without regard to case. -/
structure CaseFolding where
  /-- `fz::str_tolower`. -/
  lower : WString → WString
  /-- `!fz::stricmp(a, b)`. -/
  same : WString → WString → Bool
  same_self : ∀ s, same s s = true

/-- Whether all segments of two lists of one length are the same. -/
def sameSegments (same : WString → WString → Bool) : List WString → List WString → Bool
  | [], [] => true
  | x :: xs, y :: ys => same x y && sameSegments same xs ys
  | _, _ => false

/-- `!CmpNoCase(op)`. -/
def CServerPath.sameNoCase (f : CaseFolding) (p op : CServerPath) : Bool :=
  match p.data, op.data with
  | none, none => true
  | some ld, some rd =>
    if ld.pfx != rd.pfx then false
    else if p.type != op.type then false
    else sameSegments f.same ld.segments rd.segments
  | _, _ => false

/-- The comparisons of `InvalidateFile`, which depend on the server. -/
def CaseFolding.sameName (f : CaseFolding) (cmpCase : Bool) (a b : WString) : Bool :=
  if cmpCase then a == b else f.same a b

def CServerPath.samePath (f : CaseFolding) (cmpCase : Bool) (p op : CServerPath) : Bool :=
  if cmpCase then p == op else p.sameNoCase f op

/-- `CCacheEntry`. -/
structure CCacheEntry where
  id : Nat
  listing : DirectoryListing
  modificationTime : Int
  lruIt : Option Nat := none
deriving DecidableEq

/-- `CServerEntry`. -/
structure CServerEntry where
  id : Nat
  server : CServer
  /-- In the order of the set. -/
  cacheList : List CCacheEntry := []
deriving DecidableEq

/-- A node of `tLruList`, with the iterators of a `tFullEntryPosition`. -/
structure LruNode where
  id : Nat
  server : Nat
  entry : Nat
deriving DecidableEq

/-- `fz::duration::from_seconds`. -/
def fromSeconds (n : Int) : Int := n * 1000

/-- `fz::duration::from_days`. -/
def fromDays (n : Int) : Int := n * 24 * 3600 * 1000

structure CDirectoryCache where
  serverList : List CServerEntry := []
  leastRecentlyUsedList : List LruNode := []
  totalFileCount : Int := 0
  ttl : Int := fromSeconds 600
  /-- The next number that was not used. -/
  nextId : Nat := 0
deriving DecidableEq

/-- `Filetype`. -/
inductive Filetype where
  | unknown
  | file
  | dir
deriving DecidableEq

/-- `LookupFlags`. -/
structure LookupFlags where
  allowOutdated : Bool := false
  forceCaseinsensitive : Bool := false
deriving DecidableEq

/-- `LookupResults`. -/
structure LookupResults where
  found : Bool := false
  outdated : Bool := false
  direxists : Bool := false
  matchedcase : Bool := false
deriving DecidableEq

/-! ## Changes to one listing -/

namespace DirectoryListing

/-- `get(i).flags |= CDirentry::flag_unsure` where the test holds. -/
def markUnsure (l : DirectoryListing) (test : CDirentry → Bool) : DirectoryListing :=
  { l with entries := l.entries.map fun e => if test e then { e with isUnsure := true } else e }

/-- What `InvalidateFile` does to a listing; `same` compares names. -/
def invalidateFile (same : WString → WString → Bool) (filename : WString) (l : DirectoryListing) :
    DirectoryListing :=
  (l.markUnsure fun e => same filename e.name).addFlags unsureUnknown

/-- The search loop of `UpdateFile`: the entries after it, and the entry on which it stopped. -/
def markUntil (f : CaseFolding) (filename : WString) :
    List CDirentry → List CDirentry × Option CDirentry
  | [] => ([], none)
  | e :: es =>
    if f.same filename e.name then
      let e := { e with isUnsure := true }
      if e.name = filename then (e :: es, some e)
      else
        let r := markUntil f filename es
        (e :: r.1, r.2)
    else
      let r := markUntil f filename es
      (e :: r.1, r.2)

/-- The entry that `UpdateFile` adds. -/
def newEntry (filename : WString) (type : Filetype) (size : Int) (ownerGroup : WString) :
    CDirentry :=
  { name := filename, isDir := type = .dir, isUnsure := true, size := size,
    ownerGroup := ownerGroup }

/-- What `UpdateFile` does to a listing, and by how much the number of files changes. -/
def updateFile (f : CaseFolding) (filename : WString) (mayCreate : Bool) (type : Filetype)
    (size : Int) (ownerGroup : WString) (l : DirectoryListing) : DirectoryListing × Int :=
  let r := markUntil f filename l.entries
  let l := { l with entries := r.1 }
  match r.2 with
  | some entry =>
    let oldType := if entry.isDir then Filetype.dir else .file
    if type ≠ oldType then (l.addFlags unsureInvalid, 0)
    else if type = .dir then (l.addFlags unsureDirChanged, 0)
    else (l.addFlags unsureFileChanged, 0)
  | none =>
    if type ≠ .unknown ∧ mayCreate = true then
      let flags := match type with
        | .dir => unsureDirAdded ||| listingHasDirs
        | .file => unsureFileAdded
        | .unknown => unsureInvalid
      ((l.addFlags flags).append (newEntry filename type size ownerGroup), 1)
    else (l.addFlags unsureUnknown, 0)

/-- The index of the first entry with a name, as the loops of the cache look for it. -/
def indexOf (l : DirectoryListing) (name : WString) : Option Nat :=
  l.entries.findIdx? fun e => e.name == name

/-- What `RemoveFile` does to a listing, and by how much the number of files changes. -/
def removeFile (f : CaseFolding) (filename : WString) (l : DirectoryListing) :
    DirectoryListing × Int :=
  match l.indexOf filename with
  | some i => ((l.removeEntry i).2, -1)
  | none => ((l.markUnsure fun e => f.same filename e.name).addFlags unsureInvalid, 0)

/-- The rename of a file within one directory. -/
def renameAt (l : DirectoryListing) (i : Nat) (fileTo : WString) : DirectoryListing :=
  let l := l.modifyEntry i fun e => { e with name := fileTo, isUnsure := true }
  (l.addFlags unsureUnknown).clearFindMap

/-- The searches of `LookupFile` in a listing: the entry, and whether the case matched. -/
def findFile (f : CaseFolding) (l : DirectoryListing) (filename : WString) (noCase : Bool)
    (choice : Nat → Nat) : Option (CDirentry × Bool) × DirectoryListing :=
  let r := l.findFileCmpCase filename (choice 0)
  match r.1 with
  | some i => (l.entries[i]?.map fun e => (e, true), r.2)
  | none =>
    if noCase then
      let r := r.2.findFileCmpNoCase f.lower filename (choice 1)
      ((r.1.bind fun i => l.entries[i]?).map fun e => (e, false), r.2)
    else (none, r.2)

/-- The loop of `LookupFiles`. -/
def findFiles (f : CaseFolding) (noCase : Bool) :
    DirectoryListing → List WString → (Nat → Nat) → List (Option (CDirentry × Bool)) ×
      DirectoryListing
  | l, [], _ => ([], l)
  | l, filename :: filenames, choice =>
    let r := l.findFile f filename noCase choice
    let rest := findFiles f noCase r.2 filenames fun i => choice (i + 2)
    (r.1 :: rest.1, rest.2)

end DirectoryListing

namespace CDirectoryCache

/-! ## The iterators -/

/-- `GetServerEntry`. -/
def getServerEntry (c : CDirectoryCache) (server : CServer) : Option CServerEntry :=
  c.serverList.find? fun se => se.server.sameContent server

/-- `CreateServerEntry`. -/
def createServerEntry (c : CDirectoryCache) (server : CServer) : CServerEntry × CDirectoryCache :=
  match c.getServerEntry server with
  | some se => (se, c)
  | none =>
    let se : CServerEntry := { id := c.nextId, server := server }
    (se, { c with serverList := c.serverList ++ [se], nextId := c.nextId + 1 })

/-- A change to the set of one server. -/
def modifySet (c : CDirectoryCache) (sit : Nat) (change : List CCacheEntry → List CCacheEntry) :
    CDirectoryCache :=
  { c with serverList := c.serverList.map fun se =>
      if se.id = sit then { se with cacheList := change se.cacheList } else se }

/-- A change through the iterators of a server and an entry. -/
def modifyEntry (c : CDirectoryCache) (sit cit : Nat) (change : CCacheEntry → CCacheEntry) :
    CDirectoryCache :=
  c.modifySet sit fun l => l.map fun e => if e.id = cit then change e else e

/-- The entry behind the iterators of a server and an entry. -/
def entryAt (c : CDirectoryCache) (sit cit : Nat) : Option CCacheEntry :=
  (c.serverList.find? fun se => se.id == sit).bind fun se =>
    se.cacheList.find? fun e => e.id == cit

/-- `UpdateLru`. -/
def updateLru (c : CDirectoryCache) (sit : Nat) (entry : CCacheEntry) : CDirectoryCache :=
  match entry.lruIt with
  | some node =>
    { c with leastRecentlyUsedList :=
        (c.leastRecentlyUsedList.filter fun n => n.id != node) ++ [⟨node, sit, entry.id⟩] }
  | none =>
    { c.modifyEntry sit entry.id (fun e => { e with lruIt := some c.nextId }) with
      leastRecentlyUsedList := c.leastRecentlyUsedList ++ [⟨c.nextId, sit, entry.id⟩]
      nextId := c.nextId + 1 }

/-- The private `Lookup`: the entry with `is_outdated`. -/
def lookupIn (c : CDirectoryCache) (se : CServerEntry) (path : CServerPath)
    (allowUnsureEntries : Bool) (now : Int) : Option (CCacheEntry × Bool) × CDirectoryCache :=
  match OrderedSet.lowerBound (fun e : CCacheEntry => e.listing.path.less path) se.cacheList with
  | none => (none, c)
  | some entry =>
    if entry.listing.path = path then
      let c := c.updateLru se.id entry
      if !allowUnsureEntries && entry.listing.getUnsureFlags != 0 then (none, c)
      else (some (entry, decide (c.ttl < now - entry.listing.firstListTime)), c)
    else (none, c)

/-- `Lookup` behind `GetServerEntry`. -/
def lookupEntry (c : CDirectoryCache) (server : CServer) (path : CServerPath)
    (allowUnsureEntries : Bool) (now : Int) :
    Option (CServerEntry × CCacheEntry × Bool) × CDirectoryCache :=
  match c.getServerEntry server with
  | none => (none, c)
  | some se =>
    let r := c.lookupIn se path allowUnsureEntries now
    (r.1.map fun p => (se, p), r.2)

/-! ## Pruning -/

/-- The condition of the loop in `Prune`. -/
def overfull (c : CDirectoryCache) : Bool :=
  decide (50000 < c.leastRecentlyUsedList.length) ||
    (decide (1000000 < c.totalFileCount) && decide (1000 < c.leastRecentlyUsedList.length)) ||
    (decide (5000000 < c.totalFileCount) && decide (100 < c.leastRecentlyUsedList.length))

/-- The body of the loop in `Prune`. -/
def evictFront (c : CDirectoryCache) : CDirectoryCache :=
  match c.leastRecentlyUsedList with
  | [] => c
  | pos :: rest =>
    let size := ((c.entryAt pos.server pos.entry).map fun e => e.listing.size).getD 0
    let c := c.modifySet pos.server fun l => l.filter fun e => e.id != pos.entry
    { c with
      serverList := c.serverList.filter fun se => !(se.id == pos.server && se.cacheList.isEmpty)
      leastRecentlyUsedList := rest
      totalFileCount := c.totalFileCount - size }

/-- The loop of `Prune`; every iteration takes one node from the list. -/
def pruneLoop : Nat → CDirectoryCache → CDirectoryCache
  | 0, c => c
  | n + 1, c => if c.overfull then pruneLoop n c.evictFront else c

/-- `Prune`. -/
def prune (c : CDirectoryCache) : CDirectoryCache := pruneLoop c.leastRecentlyUsedList.length c

/-! ## The public functions -/

/-- `emplace_hint` followed by `UpdateLru`: a set does not take an element that it has already. -/
def emplace (c : CDirectoryCache) (se : CServerEntry) (listing : DirectoryListing) (now : Int) :
    CDirectoryCache :=
  match se.cacheList.find? fun e => e.listing.path.equivalent listing.path with
  | some entry => c.updateLru se.id entry
  | none =>
    let entry : CCacheEntry := { id := c.nextId, listing := listing, modificationTime := now }
    let c := c.modifySet se.id
      (OrderedSet.insertBehind (fun e => e.listing.path.less listing.path) entry)
    { c with nextId := c.nextId + 1 }.updateLru se.id entry

/-- `Store`. -/
def store (c : CDirectoryCache) (listing : DirectoryListing) (server : CServer) (now : Int) :
    CDirectoryCache :=
  let r := c.createServerEntry server
  let se := r.1
  let c := { r.2 with totalFileCount := r.2.totalFileCount + listing.size }
  match c.lookupIn se listing.path true now with
  | (some (entry, _), c) =>
    let c := { c with totalFileCount := c.totalFileCount - entry.listing.size }
    c.modifyEntry se.id entry.id fun e => { e with listing := listing, modificationTime := now }
  | (none, c) => (c.emplace se listing now).prune

/-- `Lookup`: the listing and `is_outdated`. -/
def lookup (c : CDirectoryCache) (server : CServer) (path : CServerPath)
    (allowUnsureEntries : Bool) (now : Int) : Option (DirectoryListing × Bool) × CDirectoryCache :=
  let r := c.lookupEntry server path allowUnsureEntries now
  (r.1.map fun p => (p.2.1.listing, p.2.2), r.2)

/-- `DoesExist`: the unsure flags and `is_outdated`. -/
def doesExist (c : CDirectoryCache) (server : CServer) (path : CServerPath) (now : Int) :
    Option (BitVec 32 × Bool) × CDirectoryCache :=
  let r := c.lookupEntry server path true now
  (r.1.map fun p => (p.2.1.listing.getUnsureFlags, p.2.2), r.2)

/-- `GetChangeTime`. -/
def getChangeTime (c : CDirectoryCache) (server : CServer) (path : CServerPath) (now : Int) :
    Option Int × CDirectoryCache :=
  let r := c.lookupEntry server path true now
  (r.1.map fun p => p.2.1.modificationTime, r.2)

/-- A search in a cached listing leaves its maps behind. -/
def putListing (c : CDirectoryCache) (sit cit : Nat) (listing : DirectoryListing) :
    CDirectoryCache :=
  c.modifyEntry sit cit fun e => { e with listing := listing }

/-- What is returned for one file. -/
def fileResult (results : LookupResults) : Option (CDirentry × Bool) → LookupResults × CDirentry
  | none => (results, {})
  | some (entry, matchedcase) => ({ results with found := true, matchedcase := matchedcase }, entry)

/-- `LookupFiles`. -/
def lookupFiles (f : CaseFolding) (c : CDirectoryCache) (server : CServer) (path : CServerPath)
    (filenames : List WString) (flags : LookupFlags) (now : Int) (choice : Nat → Nat) :
    List (LookupResults × CDirentry) × CDirectoryCache :=
  match c.lookupEntry server path true now with
  | (none, c) => ([], c)
  | (some (se, entry, outdated), c) =>
    let results : LookupResults := { outdated := outdated }
    if outdated && !flags.allowOutdated then (filenames.map fun _ => (results, {}), c)
    else
      let noCase := server.getCaseSensitivity != .yes || flags.forceCaseinsensitive
      let r := entry.listing.findFiles f noCase filenames choice
      (r.1.map (fileResult { results with direxists := true }), c.putListing se.id entry.id r.2)

/-- `LookupFile` with flags. -/
def lookupFile (f : CaseFolding) (c : CDirectoryCache) (server : CServer) (path : CServerPath)
    (filename : WString) (flags : LookupFlags) (now : Int) (choice : Nat → Nat) :
    (LookupResults × CDirentry) × CDirectoryCache :=
  match c.lookupEntry server path true now with
  | (none, c) => (({}, {}), c)
  | (some (se, entry, outdated), c) =>
    let results : LookupResults := { outdated := outdated }
    if outdated && !flags.allowOutdated then ((results, {}), c)
    else
      let noCase := server.getCaseSensitivity != .yes || flags.forceCaseinsensitive
      let r := entry.listing.findFile f filename noCase choice
      (fileResult { results with direxists := true } r.1, c.putListing se.id entry.id r.2)

/-- `LookupFile` without flags: `dirDidExist`, and the entry with `matchedCase`. -/
def lookupFileAnyCase (f : CaseFolding) (c : CDirectoryCache) (server : CServer)
    (path : CServerPath) (filename : WString) (now : Int) (choice : Nat → Nat) :
    (Bool × Option (CDirentry × Bool)) × CDirectoryCache :=
  match c.lookupEntry server path true now with
  | (none, c) => ((false, none), c)
  | (some (se, entry, _), c) =>
    let r := entry.listing.findFile f filename true choice
    ((true, r.1), c.putListing se.id entry.id r.2)

/-- The loop over the listings of a server that pass a test on the path: each is used, changed, and
the number of files adjusted. -/
def changeMatching (c : CDirectoryCache) (se : CServerEntry) (test : CServerPath → Bool)
    (change : DirectoryListing → DirectoryListing × Int) (now : Int) : CDirectoryCache :=
  let hit := se.cacheList.filter fun e => test e.listing.path
  let c := hit.foldl (fun c e => c.updateLru se.id e) c
  let c := c.modifySet se.id fun l => l.map fun e =>
    if test e.listing.path then { e with listing := (change e.listing).1, modificationTime := now }
    else e
  { c with totalFileCount := c.totalFileCount + (hit.map fun e => (change e.listing).2).sum }

/-- `InvalidateFile`. -/
def invalidateFile (f : CaseFolding) (c : CDirectoryCache) (server : CServer) (path : CServerPath)
    (filename : WString) (now : Int) : Bool × CDirectoryCache :=
  match c.getServerEntry server with
  | none => (false, c)
  | some se =>
    let cmpCase := server.getCaseSensitivity == .yes
    let dir := se.cacheList.any fun e => path.samePath f cmpCase e.listing.path &&
      e.listing.entries.any fun d => f.sameName cmpCase filename d.name && d.isDir
    let c := c.changeMatching se (path.samePath f cmpCase)
      (fun l => (l.invalidateFile (f.sameName cmpCase) filename, 0)) now
    if dir && (path.changePath filename false).1 then
      (true, c.modifySet se.id fun l => l.map fun e =>
        if e.listing.path.isSubdirOf path (f.sameName cmpCase) true then
          { e with listing := e.listing.addFlags DirectoryListing.unsureUnknown
                   modificationTime := now }
        else e)
    else (true, c)

/-- `UpdateFile`. -/
def updateFile (f : CaseFolding) (c : CDirectoryCache) (server : CServer) (path : CServerPath)
    (filename : WString) (mayCreate : Bool) (type : Filetype) (size : Int) (ownerGroup : WString)
    (now : Int) : Bool × CDirectoryCache :=
  match c.getServerEntry server with
  | none => (false, c)
  | some se =>
    (se.cacheList.any fun e => path.sameNoCase f e.listing.path,
      c.changeMatching se (path.sameNoCase f)
        (DirectoryListing.updateFile f filename mayCreate type size ownerGroup) now)

/-- `RemoveFile`. -/
def removeFile (f : CaseFolding) (c : CDirectoryCache) (server : CServer) (path : CServerPath)
    (filename : WString) (now : Int) : Bool × CDirectoryCache :=
  match c.getServerEntry server with
  | none => (false, c)
  | some se =>
    (true, c.changeMatching se (path.sameNoCase f) (DirectoryListing.removeFile f filename) now)

/-- The listings of a server that pass a test leave the cache with their nodes. -/
def eraseMatching (c : CDirectoryCache) (se : CServerEntry) (test : CServerPath → Bool) :
    CDirectoryCache :=
  let gone := se.cacheList.filter fun e => test e.listing.path
  let c := c.modifySet se.id fun l => l.filter fun e => !test e.listing.path
  { c with
    leastRecentlyUsedList := c.leastRecentlyUsedList.filter fun n =>
      !gone.any fun e => e.lruIt == some n.id
    totalFileCount := c.totalFileCount - (gone.map fun e => (e.listing.size : Int)).sum }

/-- `InvalidateServer`. -/
def invalidateServer (c : CDirectoryCache) (server : CServer) : CDirectoryCache :=
  match c.getServerEntry server with
  | none => c
  | some se =>
    let c := c.eraseMatching se fun _ => true
    { c with serverList := c.serverList.filter fun s => s.id != se.id }

/-- `RemoveDir`. -/
def removeDir (f : CaseFolding) (c : CDirectoryCache) (server : CServer) (path : CServerPath)
    (filename : WString) (now : Int) : CDirectoryCache :=
  match c.getServerEntry server with
  | none => c
  | some se =>
    let absolutePath := if (path.addSegment filename).1 then (path.addSegment filename).2
      else path.clear
    -- exact matches and subdirectories
    let c := c.eraseMatching se fun p => !absolutePath.empty &&
      (p == absolutePath || p.isSubdirOf absolutePath f.same false)
    (c.removeFile f server path filename now).2

/-- `Rename`. -/
def rename (f : CaseFolding) (c : CDirectoryCache) (server : CServer) (pathFrom : CServerPath)
    (fileFrom : WString) (pathTo : CServerPath) (fileTo : WString) (now : Int) : CDirectoryCache :=
  match c.getServerEntry server with
  | none => c
  | some se =>
    match c.lookupIn se pathFrom true now with
    | (none, c) => c.invalidateServer server
    | (some (entry, _), c) =>
      if pathFrom = pathTo then
        let c := (c.removeFile f server pathFrom fileTo now).2
        match c.entryAt se.id entry.id with
        | none => c
        | some entry =>
          match entry.listing.indexOf fileFrom with
          | none => c
          | some i =>
            if (entry.listing.entries[i]?.map (·.isDir)).getD false then
              let c := c.removeDir f server pathFrom fileFrom now
              let c := c.removeDir f server pathFrom fileTo now
              (c.updateFile f server pathFrom fileTo true .dir (-1) [] now).2
            else c.putListing se.id entry.id (entry.listing.renameAt i fileTo)
      else
        match entry.listing.indexOf fileFrom with
        | none => c
        | some i =>
          if (entry.listing.entries[i]?.map (·.isDir)).getD false then
            let c := c.removeDir f server pathFrom fileFrom now
            (c.updateFile f server pathTo fileTo true .dir (-1) [] now).2
          else
            let c := (c.removeFile f server pathFrom fileFrom now).2
            (c.updateFile f server pathTo fileTo true .file (-1) [] now).2

/-- `UpdateOwnerGroup`. -/
def updateOwnerGroup (c : CDirectoryCache) (server : CServer) (path : CServerPath)
    (filename ownerGroup : WString) (now : Int) : CDirectoryCache :=
  match c.getServerEntry server with
  | none => c
  | some se =>
    match c.lookupIn se path true now with
    | (none, c) => c.invalidateServer server
    | (some (entry, _), c) =>
      match entry.listing.indexOf filename with
      | none => c.invalidateServer server
      | some i =>
        if (entry.listing.entries[i]?.map (·.isDir)).getD false then c
        else
          let listing := entry.listing.modifyEntry i fun e => { e with ownerGroup := ownerGroup }
          c.putListing se.id entry.id listing.clearFindMap

/-- `SetTtl`. -/
def setTtl (c : CDirectoryCache) (ttl : Int) : CDirectoryCache :=
  if ttl < fromSeconds 30 then { c with ttl := fromSeconds 30 }
  else if fromDays 1 < ttl then { c with ttl := fromDays 1 }
  else { c with ttl := ttl }

end CDirectoryCache

/-! ## Sequences of operations -/

/-- The calls of the public functions; `now` is what the clock returns during the call. -/
inductive CacheOp where
  | store (listing : DirectoryListing) (server : CServer) (now : Int)
  | lookup (server : CServer) (path : CServerPath) (allowUnsureEntries : Bool) (now : Int)
  | doesExist (server : CServer) (path : CServerPath) (now : Int)
  | getChangeTime (server : CServer) (path : CServerPath) (now : Int)
  | lookupFile (server : CServer) (path : CServerPath) (filename : WString) (flags : LookupFlags)
      (now : Int) (choice : Nat → Nat)
  | lookupFiles (server : CServer) (path : CServerPath) (filenames : List WString)
      (flags : LookupFlags) (now : Int) (choice : Nat → Nat)
  | lookupFileAnyCase (server : CServer) (path : CServerPath) (filename : WString) (now : Int)
      (choice : Nat → Nat)
  | invalidateFile (server : CServer) (path : CServerPath) (filename : WString) (now : Int)
  | updateFile (server : CServer) (path : CServerPath) (filename : WString) (mayCreate : Bool)
      (type : Filetype) (size : Int) (ownerGroup : WString) (now : Int)
  | removeFile (server : CServer) (path : CServerPath) (filename : WString) (now : Int)
  | removeDir (server : CServer) (path : CServerPath) (filename : WString) (now : Int)
  | rename (server : CServer) (pathFrom : CServerPath) (fileFrom : WString) (pathTo : CServerPath)
      (fileTo : WString) (now : Int)
  | updateOwnerGroup (server : CServer) (path : CServerPath) (filename ownerGroup : WString)
      (now : Int)
  | invalidateServer (server : CServer)
  | setTtl (ttl : Int)

def CDirectoryCache.apply (f : CaseFolding) (c : CDirectoryCache) : CacheOp → CDirectoryCache
  | .store listing server now => c.store listing server now
  | .lookup server path allowUnsureEntries now => (c.lookup server path allowUnsureEntries now).2
  | .doesExist server path now => (c.doesExist server path now).2
  | .getChangeTime server path now => (c.getChangeTime server path now).2
  | .lookupFile server path filename flags now choice =>
    (c.lookupFile f server path filename flags now choice).2
  | .lookupFiles server path filenames flags now choice =>
    (c.lookupFiles f server path filenames flags now choice).2
  | .lookupFileAnyCase server path filename now choice =>
    (c.lookupFileAnyCase f server path filename now choice).2
  | .invalidateFile server path filename now => (c.invalidateFile f server path filename now).2
  | .updateFile server path filename mayCreate type size ownerGroup now =>
    (c.updateFile f server path filename mayCreate type size ownerGroup now).2
  | .removeFile server path filename now => (c.removeFile f server path filename now).2
  | .removeDir server path filename now => c.removeDir f server path filename now
  | .rename server pathFrom fileFrom pathTo fileTo now =>
    c.rename f server pathFrom fileFrom pathTo fileTo now
  | .updateOwnerGroup server path filename ownerGroup now =>
    c.updateOwnerGroup server path filename ownerGroup now
  | .invalidateServer server => c.invalidateServer server
  | .setTtl ttl => c.setTtl ttl

/-- Every sequence of calls, from a new cache. -/
def cacheSystem (f : CaseFolding) : Lts CDirectoryCache CacheOp :=
  Lts.ofFun (fun c => c = {}) fun c op => some (c.apply f op)

end FlintZilla
