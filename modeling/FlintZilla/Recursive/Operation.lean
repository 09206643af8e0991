import FlintZilla.DirectoryListing
import FlintZilla.Lib.Lts
import FlintZilla.Path.Ancestor
import FlintZilla.Path.LocalPath
import FlintZilla.Path.Order
import FlintZilla.Reply

/-!
# Recursive operations on remote directories

`remote_recursive_operation` of `commonui/remote_recursive_operation.cpp`. The directories to visit
are a stack: the entries of a listing are pushed in front, those of the user are behind them.
Results of list commands come in any order and with any content. One round of the loops of
`NextOperation` is one step, and results are handled when the loops are left.

The commands and the calls of virtual functions are logged. A log entry also keeps the recursion
root and the directory it is about, as they are at that time.
-/

namespace FlintZilla

open Lib

/-- `OperationMode`. -/
inductive OperationMode where
  | none
  | transfer
  | transferFlatten
  | delete
  | chmod
  | list
deriving DecidableEq

/-- `ChmodData`, with the new permissions as a function of the old ones and of `dir`. -/
structure ChmodData where
  applyType : Nat
  newPermissions : WString → Bool → WString

/-- `new_dir::link`. -/
inductive LinkKind where
  | no
  /-- Added by the class during the operation. -/
  | found
  /-- Added by the user of the class. -/
  | user
deriving DecidableEq

/-- `recursion_root::new_dir`. For the specification it also has the listing entry it was made from,
the numbers of the listings that led to it, and the number of its own listing. -/
structure NewDir where
  parent : CServerPath
  subdir : WString := []
  localDir : CLocalPath := {}
  restricted : Option WString := .none
  startDir : CServerPath := ⟨.default, .none⟩
  link : LinkKind := .no
  doVisit : Bool := true
  recurse : Bool := true
  secondTry : Bool := false
  entry : Option CDirentry := .none
  above : List Nat := []
  listing : Option Nat := .none
deriving DecidableEq

/-- `recursion_root`. The paths passed to `add_dir_to_visit`, and whether one of them was called a
link, are kept for the specification. -/
structure RecursionRoot where
  remoteStartDir : CServerPath
  allowParent : Bool
  visitedDirs : List CServerPath := []
  dirsToVisit : List NewDir := []
  added : List CServerPath := []
  addedLink : Bool := false
deriving DecidableEq

namespace RecursionRoot

/-- `recursion_root::add_dir_to_visit`. -/
def addDirToVisit (root : RecursionRoot) (path : CServerPath) (subdir : WString)
    (localDir : CLocalPath) (isLink : Bool) : RecursionRoot :=
  { root with
    dirsToVisit := root.dirsToVisit ++ [{
      parent := path, subdir := subdir, localDir := localDir
      link := if isLink then .user else .no }]
    added := path :: root.added
    addedLink := root.addedLink || isLink }

/-- `recursion_root::add_dir_to_visit_restricted`. -/
def addDirToVisitRestricted (root : RecursionRoot) (path : CServerPath) (restricted : WString)
    (recurse : Bool) : RecursionRoot :=
  { root with
    dirsToVisit := root.dirsToVisit ++ [{
      parent := path, recurse := recurse
      restricted := if restricted = [] then .none else some restricted }] }

/-- `recursion_root::empty`. -/
def empty (root : RecursionRoot) : Bool := root.dirsToVisit.isEmpty || root.remoteStartDir.empty

/-- `m_visitedDirs.insert(path).second` is false. -/
def visited (root : RecursionRoot) (path : CServerPath) : Bool :=
  root.visitedDirs.any path.equivalent

def pushFront (root : RecursionRoot) (dir : NewDir) : RecursionRoot :=
  { root with dirsToVisit := dir :: root.dirsToVisit }

end RecursionRoot

/-- A call of one of the two functions that add a directory. -/
inductive AddDir where
  | dir (path : CServerPath) (subdir : WString) (localDir : CLocalPath) (isLink : Bool)
  | restricted (path : CServerPath) (restricted : WString) (recurse : Bool)
deriving DecidableEq

def RecursionRoot.add (root : RecursionRoot) : AddDir → RecursionRoot
  | .dir path subdir localDir isLink => root.addDirToVisit path subdir localDir isLink
  | .restricted path restricted recurse => root.addDirToVisitRestricted path restricted recurse

/-- What the operation does to the outside. `processed` is there for the specification: the entries
of a listing were processed, and these pass the restriction or the filter. -/
inductive RecursiveAction where
  | list (parent : CServerPath) (subdir : WString) (linkFlag : Bool)
  | removeDir (parent : CServerPath) (subdir : WString)
  | delete (parent : CServerPath) (files : List WString)
  | chmod (parent : CServerPath) (name permissions : WString)
  | handleFile (sourceFile : WString) (localPath : CLocalPath) (remotePath : CServerPath)
      (size : Int)
  | handleEmptyDirectory (localPath : CLocalPath)
  | handleInvalidDirLink (sourceFile : WString) (localPath : CLocalPath) (remotePath : CServerPath)
  | processed (listing : CDirectoryListing) (entries : List CDirentry)
deriving DecidableEq

structure LogEntry where
  action : RecursiveAction
  root : RecursionRoot
  dir : NewDir
deriving DecidableEq

structure RecursiveOperation where
  mode : OperationMode
  roots : List RecursionRoot
  /-- `FilenameFiltered` with the filters of the operation, for a remote path and an entry. -/
  filtered : WString → CDirentry → Bool
  chmodData : Option ChmodData
  processedFiles : Nat
  processedDirectories : Nat
  /-- The loops of `NextOperation` are running. -/
  next : Bool
  nextListing : Nat
  log : List LogEntry

namespace RecursiveOperation

def new : RecursiveOperation where
  mode := .none
  roots := []
  filtered := fun _ _ => false
  chmodData := .none
  processedFiles := 0
  processedDirectories := 0
  next := false
  nextListing := 0
  log := []

def record (s : RecursiveOperation) (action : RecursiveAction) (root : RecursionRoot)
    (dir : NewDir) :
    RecursiveOperation :=
  { s with log := s.log ++ [⟨action, root, dir⟩] }

/-- `AddRecursionRoot`. -/
def addRecursionRoot (s : RecursiveOperation) (root : RecursionRoot) : RecursiveOperation :=
  if root.empty then s else { s with roots := s.roots ++ [root] }

/-- `StopRecursiveOperation`. -/
def stopRecursiveOperation (s : RecursiveOperation) : RecursiveOperation :=
  { s with mode := .none, roots := [], chmodData := .none, next := false }

/-- `start_recursive_operation` and `do_start_recursive_operation`. -/
def startRecursiveOperation (s : RecursiveOperation) (mode : OperationMode)
    (filtered : WString → CDirentry → Bool) : RecursiveOperation :=
  if s.mode ≠ .none then s
  else if mode = .chmod ∧ s.chmodData.isNone then s
  else if s.roots = [] then s
  else { s with
    mode := mode, filtered := filtered
    processedFiles := 0, processedDirectories := 0, next := true }

/-- One round of the loops of `NextOperation`. -/
def nextOperation (s : RecursiveOperation) : RecursiveOperation :=
  if s.mode = .none then { s with next := false }
  else match s.roots with
    | [] => s.stopRecursiveOperation
    | root :: roots =>
      match root.dirsToVisit with
      | [] => { s with roots := roots }
      | dir :: dirs =>
        if s.mode = .delete ∧ !dir.doVisit then
          let s := s.record (.removeDir dir.parent dir.subdir) root dir
          { s with roots := { root with dirsToVisit := dirs } :: roots }
        else
          let s := s.record (.list dir.parent dir.subdir (dir.link != .no)) root dir
          { s with next := false }

/-- `BelowRecursionRoot` with the change it makes to the directory. -/
def belowRecursionRoot (root : RecursionRoot) (path : CServerPath) (dir : NewDir) : Bool × NewDir :=
  if !dir.startDir.empty then (path.isSubdirOf dir.startDir (· == ·) false, dir)
  else if path.isSubdirOf root.remoteStartDir (· == ·) false then (true, dir)
  else if path = root.remoteStartDir ∧ root.allowParent then (true, dir)
  else if dir.link = .user then (true, { dir with startDir := path })
  else (false, dir)

/-! ## The entries of a listing -/

/-- The entries that are neither left out by the restriction nor by the filter. -/
def selects (s : RecursiveOperation) (dir : NewDir) (remotePath : WString) (entry : CDirentry) :
    Bool :=
  match dir.restricted with
  | some restricted => entry.name == restricted
  | .none => !s.filtered remotePath entry

/-- The entries that are visited as directories. -/
def visits (mode : OperationMode) (entry : CDirentry) : Bool :=
  entry.isDir && (!entry.isLink || mode != .delete)

/-- The directory that is pushed for an entry. -/
def subDir (sanitize : WString → WString) (mode : OperationMode) (path : CServerPath) (dir : NewDir)
    (entry : CDirentry) : NewDir where
  parent := path
  subdir := entry.name
  localDir :=
    if mode = .transfer then dir.localDir.addSegment (sanitize entry.name) else dir.localDir
  startDir := dir.startDir
  link := if entry.isLink then .found else .no
  recurse := !entry.isLink
  entry := some entry
  above := dir.listing.toList ++ dir.above

/-- The state of the loop of `process_entries`. -/
structure EntryLoop where
  operation : RecursiveOperation
  root : RecursionRoot
  filesToDelete : List WString

/-- The `CChmodCommand` for an entry. -/
def chmodEntry (s : RecursiveOperation) (root : RecursionRoot) (path : CServerPath) (dir : NewDir)
    (entry : CDirentry) : RecursiveOperation :=
  match s.chmodData with
  | some data =>
    if s.mode = .chmod ∧ (data.applyType = 0 ∨ (!entry.isDir && data.applyType == 1) ∨
        (entry.isDir && data.applyType == 2)) then
      s.record (.chmod path entry.name (data.newPermissions entry.permissions entry.isDir)) root dir
    else s
  | .none => s

/-- `++m_processedFiles` for an entry that is not a directory. -/
def countFile (s : RecursiveOperation) (entry : CDirentry) : RecursiveOperation :=
  { s with processedFiles := if entry.isDir then s.processedFiles else s.processedFiles + 1 }

/-- The loop body of `process_entries` for an entry that is selected. -/
def processEntry (sanitize : WString → WString) (path : CServerPath) (dir : NewDir) (l : EntryLoop)
    (entry : CDirentry) : EntryLoop :=
  let s := l.operation.countFile entry
  let l : EntryLoop :=
    if visits s.mode entry then
      if dir.recurse then
        ⟨s, l.root.pushFront (subDir sanitize s.mode path dir entry), l.filesToDelete⟩
      else ⟨s, l.root, l.filesToDelete⟩
    else match s.mode with
      | .transfer | .transferFlatten =>
        ⟨s.record (.handleFile entry.name dir.localDir path entry.size) l.root dir, l.root,
          l.filesToDelete⟩
      | .delete => ⟨s, l.root, l.filesToDelete ++ [entry.name]⟩
      | _ => ⟨s, l.root, l.filesToDelete⟩
  { l with operation := l.operation.chmodEntry l.root path dir entry }

/-- `process_entries`: the loop runs from the last entry to the first. -/
def processEntries (sanitize : WString → WString) (s : RecursiveOperation) (root : RecursionRoot)
    (listing : CDirectoryListing) (dir : NewDir) : RecursiveOperation × RecursionRoot :=
  let entries := listing.entries.filter (s.selects dir listing.path.getPath)
  let l := entries.reverse.foldl (processEntry sanitize listing.path dir) ⟨s, root, []⟩
  if l.operation.mode = .delete ∧ l.filesToDelete ≠ [] then
    (l.operation.record (.delete listing.path l.filesToDelete) l.root dir, l.root)
  else (l.operation, l.root)

/-! ## Results -/

/-- After recursing into a directory to delete its contents, delete the directory itself. -/
def pushRemoval (mode : OperationMode) (root : RecursionRoot) (dir : NewDir) : RecursionRoot :=
  if mode = .delete ∧ dir.doVisit ∧ dir.subdir ≠ [] then
    root.pushFront { dir with doVisit := false }
  else root

/-- `++m_processedDirectories` and what follows up to the last call of `NextOperation`. -/
def visitListing (sanitize : WString → WString) (s : RecursiveOperation) (root : RecursionRoot)
    (listing : CDirectoryListing) (dir : NewDir) : RecursiveOperation × RecursionRoot :=
  let root := { root with visitedDirs := listing.path :: root.visitedDirs }
  let entries := listing.entries.filter (s.selects dir listing.path.getPath)
  let s := { s with processedDirectories := s.processedDirectories + 1 }
  let r :=
    if listing.entries = [] ∧ s.mode = .transfer then
      (s.record (.handleEmptyDirectory dir.localDir) root dir, root)
    else processEntries sanitize s root listing dir
  (r.1.record (.processed listing entries) r.2 dir, r.2)

/-- `ProcessDirectoryListing` for the directory in front, from `BelowRecursionRoot` on. -/
def processListing (sanitize : WString → WString) (s : RecursiveOperation) (root : RecursionRoot)
    (listing : CDirectoryListing) (dir : NewDir) : RecursiveOperation × RecursionRoot :=
  let number := s.nextListing
  let s := { s with nextListing := number + 1 }
  let below := belowRecursionRoot root listing.path dir
  if !below.1 then (s, root)
  else
    let dir := { below.2 with listing := some number }
    let root := pushRemoval s.mode root dir
    if dir.link ≠ .no ∧ !dir.recurse then (s, root)
    else if root.visited listing.path then (s, root)
    else visitListing sanitize s root listing dir

/-- `ProcessDirectoryListing`. -/
def processDirectoryListing (sanitize : WString → WString) (s : RecursiveOperation)
    (listing : Option CDirectoryListing) : RecursiveOperation :=
  match listing with
  | .none => s.stopRecursiveOperation
  | some listing =>
    if s.mode = .none then s
    else match s.roots with
      | [] => s
      | root :: roots =>
        if listing.failed then s
        else match root.dirsToVisit with
          | [] => s.stopRecursiveOperation
          | dir :: dirs =>
            let r := s.processListing sanitize { root with dirsToVisit := dirs } listing dir
            { r.1 with roots := r.2 :: roots, next := true }

/-- `ListingFailed`. -/
def listingFailed (s : RecursiveOperation) (error : Nat) : RecursiveOperation :=
  if s.mode = .none then s
  else match s.roots with
    | [] => s
    | root :: roots =>
      if error &&& Reply.canceled = Reply.canceled then s.stopRecursiveOperation
      else match root.dirsToVisit with
        | [] => s.stopRecursiveOperation
        | dir :: dirs =>
          let root := { root with dirsToVisit := dirs }
          let root :=
            if error &&& Reply.criticalError ≠ Reply.criticalError ∧ !dir.secondTry then
              root.pushFront { dir with secondTry := true }
            else pushRemoval s.mode root dir
          { s with roots := root :: roots, next := true }

/-- `LinkIsNotDir`; `site` is whether the site is set. -/
def linkIsNotDir (s : RecursiveOperation) (site : Bool) : RecursiveOperation :=
  if s.mode = .none then s
  else match s.roots with
    | [] => s
    | root :: roots =>
      match root.dirsToVisit with
      | [] => s.stopRecursiveOperation
      | dir :: dirs =>
        let root := { root with dirsToVisit := dirs }
        let s :=
          if !site then s
          else if s.mode = .delete then
            if dir.subdir ≠ [] then s.record (.delete dir.parent [dir.subdir]) root dir else s
          else if s.mode ≠ .list then
            let localPath :=
              if s.mode ≠ .transferFlatten then dir.localDir.makeParent.2 else dir.localDir
            s.record (.handleInvalidDirLink dir.subdir localPath dir.parent) root dir
          else s
        { s with roots := root :: roots, next := true }

end RecursiveOperation

/-! ## The system -/

inductive RecursiveEvent where
  /-- `AddRecursionRoot` for a root with a start directory to which the directories were added. -/
  | addRecursionRoot (startDir : CServerPath) (allowParent : Bool) (dirs : List AddDir)
  | setChmodData (data : ChmodData)
  | start (mode : OperationMode) (filtered : WString → CDirentry → Bool)
  /-- A round of the loops of `NextOperation`. -/
  | next
  | processDirectoryListing (listing : Option CDirectoryListing)
  | listingFailed (error : Nat)
  | linkIsNotDir (site : Bool)
  | stop

def RecursiveOperation.step (sanitize : WString → WString) (s : RecursiveOperation)
    (e : RecursiveEvent) : Option RecursiveOperation :=
  match s.next, e with
  | true, .next => some s.nextOperation
  | false, .addRecursionRoot startDir allowParent dirs =>
    some (s.addRecursionRoot
      (dirs.foldl RecursionRoot.add { remoteStartDir := startDir, allowParent := allowParent }))
  | false, .setChmodData data => some { s with chmodData := some data }
  | false, .start mode filtered => some (s.startRecursiveOperation mode filtered)
  | false, .processDirectoryListing listing => some (s.processDirectoryListing sanitize listing)
  | false, .listingFailed error => some (s.listingFailed error)
  | false, .linkIsNotDir site => some (s.linkIsNotDir site)
  | false, .stop => some s.stopRecursiveOperation
  | _, _ => none

/-- Every sequence of calls and results. -/
def recursiveSystem (sanitize : WString → WString) : Lts RecursiveOperation RecursiveEvent :=
  Lts.ofFun (fun s => s = .new) (RecursiveOperation.step sanitize)

/-- The operation is not started in another mode than `recursive_delete`. -/
def RecursiveEvent.Deletes : RecursiveEvent → Prop
  | .start mode _ => mode = .delete
  | _ => True

instance RecursiveEvent.decidableDeletes (e : RecursiveEvent) : Decidable e.Deletes := by
  unfold RecursiveEvent.Deletes
  split <;> infer_instance

def recursiveDeleteSystem (sanitize : WString → WString) : Lts RecursiveOperation RecursiveEvent :=
  (recursiveSystem sanitize).restrict fun _ e => e.Deletes

end FlintZilla
