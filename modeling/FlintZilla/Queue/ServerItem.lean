import FlintZilla.Lib.FrontVector
import FlintZilla.Lib.Lts
import FlintZilla.Path.Order
import FlintZilla.Queue.FileItem

/-!
# The items of a server in the queue

`CQueueItem`, `CServerItem`, `CFileItem`, `CFolderItem` and `CStatusItem` of `interface/queue.cpp`:
the tree behind the rows of the queue window and the lists the scheduler takes its next transfer
from.

A server item has file and folder items as children, and an active file item has a status item as
its child; status items have none. The parent of a file item is the server item it is added to: it
is given to the constructor, or set by the caller before `AddChild`. Objects are addressed by
pointers, and `CServerItem.heap` holds the objects of the file items. Counters of items are
unbounded here; the row a caller asks for is a 32-bit number as in the source.

Left out: the bookkeeping of active transfers (`m_activeCount`), the default action for existing
files, saving, and what the destructors do.
-/

namespace FlintZilla

open Lib

/-! ## Items -/

/-- The address of an object. -/
abbrev ItemPtr := Nat

/-- A `CQueueItem*` and the class of the object: a `CFileItem` (or `CFolderItem`) or a
`CStatusItem`. -/
inductive ItemRef where
  | file (x : ItemPtr)
  | status (p : ItemPtr)
deriving DecidableEq

inductive QueuePriority where
  | lowest
  | low
  | normal
  | high
  | highest
deriving DecidableEq

/-- The loops over `i < QueuePriority::count`. -/
def QueuePriority.all : List QueuePriority := [.lowest, .low, .normal, .high, .highest]

/-- `CFileItem::Status`. -/
inductive ItemStatus where
  | none
  | incorrectPassword
  | timeout
  | disconnecting
  | disconnected
  | connecting
  | connectionFailed
  | interrupted
  | waitBrowsing
  | waitPassword
  | localFileUnwriteable
  | couldNotStart
  | transferring
  | creatingDir
deriving DecidableEq

/-- A `CFileItem` as an object of the queue: its transfer, its flags and its children. -/
structure FileObject extends CFileItem where
  active : Bool
  pendingRemove : Bool
  priority : QueuePriority
  status : ItemStatus
  /-- The `CStatusItem`s. -/
  children : FrontVector ItemPtr
deriving DecidableEq

/-! ## `CQueueItem`

The functions of the base class see their children through virtual calls. `ref` is the class of the
children, `count` their `GetChildrenCount(true)`. -/

namespace CQueueItem

/-- `CQueueItem::GetChildrenCount(true)`. -/
def getChildrenCount (count : ItemPtr → Nat) (children : FrontVector ItemPtr) : Nat :=
  (children.live.map fun x => 1 + count x).sum

/-- `CQueueItem::GetChild(item, true)`: the loop over the children. `getChild` is the call on a
child. -/
def getChild (ref : ItemPtr → ItemRef) (count : ItemPtr → Nat)
    (getChildOf : ItemPtr → Nat → Option ItemRef) : List ItemPtr → Nat → Option ItemRef
  | [], _ => none
  | x :: xs, item =>
    if item = 0 then some (ref x)
    else if count x < item then getChild ref count getChildOf xs (item - (count x + 1))
    else getChildOf x (item - 1)

/-- `CQueueItem::GetChild(item, false)`. -/
def childAt (children : FrontVector ItemPtr) (item : Nat) : Option ItemPtr :=
  if children.cells.length ≤ item + children.removed then none
  else children.cells[item + children.removed]?

/-- The loop of `CQueueItem::GetItemIndex` over the children of the parent. -/
def indexAmong (count : ItemPtr → Nat) (this : ItemPtr) : List ItemPtr → Nat → Nat
  | [], index => index
  | x :: xs, index =>
    if x = this then index else indexAmong count this xs (index + (count x + 1))

end CQueueItem

namespace FileObject

/-- `set_queued(true)`. -/
def setQueued (o : FileObject) : FileObject := { o with queued := true }

/-- `set_pending_remove(true)`. -/
def setPendingRemove (o : FileObject) : FileObject := { o with pendingRemove := true }

/-- `CFileItem::SetPriorityRaw`. -/
def setPriorityRaw (priority : QueuePriority) (o : FileObject) : FileObject :=
  { o with priority := priority }

/-- Set or clear `queue_flags::active`. -/
def setActiveFlag (active : Bool) (o : FileObject) : FileObject := { o with active := active }

/-- `GetChildrenCount(true)` of a file item. A status item has no children. -/
def getChildrenCount (o : FileObject) : Nat := CQueueItem.getChildrenCount (fun _ => 0) o.children

/-- `GetChild(item, true)` of a file item. -/
def getChild (o : FileObject) (item : Nat) : Option ItemRef :=
  CQueueItem.getChild .status (fun _ => 0) (fun _ _ => none) o.children.live item

end FileObject

namespace CQueueItem

/-- What `doRemove` of `CQueueItem::RemoveChild` did at a child. -/
structure Removal where
  /-- The child is taken out of the vector. -/
  erase : Bool
  /-- The child after the item was removed from its own children. -/
  child : Option FileObject
  visibleOffspring : Int

/-- `doRemove` at one child; `none` when the item is not there. `removeChildOf` is the call on the
child. -/
def doRemove (ref : ItemPtr → ItemRef) (count : ItemPtr → Nat)
    (removeChildOf : ItemPtr → Option FileObject) (pItem : Option ItemRef) (visibleOffspring : Int)
    (x : ItemPtr) : Option Removal :=
  if some (ref x) = pItem then
    some ⟨true, none, visibleOffspring - 1 - count x⟩
  else
    match removeChildOf x with
    | none => none
    | some o =>
      let visibleOffspring := visibleOffspring - (count x - o.getChildrenCount)
      -- a child that has lost its last child goes too
      if o.children.live = [] then some ⟨true, some o, visibleOffspring - 1⟩
      else some ⟨false, some o, visibleOffspring⟩

/-- The loop of `CQueueItem::RemoveChild`: the first child, from the front or from the back, at
which `doRemove` removes. -/
def findRemoval (doRemove : ItemPtr → Option Removal) (forward : Bool) (xs : List ItemPtr) :
    Option (Nat × ItemPtr × Removal) :=
  (if forward then xs.zipIdx else xs.zipIdx.reverse).findSome? fun xi =>
    (doRemove xi.1).map fun r => (xi.2, xi.1, r)

/-- The child vector after the loop. -/
def Removal.vector (r : Removal) (i : Nat) (children : FrontVector ItemPtr) :
    FrontVector ItemPtr :=
  if r.erase then children.removeAt 10 i else children

end CQueueItem

open CQueueItem

/-- `RemoveChild(pItem)` of a file item: the item, and its `visibleOffspring`, which the caller
passes on to the server item. -/
def FileObject.removeChild (o : FileObject) (pItem : Option ItemRef) : Option (FileObject × Int) :=
  let visibleOffspring : Int := o.getChildrenCount
  let doRemove := doRemove .status (fun _ => 0) (fun _ => none) pItem visibleOffspring
  (findRemoval doRemove true o.children.live).map fun (i, _, r) =>
    ({ o with children := r.vector i o.children }, r.visibleOffspring)

/-! ## `CServerItem` -/

/-- `CServerItem::t_cacheItem`. -/
structure CacheItem where
  index : Nat
  child : Nat
deriving DecidableEq

structure CServerItem where
  /-- The objects of the file and folder items. -/
  heap : ItemPtr → FileObject
  children : FrontVector ItemPtr
  /-- `m_fileList`. The source has the queued items at index 0, the immediate ones at 1. -/
  fileList : Bool → QueuePriority → List ItemPtr
  visibleOffspring : Int
  maxCachedIndex : Int
  lookupCache : List CacheItem

namespace CServerItem

/-- A new server item. -/
def new (heap : ItemPtr → FileObject) : CServerItem where
  heap := heap
  children := .empty
  fileList := fun _ _ => []
  visibleOffspring := 0
  maxCachedIndex := -1
  lookupCache := []

/-- The children. -/
def live (s : CServerItem) : List ItemPtr := s.children.live

/-- `GetChildrenCount(true)` of a child. -/
def count (s : CServerItem) (x : ItemPtr) : Nat := (s.heap x).getChildrenCount

/-- Write to the object of a file item. -/
def modify (s : CServerItem) (x : ItemPtr) (f : FileObject → FileObject) : CServerItem :=
  { s with heap := Function.update s.heap x (f (s.heap x)) }

/-- Write one of the lists. -/
def setList (fileList : Bool → QueuePriority → List ItemPtr) (queued : Bool)
    (priority : QueuePriority) (xs : List ItemPtr) : Bool → QueuePriority → List ItemPtr :=
  fun q p => if q = queued ∧ p = priority then xs else fileList q p

/-! ### The lists of the scheduler -/

/-- `CServerItem::AddFileItemToList`. -/
def addFileItemToList (s : CServerItem) (x : ItemPtr) : CServerItem :=
  let o := s.heap x
  { s with
    fileList := setList s.fileList o.queued o.priority (s.fileList o.queued o.priority ++ [x]) }

/-- `CServerItem::RemoveFileItemFromList`. -/
def removeFileItemFromList (s : CServerItem) (x : ItemPtr) (forward : Bool) : CServerItem :=
  let o := s.heap x
  let fileList := s.fileList o.queued o.priority
  { s with
    fileList := setList s.fileList o.queued o.priority
      (if forward then fileList.erase x else (fileList.reverse.erase x).reverse) }

/-- `CServerItem::SetChildPriority`. -/
def setChildPriority (s : CServerItem) (x : ItemPtr) (oldPriority newPriority : QueuePriority) :
    CServerItem :=
  let i := (s.heap x).queued
  if x ∈ s.fileList i oldPriority then
    let fileList := setList s.fileList i oldPriority ((s.fileList i oldPriority).erase x)
    { s with fileList := setList fileList i newPriority (fileList i newPriority ++ [x]) }
  else s

/-- `CFileItem::SetPriority` of a child. -/
def setItemPriority (s : CServerItem) (x : ItemPtr) (priority : QueuePriority) : CServerItem :=
  if priority = (s.heap x).priority then s
  else
    (s.setChildPriority x (s.heap x).priority priority).modify x
      (FileObject.setPriorityRaw priority)

/-- One list in the loops at the end of `CServerItem::SetPriority`. -/
def mergeStep (priority : QueuePriority) (i : Bool)
    (fileList : Bool → QueuePriority → List ItemPtr) (j : QueuePriority) :
    Bool → QueuePriority → List ItemPtr :=
  if j ≠ priority then
    setList (setList fileList i priority (fileList i priority ++ fileList i j)) i j []
  else fileList

/-- The loops at the end of `CServerItem::SetPriority`. -/
def mergeLists (fileList : Bool → QueuePriority → List ItemPtr) (priority : QueuePriority) :
    Bool → QueuePriority → List ItemPtr :=
  [true, false].foldl (fun l i => QueuePriority.all.foldl (mergeStep priority i) l) fileList

/-- One child in `CServerItem::SetPriority`: files are changed behind the lists' back, folders
through them. -/
def setPriorityStep (priority : QueuePriority) (s : CServerItem) (x : ItemPtr) : CServerItem :=
  if (s.heap x).folder then s.setItemPriority x priority
  else s.modify x (FileObject.setPriorityRaw priority)

/-- `CServerItem::SetPriority`. -/
def setPriority (s : CServerItem) (priority : QueuePriority) : CServerItem :=
  let t := s.live.foldl (setPriorityStep priority) s
  { t with fileList := mergeLists t.fileList priority }

/-- One item in `CServerItem::QueueImmediateFiles`, with `activeList`. -/
def queueImmediateStep (i : QueuePriority) (x : ItemPtr) (acc : CServerItem × List ItemPtr) :
    CServerItem × List ItemPtr :=
  let (s, activeList) := acc
  if (s.heap x).active then (s, x :: activeList)
  else
    let t := s.modify x FileObject.setQueued
    ({ t with fileList := setList t.fileList true i (x :: t.fileList true i) }, activeList)

/-- `CServerItem::QueueImmediateFiles` at one priority. The loop runs from the back of the list. -/
def queueImmediateAt (s : CServerItem) (i : QueuePriority) : CServerItem :=
  let (t, activeList) := (s.fileList false i).foldr (queueImmediateStep i) (s, [])
  { t with fileList := setList t.fileList false i activeList }

/-- `CServerItem::QueueImmediateFiles`. -/
def queueImmediateFiles (s : CServerItem) : CServerItem :=
  QueuePriority.all.foldl queueImmediateAt s

/-- `CServerItem::QueueImmediateFile`. -/
def queueImmediateFile (s : CServerItem) (x : ItemPtr) : CServerItem :=
  let o := s.heap x
  if o.queued then s
  else if x ∈ s.fileList false o.priority then
    let t := s.modify x FileObject.setQueued
    let fileList := setList t.fileList false o.priority ((t.fileList false o.priority).erase x)
    { t with fileList := setList fileList true o.priority (x :: fileList true o.priority) }
  else s

/-! ### Children -/

/-- `CServerItem::AddChild` with a file or folder item, the object `o` at address `x`. -/
def addChild (s : CServerItem) (x : ItemPtr) (o : FileObject) : CServerItem :=
  addFileItemToList
    { s with
      heap := Function.update s.heap x o
      children := s.children.push x
      maxCachedIndex := -1
      visibleOffspring := s.visibleOffspring + (1 + o.getChildrenCount) } x

/-- `CServerItem::RemoveChild`. What a child's own `RemoveChild` tells the server item is
overwritten at the end. -/
def removeChild (s : CServerItem) (pItem : Option ItemRef) (forward : Bool) : Bool × CServerItem :=
  match pItem with
  | none => (false, s)
  | some item =>
    let s :=
      match item with
      | .file x => s.removeFileItemFromList x forward
      | .status _ => s
    let removeChildOf := fun x => ((s.heap x).removeChild pItem).map Prod.fst
    let doRemove := doRemove .file s.count removeChildOf pItem s.visibleOffspring
    match findRemoval doRemove forward s.live with
    | none => (false, s)
    | some (i, x, r) =>
      (true,
        { s with
          heap := r.child.elim s.heap (Function.update s.heap x)
          children := r.vector i s.children
          visibleOffspring := r.visibleOffspring
          maxCachedIndex := -1 })

/-- `CFileItem::SetActive` and `CFolderItem::SetActive` of a child. `status` is the address that
`new CStatusItem` returns. -/
def setActive (s : CServerItem) (x : ItemPtr) (active : Bool) (status : ItemPtr) : CServerItem :=
  let o := s.heap x
  if o.folder then s.modify x (FileObject.setActiveFlag active)
  else if active && !o.active then
    let o' : FileObject := { o with children := o.children.push status }
    { s.modify x fun _ => o'.setActiveFlag true with
      visibleOffspring := s.visibleOffspring + 1
      maxCachedIndex := -1 }
  else if !active && o.active then
    match o.removeChild ((childAt o.children 0).map .status) with
    | none => s.modify x (FileObject.setActiveFlag false)
    | some (o', visibleOffspring) =>
      { s.modify x fun _ => o'.setActiveFlag false with
        visibleOffspring := s.visibleOffspring - (o.getChildrenCount - visibleOffspring)
        maxCachedIndex := -1 }
  else s

/-- `CFileItem::TryRemoveAll`. -/
def tryRemoveItem (o : FileObject) : Bool × FileObject :=
  if !o.active then (true, o) else (false, o.setPendingRemove)

/-- One child in `CServerItem::TryRemoveAll`. -/
def tryRemoveStep (acc : CServerItem × List ItemPtr) (x : ItemPtr) : CServerItem × List ItemPtr :=
  let (s, keepChildren) := acc
  match tryRemoveItem (s.heap x) with
  | (true, o) => ((s.modify x fun _ => o).removeFileItemFromList x true, keepChildren)
  | (false, o) =>
    ({ s.modify x fun _ => o with
        visibleOffspring := s.visibleOffspring + 1 + o.getChildrenCount },
      keepChildren ++ [x])

/-- `CServerItem::TryRemoveAll`. -/
def tryRemoveAll (s : CServerItem) : Bool × CServerItem :=
  let (t, keepChildren) := s.live.foldl tryRemoveStep ({ s with visibleOffspring := 0 }, [])
  (keepChildren.isEmpty, { t with children := .ofList keepChildren, maxCachedIndex := -1 })

/-- `CServerItem::DetachChildren`. -/
def detachChildren (s : CServerItem) : CServerItem :=
  { s with
    children := .empty
    visibleOffspring := 0
    maxCachedIndex := -1
    fileList := fun _ _ => [] }

/-! ### Sorting -/

/-- `std::wstring::operator<`. -/
def wstringLess (l r : WString) : Bool := compare (l.map Char.toNat) (r.map Char.toNat) == .lt

/-- `std::tie(l₁, l₂) < std::tie(r₁, r₂)`, given how the first and the second components compare. -/
def tieLess (less₁ greater₁ less₂ : Bool) : Bool := less₁ || (!greater₁ && less₂)

/-- `CFileItem::GetStatusMessage`, with the translation of the texts. -/
def getStatusMessage (translate : WString → WString) : ItemStatus → WString
  | .none => []
  | .incorrectPassword => translate "Incorrect password".toList
  | .timeout => translate "Timeout".toList
  | .disconnecting => translate "Disconnecting from previous server".toList
  | .disconnected => translate "Disconnected from server".toList
  | .connecting => translate "Connecting".toList
  | .connectionFailed => translate "Connection attempt failed".toList
  | .interrupted => translate "Interrupted by user".toList
  | .waitBrowsing => translate "Waiting for browsing connection".toList
  | .waitPassword => translate "Waiting for password".toList
  | .localFileUnwriteable => translate "Could not write to local file".toList
  | .couldNotStart => translate "Could not start transfer".toList
  | .transferring => translate "Transferring".toList
  | .creatingDir => translate "Creating directory".toList

/-- The comparison that `CServerItem::Sort` picks for a column. -/
def sortColumn (translate : WString → WString) : Int → Option (FileObject → FileObject → Bool)
  | 0 => some fun l r =>
    tieLess (wstringLess l.localPath.path r.localPath.path)
      (wstringLess r.localPath.path l.localPath.path) (wstringLess l.getLocalFile r.getLocalFile)
  | 1 => some fun l r => !l.download && r.download
  | 2 => some fun l r =>
    tieLess (l.remotePath.less r.remotePath) (r.remotePath.less l.remotePath)
      (wstringLess l.getRemoteFile r.getRemoteFile)
  | 3 => some fun l r => l.size < r.size
  | 4 => some fun l r =>
    wstringLess (getStatusMessage translate l.status) (getStatusMessage translate r.status)
  | _ => none

/-- `CServerItem::Sort`. `insertionSort` is stable, as `std::stable_sort` is. -/
def sort (translate : WString → WString) (s : CServerItem) (col : Int) (reverse : Bool) :
    CServerItem :=
  match sortColumn translate col with
  | none => s
  | some cmp =>
    let fn := fun l r : ItemPtr =>
      if reverse then cmp (s.heap r) (s.heap l) else cmp (s.heap l) (s.heap r)
    let sorted := s.live.insertionSort fun l r => fn r l = false
    let t :=
      { s with
        children := s.children.setLive sorted
        lookupCache := []
        maxCachedIndex := -1
        fileList := fun _ _ => [] }
    sorted.foldl addFileItemToList t

/-! ### Rows -/

/-- The rows of the children: each file item, followed by its status items. -/
def preorder (s : CServerItem) : List ItemRef :=
  s.live.flatMap fun x => .file x :: (s.heap x).children.live.map .status

/-- `CQueueItem::GetItemIndex`. `new CStatusItem` passes no parent to the constructor and `AddChild`
sets none; the parent of a file item is the server item, whose own index is 0. -/
def getItemIndex (s : CServerItem) : ItemRef → Nat
  | .file x => indexAmong s.count x s.live 1 + 0
  | .status _ => 0

/-- `m_lookupCache[k] = e`, `n` times from `k` on; `none` when an access is out of bounds. -/
def fillCache (e : CacheItem) : Nat → Nat → List CacheItem → Option (List CacheItem)
  | _, 0, cache => some cache
  | k, n + 1, cache => if k < cache.length then fillCache e (k + 1) n (cache.set k e) else none

/-- `m_lookupCache` after the `resize` in the loop of `CServerItem::GetChild`. -/
def resizedCache (s : CServerItem) : List CacheItem :=
  if s.maxCachedIndex = -1 ∧ s.lookupCache.length < s.visibleOffspring.toNat then
    s.lookupCache ++ List.replicate (s.visibleOffspring.toNat - s.lookupCache.length) ⟨0, 0⟩
  else s.lookupCache

/-- The loop of `CServerItem::GetChild`. -/
def getChildLoop : List ItemPtr → (item child index : Nat) → CServerItem →
    Option (Option ItemRef × CServerItem)
  | [], _, _, _, s => some (none, s)
  | x :: xs, item, child, index, s =>
    if item = 0 then some (some (.file x), s)
    else
      let count := s.count x
      if count < item then
        match fillCache ⟨index, child⟩ index (count + 1) s.resizedCache with
        | none => none
        | some cache =>
          getChildLoop xs (item - (count + 1)) (child + 1) (index + count + 1)
            { s with lookupCache := cache, maxCachedIndex := index + count }
      else some ((s.heap x).getChild (item - 1), s)

/-- `CServerItem::GetChild(item, true)`; `none` when it reads or writes outside a vector. -/
def getChild (s : CServerItem) (item : UInt32) : Option (Option ItemRef × CServerItem) :=
  -- `(int)item <= m_maxCachedIndex`
  if item.toInt32.toInt ≤ s.maxCachedIndex then do
    let cached ← s.lookupCache[item.toNat]?
    let x ← s.live[cached.child]?
    let item := item.toNat - cached.index
    if item = 0 then some (some (.file x), s) else some ((s.heap x).getChild (item - 1), s)
  else if s.maxCachedIndex = -1 then getChildLoop s.live item.toNat 0 0 s
  else do
    -- start with the child behind the last one that is cached
    let last ← s.lookupCache[s.maxCachedIndex.toNat]?
    let index := s.maxCachedIndex.toNat + 1
    getChildLoop (s.live.drop (last.child + 1)) (item.toNat - index) (last.child + 1) index s

end CServerItem

/-! ## Runs -/

/-- A call of a public function of a server item or of one of its children. -/
inductive ServerItemCall where
  | addChild (x : ItemPtr) (o : FileObject)
  | removeChild (pItem : Option ItemRef) (forward : Bool)
  | setActive (x : ItemPtr) (active : Bool) (status : ItemPtr)
  | setItemPriority (x : ItemPtr) (priority : QueuePriority)
  | setPriority (priority : QueuePriority)
  | queueImmediateFiles
  | queueImmediateFile (x : ItemPtr)
  | sort (col : Int) (reverse : Bool)
  | tryRemoveAll
  | detachChildren
  | getChild (item : UInt32)
deriving DecidableEq

/-- One call. An item is added that is not a child yet, and the functions of file items are called
on children. -/
def CServerItem.step (translate : WString → WString) (s : CServerItem) :
    ServerItemCall → Option CServerItem
  | .addChild x o => if x ∈ s.live then none else some (s.addChild x o)
  | .removeChild pItem forward => some (s.removeChild pItem forward).2
  | .setActive x active status => if x ∈ s.live then some (s.setActive x active status) else none
  | .setItemPriority x priority => if x ∈ s.live then some (s.setItemPriority x priority) else none
  | .setPriority priority => some (s.setPriority priority)
  | .queueImmediateFiles => some s.queueImmediateFiles
  | .queueImmediateFile x => if x ∈ s.live then some (s.queueImmediateFile x) else none
  | .sort col reverse => some (s.sort translate col reverse)
  | .tryRemoveAll => some s.tryRemoveAll.2
  | .detachChildren => some s.detachChildren
  | .getChild item => (s.getChild item).map Prod.snd

/-- All runs of a server item, from its construction on. -/
def serverItemSystem (translate : WString → WString) : Lts CServerItem ServerItemCall :=
  Lts.ofFun (fun s => ∃ heap, s = CServerItem.new heap) (CServerItem.step translate)

end FlintZilla
