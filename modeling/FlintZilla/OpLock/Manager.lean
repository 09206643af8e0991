import FlintZilla.Server
import FlintZilla.Path.Ancestor
import FlintZilla.Lib.Lts

/-!
# The operation lock manager

`OpLockManager` of `engine/oplock_manager.cpp`. The table has one row to a control socket; a lock is
granted or waits, and a released lock that is not the last of its row stays as a tombstone. A handle
is a pair of indices into the table. Every public function holds the mutex of the manager, so one
call is one step of the system at the end of this file.
-/

namespace FlintZilla

open Lib

/-- `locking_reason`. -/
inductive LockingReason where
  | unknown
  | list
  | mkdir
  | private1
deriving DecidableEq

/-- `OpLockManager::lock_info`. -/
structure LockInfo where
  path : CServerPath
  reason : LockingReason
  inclusive : Bool
  waiting : Bool
  released : Bool
deriving DecidableEq

variable {Socket : Type} [DecidableEq Socket]

/-- `OpLockManager::socket_lock_info`; the null pointer is `none`. -/
structure SocketLockInfo (Socket : Type) where
  server : CServer
  controlSocket : Option Socket
  locks : List LockInfo
deriving DecidableEq

/-- `socket_locks_`. -/
abbrev LockTable (Socket : Type) := List (SocketLockInfo Socket)

/-- The indices of an `OpLock`. -/
structure OpLock where
  socket : Nat
  lock : Nat
deriving DecidableEq

/-- The inner test of both conflict checks: `lock` is granted and excludes a lock on `path`. -/
def LockInfo.excludes (lock : LockInfo) (reason : LockingReason) (path : CServerPath)
    (inclusive : Bool) : Bool :=
  if reason != lock.reason || lock.waiting || lock.released then false
  else if lock.path == path || (lock.inclusive && lock.path.isParentOf path) then true
  else inclusive && path.isParentOf lock.path

/-! ## `Lock` -/

/-- `OpLockManager::get_or_create`: the table and the row of the socket. -/
def getOrCreate (table : LockTable Socket) (socket : Socket) (server : CServer) :
    LockTable Socket × Nat :=
  match table.findIdx? fun sli => sli.controlSocket == some socket with
  | some i => (table, i)
  | none => (table ++ [⟨server, some socket, []⟩], table.length)

/-- `OpLockManager::Lock`; `server` is the current server of the socket. -/
def lock (table : LockTable Socket) (socket : Socket) (server : CServer) (reason : LockingReason)
    (path : CServerPath) (inclusive : Bool) : Option (LockTable Socket × OpLock) :=
  let (table, i) := getOrCreate table socket server
  match table[i]? with
  | none => none
  | some sli =>
    let waiting := table.any fun other =>
      !(other.controlSocket == some socket || !other.server.equals sli.server) &&
        other.locks.any fun lock => lock.excludes reason path inclusive
    let info : LockInfo := ⟨path, reason, inclusive, waiting, false⟩
    some (table.set i { sli with locks := sli.locks ++ [info] }, ⟨i, sli.locks.length⟩)

/-! ## `Unlock` -/

/-- Drop the elements at the end that satisfy `p`. -/
def popBackWhile {α : Type} (p : α → Bool) (l : List α) : List α :=
  (l.reverse.dropWhile p).reverse

/-- `OpLockManager::Unlock` without the wakeup: the table and `was_waiting`; `none` is a failed
assertion. -/
def unlock (table : LockTable Socket) (handle : OpLock) : Option (LockTable Socket × Bool) :=
  match table[handle.socket]? with
  | none => none
  | some sli =>
    match sli.locks[handle.lock]? with
    | none => none
    | some info =>
      let table' :=
        if handle.lock + 1 = sli.locks.length then
          let locks := popBackWhile (·.released) sli.locks.dropLast
          if locks.isEmpty then
            if handle.socket + 1 = table.length then
              popBackWhile (·.controlSocket.isNone) table.dropLast
            else table.set handle.socket { sli with locks := [], controlSocket := none }
          else table.set handle.socket { sli with locks := locks }
        else table.set handle.socket { sli with
          locks := sli.locks.set handle.lock { info with waiting := false, released := true } }
      some (table', info.waiting)

/-- `OpLockManager::Wakeup`: the sockets that are sent a `CObtainLockEvent`. -/
def wakeup (table : LockTable Socket) : List Socket :=
  table.filterMap fun sli => if sli.locks.any (·.waiting) then sli.controlSocket else none

/-- `OpLockManager::Waiting` of a handle; `none` is a failed assertion. -/
def waiting (table : LockTable Socket) (handle : OpLock) : Option Bool :=
  match table[handle.socket]? with
  | none => none
  | some sli => (sli.locks[handle.lock]?).map (·.waiting)

/-! ## `ObtainWaiting` -/

/-- The private `ObtainWaiting` at the lock `j` of row `i`, if that lock waits: the table and
whether the lock was obtained. -/
def obtainAt (i : Nat) (st : LockTable Socket × Bool) (j : Nat) : LockTable Socket × Bool :=
  match st.1[i]? with
  | none => st
  | some sli =>
    match sli.locks[j]? with
    | none => st
    | some info =>
      let blocked := (List.range st.1.length).any fun k =>
        k != i && (st.1[k]?).any fun other =>
          other.locks.any fun lock => lock.excludes info.reason info.path info.inclusive
      if !info.waiting || blocked then st
      else (st.1.set i { sli with locks := sli.locks.set j { info with waiting := false } }, true)

/-- The loop over the locks of a row, if it belongs to the socket. -/
def obtainRow (socket : Socket) (st : LockTable Socket × Bool) (i : Nat) :
    LockTable Socket × Bool :=
  match st.1[i]? with
  | none => st
  | some sli =>
    if sli.controlSocket = some socket then (List.range sli.locks.length).foldl (obtainAt i) st
    else st

/-- `OpLockManager::ObtainWaiting`: the table and whether any lock was obtained. -/
def obtainWaiting (table : LockTable Socket) (socket : Socket) : LockTable Socket × Bool :=
  (List.range table.length).foldl (obtainRow socket) (table, false)

/-! ## The system -/

/-- The table, the handles that have not been unlocked and the `CObtainLockEvent`s on their way. -/
structure OpLockState (Socket : Type) where
  table : LockTable Socket
  handles : List OpLock
  events : List Socket

/-- The calls, by any socket at any time; `unlock` names one of the handles. -/
inductive OpLockCall (Socket : Type) where
  | lock (socket : Socket) (server : CServer) (reason : LockingReason) (path : CServerPath)
      (inclusive : Bool)
  | unlock (handle : Nat)
  | obtainWaiting (socket : Socket)
  /-- An event reaches its socket, which calls `ObtainWaiting`. -/
  | deliver (event : Nat)

def OpLockState.step (s : OpLockState Socket) : OpLockCall Socket → Option (OpLockState Socket)
  | .lock socket server reason path inclusive =>
    (FlintZilla.lock s.table socket server reason path inclusive).map fun (table, handle) =>
      { s with table := table, handles := s.handles ++ [handle] }
  | .unlock k =>
    match s.handles[k]? with
    | none => none
    | some handle => (FlintZilla.unlock s.table handle).map fun (table, wasWaiting) =>
        { table := table
          handles := s.handles.eraseIdx k
          events := if wasWaiting then s.events else s.events ++ wakeup table }
  | .obtainWaiting socket =>
    some { s with table := (FlintZilla.obtainWaiting s.table socket).1 }
  | .deliver k =>
    match s.events[k]? with
    | none => none
    | some socket =>
      some { s with
        table := (FlintZilla.obtainWaiting s.table socket).1, events := s.events.eraseIdx k }

/-- Every interleaving of calls on a fresh manager. -/
def opLockSystem (Socket : Type) [DecidableEq Socket] :
    Lts (OpLockState Socket) (OpLockCall Socket) :=
  Lts.ofFun (fun s => s = ⟨[], [], []⟩) OpLockState.step

end FlintZilla
