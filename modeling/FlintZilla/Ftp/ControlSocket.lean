import FlintZilla.Reply
import FlintZilla.Lib.Lts

/-!
# The FTP control socket

The operation stack and the reply counters of `CControlSocket`, `CRealControlSocket` and
`CFtpControlSocket`. What an operation does when it is called (`Send`, `ParseResponse`,
`SubcommandResult`, `Reset`) is left open: it sends commands in `Send`, pushes operations, asks the
user, and returns any code. Only the logon operation is fixed as far as it opens the connection and
waits for the greeting.

`SendNextCommand`, `ResetOperation`, `ParseSubcommandResult` and `DoClose` call each other in tail
position. The call in progress is the `task` of the socket, and one step makes one call; events of
the event loop are handled when no call is in progress.
-/

namespace FlintZilla

open Lib

/-- How far a logon operation is. -/
inductive LogonPhase where
  /-- `LOGON_CONNECT`. -/
  | connect
  /-- `LOGON_WELCOME`. -/
  | welcome
  /-- Any state behind it. -/
  | later
deriving DecidableEq

/-- An operation on the stack. `logon` is set for `Command::connect`. The number `id` and the list
of the operations that were reset before it started are for the specification. -/
structure FtpOp where
  logon : Option LogonPhase
  topLevelOperation : Bool
  waitForAsyncRequest : Bool
  id : Nat
  resetBefore : List Nat
deriving DecidableEq

/-- Who a reply is for. -/
inductive Sender where
  | greeting
  | op (id : Nat)
  | keepalive
deriving DecidableEq

/-- `active_layer_`: not there, connecting, or connected. -/
inductive Link where
  | closed
  | connecting
  | connected
deriving DecidableEq

/-- The call in progress. -/
inductive FtpTask where
  | idle
  /-- `SendNextCommand`. -/
  | sendNextCommand
  /-- Its loop, behind the first test. -/
  | sendLoop
  /-- `ResetOperation`. -/
  | resetOperation (code : Nat)
  /-- `DoClose`. -/
  | doClose (code : Nat)
  /-- `ParseSubcommandResult`. -/
  | parseSubcommandResult (code : Nat)
deriving DecidableEq

/-- What a handler may end in. -/
def FtpTask.isEntry : FtpTask → Bool
  | .sendLoop | .parseSubcommandResult _ => false
  | _ => true

/-- No call, or the one that closes the connection. -/
def FtpTask.idleOrCloses : FtpTask → Bool
  | .idle | .doClose _ => true
  | _ => false

/-- What a call of an operation did: how many commands it sent (in `Send` only), how many operations
it pushed, whether it sent an async request, and what it returned. -/
structure OpResult where
  sends : Nat
  pushes : Nat
  asks : Bool
  res : Nat
deriving DecidableEq

/-- The stack has its last operation in front. `outstanding` are the commands without final reply,
`resetIds` the operations that were reset, and `delivered` the replies that were passed to
`ParseResponse`, each with the operation it was passed to. -/
structure FtpControlSocket where
  operations : List FtpOp
  pendingReplies : Nat
  repliesToSkip : Nat
  idleTimer : Bool
  link : Link
  task : FtpTask
  nextId : Nat
  outstanding : List Sender
  resetIds : List Nat
  delivered : List (Sender × FtpOp)
deriving DecidableEq

namespace FtpControlSocket

/-- A new control socket; `m_pendingReplies` starts with the greeting counted. -/
def new : FtpControlSocket where
  operations := []
  pendingReplies := 1
  repliesToSkip := 0
  idleTimer := false
  link := .closed
  task := .idle
  nextId := 0
  outstanding := [.greeting]
  resetIds := []
  delivered := []

/-! ## Operations -/

/-- `CControlSocket::Push`. -/
def pushOp (s : FtpControlSocket) (logon : Option LogonPhase) (topLevel : Bool) :
    FtpControlSocket :=
  { s with
    operations := ⟨logon, topLevel, false, s.nextId, s.resetIds⟩ :: s.operations
    nextId := s.nextId + 1 }

/-- `CFtpControlSocket::Push`: the first operation on a closed connection is preceded by a logon. -/
def push (s : FtpControlSocket) (logon : Option LogonPhase) : FtpControlSocket :=
  let s := s.pushOp logon false
  if s.operations.length = 1 ∧ logon = none ∧ s.link = .closed then s.pushOp (some .connect) true
  else s

/-- `CFtpControlSocket::SendCommand` with a command that could be converted. `Send` never returns
zero, so its result counts as success even if the command could not be written. -/
def sendCommand (s : FtpControlSocket) (who : Sender) : FtpControlSocket :=
  { s with pendingReplies := s.pendingReplies + 1, outstanding := s.outstanding ++ [who] }

/-- Change the operation at the back of `operations_`. -/
def mapTop (s : FtpControlSocket) (f : FtpOp → FtpOp) : FtpControlSocket :=
  match s.operations with
  | [] => s
  | op :: rest => { s with operations := f op :: rest }

/-- The effects of a call of the operation at the back. -/
def performed (s : FtpControlSocket) (o : OpResult) : FtpControlSocket :=
  let s := if o.asks then s.mapTop fun op => { op with waitForAsyncRequest := true } else s
  Nat.repeat (fun s => s.push none) o.pushes s

/-- `operations_.back()->opId == Command::connect`. -/
def isLogon (s : FtpControlSocket) : Bool := s.operations.head?.any (·.logon.isSome)

/-- `CFtpControlSocket::ResetSocket`. -/
def resetSocket (s : FtpControlSocket) : FtpControlSocket :=
  { s with pendingReplies := 0, repliesToSkip := 0, link := .closed, outstanding := [] }

/-- `CFtpControlSocket::StartKeepaliveTimer`; `enabled` are the option and the time limit. -/
def startKeepaliveTimer (s : FtpControlSocket) (enabled : Bool) : FtpControlSocket :=
  if !enabled then s
  else if s.repliesToSkip ≠ 0 ∨ s.pendingReplies ≠ 0 then s
  else { s with idleTimer := true }

/-! ## Sending -/

/-- What `SendNextCommand` does with the result of `Send`. -/
def afterSend (res : Nat) : FtpTask :=
  if res = Reply.continue_ then .sendLoop
  else if res = Reply.ok then .resetOperation res
  else if Reply.has res Reply.disconnected then .doClose res
  else if Reply.has res Reply.error then .resetOperation res
  else if res = Reply.wouldBlock then .idle
  else .resetOperation Reply.internalError

/-- `CFtpLogonOpData::Send` in `LOGON_CONNECT`: it fails before it tries to connect, or calls
`DoConnect`. -/
def sendConnect (s : FtpControlSocket) (o : OpResult) (connects : Bool) : FtpControlSocket :=
  if connects then
    let s := { s.resetSocket with link := .connecting }
    let s := s.mapTop fun op => { op with logon := some .welcome }
    { s with
      task := afterSend (if o.res = Reply.wouldBlock then Reply.wouldBlock
        else Reply.disconnected ||| Reply.error) }
  else
    { s with
      task := afterSend (if o.res = Reply.internalError then Reply.internalError
        else Reply.disconnected ||| Reply.criticalError) }

/-- One round of the loop of `SendNextCommand`. -/
def sendLoop (s : FtpControlSocket) (o : OpResult) (connects : Bool) : FtpControlSocket :=
  match s.operations with
  | [] => { s with task := .idle }
  | op :: _ =>
    if op.waitForAsyncRequest then { s with task := .idle }
    -- `CanSendNextCommand`
    else if s.repliesToSkip ≠ 0 then { s with task := .idle }
    else match op.logon with
      | some .connect => s.sendConnect o connects
      -- the state is not known to `CFtpLogonOpData::Send`
      | some .welcome => { s with task := afterSend Reply.internalError }
      | _ =>
        let s := Nat.repeat (fun s => s.sendCommand (.op op.id)) o.sends s
        { s.performed o with task := afterSend o.res }

/-- `CControlSocket::SendNextCommand` up to its loop. -/
def sendNextCommand (s : FtpControlSocket) : FtpControlSocket :=
  match s.operations with
  | [] => { s with task := .resetOperation Reply.error }
  | _ => { s with task := .sendLoop }

/-! ## Resetting -/

/-- `CFtpControlSocket::ResetOperation` and the call it ends in. `res` is the code after the changes
made for transfers and by `Reset` of the operation. -/
def resetOperation (s : FtpControlSocket) (code res : Nat) (timer : Bool) : FtpControlSocket :=
  let s := { s with repliesToSkip := s.pendingReplies }
  match s.operations with
  | [] => { s with idleTimer := false, task := .idle }
  | op :: rest =>
    let s := if Reply.has code Reply.disconnected then { s with idleTimer := false }
      else s.startKeepaliveTimer timer
    let s := { s with operations := rest, resetIds := op.id :: s.resetIds }
    match rest with
    | [] => { s with task := .idle }
    | _ =>
      if res = Reply.ok ∨ res = Reply.error ∨ res = Reply.criticalError ∨
          res = Reply.errorNotFound then
        if !op.topLevelOperation then { s with task := .parseSubcommandResult res }
        else { s with task := .sendNextCommand }
      else { s with task := .resetOperation res }

/-- `CControlSocket::ParseSubcommandResult`. -/
def parseSubcommandResult (s : FtpControlSocket) (o : OpResult) : FtpControlSocket :=
  match s.operations with
  | [] => { s with task := .resetOperation Reply.error }
  | _ =>
    let s := s.performed o
    if o.res = Reply.wouldBlock then { s with task := .idle }
    else if o.res = Reply.continue_ then { s with task := .sendNextCommand }
    else { s with task := .resetOperation o.res }

/-- `CRealControlSocket::DoClose`. -/
def doClose (s : FtpControlSocket) (code : Nat) : FtpControlSocket :=
  { s.resetSocket with
    task := .resetOperation (Reply.error ||| Reply.disconnected ||| code) }

/-! ## Replies -/

/-- What `CFtpControlSocket::ParseResponse` does with the result of the operation. -/
def afterParse (res : Nat) (isLogon : Bool) : FtpTask :=
  if res = Reply.ok then .resetOperation Reply.ok
  else if res = Reply.continue_ then .sendNextCommand
  else if Reply.has res Reply.disconnected then .doClose res
  else if Reply.has res Reply.error then
    if isLogon then .doClose (res ||| Reply.disconnected) else .resetOperation res
  else .idle

/-- The reply is passed to the operation at the back. A logon operation that waits for the greeting
accepts a code of 2 or 3 only. -/
def passReply (s : FtpControlSocket) (who : Sender) (op : FtpOp) (digit : Nat) (o : OpResult) :
    FtpControlSocket :=
  let s := { s with delivered := s.delivered ++ [(who, op)] }
  if op.logon = some .welcome ∧ digit ≠ 2 ∧ digit ≠ 3 then
    let res := Reply.disconnected ||| (if digit = 5 then Reply.criticalError else Reply.error)
    { s with task := afterParse res true }
  else
    let s := if op.logon = some .welcome then s.mapTop fun op => { op with logon := some .later }
      else s
    let s := s.performed o
    { s with task := afterParse o.res s.isLogon }

/-- `CFtpControlSocket::ParseResponse` for the reply with the given first digit to the command
`who`. -/
def parseResponse (s : FtpControlSocket) (who : Sender) (digit : Nat) (o : OpResult)
    (timer : Bool) :
    FtpControlSocket :=
  if digit ≠ 1 ∧ s.pendingReplies = 0 then s
  else
    let s := if digit ≠ 1 then { s with pendingReplies := s.pendingReplies - 1 } else s
    if s.repliesToSkip ≠ 0 then
      let s := if digit ≠ 1 then { s with repliesToSkip := s.repliesToSkip - 1 } else s
      if s.repliesToSkip = 0 then
        if s.operations = [] then s.startKeepaliveTimer timer
        else if s.pendingReplies = 0 then { s with task := .sendNextCommand }
        else s
      else s
    else match s.operations with
      | [] => s
      | op :: _ => s.passReply who op digit o

/-- `CFtpControlSocket::OnTimer` for the idle timer. -/
def onTimer (s : FtpControlSocket) : FtpControlSocket :=
  if s.operations ≠ [] then s
  else if s.pendingReplies ≠ 0 ∨ s.repliesToSkip ≠ 0 then s
  else
    let s := s.sendCommand .keepalive
    { s with repliesToSkip := s.repliesToSkip + 1 }

/-- `CControlSocket::Cancel`. -/
def cancel (s : FtpControlSocket) : FtpControlSocket :=
  if s.operations = [] then s
  else if s.isLogon then { s with task := .doClose Reply.canceled }
  else { s with task := .resetOperation Reply.canceled }

end FtpControlSocket

/-! ## The system -/

inductive FtpEvent where
  /-- The engine calls `Connect` and `SendNextCommand`. -/
  | connect
  /-- The engine starts another operation and calls `SendNextCommand`. -/
  | command
  | cancel
  /-- `DoClose` after a timeout, an error of the socket or the end of the connection. -/
  | close (code : Nat)
  /-- `SendNextCommand` from `OnObtainLock` or `OnExternalIPAddress`. -/
  | resume
  /-- `ResetOperation` from `TransferEnd`, `SetFileExistsAction` or `SleepOpData`. -/
  | reset (code : Nat)
  /-- `CallSetAsyncRequestReply`, with the call it ends in. -/
  | asyncReply (next : FtpTask)
  /-- `OnConnect`, in front of the greeting. -/
  | onConnect
  /-- `OnConnect` after `AUTH TLS`. -/
  | onTlsConnect
  /-- The server sends a reply to the first outstanding command. -/
  | reply (digit : Nat) (o : OpResult) (timer : Bool)
  | onTimer
  /-- The next call. -/
  | call (o : OpResult) (connects timer : Bool)
deriving DecidableEq

namespace FtpControlSocket

/-- The call in progress. -/
def call (s : FtpControlSocket) (o : OpResult) (connects timer : Bool) : Option FtpControlSocket :=
  match s.task with
  | .idle => none
  | .sendNextCommand => some s.sendNextCommand
  | .sendLoop => some (s.sendLoop o connects)
  | .resetOperation code => some (s.resetOperation code o.res timer)
  | .doClose code => some (s.doClose code)
  | .parseSubcommandResult _ => some (s.parseSubcommandResult o)

/-- The server answers in order: a final reply is for the first outstanding command, and so are the
preliminary ones in front of it. -/
def receive (s : FtpControlSocket) (digit : Nat) (o : OpResult) (timer : Bool) :
    Option FtpControlSocket :=
  if s.link ≠ .connected then none
  else match s.outstanding with
    | [] => none
    | who :: rest =>
      some ({ s with outstanding := if digit = 1 then who :: rest else rest }.parseResponse
        who digit o timer)

/-- An event of the event loop. -/
def handle (s : FtpControlSocket) : FtpEvent → Option FtpControlSocket
  | .connect =>
    if s = new then some { s.push (some .connect) with task := .sendNextCommand } else none
  | .command =>
    if s.operations = [] then some { s.push none with task := .sendNextCommand } else none
  | .cancel => some s.cancel
  | .close code => some { s with task := .doClose code }
  | .resume => some { s with task := .sendNextCommand }
  | .reset code => some { s with task := .resetOperation code }
  | .asyncReply next =>
    if s.operations.head?.any (·.waitForAsyncRequest) ∧ next.isEntry then
      some { s.mapTop fun op => { op with waitForAsyncRequest := false } with task := next }
    else none
  | .onConnect =>
    if s.link = .connecting then
      some { s with
        link := .connected, pendingReplies := 1, outstanding := .greeting :: s.outstanding }
    else none
  | .onTlsConnect =>
    if s.link = .connected then some { s with task := .sendNextCommand } else none
  | .reply digit o timer => s.receive digit o timer
  | .onTimer => if s.idleTimer then some s.onTimer else none
  | .call _ _ _ => none

def step (s : FtpControlSocket) (e : FtpEvent) : Option FtpControlSocket :=
  match e with
  | .call o connects timer => s.call o connects timer
  | e => if s.task = .idle then s.handle e else none

end FtpControlSocket

/-- Every sequence of calls. -/
def ftpSystem : Lts FtpControlSocket FtpEvent :=
  Lts.ofFun (fun s => s = .new) FtpControlSocket.step

/-- While the connection is being established, an operation is ended by closing the connection only:
there is no lock, address resolver, transfer or file check yet whose end would resume or reset
one. -/
def FtpControlSocket.Admits (s : FtpControlSocket) : FtpEvent → Prop
  | .resume | .reset _ => s.link ≠ .connecting
  | .asyncReply next => s.link = .connecting → next.idleOrCloses = true
  | _ => True

instance FtpControlSocket.decidableAdmits (s : FtpControlSocket) (e : FtpEvent) :
    Decidable (s.Admits e) := by
  unfold FtpControlSocket.Admits
  split <;> infer_instance

def goodFtpSystem : Lts FtpControlSocket FtpEvent := ftpSystem.restrict FtpControlSocket.Admits

end FlintZilla
