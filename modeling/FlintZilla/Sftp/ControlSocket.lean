import FlintZilla.Lib.Lts
import FlintZilla.Sftp.Operations

/-!
# The SFTP control socket

`CSftpControlSocket` and the part of `CControlSocket` that it runs on: `ParseResponse` and
`SubcommandResult` of the operations, the calls between the control socket and the operation on top
of the stack, and the events that reach the socket. A call that ends in another call leaves it in
`task`; the next `call` event, with answers of its own, performs it.
-/

namespace FlintZilla

namespace SftpSocket

variable (cfg : SftpConfig) (ans : SftpAnswers) (s : SftpSocket)

/-! ## `ParseResponse` -/

/-- The state after `connect_init` and `connect_proxy`. -/
def afterProxy (keyfiles : List WString) : SftpConnectState :=
  if keyfiles.isEmpty then .open_ else .keys

/-- `CSftpConnectOpData::ParseResponse`; `versionOk` is the comparison of the helper's greeting. -/
def parseConnect (versionOk : Bool) (opState : SftpConnectState) (keyfiles : List WString)
    (result : Nat) : Nat × SftpSocket :=
  if result ≠ Reply.ok then (Reply.error ||| Reply.disconnected, s)
  else
    match opState with
    | .init =>
      if !versionOk then (Reply.internalError ||| Reply.disconnected, s)
      else
        let next := if cfg.proxyType ≠ 0 then .proxy else afterProxy keyfiles
        (Reply.continue_, s.setTop (.connect next keyfiles))
    | .proxy => (Reply.continue_, s.setTop (.connect (afterProxy keyfiles) keyfiles))
    | .keys => (Reply.continue_, s.setTop (.connect (afterProxy keyfiles) keyfiles))
    | .open_ => (Reply.ok, s)

/-- `CSftpChangeDirOpData::ParseResponse`. -/
def parseChangeDir (data : SftpChangeDir) (result : Nat) (response : WString) : Nat × SftpSocket :=
  let successful := result = Reply.ok
  match data.opState with
  | .pwd =>
    if !successful ∨ response = [] then (Reply.error, s)
    else
      match ans.pwdReply with
      | none => (Reply.error, s)
      | some path => (Reply.ok, { s with currentPath := path })
  | .cwd =>
    if !successful then
      if data.tryMkdOnFail then
        (Reply.continue_, (s.setTop (.changeDir { data with tryMkdOnFail := false })).push cfg
          (.mkdir { path := data.path }))
      else (Reply.error, s)
    else if response = [] then (Reply.error, s)
    else
      match ans.pwdReply with
      | none => (Reply.error, s)
      | some path =>
        let s := { s with currentPath := path }
        if data.subDir.isEmpty then (Reply.ok, s)
        else
          (Reply.continue_, s.setTop
            (.changeDir { data with target := ⟨.default, none⟩, opState := .cwdSubdir }))
  | .cwdSubdir =>
    if !successful ∨ response = [] then
      (if data.linkDiscovery then Reply.linkNotDir else Reply.error, s)
    else
      match ans.pwdReply with
      | none => (Reply.error, s)
      | some path => (Reply.ok, { s with currentPath := path })
  | .init => (Reply.internalError, s)

/-- `CSftpMkdirOpData::ParseResponse`. -/
def parseMkdir (data : SftpMkdir) (result : Nat) : Nat × SftpSocket :=
  let successful := result = Reply.ok
  match data.opState with
  | .findparent =>
    if successful then
      (Reply.continue_, { s.setTop (.mkdir { data with opState := .mkdsub }) with
        currentPath := data.currentMkdPath })
    else if data.currentMkdPath ≠ data.commonParent ∧ data.currentMkdPath.hasParent then
      (Reply.continue_, s.setTop (.mkdir { data with
        segments := data.segments ++ [data.currentMkdPath.getLastSegment]
        currentMkdPath := data.currentMkdPath.getParent }))
    else (Reply.continue_, s.setTop (.mkdir { data with opState := .tryfull }))
  | .mkdsub =>
    if successful then
      if data.segments.isEmpty then (Reply.internalError, s)
      else
        let currentMkdPath := (data.currentMkdPath.addSegment (data.segments.getLastD [])).2
        let segments := data.segments.dropLast
        if segments.isEmpty then (Reply.ok, s)
        else
          (Reply.continue_,
            s.setTop (.mkdir { data with currentMkdPath, segments, opState := .cwdsub }))
    else (Reply.continue_, s.setTop (.mkdir { data with opState := .tryfull }))
  | .cwdsub =>
    if successful then
      (Reply.continue_, { s.setTop (.mkdir { data with opState := .mkdsub }) with
        currentPath := data.currentMkdPath })
    else (Reply.continue_, s.setTop (.mkdir { data with opState := .tryfull }))
  | .tryfull => (if successful then Reply.ok else Reply.error, s)
  | .init => (Reply.internalError, s)

/-- `CSftpDeleteOpData::ParseResponse`. -/
def parseDelete (data : SftpDelete) (result : Nat) : Nat × SftpSocket :=
  let deleteFailed := data.deleteFailed || result ≠ Reply.ok
  let files := data.files.dropLast
  if !files.isEmpty then (Reply.continue_, s.setTop (.delete { data with files, deleteFailed }))
  else (if deleteFailed then Reply.error else Reply.ok, s)

/-- `CheckOverwriteFile`: without an old file the transfer goes on, else the user is asked. -/
def checkOverwriteFile : Nat × SftpSocket :=
  match s.operations with
  | { op := .fileTransfer data, topLevelOperation, .. } :: rest =>
    let data := { data with localFileTime := ans.localFileTime }
    if ans.fileExists then
      (Reply.wouldBlock, { s with operations :=
        ⟨.fileTransfer data, topLevelOperation, true⟩ :: rest })
    else (Reply.ok, s.setTop (.fileTransfer data))
  | _ => (Reply.internalError, s)

/-- On to the transfer, if no file is in its way. -/
def startTransfer (data : SftpFileTransfer) : Nat × SftpSocket :=
  let r := (s.setTop (.fileTransfer { data with opState := .transfer })).checkOverwriteFile ans
  if r.1 ≠ Reply.ok then r else (Reply.continue_, r.2)

/-- `CSftpFileTransferOpData::ParseResponse`. -/
def parseFileTransfer (data : SftpFileTransfer) (result : Nat) : Nat × SftpSocket :=
  match data.opState with
  | .transfer =>
    if result = Reply.ok ∧ cfg.preserveTimestamps ∧ !data.download ∧ data.localFileTime.isSome then
      (Reply.continue_, s.setTop (.fileTransfer { data with opState := .chmtime }))
    else (result, s)
  | .mtime => startTransfer ans s data
  | .chmtime => (if data.download then Reply.internalError else Reply.ok, s)
  | .init | .waitcwd | .waitlist => (Reply.internalError, s)

/-- `ParseResponse` of the operation on top. -/
def parse (versionOk : Bool) (op : SftpOp) (result : Nat) (response : WString) :
    Nat × SftpSocket :=
  match op with
  | .connect opState keyfiles => parseConnect cfg s versionOk opState keyfiles result
  | .changeDir data => parseChangeDir cfg ans s data result response
  | .mkdir data => parseMkdir s data result
  | .delete data => parseDelete s data result
  | .removeDir data =>
    (if result = Reply.ok ∧ data.path.empty then Reply.internalError else result, s)
  | .rename _ => (result, s)
  | .chmod _ => (result, s)
  | .list data =>
    if data.opState ≠ .list then (Reply.internalError, s)
    else (if result ≠ Reply.ok then Reply.error else Reply.ok, s)
  | .fileTransfer data => parseFileTransfer cfg ans s data result

/-! ## `SubcommandResult` -/

/-- What the directory cache makes of `filetransfer_waitcwd` and `filetransfer_waitlist`. -/
def afterLookup (data : SftpFileTransfer) (found : FileLookup) : SftpTransferState :=
  let preserve := data.download && cfg.preserveTimestamps
  let waiting := data.opState = .waitcwd
  match found.entry with
  | none =>
    if !found.dirDidExist then if waiting then .waitlist else .mtime
    else if preserve then .mtime
    else .transfer
  | some (unsure, hasTime) =>
    if unsure then if waiting then .waitlist else .mtime
    else if !found.matchedCase then .mtime
    else if preserve && !hasTime then .mtime
    else .transfer

/-- Where the directory cache is asked about the remote file. -/
def cacheDir (data : SftpFileTransfer) : CServerPath :=
  if data.tryAbsolutePath then data.remotePath else s.currentPath

/-- `CSftpFileTransferOpData::SubcommandResult`. -/
def transferSubcommandResult (data : SftpFileTransfer) (prevResult : Nat) : Nat × SftpSocket :=
  if data.opState ≠ .waitcwd ∧ data.opState ≠ .waitlist then (Reply.internalError, s)
  else if prevResult ≠ Reply.ok then
    let tryAbsolutePath := data.tryAbsolutePath || data.opState = .waitcwd
    (Reply.continue_,
      s.setTop (.fileTransfer { data with tryAbsolutePath, opState := .mtime }))
  else
    match afterLookup cfg data (ans.fileLookup (s.cacheDir data) data.remoteFile) with
    | .waitlist =>
      let list : SftpList :=
        { path := ⟨.default, none⟩, subDir := [], flagRefresh := true,
          flagFallbackCurrent := false, flagLink := false }
      (Reply.continue_, (s.setTop (.fileTransfer { data with opState := .waitlist })).push cfg
        (.list list))
    | .transfer => startTransfer ans s data
    | opState => (Reply.continue_, s.setTop (.fileTransfer { data with opState }))

/-- `CSftpListOpData::SubcommandResult`. -/
def listSubcommandResult (data : SftpList) (prevResult : Nat) : Nat × SftpSocket :=
  if data.opState ≠ .waitcwd then (Reply.internalError, s)
  else if prevResult ≠ Reply.ok then
    if data.fallbackToCurrent then
      let data := { data with fallbackToCurrent := false, path := data.path.clear, subDir := [] }
      (Reply.continue_, (s.setTop (.list data)).changeDir cfg ⟨.default, none⟩ [] false)
    else (prevResult, s)
  else
    (Reply.continue_, s.setTop
      (.list { data with path := s.currentPath, subDir := [], opState := .waitlock }))

/-- `SubcommandResult` of the operation on top. -/
def subcommandResult (op : SftpOp) (prevResult : Nat) : Nat × SftpSocket :=
  match op with
  | .connect _ _ | .mkdir _ | .removeDir _ =>
    (if prevResult = Reply.ok then Reply.continue_ else prevResult, s)
  | .changeDir _ => (Reply.continue_, s)
  | .delete _ => (Reply.internalError, s)
  | .rename data =>
    let useAbsolute := data.useAbsolute || prevResult ≠ Reply.ok
    (Reply.continue_, s.setTop (.rename { data with useAbsolute, opState := .act }))
  | .chmod data =>
    if data.opState ≠ .waitcwd then (Reply.internalError, s)
    else
      let useAbsolute := data.useAbsolute || prevResult ≠ Reply.ok
      (Reply.continue_, s.setTop (.chmod { data with useAbsolute, opState := .act }))
  | .list data => listSubcommandResult cfg s data prevResult
  | .fileTransfer data => transferSubcommandResult cfg ans s data prevResult

/-! ## Calls of the control socket -/

/-- What `SendNextCommand` does with the result of `Send`. -/
def afterSend (res : Nat) : SftpTask :=
  if res = Reply.continue_ then .sendNextCommand
  else if res = Reply.ok then .resetOperation res
  else if Reply.has res Reply.disconnected then .doClose res
  else if Reply.has res Reply.error then .resetOperation res
  else if res = Reply.wouldBlock then .idle
  else .resetOperation Reply.internalError

/-- One round of the loop in `SendNextCommand`. -/
def sendNextCommand : SftpSocket :=
  match s.operations with
  | [] => { s with task := .idle }
  | entry :: _ =>
    if entry.waitForAsyncRequest then { s with task := .idle }
    else
      let r := s.send cfg ans entry.op
      { r.2 with task := afterSend r.1 }

/-- `CControlSocket::ResetOperation`. -/
def resetOperation (code : Nat) : SftpSocket :=
  let currentPath := if ans.invalidated then s.currentPath.clear else s.currentPath
  match s.operations with
  | [] => { s with currentPath, task := .idle }
  | [_] => { s with currentPath, operations := [], task := .idle }
  | entry :: rest =>
    if code = Reply.ok ∨ code = Reply.error ∨ code = Reply.criticalError ∨
        code = Reply.errorNotFound then
      if entry.topLevelOperation then
        { s with currentPath, operations := rest, task := .sendNextCommand }
      else { s with operations := rest, task := .parseSubcommandResult code }
    else { s with operations := rest, task := .resetOperation code }

/-- `CControlSocket::ParseSubcommandResult`. -/
def parseSubcommandResult (code : Nat) : SftpSocket :=
  match s.operations with
  | [] => { s with task := .resetOperation Reply.error }
  | entry :: _ =>
    let r := s.subcommandResult cfg ans entry.op code
    { r.2 with task :=
      if r.1 = Reply.wouldBlock then .idle
      else if r.1 = Reply.continue_ then .sendNextCommand
      else .resetOperation r.1 }

/-- `CSftpControlSocket::DoClose`. -/
def doClose (code : Nat) : SftpSocket :=
  { s with
    process := false
    currentPath := s.currentPath.clear
    task := .resetOperation (Reply.error ||| Reply.disconnected ||| code) }

/-- `CSftpControlSocket::ProcessReply`. -/
def processReply (versionOk : Bool) (result : Nat) (response : WString) : SftpSocket :=
  match s.operations with
  | [] => s
  | entry :: _ =>
    if response.length > 65536 then
      { s with task := .doClose (Reply.error ||| Reply.disconnected) }
    else
      let r := s.parse cfg ans versionOk entry.op result response
      let isConnect := match entry.op with
        | .connect _ _ => true
        | _ => false
      { r.2 with task :=
        if r.1 = Reply.ok then .resetOperation Reply.ok
        else if r.1 = Reply.continue_ then .sendNextCommand
        else if Reply.has r.1 Reply.disconnected then .doClose r.1
        else if Reply.has r.1 Reply.error then
          if isConnect then .doClose (r.1 ||| Reply.disconnected) else .resetOperation r.1
        else .idle }

/-! ## Events -/

/-- The answer to the question whether to overwrite a file. -/
inductive FileExistsAction where
  /-- Overwrite, also where that depends on time or size. -/
  | overwrite
  /-- Resume, where the size of the target is known. -/
  | resume (known : Bool)
  /-- The new local name of a download, if there is a writer for it; or the new remote name. -/
  | rename (name : Option WString)
  | skip
deriving DecidableEq

/-- The transfer under its new name. -/
def renamed (data : SftpFileTransfer) (name : Option WString) : SftpFileTransfer :=
  if data.download then { data with localName := name.getD [] }
  else { data with remoteFile := name.getD [] }

/-- `SetFileExistsAction`. -/
def setFileExistsAction (action : FileExistsAction) : SftpSocket :=
  match s.operations with
  | { op := .fileTransfer data, topLevelOperation, .. } :: rest =>
    let setData (data : SftpFileTransfer) : SftpSocket :=
      { s with operations := ⟨.fileTransfer data, topLevelOperation, false⟩ :: rest }
    match action with
    | .overwrite => { setData data with task := .sendNextCommand }
    | .resume known =>
      { setData { data with resume := data.resume || known } with task := .sendNextCommand }
    | .rename name =>
      let found := ans.fileLookup (s.cacheDir data) (renamed data name).remoteFile
      if data.download && name.isNone then
        { setData data with task := .resetOperation Reply.internalError }
      else if !data.download && !(found.entry.isSome && found.matchedCase) then
        { setData (renamed data name) with task := .sendNextCommand }
      else
        let r := (setData (renamed data name)).checkOverwriteFile ans
        { r.2 with task := if r.1 = Reply.ok then .sendNextCommand else .idle }
    | .skip => { setData data with task := .resetOperation Reply.ok }
  | _ => s

/-- A byte of the answers to the helper's requests, `-` and numbers. -/
def isAnswerByte (b : UInt8) : Bool :=
  (asciiChar '0' ≤ b && b ≤ asciiChar '9') || b = asciiChar '-' || b = asciiChar ',' ||
    b = asciiChar ' '

end SftpSocket

inductive SftpSocketEvent where
  /-- Perform the call in `task`. -/
  | call (ans : SftpAnswers)
  /-- The engine starts an operation. -/
  | start (op : SftpOp)
  /-- A Reply or Done event of the helper. -/
  | reply (ans : SftpAnswers) (versionOk : Bool) (result : Nat) (response : WString)
  /-- `OnSftpListEvent`; a line may be too long. -/
  | listEntry (tooLong : Bool)
  /-- `OnObtainLock`. -/
  | obtainLock
  | fileExists (ans : SftpAnswers) (action : SftpSocket.FileExistsAction)
  /-- A password, or the answer about a host key. -/
  | answer (ans : SftpAnswers) (text : WString)
  /-- The answers to quota and buffer requests of the helper. -/
  | grant (ans : SftpAnswers) (numbers : List UInt8)
  /-- Cancellation, a timeout or the end of the helper. -/
  | close (code : Nat)

namespace SftpSocket

/-- The operations the engine starts, in their first states. -/
def Starts : SftpOp → Bool
  | .connect opState _ => opState = .init
  | .changeDir _ => false
  | .mkdir data => data.opState = .init
  | .delete data => !data.files.isEmpty
  | .removeDir _ => true
  | .rename data => data.opState = .init
  | .chmod data => data.opState = .init
  | .list data => data.opState = .init
  | .fileTransfer data => data.opState = .init

/-- `ParseEntry` of the list operation. -/
def listEntry (s : SftpSocket) (tooLong : Bool) : SftpSocket :=
  match s.operations with
  | { op := .list data, .. } :: _ =>
    if data.opState ≠ .list then { s with task := .resetOperation Reply.internalError }
    else if tooLong then { s with task := .resetOperation (Reply.error ||| Reply.disconnected) }
    else s
  | _ => s

def performCall (cfg : SftpConfig) (ans : SftpAnswers) (s : SftpSocket) : Option SftpSocket :=
  match s.task with
  | .idle => none
  | .sendNextCommand => some (sendNextCommand cfg ans s)
  | .resetOperation code => some (s.resetOperation ans code)
  | .doClose code => some (s.doClose code)
  | .parseSubcommandResult code => some (s.parseSubcommandResult cfg ans code)

/-- An event that finds no call in progress. -/
def handle (cfg : SftpConfig) (s : SftpSocket) : SftpSocketEvent → Option SftpSocket
  | .call _ => none
  | .start op =>
    if s.operations.isEmpty && Starts op then
      some { s.push cfg op with task := .sendNextCommand }
    else none
  | .reply ans versionOk result response =>
    if s.process then some (s.processReply cfg ans versionOk result response) else none
  | .listEntry tooLong => if s.process then some (s.listEntry tooLong) else none
  | .obtainLock => some { s with task := .sendNextCommand }
  | .fileExists ans action => some (s.setFileExistsAction ans action)
  | .answer ans text => some (s.sendCommand cfg ans text).2
  | .grant ans numbers =>
    if numbers.all isAnswerByte then
      some (s.addToStream ans (asciiChar '-' :: numbers ++ ascii "\n")).2
    else none
  | .close code => some { s with task := .doClose code }

def step (cfg : SftpConfig) (s : SftpSocket) (e : SftpSocketEvent) : Option SftpSocket :=
  match e with
  | .call ans => s.performCall cfg ans
  | e => if s.task = .idle then s.handle cfg e else none

end SftpSocket

/-- All runs of an SFTP control socket. -/
def sftpSystem (cfg : SftpConfig) : Lib.Lts SftpSocket SftpSocketEvent :=
  Lib.Lts.ofFun (· = {}) (SftpSocket.step cfg)

end FlintZilla
