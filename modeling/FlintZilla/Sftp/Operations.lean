import FlintZilla.Path.Names
import FlintZilla.Reply
import FlintZilla.Server
import FlintZilla.Sftp.CommandLine

/-!
# Operations of the SFTP control socket

The operations of `engine/sftp`, each with its data and its `Send`. An operation writes to the
helper in two ways only: through `CSftpControlSocket::SendCommand`, or, for a transfer, with a
command it puts together itself because the local and the remote name are in different encodings.

What a call asks of the engine's caches, locks, options and of the process is in `SftpAnswers`;
every call may get other answers.
-/

namespace FlintZilla

/-! ## Data -/

/-- `connectStates`. -/
inductive SftpConnectState where
  | init
  | proxy
  | keys
  | open_
deriving DecidableEq

/-- `cwdStates`. -/
inductive SftpCwdState where
  | init
  | pwd
  | cwd
  | cwdSubdir
deriving DecidableEq

/-- `mkdStates`. -/
inductive SftpMkdState where
  | init
  | findparent
  | mkdsub
  | cwdsub
  | tryfull
deriving DecidableEq

/-- `renameStates` and `chmodStates`: both go to the directory first. -/
inductive SftpNamedState where
  | init
  | waitcwd
  | act
deriving DecidableEq

/-- `listStates`. -/
inductive SftpListState where
  | init
  | waitcwd
  | waitlock
  | list
deriving DecidableEq

/-- `filetransferStates`. -/
inductive SftpTransferState where
  | init
  | waitcwd
  | waitlist
  | mtime
  | transfer
  | chmtime
deriving DecidableEq

/-- `CSftpChangeDirOpData`. -/
structure SftpChangeDir where
  opState : SftpCwdState := .init
  path : CServerPath
  subDir : WString := []
  target : CServerPath := ⟨.default, none⟩
  tryMkdOnFail : Bool := false
  linkDiscovery : Bool := false
  hasLock : Bool := false
deriving DecidableEq

/-- `CSftpMkdirOpData`. -/
structure SftpMkdir where
  opState : SftpMkdState := .init
  path : CServerPath
  currentMkdPath : CServerPath := ⟨.default, none⟩
  commonParent : CServerPath := ⟨.default, none⟩
  segments : List WString := []
  hasLock : Bool := false
deriving DecidableEq

/-- `CSftpDeleteOpData`. -/
structure SftpDelete where
  path : CServerPath
  files : List WString
  deleteFailed : Bool := false
deriving DecidableEq

/-- `CSftpRemoveDirOpData`. -/
structure SftpRemoveDir where
  path : CServerPath
  subDir : WString
deriving DecidableEq

/-- `CSftpRenameOpData`. -/
structure SftpRename where
  opState : SftpNamedState := .init
  fromPath : CServerPath
  fromFile : WString
  toPath : CServerPath
  toFile : WString
  useAbsolute : Bool := false
deriving DecidableEq

/-- `CSftpChmodOpData`. -/
structure SftpChmod where
  opState : SftpNamedState := .init
  path : CServerPath
  file : WString
  permission : WString
  useAbsolute : Bool := false
deriving DecidableEq

/-- `CSftpListOpData`. The flags are `LIST_FLAG_REFRESH`, `LIST_FLAG_FALLBACK_CURRENT` and
`LIST_FLAG_LINK`. -/
structure SftpList where
  opState : SftpListState := .init
  path : CServerPath
  subDir : WString
  flagRefresh : Bool
  flagFallbackCurrent : Bool
  flagLink : Bool
  refresh : Bool := false
  fallbackToCurrent : Bool := false
  hasLock : Bool := false
deriving DecidableEq

/-- `CSftpFileTransferOpData`. The local modification time is in seconds. -/
structure SftpFileTransfer where
  opState : SftpTransferState := .init
  download : Bool
  remotePath : CServerPath
  remoteFile : WString
  localName : WString
  resume : Bool := false
  tryAbsolutePath : Bool := false
  localFileTime : Option Int := none
deriving DecidableEq

inductive SftpOp where
  /-- `CSftpConnectOpData`, with the key files from `keyfile_` on. -/
  | connect (opState : SftpConnectState) (keyfiles : List WString)
  | changeDir (data : SftpChangeDir)
  | mkdir (data : SftpMkdir)
  | delete (data : SftpDelete)
  | removeDir (data : SftpRemoveDir)
  | rename (data : SftpRename)
  | chmod (data : SftpChmod)
  | list (data : SftpList)
  | fileTransfer (data : SftpFileTransfer)
deriving DecidableEq

/-- An operation on the stack. -/
structure SftpEntry where
  op : SftpOp
  topLevelOperation : Bool := false
  waitForAsyncRequest : Bool := false
deriving DecidableEq

/-- The options and the server of a connection. `proxyType` is `OPTION_PROXY_TYPE`, 0 also where the
server bypasses the proxy; `user` and `host` are as `open` gets them. -/
structure SftpConfig where
  encoding : ServerEncoding
  serverType : ServerType := .unix
  timezoneOffset : Int := 0
  keyfiles : List WString := []
  proxyType : Nat := 0
  proxyHost : WString := []
  proxyPort : Int := 0
  proxyUser : WString := []
  proxyPass : WString := []
  user : WString := []
  host : WString := []
  port : Nat := 22
  preserveTimestamps : Bool := false

/-- What the directory cache says about a file. -/
structure FileLookup where
  /-- The entry: whether it is unsure and whether it has a time. -/
  entry : Option (Bool × Bool) := none
  dirDidExist : Bool := false
  matchedCase : Bool := false
deriving DecidableEq

structure SftpAnswers where
  /-- The lock is not ours yet. -/
  lockWaiting : Bool := false
  /-- `CPathCache::Lookup`. -/
  pathLookup : CServerPath → WString → CServerPath := fun _ _ => ⟨.default, none⟩
  /-- `CDirectoryCache::LookupFile`. -/
  fileLookup : CServerPath → WString → FileLookup := fun _ _ => {}
  /-- The cached listing can be used. -/
  listingUsable : Bool := false
  /-- `CheckOverwriteFile` has to ask the user. -/
  fileExists : Bool := false
  /-- `localFileTime_`, as the factory of the reader or writer has it. -/
  localFileTime : Option Int := none
  /-- `ParsePwdReply`: the new current path. -/
  pwdReply : Option CServerPath := none
  /-- The helper can be started. -/
  spawns : Bool := true
  /-- The text can be converted to the server's encoding. -/
  converts : Bool := true
  /-- `process_->write` succeeds. -/
  writes : Bool := true
  /-- `m_invalidateCurrentPath`. -/
  invalidated : Bool := false

/-- The call in progress. -/
inductive SftpTask where
  | idle
  | sendNextCommand
  | resetOperation (code : Nat)
  | doClose (code : Nat)
  | parseSubcommandResult (code : Nat)
deriving DecidableEq

/-- The stack has its last operation in front. `written` is what the helper that runs, or ran last,
was sent, one entry a call of `process_->write`. -/
structure SftpSocket where
  operations : List SftpEntry := []
  currentPath : CServerPath := ⟨.default, none⟩
  process : Bool := false
  task : SftpTask := .idle
  written : List (List UInt8) := []
deriving DecidableEq

namespace SftpSocket

variable (cfg : SftpConfig) (ans : SftpAnswers) (s : SftpSocket)

/-- Replace the data of the operation on top. -/
def setTop (op : SftpOp) : SftpSocket :=
  match s.operations with
  | [] => s
  | entry :: rest => { s with operations := { entry with op } :: rest }

def clearCurrentPath : SftpSocket := { s with currentPath := s.currentPath.clear }

/-- `CSftpControlSocket::Push`: without a process a connect operation comes first. -/
def push (op : SftpOp) : SftpSocket :=
  let operations := { op } :: s.operations
  match s.operations, op with
  | [], .connect _ _ => { s with operations }
  | [], _ =>
    if s.process then { s with operations }
    else { s with
      operations := { op := .connect .init cfg.keyfiles, topLevelOperation := true } :: operations }
  | _ :: _, _ => { s with operations }

/-- `CSftpControlSocket::ChangeDir`. A directory is created for an upload. -/
def changeDir (path : CServerPath) (subDir : WString) (linkDiscovery : Bool) : SftpSocket :=
  let tryMkdOnFail :=
    match s.operations.head?.map (·.op) with
    | some (.fileTransfer data) => !data.download
    | _ => false
  s.push cfg (.changeDir { path, subDir, linkDiscovery, tryMkdOnFail })

/-! ## Writing -/

/-- `CSftpControlSocket::AddToStream` of bytes. -/
def addToStream (cmd : List UInt8) : Nat × SftpSocket :=
  if !s.process then (Reply.internalError, s)
  else if !ans.writes then (Reply.error ||| Reply.disconnected, s)
  else (Reply.wouldBlock, { s with written := s.written ++ [cmd] })

/-- `CSftpControlSocket::SendCommand`. -/
def sendCommand (cmd : WString) : Nat × SftpSocket :=
  if '\n' ∈ cmd ∨ '\r' ∈ cmd then (Reply.internalError, s)
  else if !ans.converts then (Reply.error, s)
  else s.addToStream ans (cfg.encoding.convToServer (cmd ++ ['\n']))

/-! ## `Send` -/

/-- `%d`. -/
def decimal (n : Int) : WString := (toString n).toList

def proxyCommand (type : Nat) : WString :=
  let quote (text : WString) := ['"'] ++ text ++ ['"']
  let cmd := "proxy ".toList ++ decimal type ++ [' '] ++ quote cfg.proxyHost ++ [' '] ++
    decimal cfg.proxyPort
  let cmd := if cfg.proxyUser.isEmpty then cmd else cmd ++ [' '] ++ quote cfg.proxyUser
  if cfg.proxyPass.isEmpty then cmd else cmd ++ [' '] ++ quote cfg.proxyPass

/-- `CSftpConnectOpData::Send`. A new helper has read nothing yet. -/
def sendConnect (opState : SftpConnectState) (keyfiles : List WString) : Nat × SftpSocket :=
  match opState with
  | .init =>
    if !ans.spawns then (Reply.error ||| Reply.disconnected, s)
    else (Reply.wouldBlock,
      { s.setTop (.connect .init cfg.keyfiles) with process := true, written := [] })
  | .proxy =>
    -- `ProxyType`: 1 is HTTP, 2 SOCKS5 and 3 SOCKS4
    if cfg.proxyType = 1 ∨ cfg.proxyType = 2 ∨ cfg.proxyType = 3 then
      s.sendCommand cfg ans (proxyCommand cfg cfg.proxyType)
    else (Reply.internalError ||| Reply.disconnected, s)
  | .keys =>
    match keyfiles with
    | [] => (Reply.internalError, s)
    | keyfile :: rest =>
      (s.setTop (.connect .keys rest)).sendCommand cfg ans
        ("keyfile \"".toList ++ keyfile ++ ['"'])
  | .open_ =>
    s.sendCommand cfg ans ("open \"".toList ++ cfg.user ++ ['@'] ++ cfg.host ++ "\" ".toList ++
      decimal cfg.port)

/-- `cwd_init`: the state `Send` goes on in, or `none` where the directory is the current one. -/
def cwdInit (data : SftpChangeDir) : Option SftpChangeDir :=
  let path := if data.path.type = .default then data.path.setType cfg.serverType else data.path
  let data := { data with path }
  if path.empty then
    if s.currentPath.empty then some { data with opState := .pwd } else none
  else
    let parent := ans.pathLookup path []
    let atParent := s.currentPath = path ∨ (!parent.empty ∧ parent = s.currentPath)
    if data.subDir.isEmpty then
      if atParent then none else some { data with target := parent, opState := .cwd }
    else
      let target := ans.pathLookup path data.subDir
      if !target.empty then
        if s.currentPath = target then none
        else some { data with target, path := target, subDir := [], opState := .cwd }
      else if atParent then
        some { data with target := ⟨.default, none⟩, opState := .cwdSubdir }
      else some { data with target := parent, opState := .cwd }

/-- `CSftpChangeDirOpData::Send`. -/
def sendChangeDir (data : SftpChangeDir) : Nat × SftpSocket :=
  match data.opState with
  | .init =>
    match cwdInit cfg ans s data with
    | none => (Reply.ok, s)
    | some data => (Reply.continue_, s.setTop (.changeDir data))
  | .pwd => s.sendCommand cfg ans "pwd".toList
  | .cwd =>
    let data := { data with hasLock := data.hasLock || data.tryMkdOnFail }
    if data.hasLock && ans.lockWaiting then
      (Reply.wouldBlock, s.setTop (.changeDir { data with tryMkdOnFail := false }))
    else
      (s.setTop (.changeDir data)).clearCurrentPath.sendCommand cfg ans
        ("cd ".toList ++ quoteFilename data.path.getPath)
  | .cwdSubdir =>
    if data.subDir.isEmpty then (Reply.internalError, s)
    else
      s.clearCurrentPath.sendCommand cfg ans
        ("cd ".toList ++ quoteFilename data.subDir)

/-- `mkd_init`; `none` where the directory is there already. -/
def mkdInit (data : SftpMkdir) : Option SftpMkdir :=
  let exists_ := !s.currentPath.empty &&
    (s.currentPath = data.path || s.currentPath.isSubdirOf data.path (· == ·) false)
  if exists_ then none
  else
    let commonParent :=
      if s.currentPath.empty then data.commonParent
      else if s.currentPath.isParentOf data.path then s.currentPath
      else data.path.getCommonParent s.currentPath
    if !data.path.hasParent then some { data with commonParent, opState := .tryfull }
    else
      let currentMkdPath := data.path.getParent
      let segments := data.segments ++ [data.path.getLastSegment]
      let opState := if currentMkdPath = s.currentPath then .mkdsub else .findparent
      some { data with commonParent, currentMkdPath, segments, opState }

/-- `CSftpMkdirOpData::Send`. -/
def sendMkdir (data : SftpMkdir) : Nat × SftpSocket :=
  let data := { data with hasLock := true }
  let s := s.setTop (.mkdir data)
  if ans.lockWaiting then (Reply.wouldBlock, s)
  else
    match data.opState with
    | .init =>
      match mkdInit s data with
      | none => (Reply.ok, s)
      | some data => (Reply.continue_, s.setTop (.mkdir data))
    | .findparent | .cwdsub =>
      s.clearCurrentPath.sendCommand cfg ans
        ("cd ".toList ++ quoteFilename data.currentMkdPath.getPath)
    | .mkdsub =>
      s.sendCommand cfg ans ("mkdir ".toList ++ quoteFilename (data.segments.getLastD []))
    | .tryfull => s.sendCommand cfg ans ("mkdir ".toList ++ quoteFilename data.path.getPath)

/-- `CSftpDeleteOpData::Send`. -/
def sendDelete (data : SftpDelete) : Nat × SftpSocket :=
  let file := data.files.getLastD []
  if file.isEmpty then (Reply.internalError, s)
  else
    let filename := data.path.formatFilename file false
    if filename.isEmpty then (Reply.error, s)
    else s.sendCommand cfg ans ("rm ".toList ++ quoteFilename filename)

/-- `CSftpRemoveDirOpData::Send`. -/
def sendRemoveDir (data : SftpRemoveDir) : Nat × SftpSocket :=
  let cached := ans.pathLookup data.path data.subDir
  let full := if cached.empty then data.path.addSegment data.subDir else (true, cached)
  if !full.1 then (Reply.error, s)
  else s.sendCommand cfg ans ("rmdir ".toList ++ quoteFilename full.2.getPath)

/-- `CSftpRenameOpData::Send`. -/
def sendRename (data : SftpRename) : Nat × SftpSocket :=
  match data.opState with
  | .init =>
    (Reply.continue_, (s.setTop (.rename { data with opState := .waitcwd })).changeDir cfg
      data.fromPath [] false)
  | .act =>
    let fromQuoted :=
      quoteFilename (data.fromPath.formatFilename data.fromFile (!data.useAbsolute))
    let toQuoted := quoteFilename (data.toPath.formatFilename data.toFile
      (!data.useAbsolute && data.fromPath = data.toPath))
    s.sendCommand cfg ans ("mv ".toList ++ fromQuoted ++ [' '] ++ toQuoted)
  | .waitcwd => (Reply.internalError, s)

/-- `CSftpChmodOpData::Send`. -/
def sendChmod (data : SftpChmod) : Nat × SftpSocket :=
  match data.opState with
  | .init =>
    (Reply.continue_, (s.setTop (.chmod { data with opState := .waitcwd })).changeDir cfg
      data.path [] false)
  | .act =>
    let quotedFilename := quoteFilename (data.path.formatFilename data.file (!data.useAbsolute))
    s.sendCommand cfg ans ("chmod ".toList ++ data.permission ++ [' '] ++ quotedFilename)
  | .waitcwd => (Reply.internalError, s)

/-- `CSftpListOpData::Send`. -/
def sendList (data : SftpList) : Nat × SftpSocket :=
  match data.opState with
  | .init =>
    let path := if data.path.type = .default then data.path.setType cfg.serverType else data.path
    let data := { data with
      path, refresh := data.flagRefresh, opState := .waitcwd
      fallbackToCurrent := !path.empty && data.flagFallbackCurrent }
    (Reply.continue_, (s.setTop (.list data)).changeDir cfg path data.subDir data.flagLink)
  | .waitlock =>
    if ans.listingUsable then (Reply.ok, s)
    else
      let s := s.setTop (.list { data with hasLock := true })
      if ans.lockWaiting then (Reply.wouldBlock, s)
      else (Reply.continue_, s.setTop (.list { data with hasLock := true, opState := .list }))
  | .list => s.sendCommand cfg ans "ls".toList
  | .waitcwd => (Reply.internalError, s)

/-- The remote name in the commands of a transfer. -/
def remoteName (data : SftpFileTransfer) : WString :=
  quoteFilename (data.remotePath.formatFilename data.remoteFile (!data.tryAbsolutePath))

/-- The command that starts a transfer: the remote name in the server's encoding, the local one in
UTF-8. -/
def transferCommand (data : SftpFileTransfer) : List UInt8 :=
  let remoteFile := cfg.encoding.convToServer (remoteName data)
  let localFile := ServerEncoding.utf8.convToServer (quoteFilename data.localName)
  let resume := if data.resume then ascii "re" else []
  if data.download then resume ++ ascii "get " ++ remoteFile ++ ascii " " ++ localFile
  else resume ++ ascii "put " ++ localFile ++ ascii " " ++ remoteFile

/-- `CSftpFileTransferOpData::Send`. -/
def sendFileTransfer (data : SftpFileTransfer) : Nat × SftpSocket :=
  match data.opState with
  | .init =>
    let remotePath :=
      if data.remotePath.type = .default then data.remotePath.setType cfg.serverType
      else data.remotePath
    let data := { data with remotePath, opState := .waitcwd, localFileTime := ans.localFileTime }
    (Reply.continue_, (s.setTop (.fileTransfer data)).changeDir cfg remotePath [] false)
  | .transfer =>
    if !ans.converts then (Reply.error, s)
    -- not `SendCommand`: the line is not looked through
    else s.addToStream ans (transferCommand cfg data ++ ascii "\r\n")
  | .mtime => s.sendCommand cfg ans ("mtime ".toList ++ remoteName data)
  | .chmtime =>
    if data.download then (Reply.internalError, s)
    else
      let seconds := data.localFileTime.getD 0 - 60 * cfg.timezoneOffset
      s.sendCommand cfg ans ("chmtime ".toList ++ decimal seconds ++ [' '] ++ remoteName data)
  | .waitcwd | .waitlist => (Reply.internalError, s)

/-- `Send` of the operation on top. -/
def send (op : SftpOp) : Nat × SftpSocket :=
  match op with
  | .connect opState keyfiles => sendConnect cfg ans s opState keyfiles
  | .changeDir data => sendChangeDir cfg ans s data
  | .mkdir data => sendMkdir cfg ans s data
  | .delete data => sendDelete cfg ans s data
  | .removeDir data => sendRemoveDir cfg ans s data
  | .rename data => sendRename cfg ans s data
  | .chmod data => sendChmod cfg ans s data
  | .list data => sendList cfg ans s data
  | .fileTransfer data => sendFileTransfer cfg ans s data

end SftpSocket

end FlintZilla
