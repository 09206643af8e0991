import FlintZilla.Cache.PathCache
import FlintZilla.Ftp.Logon
import FlintZilla.Lib.Lts
import FlintZilla.Lib.Quoting
import FlintZilla.Path.Names

/-!
# Changing the directory over FTP

`CFtpChangeDirOpData`, with `CControlSocket::ParsePwdReply`. The operation changes to a path, then
to a subdirectory of it, and asks with `PWD` where it has got to, unless the path cache knows. The
control socket's current path is cleared before every command that may move the server, and set
again from the reply to `PWD` or from the cache.

The session runs one operation after the other against a server, of which it keeps the working
directory. An operation may be cancelled while its command has no reply; the reply is then skipped,
and the next operation does not send before it has come.
-/

namespace FlintZilla

open Lib Lib.Search Lib.Quoting List

/-- `CServerPath::FormatSubdir`. -/
def CServerPath.formatSubdir (p : CServerPath) (subdir : WString) : WString :=
  escapeSeparators p.type subdir

/-- A path without a type gets that of the server. -/
def CServerPath.typedAs (p : CServerPath) (type : ServerType) : CServerPath :=
  if p.type = .default then p.setType type else p

/-! ## The reply to `PWD` -/

/-- What stands between the first and the last occurrence of a mark. -/
def enclosed (mark : Char) (reply : WString) : Option WString :=
  match find (· == mark) reply, rfind (· == mark) reply with
  | some pos1, some pos2 =>
    if pos1 < pos2 then some ((reply.drop (pos1 + 1)).take (pos2 - pos1 - 1)) else none
  | _, _ => none

/-- The second word, of a server that does not quote the path. -/
def firstToken (reply : WString) : WString :=
  match find (· == ' ') reply with
  | none => []
  | some pos1 =>
    let reply := reply.drop (pos1 + 1)
    match find (· == ' ') reply with
    | none => reply
    | some pos2 => reply.take pos2

/-- The path in the reply. -/
def pwdText (reply : WString) : WString :=
  match enclosed '"' reply with
  | some text => undoubled '"' text
  | none =>
    match enclosed '\'' reply with
    | some text => undoubled '"' text
    | none => firstToken reply

/-- `CControlSocket::ParsePwdReply`: the result and the new current path. -/
def parsePwdReply (type : ServerType) (currentPath : CServerPath) (reply : WString)
    (defaultPath : CServerPath) : Bool × CServerPath :=
  let parsed := (currentPath.setType type).setPath (pwdText reply) false
  if parsed.1 then (true, parsed.2.1)
  else if !defaultPath.empty then (true, defaultPath)
  else (false, parsed.2.1)

/-! ## The operation -/

/-- `cwdStates`. -/
inductive CwdState where
  | init
  | pwd
  | cwd
  | pwdCwd
  | cwdSubdir
  | pwdSubdir
deriving DecidableEq

/-- The commands of the operation. -/
inductive CwdCommand where
  | pwd
  | cwd (argument : WString)
  | cdup
deriving DecidableEq

def CwdCommand.text : CwdCommand → WString
  | .pwd => "PWD".toList
  | .cwd argument => "CWD ".toList ++ argument
  | .cdup => "CDUP".toList

/-- `CFtpChangeDirOpData`. -/
structure FtpChangeDir where
  path : CServerPath
  subDir : WString
  target : CServerPath
  tryMkdOnFail : Bool
  linkDiscovery : Bool
  triedCdup : Bool
  opState : CwdState
deriving DecidableEq

/-- What `Send` does. -/
inductive CwdSend where
  | result (code : Nat)
  | command (command : CwdCommand)
deriving DecidableEq

/-- What `ParseResponse` does. -/
inductive CwdParsed where
  | result (code : Nat)
  /-- The directory is to be created first. -/
  | mkdir (path : CServerPath)
deriving DecidableEq

namespace FtpChangeDir

/-- The operation before its first `Send`. -/
def new (path : CServerPath) (subDir : WString) (linkDiscovery tryMkdOnFail : Bool) :
    FtpChangeDir where
  path := path
  subDir := subDir
  target := ⟨.default, none⟩
  tryMkdOnFail := tryMkdOnFail
  linkDiscovery := linkDiscovery
  triedCdup := false
  opState := .init

/-- The test for a path that the server need not be told. -/
def isCurrent (currentPath path target : CServerPath) : Bool :=
  currentPath = path || (!target.empty && target = currentPath)

/-- The state `cwd_init` of `Send`. -/
def sendInit (type : ServerType) (cache : ServerPathCache) (currentPath : CServerPath)
    (op : FtpChangeDir) : Nat × FtpChangeDir :=
  let op := { op with path := op.path.typedAs type }
  if op.path.empty then
    if currentPath.empty then (Reply.continue_, { op with opState := .pwd }) else (Reply.ok, op)
  else if op.subDir ≠ [] then
    let target := cache.lookup op.path op.subDir
    if !target.empty then
      if currentPath = target then (Reply.ok, { op with target })
      else (Reply.continue_, { op with target, path := target, subDir := [], opState := .cwd })
    else
      -- the target is unknown, that of the path may be known
      let target := cache.lookup op.path []
      if isCurrent currentPath op.path target then
        (Reply.continue_, { op with target := target.clear, opState := .cwdSubdir })
      else (Reply.continue_, { op with target, opState := .cwd })
  else
    let target := cache.lookup op.path []
    if isCurrent currentPath op.path target then (Reply.ok, { op with target })
    else (Reply.continue_, { op with target, opState := .cwd })

/-- The command of the state `cwd_cwd_subdir`. -/
def subdirCommand (op : FtpChangeDir) : CwdCommand :=
  if op.subDir = "..".toList ∧ !op.triedCdup then .cdup
  else .cwd (op.path.formatSubdir op.subDir)

/-- `CFtpChangeDirOpData::Send`, with the new current path; `waiting` is what `opLock_` says. -/
def send (type : ServerType) (cache : ServerPathCache) (currentPath : CServerPath) (waiting : Bool)
    (op : FtpChangeDir) : CwdSend × CServerPath × FtpChangeDir :=
  match op.opState with
  | .init =>
    let r := sendInit type cache currentPath op
    (.result r.1, currentPath, r.2)
  | .pwd | .pwdCwd | .pwdSubdir => (.command .pwd, currentPath, op)
  | .cwd =>
    -- another engine is creating the directory
    if waiting then (.result Reply.wouldBlock, currentPath, { op with tryMkdOnFail := false })
    else (.command (.cwd op.path.getPath), currentPath.clear, op)
  | .cwdSubdir =>
    if op.subDir = [] then (.result Reply.internalError, currentPath, op)
    else (.command op.subdirCommand, currentPath.clear, op)

/-- The directory the operation assumes to be in if the reply to the last `PWD` is of no use. -/
def assumedPath (op : FtpChangeDir) : CServerPath :=
  if op.subDir = "..".toList then
    if op.path.hasParent then op.path.getParent else op.path.clear
  else (op.path.addSegment op.subDir).2

/-- The current path after a reply to `PWD`, and whether there is one. -/
def confirm (type : ServerType) (currentPath assumed : CServerPath) (response : WString) :
    Bool × CServerPath :=
  if FtpSession.positive response then parsePwdReply type currentPath response assumed
  else if assumed.empty then (false, currentPath)
  else (true, assumed)

/-- `CFtpChangeDirOpData::ParseResponse`, with the new current path and the new cache. -/
def parseResponse (type : ServerType) (cache : ServerPathCache) (currentPath : CServerPath)
    (response : WString) (op : FtpChangeDir) :
    CwdParsed × CServerPath × ServerPathCache × FtpChangeDir :=
  let positive := FtpSession.positive response
  match op.opState with
  | .init => (.result Reply.continue_, currentPath, cache, op)
  | .pwd =>
    if !positive then (.result Reply.error, currentPath, cache, op)
    else
      let r := parsePwdReply type currentPath response ⟨.default, none⟩
      (.result (if r.1 then Reply.ok else Reply.error), r.2, cache, op)
  | .cwd =>
    if !positive then
      if op.tryMkdOnFail then
        (.mkdir op.path, currentPath, cache, { op with tryMkdOnFail := false })
      else (.result Reply.error, currentPath, cache, op)
    else if op.target.empty then
      (.result Reply.continue_, currentPath, cache, { op with opState := .pwdCwd })
    else if op.subDir = [] then (.result Reply.ok, op.target, cache, op)
    else
      (.result Reply.continue_, op.target, cache,
        { op with target := op.target.clear, opState := .cwdSubdir })
  | .pwdCwd =>
    -- the path is not empty, or there would have been no `CWD`
    let r := if positive then parsePwdReply type currentPath response op.path else (true, op.path)
    if !r.1 then (.result Reply.error, r.2, cache, op)
    else
      let cache := if op.target.empty then cache.store r.2 op.path [] else cache
      if op.subDir = [] then (.result Reply.ok, r.2, cache, op)
      else (.result Reply.continue_, r.2, cache, { op with opState := .cwdSubdir })
  | .cwdSubdir =>
    if positive then
      (.result Reply.continue_, currentPath, cache, { op with opState := .pwdSubdir })
    else if op.subDir = "..".toList ∧ !op.triedCdup ∧ response.take 2 = "50".toList then
      -- `CDUP` is not implemented
      (.result Reply.continue_, currentPath, cache, { op with triedCdup := true })
    else if op.linkDiscovery then (.result Reply.linkNotDir, currentPath, cache, op)
    else (.result Reply.error, currentPath, cache, op)
  | .pwdSubdir =>
    let r := confirm type currentPath op.assumedPath response
    if !r.1 then (.result Reply.error, r.2, cache, op)
    else
      let cache := if op.target.empty then cache.store r.2 op.path op.subDir else cache
      (.result Reply.ok, r.2, cache, op)

end FtpChangeDir

/-! ## A server, and the operations of a session -/

/-- A server whose directory tree does not change. -/
structure FtpServer (Dir : Type) where
  /-- The type the client takes it for. -/
  type : ServerType
  /-- The full name of a directory. -/
  name : Dir → WString
  /-- Where `CWD` leads from a directory, if anywhere. -/
  cwd : Dir → WString → Option Dir
  cdup : Dir → Option Dir

variable {Dir : Type}

namespace FtpServer

/-- Where a command that succeeds leads. -/
def leads (server : FtpServer Dir) (workingDir : Dir) : CwdCommand → Option Dir
  | .pwd => some workingDir
  | .cwd argument => server.cwd workingDir argument
  | .cdup => server.cdup workingDir

/-- The answers of the server. `CWD` and `CDUP` may fail, but succeed only if they lead somewhere;
`PWD` succeeds with the quoted name of the directory, and no mark but those around it and in it. -/
def Answers (server : FtpServer Dir) (workingDir : Dir) : CwdCommand → WString → Prop
  | .pwd, response => FtpSession.positive response = true ∧
      ∃ code comment, '"' ∉ code ∧ '"' ∉ comment ∧
        response = code ++ quoted '"' (server.name workingDir) ++ comment
  | command, response => FtpSession.positive response = true →
      (server.leads workingDir command).isSome = true

/-- The marks around a name that is quoted in a reply can be found from the left. -/
theorem quoted_in_reply {response name : WString} :
    (∃ code comment, '"' ∉ code ∧ '"' ∉ comment ∧ response = code ++ quoted '"' name ++ comment) ↔
      quoted '"' name <+: response.dropWhile (· != '"') ∧
        '"' ∉ (response.dropWhile (· != '"')).drop (quoted '"' name).length := by
  constructor
  · rintro ⟨code, comment, hcode, hcomment, rfl⟩
    have hdrop : (code ++ quoted '"' name ++ comment).dropWhile (· != '"') =
        quoted '"' name ++ comment := by
      rw [append_assoc, dropWhile_append_of_pos]
      · rfl
      · intro c hc
        rw [bne_iff_ne]
        rintro rfl
        exact hcode hc
    rw [hdrop, drop_left]
    exact ⟨prefix_append _ _, hcomment⟩
  · rintro ⟨⟨comment, hcomment⟩, hmark⟩
    refine ⟨response.takeWhile (· != '"'), comment, ?_, ?_, ?_⟩
    · intro hmem
      exact absurd (mem_takeWhile_imp hmem) (by decide)
    · rwa [← hcomment, drop_left] at hmark
    · rw [append_assoc, hcomment, takeWhile_append_dropWhile]

instance (server : FtpServer Dir) (workingDir : Dir) (command : CwdCommand) (response : WString) :
    Decidable (server.Answers workingDir command response) :=
  match command with
  | .pwd => decidable_of_iff _ (and_congr_right fun _ => quoted_in_reply.symm)
  | .cwd _ | .cdup => inferInstanceAs (Decidable (_ → _))

/-- The directory after the command; one that fails does not move the server. -/
def moved (server : FtpServer Dir) (workingDir : Dir) (command : CwdCommand) (response : WString) :
    Dir :=
  if FtpSession.positive response then (server.leads workingDir command).getD workingDir
  else workingDir

end FtpServer

/-- The control socket and its server, as far as changing directories goes. -/
structure CwdSession (Dir : Type) where
  currentPath : CServerPath
  cache : ServerPathCache
  op : Option FtpChangeDir
  /-- The command that has no reply yet. -/
  outstanding : Option CwdCommand
  /-- `m_repliesToSkip`: the operation of that command is gone. -/
  skip : Bool
  workingDir : Dir
deriving DecidableEq

inductive CwdEvent where
  | changeDir (path : CServerPath) (subDir : WString) (linkDiscovery : Bool)
  | send
  | reply (response : WString)
  | cancel
deriving DecidableEq

namespace CwdSession

/-- Before the first operation. -/
def fresh (workingDir : Dir) : CwdSession Dir where
  currentPath := ⟨.default, none⟩
  cache := []
  op := none
  outstanding := none
  skip := false
  workingDir := workingDir

/-- The operation is over unless it goes on or waits. -/
def settle (s : CwdSession Dir) (op : FtpChangeDir) (code : Nat) : CwdSession Dir :=
  { s with op := if code = Reply.continue_ ∨ code = Reply.wouldBlock then some op else none }

def send (server : FtpServer Dir) (canSend : WString → Bool) (s : CwdSession Dir)
    (op : FtpChangeDir) : CwdSession Dir :=
  match op.send server.type s.cache s.currentPath false with
  | (.result code, currentPath, op) => { s with currentPath }.settle op code
  | (.command command, currentPath, op) =>
    -- a text that cannot be converted is not sent
    if canSend command.text then
      { s with currentPath, op := some op, outstanding := some command, skip := false }
    else { s with currentPath }.settle op Reply.error

def reply (server : FtpServer Dir) (s : CwdSession Dir) (command : CwdCommand)
    (response : WString) : CwdSession Dir :=
  let s := { s with
    outstanding := none, workingDir := server.moved s.workingDir command response }
  match s.skip, s.op with
  | false, some op =>
    match op.parseResponse server.type s.cache s.currentPath response with
    | (.result code, currentPath, cache, op) => { s with currentPath, cache }.settle op code
    | (.mkdir _, currentPath, cache, op) => { s with currentPath, cache, op := some op }
  | _, _ => { s with skip := false }

def step (server : FtpServer Dir) (canSend : WString → Bool) (s : CwdSession Dir) :
    CwdEvent → Option (CwdSession Dir)
  | .changeDir path subDir linkDiscovery =>
    match s.op with
    | none => some { s with op := some (.new path subDir linkDiscovery false) }
    | some _ => none
  | .send =>
    match s.op, s.outstanding with
    | some op, none => some (s.send server canSend op)
    | _, _ => none
  | .reply response =>
    match s.outstanding with
    | some command => some (s.reply server command response)
    | none => none
  | .cancel =>
    match s.op with
    -- an operation that waits for the reply of its predecessor leaves it to be skipped
    | some _ => some { s with op := none, skip := s.outstanding.isSome }
    | none => none

/-- The server answers the outstanding command as it does. -/
def Answered (server : FtpServer Dir) (s : CwdSession Dir) : CwdEvent → Prop
  | .reply response => ∀ command ∈ s.outstanding, server.Answers s.workingDir command response
  | _ => True

instance (server : FtpServer Dir) (s : CwdSession Dir) (e : CwdEvent) :
    Decidable (s.Answered server e) :=
  match e with
  | .reply response =>
    inferInstanceAs (Decidable (∀ command ∈ s.outstanding,
      server.Answers s.workingDir command response))
  | .changeDir .. | .send | .cancel => isTrue trivial

end CwdSession

/-- A session of operations that change the directory and do not create it. -/
def changeDirSystem (server : FtpServer Dir) (canSend : WString → Bool) :
    Lts (CwdSession Dir) CwdEvent :=
  (Lts.ofFun (fun s => ∃ workingDir, s = .fresh workingDir)
    (CwdSession.step server canSend)).restrict (CwdSession.Answered server)

end FlintZilla
