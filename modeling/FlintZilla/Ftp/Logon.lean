import FlintZilla.Ftp.ControlSocket
import FlintZilla.Ascii
import FlintZilla.Lib.Search
import FlintZilla.Server

/-!
# The FTP logon

`CFtpLogonOpData` of `engine/ftp/logon.cpp` for connections without an FTP proxy, so that the
commands of the login sequence have no text of their own.

It works on the state of the control socket it uses: the server with its capabilities, the
credentials, the layer that is active, and the commands that were handed to
`CRealControlSocket::Send`. Latencies and messages other than errors are left out.
-/

namespace FlintZilla

open Lib.Search

/-! ## Capabilities -/

/-- `capabilities`. -/
inductive Capabilities where
  | unknown
  | yes
  | no
deriving DecidableEq

/-- `capabilityNames`, those the logon reads or sets. -/
inductive CapabilityName where
  | systCommand
  | featCommand
  | clntCommand
  | utf8Command
  | mlsdCommand
  | opstMlstCommand
  | mfmtCommand
  | mdtmCommand
  | sizeCommand
  | modeZSupport
  | tvfsSupport
  | restStream
  | epsvCommand
  | inferredTimezoneOffset
  | authTlsCommand
  | authSslCommand
deriving DecidableEq

structure Capability where
  cap : Capabilities
  option : WString
deriving DecidableEq

/-- `CServerCapabilities`. The map is keyed by the server; during a connection only the type of the
server changes. -/
abbrev CapabilityCache := ServerType → CapabilityName → Capability

/-- `SetCapability`. -/
def CapabilityCache.set (cache : CapabilityCache) (server : CServer) (name : CapabilityName)
    (cap : Capabilities) (option : WString) : CapabilityCache :=
  fun t n => if t = server.type ∧ n = name then ⟨cap, option⟩ else cache t n

/-- `GetCapability`. -/
def CapabilityCache.get (cache : CapabilityCache) (server : CServer) (name : CapabilityName) :
    Capability :=
  cache server.type name

/-! ## Credentials -/

inductive LogonType where
  | anonymous
  | normal
  | ask
  | interactive
  | account
  | key
  | profile
deriving DecidableEq

structure Credentials where
  logonType : LogonType
  password : WString
  account : WString
deriving DecidableEq

def Credentials.getPass (c : Credentials) : WString :=
  if c.logonType = .anonymous then [] else c.password

/-! ## The operation -/

/-- `loginCommandType`. -/
inductive LoginCommandType where
  | user
  | pass
  | account
deriving DecidableEq

/-- `t_loginCommand`. -/
structure LoginCommand where
  optional : Bool
  type : LoginCommandType
deriving DecidableEq

/-- `PrepareLoginSequence`. -/
def prepareLoginSequence (c : Credentials) : List LoginCommand :=
  [⟨false, .user⟩, ⟨true, .pass⟩] ++ if c.account = [] then [] else [⟨true, .account⟩]

/-- `loginStates`. -/
inductive LogonState where
  | connect
  | welcome
  | authTls
  | authSsl
  | authWait
  | security
  | logon
  | syst
  | feat
  | clnt
  | optsUtf8
  | pbsz
  | prot
  | optsMlst
  | customCommands
  | done
deriving DecidableEq

/-- In the order of their numbers. -/
def LogonState.all : List LogonState :=
  [.connect, .welcome, .authTls, .authSsl, .authWait, .security, .logon, .syst, .feat, .clnt,
    .optsUtf8, .pbsz, .prot, .optsMlst, .customCommands, .done]

/-- The states that `++opState` goes through. -/
def LogonState.following (s : LogonState) : List LogonState :=
  (LogonState.all.dropWhile (· ≠ s)).tail

/-- `CFtpLogonOpData`. The entries of `neededCommands` that are zero are `skipped`. -/
structure FtpLogon where
  opState : LogonState
  skipped : List LogonState
  loginSequence : List LoginCommand
  customCommandIndex : Nat
  challenge : WString
  waitChallenge : Bool
  gotFirstWelcomeLine : Bool
deriving DecidableEq

/-- The constructor, without what it does to the control socket. -/
def FtpLogon.new (server : CServer) : FtpLogon where
  opState := .connect
  skipped :=
    (if server.protocol ≠ .ftpes ∧ server.protocol ≠ .ftp then
      [.authTls, .authSsl, .authWait] ++ if server.protocol ≠ .ftps then [.pbsz, .prot] else []
    else []) ++ if server.postLoginCommands = [] then [.customCommands] else []
  loginSequence := []
  customCommandIndex := 0
  challenge := []
  waitChallenge := false
  gotFirstWelcomeLine := false

def FtpLogon.skip (l : FtpLogon) (states : List LogonState) : FtpLogon :=
  { l with skipped := l.skipped ++ states }

/-! ## The control socket -/

/-- What `active_layer_` is. In the last two cases it is `tls_layer_`, which exists in these cases
only. -/
inductive Layer where
  /-- There is no connection. -/
  | absent
  | connecting
  | plain
  /-- The handshake is in progress. -/
  | handshake
  | tls
deriving DecidableEq

/-- `active_layer_` is the TLS layer of the control connection. -/
def Layer.isTls : Layer → Bool
  | .handshake | .tls => true
  | .absent | .connecting | .plain => false

/-- An operation on the stack; only logon operations are known. -/
structure FtpOperation where
  logon : Option FtpLogon
  topLevelOperation : Bool
  waitForAsyncRequest : Bool
deriving DecidableEq

/-- `CFtpControlSocket`. The stack has its last operation in front. `task` is the call in progress,
`receiving` is whether `OnReceive` is. `sent` are the commands that were handed to
`CRealControlSocket::Send`, each with the layer that was active. -/
structure FtpSession where
  server : CServer
  credentials : Credentials
  cache : CapabilityCache
  operations : List FtpOperation
  layer : Layer
  receiveBuffer : List UInt8
  multilineResponseCode : WString
  multilineResponseLines : List WString
  pendingReplies : Nat
  repliesToSkip : Nat
  useUTF8 : Bool
  protectDataChannel : Bool
  task : FtpTask
  receiving : Bool
  sent : List (WString × Layer)
  errors : List String

/-- The conversions of `libfilezilla`. All narrow character sets extend ASCII. -/
structure FtpEnv where
  /-- `fz::to_wstring_from_utf8`, empty for what is no UTF-8. -/
  fromUtf8 : List UInt8 → WString
  toUtf8 : WString → List UInt8
  /-- The converter for a custom encoding. -/
  customToLocal : WString → List UInt8 → WString
  customToServer : WString → WString → List UInt8
  /-- `fz::to_string`. -/
  toNarrow : WString → List UInt8
  toNarrow_ascii : ∀ text, (∀ c ∈ text, c.toNat < 128) → toNarrow text = text.map fun c =>
    c.toNat.toUInt8

namespace FtpSession

def logError (s : FtpSession) (message : String) : FtpSession :=
  { s with errors := s.errors ++ [message] }

/-- Change the operation at the back of `operations_`. -/
def mapTop (s : FtpSession) (f : FtpOperation → FtpOperation) : FtpSession :=
  match s.operations with
  | [] => s
  | op :: rest => { s with operations := f op :: rest }

/-- The logon operation at the back is now `l`. -/
def withLogon (s : FtpSession) (l : FtpLogon) : FtpSession :=
  s.mapTop fun op => { op with logon := some l }

/-- `SendAsyncRequest`. -/
def sendAsyncRequest (s : FtpSession) : FtpSession :=
  s.mapTop fun op => { op with waitForAsyncRequest := true }

/-- `ConvToLocal`. A text that is no UTF-8 may switch UTF-8 off. -/
def convToLocal (env : FtpEnv) (s : FtpSession) (text : List UInt8) : WString × FtpSession :=
  let utf8 := if s.useUTF8 then env.fromUtf8 text else []
  if utf8 ≠ [] then (utf8, s)
  else
    let s := if s.useUTF8 ∧ s.server.encodingType ≠ .utf8 then { s with useUTF8 := false } else s
    let custom :=
      if s.server.encodingType = .custom then env.customToLocal s.server.customEncoding text else []
    (if custom ≠ [] then custom else text.map fun b => Char.ofNat b.toNat, s)

/-- `ConvToServer`. -/
def convToServer (env : FtpEnv) (s : FtpSession) (text : WString) : List UInt8 :=
  let utf8 := if s.useUTF8 then env.toUtf8 text else []
  if utf8 ≠ [] then utf8
  else
    let custom :=
      if s.server.encodingType = .custom then env.customToServer s.server.customEncoding text
      else []
    if custom ≠ [] then custom else env.toNarrow text

/-- `SendCommand`. What `CRealControlSocket::Send` returns is never zero and counts as success. -/
def sendCommand (env : FtpEnv) (s : FtpSession) (command : WString) : Nat × FtpSession :=
  if s.convToServer env command = [] then
    (Reply.error, s.logError "Failed to convert command to 8 bit charset")
  else
    (Reply.wouldBlock,
      { s with sent := s.sent ++ [(command, s.layer)], pendingReplies := s.pendingReplies + 1 })

/-- `CFtpControlSocket::ResetSocket`. -/
def resetSocket (s : FtpSession) : FtpSession :=
  { s with
    receiveBuffer := []
    pendingReplies := 0
    repliesToSkip := 0
    multilineResponseCode := []
    multilineResponseLines := []
    layer := .absent }

/-! ## Sending -/

/-- The command of the login sequence, `LOGON_LOGON`. The source reads the front of the sequence
without a test; an empty one counts as an internal error. -/
def sendLogin (env : FtpEnv) (s : FtpSession) (l : FtpLogon) : Nat × FtpSession :=
  match l.loginSequence with
  | [] => (Reply.internalError, s)
  | cmd :: _ =>
    match cmd.type with
    | .user =>
      let l := if s.credentials.logonType = .interactive then
          { l with waitChallenge := true, challenge := [] }
        else l
      let user := if s.credentials.logonType = .anonymous then "anonymous".toList else s.server.user
      (s.withLogon l).sendCommand env ("USER ".toList ++ user)
    | .pass =>
      if l.challenge ≠ [] then
        (Reply.wouldBlock, (s.withLogon { l with challenge := [] }).sendAsyncRequest)
      else
        let pass := if s.credentials.logonType = .anonymous then "anonymous@example.com".toList
          else s.credentials.getPass
        s.sendCommand env ("PASS ".toList ++ pass)
    | .account => s.sendCommand env ("ACCT ".toList ++ s.credentials.account)

/-- `CFtpLogonOpData::Send`; `connects` is whether the socket starts to connect. -/
def logonSend (env : FtpEnv) (s : FtpSession) (l : FtpLogon) (connects : Bool) : Nat × FtpSession :=
  match l.opState with
  | .connect =>
    let l := { l with
      loginSequence := prepareLoginSequence s.credentials, opState := .welcome }
    -- `DoConnect`
    let s := { (s.withLogon l).resetSocket with layer := .connecting }
    (if connects then Reply.wouldBlock else Reply.disconnected ||| Reply.error, s)
  | .authWait => (Reply.wouldBlock, s)
  | .authTls => s.sendCommand env "AUTH TLS".toList
  | .authSsl => s.sendCommand env "AUTH SSL".toList
  | .security =>
    let s := s.withLogon { l with opState := .logon }
    if s.layer.isTls then (Reply.continue_, s) else (Reply.wouldBlock, s.sendAsyncRequest)
  | .logon => s.sendLogin env l
  | .syst => s.sendCommand env "SYST".toList
  | .feat => s.sendCommand env "FEAT".toList
  | .clnt => s.sendCommand env "CLNT FileZilla".toList
  | .optsUtf8 => s.sendCommand env "OPTS UTF8 ON".toList
  | .pbsz => s.sendCommand env "PBSZ 0".toList
  | .prot => s.sendCommand env "PROT P".toList
  | .customCommands =>
    match s.server.postLoginCommands[l.customCommandIndex]? with
    | none => (Reply.internalError ||| Reply.disconnected, s)
    | some command => s.sendCommand env command
  | .optsMlst =>
    let options := s.cache.get s.server .opstMlstCommand
    s.sendCommand env ("OPTS MLST ".toList ++ if options.cap = .yes then options.option else [])
  | .welcome | .done => (Reply.internalError, s)

/-! ## Replies -/

/-- `GetReplyCode`. -/
def replyCode (response : WString) : Nat :=
  match response with
  | [] => 0
  | c :: _ => if c < '0' ∨ '9' < c then 0 else c.toNat - '0'.toNat

/-- The reply is positive, `code == 2 || code == 3`. -/
def positive (response : WString) : Bool := replyCode response == 2 || replyCode response == 3

def disconnectedBy (response : WString) : Nat :=
  Reply.disconnected ||| if replyCode response = 5 then Reply.criticalError else Reply.error

def containsText (text s : WString) : Bool := (findText text s).isSome

/-- `SetType` for a server of unknown type. -/
def setType (s : FtpSession) (type : ServerType) : FtpSession :=
  { s with server := { s.server with type := type } }

def setCapability (s : FtpSession) (name : CapabilityName) (cap : Capabilities) (option : WString) :
    FtpSession :=
  { s with cache := s.cache.set s.server name cap option }

/-- `SetCapability` if the value is not `yes`. -/
def setUnlessYes (s : FtpSession) (name : CapabilityName) : FtpSession :=
  if (s.cache.get s.server name).cap ≠ .yes then s.setCapability name .no [] else s

/-- The server decides about the encoding. -/
def checkUTF8 (s : FtpSession) : FtpSession :=
  if s.server.encodingType = .auto ∧ (s.cache.get s.server .utf8Command).cap ≠ .yes then
    { s with useUTF8 := false }
  else s

/-- The capability that the reply to `AUTH TLS` or `AUTH SSL` is about. -/
def authCommand (l : FtpLogon) : CapabilityName :=
  if l.opState = .authTls then .authTlsCommand else .authSslCommand

/-- The replies to `AUTH TLS` and `AUTH SSL`. `none` means that the next state is entered;
`handshakes` is whether the handshake starts. -/
def parseAuth (s : FtpSession) (l : FtpLogon) (response : WString) (handshakes : Bool) :
    Option Nat × FtpSession × FtpLogon :=
  if !positive response then
    let s := s.setCapability (authCommand l) .no []
    if l.opState = .authSsl then
      if s.server.protocol = .ftp then
        (some Reply.continue_, s, { l.skip [.pbsz, .prot] with opState := .security })
      else (some (disconnectedBy response), s, l)
    else (none, s, l)
  else
    let s := { s.setCapability (authCommand l) .yes [] with layer := .handshake }
    if !handshakes then (some (Reply.error ||| Reply.disconnected), s, l)
    else (some Reply.wouldBlock, s, { l.skip [.authSsl] with opState := .authWait })

def isAsciiText (text : WString) : Bool := text.all fun c => c.toNat < 128

/-- The result for a login that failed. -/
def loginError (cmd : LoginCommand) (response : WString) : Nat :=
  Reply.disconnected ||| Reply.error |||
    if cmd.type = .pass ∧ replyCode response = 5 then Reply.criticalError ||| Reply.passwordFailed
    else 0

/-- The login sequence behind a command that was accepted. -/
def remainingLogin (response : WString) (rest : List LoginCommand) : List LoginCommand :=
  if replyCode response = 2 then rest.dropWhile LoginCommand.optional else rest

/-- The errors if the sequence is at its end and the server wants more. -/
def logNotLoggedIn (s : FtpSession) (cmd : LoginCommand) : FtpSession :=
  let s := s.logError "Login sequence fully executed yet not logged in, aborting."
  if cmd.type = .pass ∧ s.credentials.account = [] then
    s.logError ("Server might require an account. " ++
      "Try specifying an account using the Site Manager")
  else s

/-- The replies to the commands of the login sequence. -/
def parseLogin (s : FtpSession) (l : FtpLogon) (response : WString) :
    Option Nat × FtpSession × FtpLogon :=
  match l.loginSequence with
  | [] => (some Reply.internalError, s, l)
  | cmd :: rest =>
    if !positive response then
      if s.server.encodingType = .auto ∧ s.useUTF8 = true ∧
          !(isAsciiText s.server.user && isAsciiText s.credentials.getPass &&
            isAsciiText s.credentials.account) then
        -- the login is tried again with the local character set
        (some Reply.continue_, { s with useUTF8 := false },
          { l with loginSequence := prepareLoginSequence s.credentials })
      else (some (loginError cmd response), s, l)
    else
      let l := { l with loginSequence := remainingLogin response rest }
      if replyCode response = 3 ∧ l.loginSequence = [] then
        (some (Reply.criticalError ||| Reply.disconnected), s.logNotLoggedIn cmd, l)
      else if l.loginSequence ≠ [] then
        (some Reply.continue_, s, { l with waitChallenge := false })
      else (none, s, l)

/-- The type of the server from the last line of the reply to `SYST`. -/
def typeFromReply (s : FtpSession) (response : WString) : FtpSession :=
  if 7 < response.length ∧ (response.drop 3).take 4 = " MVS".toList then s.setType .mvs
  else if 12 < response.length ∧
      wideStrToUpperAscii ((response.drop 3).take 9) = " NONSTOP ".toList then
    s.setType .hpNonstop
  else s

/-- A z/VM server names itself in the first of several lines. -/
def typeFromLines (s : FtpSession) (response : WString) : FtpSession :=
  match s.multilineResponseLines with
  | [] => s
  | line :: _ =>
    if wideStrToLowerAscii ((line.drop 4).take 4) = "z/vm".toList then
      let system := line.drop 4 ++ " ".toList ++ response.drop 4
      (s.setCapability .systCommand .yes system).setType .zvm
    else s

/-- The type of the server from the reply to `SYST`. -/
def systType (s : FtpSession) (response : WString) : FtpSession :=
  if s.server.type = .default ∧ replyCode response = 2 then
    (s.typeFromReply response).typeFromLines response
  else s

def skipForFileZilla (l : FtpLogon) (text : WString) : FtpLogon :=
  if containsText "FileZilla".toList text then l.skip [.clnt, .optsUtf8] else l

/-- The replies to `SYST`. -/
def parseSyst (s : FtpSession) (l : FtpLogon) (response : WString) :
    Option Nat × FtpSession × FtpLogon :=
  let s := if replyCode response = 2 then s.setCapability .systCommand .yes (response.drop 4)
    else s.setCapability .systCommand .no []
  (none, s.systType response, skipForFileZilla l response)

/-- The replies to `FEAT`. -/
def parseFeatReply (s : FtpSession) (l : FtpLogon) (response : WString) :
    Option Nat × FtpSession × FtpLogon :=
  let s := if replyCode response = 2 then
      ((s.setCapability .featCommand .yes []).setUnlessYes .utf8Command).setUnlessYes .clntCommand
    else s.setCapability .featCommand .no []
  (none, (s.setUnlessYes .tvfsSupport).checkUTF8, l)

/-- What `ParseResponse` does in the current state. -/
def parseState (s : FtpSession) (l : FtpLogon) (response : WString) (handshakes : Bool) :
    Option Nat × FtpSession × FtpLogon :=
  match l.opState with
  | .welcome => if positive response then (none, s, l) else (some (disconnectedBy response), s, l)
  | .authTls | .authSsl => s.parseAuth l response handshakes
  | .logon => s.parseLogin l response
  | .syst => s.parseSyst l response
  | .feat => s.parseFeatReply l response
  | .prot => (none, { s with protectDataChannel := s.protectDataChannel || positive response }, l)
  | .customCommands =>
    let l := { l with customCommandIndex := l.customCommandIndex + 1 }
    if l.customCommandIndex < s.server.postLoginCommands.length then (some Reply.continue_, s, l)
    else (none, s, l)
  | _ => (none, s, l)

/-! ## The next state -/

/-- The facts that both sides know. -/
def understoodFacts : List WString :=
  ["type", "size", "modify", "perm", "unix.mode", "unix.owner", "unix.ownername", "unix.group",
    "unix.groupname", "unix.user", "unix.uid", "unix.gid", "x.hidden"].map String.toList

/-- Whether a fact is not enabled by default, and the facts understood. A part without a semicolon
behind it is not looked at. -/
def mlstOptions (facts : WString) : Bool × WString :=
  ((wideStrToLowerAscii facts).splitOn ';').dropLast.foldl (fun (unset, options) part =>
    let enabled := part.getLast? = some '*'
    let fact := if enabled then part.dropLast else part
    if fact ∈ understoodFacts then (unset || !enabled, options ++ fact ++ ";".toList)
    else (unset, options)) (false, [])

/-- The type of the server from the reply to `SYST` that is cached. -/
def cachedType (s : FtpSession) (system : WString) : FtpSession :=
  if s.server.type = .default then
    if system.take 3 = "MVS".toList then s.setType .mvs
    else if wideStrToUpperAscii (system.take 4) = "Z/VM".toList then s.setType .zvm
    else if wideStrToUpperAscii (system.take 8) = "NONSTOP ".toList then s.setType .hpNonstop
    else s
  else s

/-- A state that is needed: whether the loop stops there. -/
def visit (s : FtpSession) (l : FtpLogon) (state : LogonState) : Bool × FtpSession × FtpLogon :=
  match state with
  | .syst =>
    let system := s.cache.get s.server .systCommand
    match system.cap with
    | .unknown => (true, s, l)
    | .yes => (false, s.cachedType system.option, skipForFileZilla l system.option)
    | .no => (false, s, l)
  | .feat =>
    if (s.cache.get s.server .featCommand).cap = .unknown then (true, s, l)
    else (false, s.checkUTF8, l)
  | .clnt => (s.useUTF8 && (s.cache.get s.server .clntCommand).cap = .yes, s, l)
  | .optsUtf8 => (s.useUTF8 && (s.cache.get s.server .utf8Command).cap = .yes, s, l)
  | .optsMlst =>
    let facts := s.cache.get s.server .mlsdCommand
    if facts.cap ≠ .yes then (false, s, l)
    else
      match (s.cache.get s.server .opstMlstCommand).cap with
      | .unknown =>
        let (unset, options) := mlstOptions facts.option
        if unset then (true, s.setCapability .opstMlstCommand .yes options, l)
        else (false, s.setCapability .opstMlstCommand .no [], l)
      | .yes => (true, s, l)
      | .no => (false, s, l)
  | _ => (true, s, l)

/-- The loop at the end of `ParseResponse`, through the given states. -/
def advance (s : FtpSession) (l : FtpLogon) : List LogonState → Nat × FtpSession × FtpLogon
  | [] => (Reply.ok, s, l)
  | state :: rest =>
    let l := { l with opState := state }
    if state = .done then (Reply.ok, s, l)
    else if state ∈ l.skipped then advance s l rest
    else
      let (stops, s, l) := s.visit l state
      if stops then (Reply.continue_, s, l) else advance s l rest

/-- `CFtpLogonOpData::ParseResponse`. -/
def logonParseResponse (s : FtpSession) (l : FtpLogon) (response : WString) (handshakes : Bool) :
    Nat × FtpSession :=
  let (res, s, l) := s.parseState l response handshakes
  match res with
  | some res => (res, s.withLogon l)
  | none =>
    let (res, s, l) := s.advance l l.opState.following
    (res, s.withLogon l)

/-! ## Features -/

def isTrimmed (c : Char) : Bool := c = ' ' || c = '\r' || c = '\n' || c = '\t'

/-- `fz::trim`. -/
def trim (line : WString) : WString :=
  ((line.dropWhile isTrimmed).reverse.dropWhile isTrimmed).reverse

def hasFeature (line : WString) (feature : String) : Bool :=
  line = feature.toList || (feature.toList ++ [' ']).isPrefixOf line

/-- The features that have no parameters. -/
def plainFeatures : List (String × CapabilityName) :=
  [("MODE Z", .modeZSupport), ("MFMT", .mfmtCommand), ("MDTM", .mdtmCommand),
    ("SIZE", .sizeCommand), ("TVFS", .tvfsSupport), ("REST STREAM", .restStream),
    ("EPSV", .epsvCommand)]

/-- The facts of `MLSD` or `MLST`; both specifications require UTC. -/
def setFacts (s : FtpSession) (facts : WString) : FtpSession :=
  (s.setCapability .mlsdCommand .yes facts).setCapability .inferredTimezoneOffset .no []

/-- `ParseFeat`. -/
def parseFeat (s : FtpSession) (line : WString) : FtpSession :=
  let line := trim line
  let up := wideStrToUpperAscii line
  let known := s.cache.get s.server .mlsdCommand
  let knownFacts := if known.cap = .yes then known.option else []
  if hasFeature up "UTF8" then s.setCapability .utf8Command .yes []
  else if hasFeature up "CLNT" then s.setCapability .clntCommand .yes []
  else if hasFeature up "MLSD" then s.setFacts (if knownFacts = [] then line.drop 5 else knownFacts)
  else if hasFeature up "MLST" then
    s.setFacts (if line.drop 5 = [] then knownFacts else line.drop 5)
  else
    match plainFeatures.find? fun f => hasFeature up f.1 with
    | some f => s.setCapability f.2 .yes []
    | none => s

end FtpSession

end FlintZilla
