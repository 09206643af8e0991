import FlintZilla.Ftp.Logon
import FlintZilla.Lib.Lts

/-!
# The FTP control connection

`CFtpControlSocket` from `Connect` on, with the bytes it receives, the layers of the connection and
the logon as `CFtpLogonOpData` computes it. Other operations are left open: they send any commands
in `Send`, push operations, ask the user, and return any code.

As in `FtpControlSocket`, the call in progress is the `task`; a call of `OnReceive` is in progress
while `receiving` is set and goes on when the `task` is done. Events of the event loop are handled
when neither is in progress. The capabilities are shared with other connections, which may change
them at any time.
-/

namespace FlintZilla

open Lib Lib.Search

/-- What is left open of a call: what an operation other than a logon does (the commands it sends,
how many operations it pushes, whether it asks, what it returns, and the bits that resetting it
adds), whether the socket starts to connect, and whether the handshake starts. -/
structure FtpChoice where
  commands : List WString := []
  pushes : Nat := 0
  asks : Bool := false
  res : Nat := Reply.ok
  extra : Nat := 0
  connects : Bool := true
  handshakes : Bool := true
deriving DecidableEq

/-- A reply to an async request. -/
inductive AsyncReply where
  /-- `reqId_certificate`. -/
  | certificate (trusted : Bool)
  /-- `reqId_interactiveLogin`; without a password the user canceled. -/
  | interactiveLogin (pass : Option WString)
  /-- `reqId_insecure_connection`. -/
  | insecureConnection (allow : Bool)
  /-- A request of another operation, with the call it ends in. -/
  | other (next : FtpTask)
deriving DecidableEq

namespace FtpSession

/-! ## Operations -/

/-- The logon operation at the back of `operations_`. -/
def backLogon (s : FtpSession) : Option FtpLogon := s.operations.head?.bind FtpOperation.logon

/-- The constructor of `CFtpLogonOpData` and `CControlSocket::Push`. -/
def pushLogon (s : FtpSession) (topLevel : Bool) : FtpSession :=
  let forced := match s.server.encodingType with
    | .auto => (s.cache.get s.server .utf8Command).cap ≠ .no
    | .utf8 => true
    | .custom => false
  { s with
    useUTF8 := s.useUTF8 || forced
    operations := ⟨some (FtpLogon.new s.server), topLevel, false⟩ :: s.operations }

/-- `CFtpControlSocket::Push` for an operation other than a logon. -/
def push (s : FtpSession) : FtpSession :=
  let s := { s with operations := ⟨none, false, false⟩ :: s.operations }
  if s.operations.length = 1 ∧ s.layer = .absent then s.pushLogon true else s

/-- The effects of a call of an operation other than a logon. -/
def performed (s : FtpSession) (o : FtpChoice) : FtpSession :=
  Nat.repeat push o.pushes (if o.asks then s.sendAsyncRequest else s)

/-- A control socket after `Connect`, with `SendNextCommand` to be called. -/
def new (server : CServer) (credentials : Credentials) (cache : CapabilityCache) : FtpSession :=
  let s : FtpSession := {
    server := server
    credentials := credentials
    cache := cache
    operations := []
    layer := .absent
    receiveBuffer := []
    multilineResponseCode := []
    multilineResponseLines := []
    pendingReplies := 1
    repliesToSkip := 0
    useUTF8 := false
    protectDataChannel := false
    task := .sendNextCommand
    receiving := false
    sent := []
    errors := [] }
  s.pushLogon false

/-! ## Calls -/

/-- One round of the loop of `SendNextCommand`. -/
def sendLoop (env : FtpEnv) (s : FtpSession) (o : FtpChoice) : FtpSession :=
  match s.operations with
  | [] => { s with task := .idle }
  | op :: _ =>
    if op.waitForAsyncRequest then { s with task := .idle }
    -- `CanSendNextCommand`
    else if s.repliesToSkip ≠ 0 then { s with task := .idle }
    else match op.logon with
      | some l =>
        let (res, s) := s.logonSend env l o.connects
        { s with task := FtpControlSocket.afterSend res }
      | none =>
        let s := o.commands.foldl (fun s command => (s.sendCommand env command).2) s
        { s.performed o with task := FtpControlSocket.afterSend o.res }

/-- `CControlSocket::SendNextCommand` up to its loop. -/
def sendNextCommand (s : FtpSession) : FtpSession :=
  match s.operations with
  | [] => { s with task := .resetOperation Reply.error }
  | _ => { s with task := .sendLoop }

/-- `CFtpControlSocket::ResetOperation` and the call it ends in. The code of other operations gets
bits from transfers and from `Reset`. -/
def resetOperation (s : FtpSession) (code : Nat) (o : FtpChoice) : FtpSession :=
  let s := { s with repliesToSkip := s.pendingReplies }
  match s.operations with
  | [] => { s with task := .idle }
  | op :: rest =>
    let code := if op.logon.isSome then code else code ||| o.extra
    let s := { s with operations := rest }
    match rest with
    | [] => { s with task := .idle }
    | _ =>
      if code = Reply.ok ∨ code = Reply.error ∨ code = Reply.criticalError ∨
          code = Reply.errorNotFound then
        if !op.topLevelOperation then { s with task := .parseSubcommandResult code }
        else { s with task := .sendNextCommand }
      else { s with task := .resetOperation code }

/-- `CRealControlSocket::DoClose`. -/
def doClose (s : FtpSession) (code : Nat) : FtpSession :=
  { s.resetSocket with task := .resetOperation (Reply.error ||| Reply.disconnected ||| code) }

/-- `CControlSocket::ParseSubcommandResult`; the logon has the default `SubcommandResult`. -/
def parseSubcommandResult (s : FtpSession) (code : Nat) (o : FtpChoice) : FtpSession :=
  match s.operations with
  | [] => { s with task := .resetOperation Reply.error }
  | op :: _ =>
    let s := if op.logon.isSome then s else s.performed o
    let res := if op.logon.isSome then
        if code = Reply.ok then Reply.continue_ else code
      else o.res
    if res = Reply.wouldBlock then { s with task := .idle }
    else if res = Reply.continue_ then { s with task := .sendNextCommand }
    else { s with task := .resetOperation res }

/-! ## Receiving -/

/-- The reply is passed to the operation at the back. -/
def passReply (s : FtpSession) (response : WString) (o : FtpChoice) : FtpSession :=
  match s.operations with
  | [] => s
  | op :: _ =>
    match op.logon with
    | some l =>
      let (res, s) := s.logonParseResponse l response o.handshakes
      { s with task := FtpControlSocket.afterParse res true }
    | none => { s.performed o with task := FtpControlSocket.afterParse o.res false }

/-- The reply is not a preliminary one. -/
def isFinal (response : WString) : Bool := response.head? ≠ some '1'

/-- `CFtpControlSocket::ParseResponse`. -/
def parseResponse (s : FtpSession) (response : WString) (o : FtpChoice) : FtpSession :=
  if isFinal response ∧ s.pendingReplies = 0 then s
  else
    let s := if isFinal response then { s with pendingReplies := s.pendingReplies - 1 } else s
    if s.repliesToSkip ≠ 0 then
      let s := if isFinal response then { s with repliesToSkip := s.repliesToSkip - 1 } else s
      if s.repliesToSkip = 0 ∧ s.operations ≠ [] ∧ s.pendingReplies = 0 then
        { s with task := .sendNextCommand }
      else s
    else s.passReply response o

/-- What `ParseLine` does for a logon; `none` means that the connection is closed. -/
def watchLine (s : FtpSession) (line : WString) : Option FtpSession :=
  match s.backLogon with
  | none => some s
  | some l =>
    if l.waitChallenge then
      let challenge := if l.challenge = [] then [] else l.challenge ++ ['\n']
      some (s.withLogon { l with challenge := challenge ++ line })
    else if l.opState = .feat then some (s.parseFeat line)
    else if l.opState = .welcome ∧ !l.gotFirstWelcomeLine then
      if (wideStrToLowerAscii line).take 3 = "ssh".toList then none
      else some (s.withLogon { l with gotFirstWelcomeLine := true })
    else some s

/-- The lines of a reply are put together. -/
def assemble (s : FtpSession) (line : WString) (o : FtpChoice) : FtpSession :=
  if line.length ≤ 3 then s
  else if s.multilineResponseCode ≠ [] then
    if line.take 4 = s.multilineResponseCode then
      let s := { s with multilineResponseCode := [] }.parseResponse line o
      { s with multilineResponseLines := [] }
    else { s with multilineResponseLines := s.multilineResponseLines ++ [line] }
  else if (line.drop 3).head? = some '-' then
    { s with
      multilineResponseCode := line.take 3 ++ [' ']
      multilineResponseLines := s.multilineResponseLines ++ [line] }
  else s.parseResponse line o

/-- `CFtpControlSocket::ParseLine`. -/
def parseLine (s : FtpSession) (line : WString) (o : FtpChoice) : FtpSession :=
  match s.watchLine line with
  | some s => s.assemble line o
  | none =>
    { s.logError ("Cannot establish FTP connection to an SFTP server. " ++
        "Please select proper protocol.") with
      task := .doClose Reply.criticalError }

/-- CR, LF or NUL. -/
def isLineEnd (b : UInt8) : Bool := b = 13 || b = 10 || b = 0

/-- The limit of `OnReceive` for `receiveBuffer_`. -/
def maxReceive : Nat := 65536

/-- One round of the inner loop of `OnReceive`. What is in front of its index has no line end, so
the search may start at the front. -/
def scan (env : FtpEnv) (s : FtpSession) (o : FtpChoice) : FtpSession :=
  -- the connection got closed
  if s.layer = .absent then { s with receiving := false }
  else match find isLineEnd s.receiveBuffer with
    | none =>
      let s := { s with receiving := false }
      if s.receiveBuffer.length = maxReceive then
        { s.logError "Received too long response line from server, closing connection." with
          task := .doClose (Reply.disconnected ||| Reply.error) }
      else s
    | some 0 => { s with receiveBuffer := s.receiveBuffer.drop 1 }
    | some (i + 1) =>
      let (line, s) := s.convToLocal env (s.receiveBuffer.take (i + 1))
      { s with receiveBuffer := s.receiveBuffer.drop (i + 2) }.parseLine line o

/-! ## Events -/

/-- `CFtpControlSocket::OnConnect`. -/
def onConnect (s : FtpSession) (handshakes : Bool) : FtpSession :=
  let s := { s with protectDataChannel := false }
  if s.layer = .connecting then
    if s.server.protocol = .ftps then
      { s with
        layer := .handshake
        task := if handshakes then .idle else .doClose (Reply.disconnected ||| Reply.error) }
    else { s with layer := .plain, pendingReplies := 1 }
  else if s.server.protocol = .ftpes ∨ s.server.protocol = .ftp then
    { s with layer := .tls, task := .sendNextCommand }
  else { s with layer := .tls, pendingReplies := 1 }

/-- The commands of `OnTimer`. -/
def keepAliveCommands : List WString := ["NOOP", "TYPE I", "TYPE A", "PWD"].map String.toList

/-- `CFtpControlSocket::OnTimer` for the idle timer. -/
def onTimer (env : FtpEnv) (s : FtpSession) (command : WString) : FtpSession :=
  if s.operations ≠ [] ∨ s.pendingReplies ≠ 0 ∨ s.repliesToSkip ≠ 0 then s
  else
    let (res, s) := s.sendCommand env command
    if res = Reply.wouldBlock then { s with repliesToSkip := s.repliesToSkip + 1 }
    else { s with task := .doClose res }

/-- `CControlSocket::Cancel`. -/
def cancel (s : FtpSession) : FtpSession :=
  if s.operations = [] then s
  else if s.backLogon.isSome then { s with task := .doClose Reply.canceled }
  else { s with task := .resetOperation Reply.canceled }

/-- The operation at the back is not a logon. -/
def backIsOther (s : FtpSession) : Bool := s.operations.head?.any (·.logon.isNone)

/-- `CFtpControlSocket::SetAsyncRequestReply`. -/
def setAsyncRequestReply (s : FtpSession) : AsyncReply → FtpSession
  | .certificate trusted =>
    if s.layer ≠ .handshake then s
    else if !trusted then { s with task := .doClose Reply.criticalError }
    else match s.backLogon with
      | some l => if l.opState = .authWait then s.withLogon { l with opState := .logon } else s
      | none => s
  | .interactiveLogin pass =>
    if s.backLogon.isNone then s
    else match pass with
      | none => { s with task := .resetOperation Reply.canceled }
      | some pass =>
        { s with
          credentials := { s.credentials with password := pass }
          task := .sendNextCommand }
  | .insecureConnection allow =>
    { s with task := if allow then .sendNextCommand else .resetOperation Reply.canceled }
  | .other next => if s.backIsOther && next.isEntry then { s with task := next } else s

/-- The operation at the back waits for a reply. -/
def waits (s : FtpSession) : Bool := s.operations.head?.any (·.waitForAsyncRequest)

/-- `CallSetAsyncRequestReply`. -/
def callSetAsyncRequestReply (s : FtpSession) (reply : AsyncReply) : FtpSession :=
  if !s.waits then s
  else (s.mapTop fun op => { op with waitForAsyncRequest := false }).setAsyncRequestReply reply

end FtpSession

/-! ## The system -/

inductive FtpSessionEvent where
  /-- The engine starts another operation and calls `SendNextCommand`. -/
  | command
  | cancel
  /-- `DoClose` after a timeout, an error of the socket or the end of the connection. -/
  | close (code : Nat)
  /-- `SendNextCommand` from `OnObtainLock` or `OnExternalIPAddress`. -/
  | resume
  /-- `ResetOperation` from `TransferEnd`, `SetFileExistsAction` or `SleepOpData`. -/
  | reset (code : Nat)
  /-- The active layer is connected. -/
  | onConnect (handshakes : Bool)
  | onVerifyCert
  | asyncReply (reply : AsyncReply)
  /-- `OnReceive` reads bytes from the active layer. -/
  | receive (bytes : List UInt8)
  | onTimer (command : WString)
  /-- Another connection sets a capability. -/
  | capability (type : ServerType) (name : CapabilityName) (value : Capability)
  /-- The next call. -/
  | call (o : FtpChoice)
deriving DecidableEq

namespace FtpSession

/-- The call in progress. -/
def call (env : FtpEnv) (s : FtpSession) (o : FtpChoice) : Option FtpSession :=
  match s.task with
  | .idle => if s.receiving then some (s.scan env o) else none
  | .sendNextCommand => some s.sendNextCommand
  | .sendLoop => some (s.sendLoop env o)
  | .resetOperation code => some (s.resetOperation code o)
  | .doClose code => some (s.doClose code)
  | .parseSubcommandResult code => some (s.parseSubcommandResult code o)

/-- An event of the event loop. The locks, resolvers, transfers and file checks that resume or reset
an operation belong to operations other than the logon. While the handshake is in progress the TLS
layer has nothing to read. The idle timer runs while there is a connection. -/
def handle (env : FtpEnv) (s : FtpSession) : FtpSessionEvent → Option FtpSession
  | .command => if s.operations = [] then some { s.push with task := .sendNextCommand } else none
  | .cancel => some s.cancel
  | .close code => some { s with task := .doClose code }
  | .resume => if s.backIsOther then some { s with task := .sendNextCommand } else none
  | .reset code => if s.backIsOther then some { s with task := .resetOperation code } else none
  | .onConnect handshakes =>
    if s.layer = .connecting ∨ s.layer = .handshake then some (s.onConnect handshakes) else none
  | .onVerifyCert => if s.layer = .handshake then some s.sendAsyncRequest else none
  | .asyncReply reply => some (s.callSetAsyncRequestReply reply)
  | .receive bytes =>
    if (s.layer = .plain ∨ s.layer = .tls) ∧ bytes ≠ [] ∧
        s.receiveBuffer.length + bytes.length ≤ maxReceive then
      some { s with receiveBuffer := s.receiveBuffer ++ bytes, receiving := true }
    else none
  | .onTimer command =>
    if keepAliveCommands.contains command ∧ s.layer ≠ .absent then some (s.onTimer env command)
    else none
  | .capability _ _ _ => none
  | .call _ => none

def step (env : FtpEnv) (s : FtpSession) (e : FtpSessionEvent) : Option FtpSession :=
  match e with
  | .call o => s.call env o
  | .capability type name value =>
    some { s with cache := fun t n => if t = type ∧ n = name then value else s.cache t n }
  | e => if s.task = .idle ∧ s.receiving = false then s.handle env e else none

end FtpSession

/-- Every sequence of events, for any server, credentials and capabilities at the start. -/
def ftpSessionSystem (env : FtpEnv) : Lts FtpSession FtpSessionEvent :=
  Lts.ofFun (fun s => ∃ server credentials cache, s = .new server credentials cache)
    (FtpSession.step env)

end FlintZilla
