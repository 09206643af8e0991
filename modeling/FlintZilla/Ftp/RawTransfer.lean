import FlintZilla.Ftp.PassiveReply
import FlintZilla.Lib.Lts
import FlintZilla.Reply

/-!
# The raw transfer

`CFtpRawTransferOpData` with the parts of `CFtpControlSocket` it works with: `SendCommand`,
`ParseResponse`, `TransferEnd` and `ResetOperation`. The replies of the server and the end of the
data connection come in any order. One round of the loop of `SendNextCommand` is one step, and other
events are handled when that loop is left.

The server answers in order. So each reply is a reply to the first command without final reply, and
the model keeps what the final reply to the transfer command was.
-/

namespace FlintZilla

open Lib

/-- `TransferEndReason`. -/
inductive TransferEndReason where
  | none
  | successful
  | timeout
  | transferFailure
  | transferFailureCritical
  | preTransferCommandFailure
  | transferCommandFailureImmediate
  | transferCommandFailure
  | failure
  | failedResumetest
  | failedTlsResumption
deriving DecidableEq

/-- `rawtransferStates`. -/
inductive RawTransferState where
  | init
  | type
  | portPasv
  | rest
  | transfer
  | waitfinish
  | waittransferpre
  | waittransfer
  | waitsocket
deriving DecidableEq

/-- A command without final reply. -/
inductive RawTransferCommand where
  /-- Sent before the raw transfer started. -/
  | earlier
  | type (binary : Bool)
  | passive (epsv : Bool)
  | active (ipv6 : Bool) (portArgument : WString)
  | rest (resumeOffset : Int)
  | transfer (cmd : WString)
deriving DecidableEq

namespace RawTransferCommand

/-- What is sent. -/
def text : RawTransferCommand → WString
  | .earlier => []
  | .type binary => if binary then "TYPE I".toList else "TYPE A".toList
  | .passive epsv => if epsv then "EPSV".toList else "PASV".toList
  | .active ipv6 portArgument => (if ipv6 then "EPRT ".toList else "PORT ".toList) ++ portArgument
  | .rest resumeOffset => "REST ".toList ++ (toString resumeOffset).toList
  | .transfer cmd => cmd

def isTransfer : RawTransferCommand → Bool
  | .transfer _ => true
  | _ => false

end RawTransferCommand

/-- What `GetExternalIPAddress` returns. -/
inductive ExternalIpResult where
  | wouldBlock
  | error
  | ok
deriving DecidableEq

/-- What `Send` learns from outside: the external address, the result of `SetupActiveTransfer` and
whether `SetupPassiveTransfer` succeeds. -/
structure SendInput where
  externalIp : ExternalIpResult
  portArgument : WString
  passiveSetup : Bool
deriving DecidableEq

/-- The members of the operation, of its `pOldData` and of the control socket, then what is there
for the specification. -/
structure RawTransfer where
  opState : RawTransferState
  cmd : WString
  bPasv : Bool
  bTriedPasv : Bool
  bTriedActive : Bool
  host : WString
  port : Nat
  waitForAsyncRequest : Bool
  -- `pOldData`
  binary : Bool
  resumeOffset : Int
  transferEndReason : TransferEndReason
  tranferCommandSent : Bool
  -- the control socket
  lastTypeBinary : Option Bool
  sentRestartOffset : Bool
  pendingReplies : Nat
  repliesToSkip : Nat
  /-- `m_pTransferSocket` is set. -/
  transferSocket : Bool
  /-- `m_pIPResolver` is set. -/
  resolving : Bool
  /-- The loop of `SendNextCommand` is running. -/
  sending : Bool
  /-- What `ResetOperation` was called with. -/
  result : Option Nat
  /-- `m_transferEndReason` of the transfer socket. -/
  endReason : TransferEndReason
  outstanding : List RawTransferCommand
  /-- The code of the final reply to the transfer command. -/
  finalReply : Option Nat
deriving DecidableEq

namespace RawTransfer

/-- `CFtpControlSocket::Transfer` has pushed the operation. All replies that are due are those to
`earlier` commands, and they are to be skipped. -/
def start (cmd : WString) (binary : Bool) (resumeOffset : Int) (lastTypeBinary : Option Bool)
    (sentRestartOffset : Bool) (earlier : Nat) : RawTransfer where
  opState := .init
  cmd := cmd
  bPasv := true
  bTriedPasv := false
  bTriedActive := false
  host := []
  port := 0
  waitForAsyncRequest := false
  binary := binary
  resumeOffset := resumeOffset
  transferEndReason := .successful
  tranferCommandSent := false
  lastTypeBinary := lastTypeBinary
  sentRestartOffset := sentRestartOffset
  pendingReplies := earlier
  repliesToSkip := earlier
  transferSocket := true
  resolving := false
  sending := true
  result := none
  endReason := .none
  outstanding := List.replicate earlier .earlier
  finalReply := none

/-! ## Resetting -/

/-- `CFtpControlSocket::ResetOperation` with the raw transfer at the back. -/
def resetOperation (s : RawTransfer) (code : Nat) : RawTransfer :=
  { s with
    transferSocket := false, resolving := false, sending := false
    repliesToSkip := s.pendingReplies
    transferEndReason :=
      if code ≠ Reply.ok ∧ s.transferEndReason = .successful then
        if code &&& Reply.timeout = Reply.timeout then .timeout
        else if !s.tranferCommandSent then .preTransferCommandFailure
        else .failure
      else s.transferEndReason
    result := some code }

/-- `CRealControlSocket::DoClose`. -/
def doClose (s : RawTransfer) (code : Nat) : RawTransfer :=
  resetOperation { s with pendingReplies := 0, repliesToSkip := 0, outstanding := [] }
    (Reply.error ||| Reply.disconnected ||| code)

/-! ## Sending -/

/-- The end of `Send`: `CFtpControlSocket::SendCommand` for a command that is not empty. -/
def sendCommand (env : TransferEnv) (s : RawTransfer) (command : RawTransferCommand) :
    Nat × RawTransfer :=
  if command.text = [] then (Reply.wouldBlock, s)
  else if env.converts command.text then
    (Reply.wouldBlock, { s with
      pendingReplies := s.pendingReplies + 1, outstanding := s.outstanding ++ [command] })
  else (Reply.error, s)

/-- `GetPassiveCommand` and the end of `Send`. -/
def sendPassive (env : TransferEnv) (s : RawTransfer) : Nat × RawTransfer :=
  sendCommand env { s with bTriedPasv := true } (.passive env.passiveEpsv)

/-- `Send` in `rawtransfer_port_pasv`. -/
def sendPortPasv (env : TransferEnv) (s : RawTransfer) (input : SendInput) : Nat × RawTransfer :=
  if s.bPasv then s.sendPassive env
  else if input.externalIp = .wouldBlock then (Reply.wouldBlock, { s with resolving := true })
  else
    let s := { s with resolving := false }
    if input.externalIp = .ok ∧ input.portArgument ≠ [] then
      sendCommand env { s with bTriedActive := true } (.active env.ipv6 input.portArgument)
    else if !env.allowTransferModeFallback || s.bTriedPasv then (Reply.error, s)
    else sendPassive env { s with bTriedActive := true, bPasv := true }

/-- `CFtpRawTransferOpData::Send`. -/
def send (env : TransferEnv) (s : RawTransfer) (input : SendInput) : Nat × RawTransfer :=
  if !s.transferSocket then (Reply.internalError, s)
  else match s.opState with
    | .init =>
      let s := { s with
        opState := if s.lastTypeBinary = some s.binary then .portPasv else .type }
      if env.proxyLayer then (Reply.continue_, { s with bPasv := true, bTriedActive := true })
      else (Reply.continue_, { s with
        bPasv := match env.pasvMode with
          | .passive => true
          | .active => false
          | .default => env.usePasv })
    | .type => sendCommand env { s with lastTypeBinary := none } (.type s.binary)
    | .portPasv => s.sendPortPasv env input
    | .rest =>
      sendCommand env
        { s with sentRestartOffset := s.sentRestartOffset || decide (0 < s.resumeOffset) }
        (.rest s.resumeOffset)
    | .transfer =>
      if s.bPasv && !input.passiveSetup then (Reply.error, s)
      else sendCommand env { s with tranferCommandSent := true } (.transfer s.cmd)
    | .waitfinish | .waittransferpre | .waittransfer | .waitsocket => (Reply.wouldBlock, s)

/-- What `SendNextCommand` does with the result of `Send`. -/
def afterSend (s : RawTransfer) (res : Nat) : RawTransfer :=
  if res = Reply.continue_ then s
  else if res = Reply.ok then s.resetOperation res
  else if Reply.has res Reply.disconnected then s.doClose res
  else if Reply.has res Reply.error then s.resetOperation res
  else if res = Reply.wouldBlock then { s with sending := false }
  else s.resetOperation Reply.internalError

/-- One round of the loop of `CControlSocket::SendNextCommand`. -/
def sendLoop (env : TransferEnv) (s : RawTransfer) (input : SendInput) : RawTransfer :=
  if s.waitForAsyncRequest then { s with sending := false }
  else if s.repliesToSkip ≠ 0 then { s with sending := false }
  else
    let r := s.send env input
    r.2.afterSend r.1

/-! ## Replies -/

/-- `CFtpControlSocket::GetReplyCode`. -/
def getReplyCode (response : WString) : Nat :=
  match response with
  | [] => 0
  | c :: _ => if c < '0' ∨ '9' < c then 0 else c.toNat - '0'.toNat

/-- The reply to `PASV`, `EPSV`, `PORT` or `EPRT` was accepted. -/
def afterPortPasv (s : RawTransfer) : RawTransfer :=
  { s with opState := if 0 < s.resumeOffset ∨ s.sentRestartOffset then .rest else .transfer }

/-- `ParseResponse` in `rawtransfer_port_pasv`. -/
def parsePortPasv (env : TransferEnv) (s : RawTransfer) (response : WString) : Nat × RawTransfer :=
  let code := getReplyCode response
  if code ≠ 2 ∧ code ≠ 3 then
    if !env.allowTransferModeFallback then (Reply.error, s)
    else if s.bTriedPasv then
      if s.bTriedActive then (Reply.error, s) else (Reply.continue_, { s with bPasv := false })
    else (Reply.continue_, { s with bPasv := true })
  else if s.bPasv then
    let s := { s with bTriedPasv := true }
    match env.parsePassive s.bTriedActive response with
    | some (host, port) => (Reply.continue_, afterPortPasv { s with host := host, port := port })
    | none =>
      if !env.allowTransferModeFallback then (Reply.error, s)
      else if !s.bTriedActive then (Reply.continue_, { s with bPasv := false })
      else (Reply.error, s)
  else (Reply.continue_, s.afterPortPasv)

/-- A failure in the given way, unless the transfer has failed before. -/
def failed (s : RawTransfer) (reason : TransferEndReason) : Nat × RawTransfer :=
  (Reply.error, { s with
    transferEndReason :=
      if s.transferEndReason = .successful then reason else s.transferEndReason })

/-- `CFtpRawTransferOpData::ParseResponse`. -/
def parseOpResponse (env : TransferEnv) (s : RawTransfer) (response : WString) :
    Nat × RawTransfer :=
  let code := getReplyCode response
  let positive := code = 2 ∨ code = 3
  match s.opState with
  | .init => (Reply.error, s)
  | .type =>
    if positive then
      (Reply.continue_, { s with opState := .portPasv, lastTypeBinary := some s.binary })
    else (Reply.error, s)
  | .portPasv => s.parsePortPasv env response
  | .rest =>
    let s := { s with sentRestartOffset := s.sentRestartOffset && decide (0 < s.resumeOffset) }
    if 0 < s.resumeOffset ∧ ¬positive then (Reply.error, s)
    else (Reply.continue_, { s with opState := .transfer })
  | .transfer =>
    if code = 1 then (Reply.continue_, { s with opState := .waitfinish })
    else if positive then (Reply.continue_, { s with opState := .waitsocket })
    else s.failed .transferCommandFailureImmediate
  | .waittransferpre =>
    if code = 1 then (Reply.continue_, { s with opState := .waittransfer })
    else if positive then
      if s.transferEndReason ≠ .successful then (Reply.error, s) else (Reply.ok, s)
    else s.failed .transferCommandFailureImmediate
  | .waitfinish =>
    if positive then (Reply.continue_, { s with opState := .waitsocket })
    else s.failed .transferCommandFailure
  | .waittransfer =>
    if positive then
      if s.transferEndReason ≠ .successful then (Reply.error, s) else (Reply.ok, s)
    else s.failed .transferCommandFailure
  | .waitsocket => (Reply.error, s)

/-- What `CFtpControlSocket::ParseResponse` does with the result of the operation. -/
def afterParse (s : RawTransfer) (res : Nat) : RawTransfer :=
  if res = Reply.ok then s.resetOperation Reply.ok
  else if res = Reply.continue_ then { s with sending := true }
  else if Reply.has res Reply.disconnected then s.doClose res
  else if Reply.has res Reply.error then s.resetOperation res
  else s

/-- The final reply to the first of the outstanding commands is in. -/
def answered (s : RawTransfer) (code : Nat) : RawTransfer :=
  { s with
    pendingReplies := s.pendingReplies - 1
    outstanding := s.outstanding.tail
    finalReply := if s.outstanding.head?.any (·.isTransfer) then some code else s.finalReply }

/-- `CFtpControlSocket::ParseResponse`. -/
def parseResponse (env : TransferEnv) (s : RawTransfer) (response : WString) : RawTransfer :=
  if response = [] then s
  else
    let preliminary := response.head? = some '1'
    if ¬preliminary ∧ s.pendingReplies = 0 then s
    else
      let s := if preliminary then s else s.answered (getReplyCode response)
      if s.repliesToSkip ≠ 0 then
        let s := if preliminary then s else { s with repliesToSkip := s.repliesToSkip - 1 }
        if s.repliesToSkip = 0 ∧ s.pendingReplies = 0 then { s with sending := true } else s
      else
        let r := s.parseOpResponse env response
        r.2.afterParse r.1

/-! ## The end of the data connection -/

/-- `CTransferSocket::TransferEnd`. -/
def socketEnd (s : RawTransfer) (reason : TransferEndReason) : RawTransfer :=
  if s.endReason ≠ .none then s else { s with endReason := reason }

/-- `CFtpControlSocket::TransferEnd`. -/
def transferEnd (s : RawTransfer) : RawTransfer :=
  if !s.transferSocket then s
  else if s.endReason = .none then s
  else
    let reason : TransferEndReason := s.endReason
    let s : RawTransfer := { s with transferEndReason :=
      if s.transferEndReason = .successful then reason else s.transferEndReason }
    if reason = .failedTlsResumption then s.resetOperation (Reply.error ||| Reply.disconnected)
    else match s.opState with
      | .transfer => { s with opState := .waittransferpre }
      | .waitfinish => { s with opState := .waittransfer }
      | .waitsocket => s.resetOperation (if reason = .successful then Reply.ok else Reply.error)
      | _ => s

end RawTransfer

/-! ## The system -/

inductive RawTransferEvent where
  /-- A round of the loop of `SendNextCommand`. -/
  | send (input : SendInput)
  | reply (response : WString)
  | socketEnd (reason : TransferEndReason)
  | transferEnd
  /-- The transfer socket asks whether to go on without TLS session resumption. -/
  | ask
  /-- The answer, for `SetAsyncRequestReply`. -/
  | asyncReply (allow : Bool)
  /-- `OnExternalIPAddress`. -/
  | onExternalIpAddress
  | cancel
  /-- `DoClose` after a timeout, an error of the socket or the end of the connection. -/
  | close (code : Nat)
deriving DecidableEq

namespace RawTransfer

def step (env : TransferEnv) (s : RawTransfer) (e : RawTransferEvent) : Option RawTransfer :=
  if s.result.isSome then none
  else match e with
    | .send input => if s.sending then some (s.sendLoop env input) else none
    | e =>
      if s.sending then none
      else match e with
        | .send _ => none
        | .reply response => some (s.parseResponse env response)
        | .socketEnd reason => some (s.socketEnd reason)
        | .transferEnd => some s.transferEnd
        | .ask => some { s with waitForAsyncRequest := true }
        | .asyncReply allow =>
          if s.waitForAsyncRequest then
            let s := { s with waitForAsyncRequest := false }
            if allow then some s else some (s.resetOperation Reply.canceled)
          else none
        | .onExternalIpAddress => if s.resolving then some { s with sending := true } else none
        | .cancel => some (s.resetOperation Reply.canceled)
        | .close code => some (s.doClose code)

end RawTransfer

/-- Every order of replies and ends of the data connection. -/
def rawTransferSystem (env : TransferEnv) : Lts RawTransfer RawTransferEvent :=
  Lts.ofFun (fun s => ∃ cmd binary resumeOffset lastTypeBinary sentRestartOffset earlier,
    s = .start cmd binary resumeOffset lastTypeBinary sentRestartOffset earlier)
    (RawTransfer.step env)

/-- The operation takes a preliminary reply for the final one in these two places. -/
def RawTransfer.GoesOnEarly (env : TransferEnv) (s : RawTransfer) : Prop :=
  (s.opState = .portPasv ∧ env.allowTransferModeFallback = true) ∨
    (s.opState = .rest ∧ s.resumeOffset ≤ 0)

/-- No preliminary reply is passed to the operation where it would take it for the final one. -/
def RawTransfer.Admits (env : TransferEnv) (s : RawTransfer) : RawTransferEvent → Prop
  | .reply response => response.head? = some '1' → s.repliesToSkip = 0 → ¬s.GoesOnEarly env
  | _ => True

instance RawTransfer.decidableGoesOnEarly (env : TransferEnv) (s : RawTransfer) :
    Decidable (s.GoesOnEarly env) := by
  unfold RawTransfer.GoesOnEarly
  infer_instance

instance RawTransfer.decidableAdmits (env : TransferEnv) (s : RawTransfer) (e : RawTransferEvent) :
    Decidable (s.Admits env e) := by
  unfold RawTransfer.Admits
  split <;> infer_instance

def goodRawTransferSystem (env : TransferEnv) : Lts RawTransfer RawTransferEvent :=
  (rawTransferSystem env).restrict (RawTransfer.Admits env)

end FlintZilla
