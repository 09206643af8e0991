import FlintZilla.Ftp.LogonSecurity

/-!
# The result of sending a command

`CRealControlSocket::Send` of `engine/controlsocket.cpp` below `CFtpControlSocket::SendCommand`. The
reply code of `Send` is assigned to a `bool`; no code it returns is zero, so that a command which
could not be written is counted as one that will be answered.

Main results:

* `sendCommand_counted`: when a command that is sent is counted as one that has a reply to come.
-/

namespace FlintZilla

/-- What `active_layer_->write` returns. -/
inductive WriteResult where
  | written (n : Nat)
  | error (eagain : Bool)
deriving DecidableEq

/-- The members that `Send` uses. -/
structure RealControlSocket where
  activeLayer : Bool
  sendBuffer : List UInt8
deriving DecidableEq

/-- `CRealControlSocket::Send`; `write` is the answer of the layer if it is asked. -/
def RealControlSocket.send (r : RealControlSocket) (write : WriteResult) (buffer : List UInt8) :
    Nat × RealControlSocket :=
  if !r.activeLayer then (Reply.internalError, r)
  else if r.sendBuffer ≠ [] then
    (Reply.wouldBlock, { r with sendBuffer := r.sendBuffer ++ buffer })
  else
    match write with
    | .error false => (Reply.error ||| Reply.disconnected, r)
    | .error true => (Reply.wouldBlock, { r with sendBuffer := buffer })
    | .written n => (Reply.wouldBlock, { r with sendBuffer := buffer.drop n })

namespace FtpSession

/-- `CFtpControlSocket::SendCommand` with the call of `Send`. -/
def sendCommandTo (env : FtpEnv) (s : FtpSession) (r : RealControlSocket) (write : WriteResult)
    (command : WString) : Nat × FtpSession × RealControlSocket :=
  let buffer := s.convToServer env command
  if buffer = [] then
    (Reply.error, s.logError "Failed to convert command to 8 bit charset", r)
  else
    let (code, r) := r.send write (buffer ++ [13, 10])
    let res : Bool := code != 0
    let s := { s with sent := s.sent ++ [(command, s.layer)] }
    (if res then Reply.wouldBlock else Reply.error,
      if res then { s with pendingReplies := s.pendingReplies + 1 } else s, r)

/-- No reply code of `Send` is zero. -/
theorem send_ne_zero (r : RealControlSocket) (write : WriteResult) (buffer : List UInt8) :
    ((r.send write buffer).1 != 0) = true := by
  unfold RealControlSocket.send
  split_ifs
  · rfl
  · rfl
  · rcases write with n | _ | _ <;> rfl

/-- Whatever happens below, the session sees what the `sendCommand` of the sessions does. -/
theorem sendCommandTo_eq (env : FtpEnv) (s : FtpSession) (r : RealControlSocket)
    (write : WriteResult) (command : WString) :
    ((s.sendCommandTo env r write command).1, (s.sendCommandTo env r write command).2.1) =
      s.sendCommand env command := by
  unfold sendCommandTo sendCommand
  dsimp only
  rw [send_ne_zero, if_pos rfl, if_pos rfl]
  split_ifs <;> rfl

end FtpSession

/-- `Send` reports no failure exactly if there is a layer and the command is put behind what waits
already, or the layer takes a part of it or asks to try again. -/
theorem send_wouldBlock_iff (r : RealControlSocket) (write : WriteResult) (buffer : List UInt8) :
    (r.send write buffer).1 = Reply.wouldBlock ↔
      r.activeLayer = true ∧ (r.sendBuffer ≠ [] ∨ write ≠ .error false) := by
  unfold RealControlSocket.send
  cases hlayer : r.activeLayer with
  | false => exact iff_of_false (show Reply.internalError ≠ _ by decide) nofun
  | true =>
    rw [if_neg (by decide)]
    split_ifs with hwaiting
    · exact iff_of_true rfl ⟨rfl, .inl hwaiting⟩
    · rcases write with n | _ | _
      · exact iff_of_true rfl ⟨rfl, .inr nofun⟩
      · exact iff_of_false (show Reply.error ||| Reply.disconnected ≠ _ by decide)
          fun h => h.2.elim hwaiting (absurd rfl)
      · exact iff_of_true rfl ⟨rfl, .inr nofun⟩

/-- Whatever `Send` reports, `SendCommand` counts the command and waits for its reply. -/
theorem sendCommandTo_counts (env : FtpEnv) (s : FtpSession) (r : RealControlSocket)
    (write : WriteResult) (command : WString) (hconv : s.convToServer env command ≠ []) :
    (s.sendCommandTo env r write command).1 = Reply.wouldBlock ∧
      (s.sendCommandTo env r write command).2.1.pendingReplies = s.pendingReplies + 1 := by
  unfold FtpSession.sendCommandTo
  rw [if_neg hconv]
  dsimp only
  rw [FtpSession.send_ne_zero]
  exact ⟨rfl, rfl⟩

/-- `SendCommand` is an error and counts nothing when `Send` reports a failure, and counts the
command and waits for its reply otherwise: this holds exactly if `Send` has no failure to report. -/
theorem sendCommand_counted (env : FtpEnv) (s : FtpSession) (r : RealControlSocket)
    (write : WriteResult) (command : WString) (hconv : s.convToServer env command ≠ []) :
    (if (r.send write (s.convToServer env command ++ [13, 10])).1 = Reply.wouldBlock then
        (s.sendCommandTo env r write command).1 = Reply.wouldBlock ∧
          (s.sendCommandTo env r write command).2.1.pendingReplies = s.pendingReplies + 1
      else
        (s.sendCommandTo env r write command).1 ≠ Reply.wouldBlock ∧
          (s.sendCommandTo env r write command).2.1.pendingReplies = s.pendingReplies) ↔
      r.activeLayer = true ∧ (r.sendBuffer ≠ [] ∨ write ≠ .error false) := by
  obtain ⟨hcode, hcount⟩ := sendCommandTo_counts env s r write command hconv
  rw [← send_wouldBlock_iff r write (s.convToServer env command ++ [13, 10]), hcode, hcount]
  split_ifs with hsend
  · exact iff_of_true ⟨rfl, rfl⟩ hsend
  · exact iff_of_false (fun h => h.1 rfl) hsend

/-- Half of `NOOP` and its line end is written. -/
theorem sendCommand_counted_partly :
    (FtpSession.sendCommandTo .ascii (.toUnknownServer .ftp) ⟨true, []⟩ (.written 3)
      "NOOP".toList).2.2.sendBuffer = ascii "P\r\n" ∧
    (FtpSession.sendCommandTo .ascii (.toUnknownServer .ftp) ⟨true, []⟩ (.written 3)
      "NOOP".toList).2.1.pendingReplies = 2 :=
  ⟨rfl, ((sendCommand_counted .ascii (.toUnknownServer .ftp) ⟨true, []⟩ (.written 3) "NOOP".toList
    nofun).mpr ⟨rfl, .inr nofun⟩).2⟩

/-- A command that the layer refuses is counted like any other. -/
theorem sendCommand_counts_failure :
    (RealControlSocket.send ⟨true, []⟩ (.error false) (ascii "NOOP\r\n")).1 =
      Reply.error ||| Reply.disconnected ∧
    (FtpSession.sendCommandTo .ascii (.toUnknownServer .ftp) ⟨true, []⟩ (.error false)
      "NOOP".toList).1 = Reply.wouldBlock ∧
    (FtpSession.sendCommandTo .ascii (.toUnknownServer .ftp) ⟨true, []⟩ (.error false)
      "NOOP".toList).2.1.pendingReplies = 2 := ⟨rfl, rfl, rfl⟩

end FlintZilla
