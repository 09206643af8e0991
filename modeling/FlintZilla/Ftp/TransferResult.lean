import FlintZilla.Ftp.RawTransfer

/-!
# When a raw transfer is successful

While the operation runs, at most one of its own commands is without final reply, and which one it
can be follows from the state. So a reply that the operation takes for the final reply to the
transfer command is that reply.

Main results:

* `RawTransferInv.step`, `goodRawTransferSystem_inv`: what is outstanding, in every reachable state.
* `rawTransfer_ok`: behind a result of success there are a successful data connection and a positive
  final reply.
-/

namespace FlintZilla

open Lib RawTransfer

/-! ## What happens with a result -/

namespace RawTransfer

variable (s : RawTransfer)

@[simp] theorem afterSend_wouldBlock :
    s.afterSend Reply.wouldBlock = { s with sending := false } := by
  unfold afterSend
  rw [if_neg (by decide), if_neg (by decide), if_neg (by decide), if_neg (by decide), if_pos rfl]

@[simp] theorem afterSend_error : s.afterSend Reply.error = s.resetOperation Reply.error := by
  unfold afterSend
  rw [if_neg (by decide), if_neg (by decide), if_neg (by decide), if_pos (by decide)]

end RawTransfer

/-! ## The invariant -/

namespace RawTransferState

/-- A command is sent in these states. -/
def sends : RawTransferState → Bool
  | .type | .portPasv | .rest | .transfer => true
  | _ => false

/-- The final reply to the transfer command decides in these states. -/
def awaitsFinal : RawTransferState → Bool
  | .transfer | .waitfinish | .waittransferpre | .waittransfer => true
  | _ => false

/-- The command that may be without final reply. -/
def Expects (state : RawTransferState) (command : RawTransferCommand) : Prop :=
  match state with
  | .init | .waitsocket => False
  | .type | .portPasv | .rest => True
  | .transfer | .waitfinish | .waittransferpre | .waittransfer => command.isTransfer = true

/-- In these states the command is the one for the transfer. -/
theorem Expects.isTransfer {state : RawTransferState} {command : RawTransferCommand}
    (h : state.Expects command) (hawaits : state.awaitsFinal) : command.isTransfer = true := by
  cases state <;> first | exact h | cases hawaits

end RawTransferState

namespace RawTransfer

/-- The data connection has ended well and so has the transfer command. -/
def Successful (s : RawTransfer) : Prop :=
  s.endReason = .successful ∧ (s.finalReply = some 2 ∨ s.finalReply = some 3)

/-- What holds until the operation is reset. -/
structure Running (s : RawTransfer) : Prop where
  result : s.result = none
  socket : s.transferSocket = true
  pending_eq : s.pendingReplies = s.outstanding.length
  /-- Nothing is sent before the replies to skip are in. -/
  skipping : s.repliesToSkip ≠ 0 → s.opState = .init ∧ s.repliesToSkip = s.pendingReplies
  expects : s.repliesToSkip = 0 →
    s.outstanding = [] ∨ ∃ command, s.outstanding = [command] ∧ s.opState.Expects command
  /-- No command is sent while another one is without final reply. -/
  ready : s.sending = true → s.opState.sends = true → s.outstanding = []
  resolving : s.resolving = true → s.opState = .portPasv ∧ s.bPasv = false ∧ s.outstanding = []
  ended : s.opState = .waittransferpre ∨ s.opState = .waittransfer →
    s.transferEndReason = .successful → s.endReason = .successful
  final : s.opState = .waitsocket → s.finalReply = some 2 ∨ s.finalReply = some 3

/-- Nothing is outstanding, to be skipped or resolved. -/
structure Quiet (s : RawTransfer) : Prop extends Running s where
  noSkip : s.repliesToSkip = 0
  none : s.outstanding = []
  resolved : s.resolving = false

/-- The operation was reset, and with success only after a successful transfer. -/
def Completed (s : RawTransfer) : Prop :=
  ∃ code, s.result = some code ∧ (code = Reply.ok → s.Successful)

end RawTransfer

/-- The operation runs or is completed. -/
def RawTransferInv (s : RawTransfer) : Prop := s.Running ∨ s.Completed

namespace RawTransferInv

variable {s : RawTransfer}

theorem failed (s : RawTransfer) {code : Nat} (hcode : code ≠ Reply.ok) :
    RawTransferInv (s.resetOperation code) :=
  .inr ⟨code, rfl, fun h => absurd h hcode⟩

/-- An end that is justified. -/
theorem ok (h : s.Successful) : RawTransferInv (s.resetOperation Reply.ok) :=
  .inr ⟨Reply.ok, rfl, fun _ => h⟩

theorem doClose (s : RawTransfer) (code : Nat) : RawTransferInv (s.doClose code) := by
  refine failed _ ?_
  intro hzero
  have hbit : (Reply.error ||| Reply.disconnected ||| code).testBit 1 = true := by
    rw [Nat.testBit_or]
    exact Bool.or_eq_true_iff.mpr (.inl rfl)
  rw [hzero] at hbit
  cases hbit

theorem error (s : RawTransfer) : RawTransferInv (s.resetOperation Reply.error) :=
  failed s (by decide)

theorem parseError (s : RawTransfer) : RawTransferInv (s.afterParse Reply.error) := error s

theorem parseContinue (h : RawTransfer.Running { s with sending := true }) :
    RawTransferInv (s.afterParse Reply.continue_) := by
  exact .inl h

theorem failedReply (s : RawTransfer) (reason : TransferEndReason) :
    RawTransferInv ((s.failed reason).2.afterParse (s.failed reason).1) :=
  parseError _

end RawTransferInv

namespace RawTransfer.Running

variable {s : RawTransfer} {env : TransferEnv}

/-- At the start, all replies that are to come are skipped. -/
theorem of_init (hstate : s.opState = .init) (hresult : s.result = none)
    (hsocket : s.transferSocket = true) (hpending : s.pendingReplies = s.outstanding.length)
    (hskip : s.repliesToSkip = s.pendingReplies) (hresolving : s.resolving = false) :
    s.Running := by
  refine ⟨hresult, hsocket, hpending, fun _ => ⟨hstate, hskip⟩, ?_, ?_, by simp [hresolving],
    by simp [hstate], by simp [hstate]⟩
  · intro hzero
    exact .inl (List.length_eq_zero_iff.mp (by omega))
  · intro _ hsends
    rw [hstate] at hsends
    cases hsends

variable (h : s.Running)

include h

/-- The invariant reads none of the other members. -/
theorem update
    {bTriedPasv bTriedActive waitForAsyncRequest sentRestartOffset tranferCommandSent : Bool}
    {host : WString} {port : Nat} {lastTypeBinary : Option Bool} :
    Running { s with
      bTriedPasv := bTriedPasv, bTriedActive := bTriedActive, host := host, port := port
      waitForAsyncRequest := waitForAsyncRequest, lastTypeBinary := lastTypeBinary
      sentRestartOffset := sentRestartOffset, tranferCommandSent := tranferCommandSent } :=
  { h with }

theorem stop : Running { s with sending := false } :=
  { h with ready := by simp }

/-! ## Sending -/

omit h in
/-- A command goes out, and its reply is the one that is awaited. -/
theorem sendCommand (h : s.Quiet) {command : RawTransferCommand}
    (hexpects : s.opState.Expects command) :
    RawTransferInv ((sendCommand env s command).2.afterSend (sendCommand env s command).1) := by
  unfold RawTransfer.sendCommand
  split_ifs
  · rw [afterSend_wouldBlock]
    exact .inl h.stop
  · rw [afterSend_wouldBlock]
    refine .inl { h.toRunning with
      pending_eq := ?_, skipping := fun hne => absurd h.noSkip hne, expects := ?_
      ready := by simp, resolving := by simp [h.resolved] }
    · show s.pendingReplies + 1 = (s.outstanding ++ [command]).length
      rw [h.pending_eq, List.length_append]
      rfl
    · intro _
      refine .inr ⟨command, ?_, hexpects⟩
      show s.outstanding ++ [command] = [command]
      rw [h.none]
      rfl
  · rw [afterSend_error]
    exact .error s

omit h in
theorem sendPassive (h : s.Quiet) (hstate : s.opState = .portPasv) :
    RawTransferInv ((s.sendPassive env).2.afterSend (s.sendPassive env).1) := by
  have htried : Running { s with bTriedPasv := true } := h.update
  refine sendCommand ⟨htried, h.noSkip, h.none, h.resolved⟩ ?_
  show s.opState.Expects _
  rw [hstate]
  trivial

theorem clearResolving (bPasv : Bool) : Running { s with resolving := false, bPasv := bPasv } :=
  { h with resolving := by simp }

/-- The mode of the connection is chosen, and its command sent. -/
theorem sendPortPasv (hskip : s.repliesToSkip = 0) (hstate : s.opState = .portPasv)
    (hnil : s.outstanding = []) (input : SendInput) :
    RawTransferInv ((sendPortPasv env s input).2.afterSend (sendPortPasv env s input).1) := by
  unfold RawTransfer.sendPortPasv
  by_cases hpasv : s.bPasv = true
  · rw [if_pos hpasv]
    have hresolving : s.resolving = false := by
      by_contra hres
      rw [(h.resolving (Bool.not_eq_false _ ▸ hres)).2.1] at hpasv
      cases hpasv
    exact sendPassive ⟨h, hskip, hnil, hresolving⟩ hstate
  rw [if_neg hpasv]
  -- the external address has to be resolved first
  by_cases hblock : input.externalIp = .wouldBlock
  · rw [if_pos hblock, afterSend_wouldBlock]
    refine .inl { h with ready := by simp, resolving := ?_ }
    intro _
    exact ⟨hstate, by simpa using hpasv, hnil⟩
  dsimp only
  split_ifs
  · have hactive : Running { s with resolving := false, bTriedActive := true } :=
      (h.clearResolving s.bPasv).update
    refine sendCommand ⟨hactive, hskip, hnil, rfl⟩ ?_
    show s.opState.Expects _
    rw [hstate]
    trivial
  · rw [afterSend_error]
    exact .error _
  · -- no address for active mode: passive mode is tried instead
    have hpassive : Running { s with resolving := false, bTriedActive := true, bPasv := true } :=
      (h.clearResolving true).update
    exact sendPassive ⟨hpassive, hskip, hnil, rfl⟩ hstate

/-- `rawtransfer_init` sends nothing and goes on in a state that does. -/
theorem sendInit (hskip : s.repliesToSkip = 0) (hstate : s.opState = .init) (bPasv : Bool) :
    Running { s with
      opState := if s.lastTypeBinary = some s.binary then .portPasv else .type
      bPasv := bPasv } := by
  have hnil : s.outstanding = [] := by
    rcases h.expects hskip with hnil | ⟨command, -, hexpects⟩
    · exact hnil
    · rw [hstate] at hexpects
      exact hexpects.elim
  have hresolving : s.resolving = true → False := by
    intro hres
    rw [(h.resolving hres).1] at hstate
    cases hstate
  refine ⟨h.result, h.socket, h.pending_eq, fun hne => absurd hskip hne, fun _ => .inl hnil,
    fun _ _ => hnil, fun hres => (hresolving hres).elim, ?_, ?_⟩
  · intro hended
    split_ifs at hended <;> simp at hended
  · intro hfinal
    split_ifs at hfinal

theorem resolving_of_ne (hstate : s.opState ≠ .portPasv) : s.resolving = false := by
  by_contra hres
  exact hstate (h.resolving (Bool.not_eq_false _ ▸ hres)).1

/-- Each state sends its command. -/
theorem send (hskip : s.repliesToSkip = 0) (hsending : s.sending) (input : SendInput) :
    RawTransferInv ((send env s input).2.afterSend (send env s input).1) := by
  have hnil : s.opState.sends = true → s.outstanding = [] := h.ready hsending
  have hresolving : s.opState ≠ .portPasv → s.resolving = false := h.resolving_of_ne
  have hexpects : ∀ {command}, s.opState = .type ∨ s.opState = .rest →
      s.opState.Expects command := by
    rintro command (hstate | hstate) <;> rw [hstate] <;> trivial
  have hsocket : ¬(!s.transferSocket) = true := by
    rw [h.socket]
    simp
  -- the goals below are the states that send, then those that wait
  unfold RawTransfer.send
  rw [if_neg hsocket]
  split
  · next hstate =>
    by_cases hproxy : env.proxyLayer = true
    · rw [if_pos hproxy]
      exact .inl (h.sendInit hskip hstate true).update
    · rw [if_neg hproxy]
      exact .inl (h.sendInit hskip hstate _)
  · next hstate =>
    have htype : Running { s with lastTypeBinary := none } := h.update
    exact sendCommand ⟨htype, hskip, hnil (by rw [hstate]; rfl), hresolving (by simp [hstate])⟩
      (hexpects (.inl hstate))
  · next hstate => exact h.sendPortPasv hskip hstate (hnil (by rw [hstate]; rfl)) input
  · next hstate =>
    have hrest : Running { s with
        sentRestartOffset := s.sentRestartOffset || decide (0 < s.resumeOffset) } := h.update
    exact sendCommand ⟨hrest, hskip, hnil (by rw [hstate]; rfl), hresolving (by simp [hstate])⟩
      (hexpects (.inr hstate))
  · next hstate =>
    split_ifs
    · rw [afterSend_error]
      exact .error _
    · have hsent : Running { s with tranferCommandSent := true } := h.update
      refine sendCommand
        ⟨hsent, hskip, hnil (by rw [hstate]; rfl), hresolving (by simp [hstate])⟩ ?_
      show s.opState.Expects _
      rw [hstate]
      rfl
  all_goals
    rw [afterSend_wouldBlock]
    exact .inl h.stop

/-- The loop sends only if there is nothing to skip. -/
theorem sendLoop (hsending : s.sending) (input : SendInput) :
    RawTransferInv (sendLoop env s input) := by
  unfold RawTransfer.sendLoop
  split_ifs with hwait hskip
  · exact .inl h.stop
  · exact .inl h.stop
  · exact h.send (not_not.mp hskip) hsending input

/-! ## Replies -/

section

omit h

variable (hq : s.Quiet)

include hq

/-- The operation goes on in another state. -/
theorem goOn (state : RawTransferState) (bPasv : Bool)
    (hended : state = .waittransferpre ∨ state = .waittransfer →
      s.transferEndReason = .successful → s.endReason = .successful)
    (hfinal : state = .waitsocket → s.finalReply = some 2 ∨ s.finalReply = some 3) :
    Running { s with opState := state, sending := true, bPasv := bPasv } :=
  ⟨hq.result, hq.socket, hq.pending_eq, fun hne => absurd hq.noSkip hne, fun _ => .inl hq.none,
    fun _ _ => hq.none, by simp [hq.resolved], hended, hfinal⟩

/-- An address is taken from the reply, or the other mode is tried. -/
theorem parsePortPasv (response : WString) :
    RawTransferInv ((s.parsePortPasv env response).2.afterParse
      (s.parsePortPasv env response).1) := by
  -- the mode may change, the state stays or is one of the next two
  have hmode : ∀ bPasv, Running { s with sending := true, bPasv := bPasv } :=
    fun bPasv => goOn hq s.opState bPasv hq.ended hq.final
  have hnext : Running { s.afterPortPasv with sending := true } := by
    have hstate : s.afterPortPasv.opState = .rest ∨ s.afterPortPasv.opState = .transfer := by
      unfold afterPortPasv
      split_ifs
      · exact .inl rfl
      · exact .inr rfl
    refine goOn hq s.afterPortPasv.opState s.bPasv ?_ ?_
    · intro hended
      rcases hstate with hstate | hstate <;> simp [hstate] at hended
    · intro hfinal
      rcases hstate with hstate | hstate <;> simp [hstate] at hfinal
  unfold RawTransfer.parsePortPasv
  dsimp only
  by_cases hcode : getReplyCode response ≠ 2 ∧ getReplyCode response ≠ 3
  · split_ifs
    · exact .parseError _
    · exact .parseError _
    · exact .parseContinue (hmode false)
    · exact .parseContinue (hmode true)
  rw [if_neg hcode]
  by_cases hpasv : s.bPasv = true
  · rw [if_pos hpasv]
    split
    · exact .parseContinue hnext.update
    · split_ifs
      · exact .parseError _
      · exact .parseContinue (hmode false).update
      · exact .parseError _
  · rw [if_neg hpasv]
    exact .parseContinue hnext

/-- The final reply was the one the operation waited for. -/
theorem parseFinal {response : WString}
    (hreply : s.opState.awaitsFinal = true → s.finalReply = some (getReplyCode response)) :
    RawTransferInv
      ((s.parseOpResponse env response).2.afterParse (s.parseOpResponse env response).1) := by
  -- the states in which no transfer is going on ask for nothing
  have hgo : ∀ state, state ≠ .waittransferpre → state ≠ .waittransfer → state ≠ .waitsocket →
      Running { s with opState := state, sending := true } := by
    intro state hpre htransfer hsocket
    refine goOn hq state s.bPasv ?_ (fun hs => absurd hs hsocket)
    rintro (hs | hs)
    · exact absurd hs hpre
    · exact absurd hs htransfer
  have hpositive : s.opState.awaitsFinal = true →
      getReplyCode response = 2 ∨ getReplyCode response = 3 →
      s.finalReply = some 2 ∨ s.finalReply = some 3 := by
    intro hawaits hcode
    rw [hreply hawaits]
    rcases hcode with hcode | hcode
    · exact .inl (congrArg some hcode)
    · exact .inr (congrArg some hcode)
  have hdone : s.opState.awaitsFinal = true →
      getReplyCode response = 2 ∨ getReplyCode response = 3 →
      Running { s with opState := .waitsocket, sending := true } := by
    intro hawaits hcode
    exact goOn hq .waitsocket s.bPasv (by simp) fun _ => hpositive hawaits hcode
  -- the goals below are the states in the order of the source
  unfold parseOpResponse
  dsimp only
  split
  · exact .parseError _
  · split_ifs
    · exact .parseContinue (hgo .portPasv (by simp) (by simp) (by simp)).update
    · exact .parseError _
  · exact parsePortPasv hq response
  · split_ifs
    · exact .parseError _
    · exact .parseContinue (hgo .transfer (by simp) (by simp) (by simp)).update
  · next hstate =>
    split_ifs with hone hcode
    · exact .parseContinue (hgo .waitfinish (by simp) (by simp) (by simp))
    · exact .parseContinue (hdone (by rw [hstate]; rfl) hcode)
    · exact .failedReply s _
  · next hstate =>
    split_ifs with hone hcode hreason
    · exact .parseContinue
        (goOn hq .waittransfer s.bPasv (fun _ => hq.ended (.inl hstate)) (by simp))
    · exact .parseError _
    · exact .ok ⟨hq.ended (.inl hstate) (not_not.mp hreason),
        hpositive (by rw [hstate]; rfl) hcode⟩
    · exact .failedReply s _
  · next hstate =>
    split_ifs with hcode
    · exact .parseContinue (hdone (by rw [hstate]; rfl) hcode)
    · exact .failedReply s _
  · next hstate =>
    split_ifs with hcode hreason
    · exact .parseError _
    · exact .ok ⟨hq.ended (.inr hstate) (not_not.mp hreason),
        hpositive (by rw [hstate]; rfl) hcode⟩
    · exact .failedReply s _
  · exact .parseError _

end

/-- The transfer command waits for its final reply in another state. -/
theorem wait (hawaits : s.opState.awaitsFinal) {state : RawTransferState}
    {reason : TransferEndReason} {sending : Bool}
    (hstate : state = .waitfinish ∨ state = .waittransferpre ∨ state = .waittransfer)
    (hended : state ≠ .waitfinish → reason = .successful → s.endReason = .successful) :
    Running { s with opState := state, transferEndReason := reason, sending := sending } := by
  have hresolving : s.resolving = false := by
    refine h.resolving_of_ne fun hs => ?_
    rw [hs] at hawaits
    cases hawaits
  refine ⟨h.result, h.socket, h.pending_eq, ?_, ?_, ?_, by simp [hresolving], ?_, ?_⟩
  · intro hskip
    rw [(h.skipping hskip).1] at hawaits
    cases hawaits
  · intro hskip
    refine (h.expects hskip).imp_right ?_
    rintro ⟨command, hout, hexpects⟩
    refine ⟨command, hout, ?_⟩
    rcases hstate with rfl | rfl | rfl <;> exact hexpects.isTransfer hawaits
  · intro _ hsends
    rcases hstate with rfl | rfl | rfl <;> cases hsends
  · rintro (rfl | rfl)
    · exact hended (by simp)
    · exact hended (by simp)
  · rintro rfl
    simp at hstate

variable {response : WString}

/-- A preliminary reply is an error, or it is the one that announces the transfer. -/
theorem parsePreliminary (hearly : ¬s.GoesOnEarly env) (hcode : getReplyCode response = 1) :
    RawTransferInv
      ((s.parseOpResponse env response).2.afterParse (s.parseOpResponse env response).1) := by
  have hnegative : ¬(getReplyCode response = 2 ∨ getReplyCode response = 3) := by
    rw [hcode]
    decide
  unfold RawTransfer.parseOpResponse
  dsimp only
  split
  · exact .parseError _
  · rw [if_neg hnegative]
    exact .parseError _
  · -- without the fallback a refused mode is an error
    next hstate =>
    have hfallback : ¬env.allowTransferModeFallback = true := fun hf => hearly (.inl ⟨hstate, hf⟩)
    unfold RawTransfer.parsePortPasv
    rw [if_pos (not_or.mp hnegative), if_pos (by simpa using hfallback)]
    exact .parseError _
  · next hstate =>
    have hoffset : 0 < s.resumeOffset := by
      by_contra hle
      exact hearly (.inr ⟨hstate, not_lt.mp hle⟩)
    rw [if_pos ⟨hoffset, hnegative⟩]
    exact .parseError _
  · -- the transfer has started, and its end is awaited
    next hstate =>
    rw [if_pos hcode]
    exact .parseContinue (h.wait (by rw [hstate]; rfl) (.inl rfl) fun hne => absurd rfl hne)
  · -- the data connection has ended already, so the reply to come is the last thing awaited
    next hstate =>
    rw [if_pos hcode]
    exact .parseContinue (h.wait (by rw [hstate]; rfl) (.inr (.inr rfl))
      fun _ => h.ended (.inl hstate))
  · rw [if_neg hnegative]
    exact .failedReply s _
  · rw [if_neg hnegative]
    exact .failedReply s _
  · exact .parseError _

/-- A reply that is skipped. -/
theorem skipReply (hskip : s.repliesToSkip ≠ 0) (code : Nat) (b : Bool) :
    Running { s.answered code with repliesToSkip := s.repliesToSkip - 1, sending := b } := by
  obtain ⟨hstate, heq⟩ := h.skipping hskip
  refine of_init hstate h.result h.socket ?_ ?_ (h.resolving_of_ne (by simp [hstate]))
  · show s.pendingReplies - 1 = s.outstanding.tail.length
    rw [List.length_tail, h.pending_eq]
  · show s.repliesToSkip - 1 = s.pendingReplies - 1
    rw [heq]

/-- The command the reply is for, and the state behind its final reply. -/
theorem answered (hskip : s.repliesToSkip = 0) (hpending : s.pendingReplies ≠ 0) (code : Nat) :
    (s.answered code).Quiet ∧
      (s.opState.awaitsFinal = true → (s.answered code).finalReply = some code) := by
  -- the reply is for the one command that is outstanding
  rcases h.expects hskip with hnil | ⟨command, hout, hexpects⟩
  · rw [h.pending_eq, hnil] at hpending
    exact absurd rfl hpending
  have hresolving : s.resolving = false := by
    by_contra hres
    have hnil := (h.resolving (Bool.not_eq_false _ ▸ hres)).2.2
    rw [hout] at hnil
    cases hnil
  have hnil : (s.answered code).outstanding = [] := by
    show s.outstanding.tail = []
    rw [hout]
    rfl
  have hzero : s.pendingReplies - 1 = (s.answered code).outstanding.length := by
    rw [hnil, h.pending_eq, hout]
    rfl
  refine ⟨⟨⟨h.result, h.socket, hzero, fun hne => absurd hskip hne, fun _ => .inl hnil,
    fun _ _ => hnil, by simp [RawTransfer.answered, hresolving], h.ended, ?_⟩, hskip, hnil,
    hresolving⟩, ?_⟩
  · intro hs
    have hs' : s.opState = .waitsocket := hs
    rw [hs'] at hexpects
    exact hexpects.elim
  · intro hawaits
    simp [RawTransfer.answered, hout, hexpects.isTransfer hawaits]

/-- A preliminary reply is not the last one; a final one belongs to the command of the state. -/
theorem parseResponse
    (hadm : response.head? = some '1' → s.repliesToSkip = 0 → ¬s.GoesOnEarly env) :
    RawTransferInv (s.parseResponse env response) := by
  unfold RawTransfer.parseResponse
  by_cases hempty : response = []
  · rw [if_pos hempty]
    exact .inl h
  rw [if_neg hempty]
  dsimp only
  by_cases hone : response.head? = some '1'
  · -- a preliminary reply answers no command
    have hcode : getReplyCode response = 1 := by
      cases response with
      | nil => cases hone
      | cons c rest =>
        have hc : c = '1' := by simpa using hone
        rw [hc]
        rfl
    rw [if_neg (by simp [hone]), if_pos hone]
    by_cases hskip : s.repliesToSkip = 0
    · rw [if_neg (not_not.mpr hskip)]
      exact h.parsePreliminary (hadm hone hskip) hcode
    · rw [if_pos hskip, if_pos hone, if_neg (by simp [hskip])]
      exact .inl h
  · -- a reply when none is expected is passed over
    by_cases hpending : s.pendingReplies = 0
    · rw [if_pos ⟨hone, hpending⟩]
      exact .inl h
    rw [if_neg (by simp [hpending]), if_neg hone]
    have hsame : (s.answered (getReplyCode response)).repliesToSkip = s.repliesToSkip := rfl
    by_cases hskip : s.repliesToSkip = 0
    · rw [if_neg (by simp [hsame, hskip])]
      obtain ⟨hquiet, hreply⟩ := h.answered hskip hpending (getReplyCode response)
      exact parseFinal hquiet hreply
    · rw [if_pos (by simp [hsame, hskip])]
      split_ifs
      · exact .inl (h.skipReply hskip _ true)
      · exact .inl (h.skipReply hskip _ s.sending)

/-! ## The end of the data connection -/

/-- The reason of the first end stays. -/
theorem socketEnd (reason : TransferEndReason) : (s.socketEnd reason).Running := by
  unfold RawTransfer.socketEnd
  split_ifs with hset
  · exact h
  · refine { h with ended := ?_ }
    intro hs hsuccessful
    have hended := h.ended hs hsuccessful
    rw [not_not.mp hset] at hended
    cases hended

/-- The data connection has ended; the reply may be there already. -/
theorem transferEnd : RawTransferInv s.transferEnd := by
  -- the reason that is kept is the first one that is not a success
  have hreason : (if s.transferEndReason = .successful then s.endReason else s.transferEndReason) =
      .successful → s.endReason = .successful := by
    split_ifs with hsuccessful
    · exact id
    · exact fun heq => absurd heq hsuccessful
  unfold RawTransfer.transferEnd
  rw [if_neg (by rw [h.socket]; simp)]
  by_cases hnone : s.endReason = .none
  · rw [if_pos hnone]
    exact .inl h
  rw [if_neg hnone]
  by_cases htls : s.endReason = .failedTlsResumption
  · rw [if_pos htls]
    exact .failed _ (by decide)
  rw [if_neg htls]
  split
  · next hstate =>
    exact .inl (h.wait (by rw [hstate]; rfl) (.inr (.inl rfl)) fun _ => hreason)
  · next hstate =>
    exact .inl (h.wait (by rw [hstate]; rfl) (.inr (.inr rfl)) fun _ => hreason)
  · next hstate =>
    by_cases hsuccessful : s.endReason = .successful
    · rw [if_pos hsuccessful]
      exact .ok ⟨hsuccessful, h.final hstate⟩
    · rw [if_neg hsuccessful]
      exact .error _
  · exact .inl { h with ended := fun _ => hreason }

/-! ## Runs -/

/-- Every event that is admitted. -/
theorem step {e : RawTransferEvent} (hadm : s.Admits env e) {t : RawTransfer}
    (hstep : s.step env e = some t) : RawTransferInv t := by
  have hresult : ¬s.result.isSome = true := by
    rw [h.result]
    simp
  unfold RawTransfer.step at hstep
  rw [if_neg hresult] at hstep
  cases e <;>
    simp only [Option.ite_none_left_eq_some, Option.ite_none_right_eq_some, Option.some.injEq]
      at hstep
  case send input =>
    rcases hstep with ⟨hsending, rfl⟩
    exact h.sendLoop hsending input
  case reply response =>
    rcases hstep with ⟨-, rfl⟩
    exact h.parseResponse hadm
  case socketEnd reason =>
    rcases hstep with ⟨-, rfl⟩
    exact .inl (h.socketEnd reason)
  case transferEnd =>
    rcases hstep with ⟨-, rfl⟩
    exact h.transferEnd
  case ask =>
    rcases hstep with ⟨-, rfl⟩
    exact .inl h.update
  case asyncReply allow =>
    rcases hstep with ⟨-, -, hstep⟩
    cases allow with
    | true =>
      cases hstep
      exact .inl h.update
    | false =>
      cases hstep
      exact .failed _ (by decide)
  case onExternalIpAddress =>
    rcases hstep with ⟨-, hres, rfl⟩
    -- nothing was sent before the address is known
    exact .inl { h with ready := fun _ _ => (h.resolving hres).2.2 }
  case cancel =>
    rcases hstep with ⟨-, rfl⟩
    exact .failed _ (by decide)
  case close code =>
    rcases hstep with ⟨-, rfl⟩
    exact .doClose _ _

omit h

/-- At the start nothing of the operation is outstanding. -/
theorem start (cmd : WString) (binary : Bool) (resumeOffset : Int) (lastTypeBinary : Option Bool)
    (sentRestartOffset : Bool) (earlier : Nat) :
    (RawTransfer.start cmd binary resumeOffset lastTypeBinary sentRestartOffset earlier).Running :=
  of_init rfl rfl rfl (by simp [RawTransfer.start]) rfl rfl

end RawTransfer.Running

/-- Whole runs. -/
theorem goodRawTransferSystem_inv {env : TransferEnv} {s : RawTransfer}
    (h : (goodRawTransferSystem env).Reach s) : RawTransferInv s := by
  refine Lts.Reach.invariant RawTransferInv ?_ ?_ h
  · rintro s ⟨cmd, binary, resumeOffset, lastTypeBinary, sentRestartOffset, earlier, rfl⟩
    exact .inl (RawTransfer.Running.start _ _ _ _ _ _)
  · rintro s e t ⟨hstep, hadm⟩ (hrun | ⟨code, hcode, -⟩)
    · exact hrun.step hadm hstep
    · -- a completed operation takes no step
      have hstep' : s.step env e = some t := hstep
      simp [step, hcode] at hstep'

/-- In every run in which no preliminary reply reaches the operation where it would take it for the
final one, the raw transfer completes with `FZ_REPLY_OK` only after a successful data connection and
a positive final reply to the transfer command. -/
theorem rawTransfer_ok {env : TransferEnv} {s : RawTransfer}
    (h : (goodRawTransferSystem env).Reach s) (hok : s.result = some Reply.ok) :
    s.endReason = .successful ∧ (s.finalReply = some 2 ∨ s.finalReply = some 3) := by
  rcases goodRawTransferSystem_inv h with hrun | ⟨code, hcode, hsuccessful⟩
  · rw [hrun.result] at hok
    cases hok
  · rw [hok] at hcode
    cases hcode
    exact hsuccessful rfl

/-- An environment for examples: passive mode over IPv4 without a proxy. -/
def plainEnv (allowTransferModeFallback : Bool) : TransferEnv where
  allowTransferModeFallback := allowTransferModeFallback
  pasvReplyFallbackMode := 0
  usePasv := true
  pasvMode := .default
  proxyLayer := false
  epsvCommand := false
  ipv6 := false
  serverHost := []
  peerIp := []
  isRoutableAddress := fun _ => true
  toIntegral := Lib.Decimal.value 0
  converts := fun _ => true

/-- The next command is sent without trouble. -/
def RawTransferEvent.sendNext : RawTransferEvent := .send ⟨.ok, "1,2,3,4,5,6".toList, true⟩

/-- The data connection ends between the two replies to the transfer command. -/
def plainTransferRun : List RawTransferEvent :=
  [.sendNext, .sendNext, .reply "227 (1,2,3,4,5,6)".toList, .sendNext, .reply "150 ok".toList,
    .sendNext, .socketEnd .successful, .transferEnd, .reply "226 ok".toList]

theorem rawTransfer_ok_plain :
    ∃ s, (goodRawTransferSystem (plainEnv true)).Reach s ∧ s.result = some Reply.ok ∧
      s.endReason = .successful ∧ (s.finalReply = some 2 ∨ s.finalReply = some 3) := by
  have hreach : (goodRawTransferSystem (plainEnv true)).Reach _ :=
    Lts.reach_restrict_ofFun plainTransferRun
      ⟨"RETR x".toList, true, 0, some true, false, 0, rfl⟩ rfl
  exact ⟨_, hreach, rfl, rawTransfer_ok hreach rfl⟩

/-- A preliminary reply to `PASV` lets the operation try `PORT` at once, and the reply to `PORT` is
then taken for the final reply to the transfer command. The same happens with a preliminary reply to
`REST 0`. In both runs the final reply to the transfer command is still missing. -/
theorem rawTransfer_ok_without_reply :
    (∃ s, (rawTransferSystem (plainEnv true)).Reach s ∧ s.result = some Reply.ok ∧
      s.finalReply = none ∧ s.outstanding = [.transfer "RETR x".toList]) ∧
    ∃ s, (rawTransferSystem (plainEnv false)).Reach s ∧ s.result = some Reply.ok ∧
      s.finalReply = none ∧ s.outstanding = [.transfer "RETR x".toList] := by
  constructor
  · exact ⟨_, Lts.reach_ofFun
      [.sendNext, .sendNext, .reply "120 wait".toList, .sendNext, .reply "227 (1,2,3,4,5,6)".toList,
        .sendNext, .reply "200 ok".toList, .sendNext, .socketEnd .successful, .transferEnd]
      ⟨"RETR x".toList, true, 0, some true, false, 0, rfl⟩ rfl, rfl, rfl, rfl⟩
  · exact ⟨_, Lts.reach_ofFun
      [.sendNext, .sendNext, .reply "227 (1,2,3,4,5,6)".toList, .sendNext, .reply "120 wait".toList,
        .sendNext, .reply "350 ok".toList, .sendNext, .socketEnd .successful, .transferEnd]
      ⟨"RETR x".toList, true, 0, some true, true, 0, rfl⟩ rfl, rfl, rfl, rfl⟩

end FlintZilla
