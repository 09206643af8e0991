import FlintZilla.Ftp.SessionInvariant

/-!
# The login is sent over TLS only

For FTPES and FTPS a control connection goes through few phases until its TLS layer is there, and in
each of them it is known what the operation at the back may do. The phases are kept by every step,
so a command of the login sequence finds the TLS layer installed.

Main results:

* `Phase`: the phases of a connection until its TLS layer is installed.
* `Protected.call`, `Protected.handle`: what the control socket does by itself, and what an event
  does, keep them.
* `protected_of_reach`: so does every run.
* `login_sent_over_tls`: every command of the login sequence was sent over TLS.
-/

namespace FlintZilla

open Lib Lib.Search FtpSession List

/-- The command's verb is `USER`, `PASS` or `ACCT`. -/
def isLoginCommand (command : WString) : Bool :=
  ["USER", "PASS", "ACCT"].any fun verb =>
    verb.toList = wideStrToUpperAscii (command.takeWhile (· ≠ ' '))

/-- The user wants a connection that is secured before the login. -/
def ServerProtocol.requiresTls : ServerProtocol → Bool
  | .ftps | .ftpes => true
  | _ => false

/-- A call that may be in progress while the logon goes on. -/
def FtpTask.goesOn : FtpTask → Bool
  | .idle | .doClose _ | .sendNextCommand | .sendLoop => true
  | .resetOperation _ | .parseSubcommandResult _ => false

/-- A logon in the given state is at the back and does not wait for the user. -/
def AtLogon (state : LogonState) (ops : List FtpOperation) : Prop :=
  ∃ op l rest, ops = op :: rest ∧ op.logon = some l ∧ l.opState = state ∧
    op.waitForAsyncRequest = false

/-- The operation at the back is not a logon that has yet to connect. -/
def NotStarting (ops : List FtpOperation) : Prop :=
  ∀ op rest l, ops = op :: rest → op.logon = some l → l.opState ≠ .connect

variable {ops : List FtpOperation}

theorem NoLogon.notStarting (h : NoLogon ops) : NotStarting ops := by
  rintro op rest l rfl hl
  rw [h op (by simp)] at hl
  cases hl

/-- A logon that has left its first state does not connect any more. -/
theorem AtLogon.notStarting {state : LogonState} (h : AtLogon state ops)
    (hstate : state ≠ .connect) : NotStarting ops := by
  obtain ⟨op, l, rest, rfl, hl, rfl, -⟩ := h
  rintro op' rest' l' heq hl'
  cases heq
  rw [hl] at hl'
  cases hl'
  exact hstate

/-- What a connection with protocol `p` may be doing. -/
inductive Phase (p : ServerProtocol) (layer : Layer) (ops : List FtpOperation) (task : FtpTask)
    (receiving : Bool) : Prop where
  /-- The TLS layer is there. -/
  | secured (hlayer : layer.isTls = true) (hops : NotStarting ops)
  /-- TLS is negotiated. -/
  | negotiating (hlayer : layer = .plain) (hp : p = .ftpes) (state : LogonState)
      (hstate : state = .authTls ∨ state = .authSsl) (hat : AtLogon state ops)
      (htask : task.goesOn = true)
  /-- The greeting has not come yet. -/
  | greeting (hlayer : layer = .connecting ∧ receiving = false ∨ layer = .plain ∧ p = .ftpes)
      (hat : AtLogon .welcome ops) (htask : task.idleOrCloses = true)
  /-- The logon has yet to connect. -/
  | starting (hlayer : layer = .absent) (hreceiving : receiving = false)
      (hat : AtLogon .connect ops)
      (htask : task.goesOn = true)
  | offline (hlayer : layer = .absent) (hops : ops = []) (htask : task.isEntry = true)
  /-- The operations are reset after the connection was closed. -/
  | closing (hlayer : layer = .absent) (code : Nat)
      (hcode : Reply.has code Reply.disconnected = true)
      (htask : task = .resetOperation code)

variable {op : FtpOperation} {rest : List FtpOperation} {l : FtpLogon}

theorem notStarting_logon (hstate : l.opState ≠ .connect) :
    NotStarting ({ op with logon := some l } :: rest) := by
  rintro op' rest' l' heq hl'
  cases heq
  cases hl'
  exact hstate

variable {p : ServerProtocol} {layer : Layer} {task : FtpTask} {receiving : Bool}

/-- A phase goes on while the logon in it is at the back, and while an idle connection is closed. -/
theorem Phase.map {ops' : List FtpOperation} {task' : FtpTask} {receiving' : Bool}
    (h : Phase p layer ops task receiving) (hnot : NotStarting ops → NotStarting ops')
    (hat : ∀ {state}, AtLogon state ops → AtLogon state ops') (hnil : ops = [] → ops' = [])
    (hno : layer = .absent ∨ layer = .connecting → receiving = false → receiving' = false)
    (htask : task' = task ∨ task = .idle ∧ ∃ code, task' = .doClose code) :
    Phase p layer ops' task' receiving' := by
  rcases htask with rfl | ⟨rfl, code, rfl⟩ <;> cases h with
  | secured hlayer hops => exact .secured hlayer (hnot hops)
  | negotiating hlayer hp state hst h ht => exact .negotiating hlayer hp state hst (hat h) ht
  | greeting hlayer h ht =>
    exact .greeting (hlayer.imp_left fun h => ⟨h.1, hno (.inr h.1) h.2⟩) (hat h) ht
  | starting hlayer hr h ht => exact .starting hlayer (hno (.inl hlayer) hr) (hat h) ht
  | offline hlayer hops ht => exact .offline hlayer (hnil hops) ht
  | closing hlayer code hcode ht => first | exact .closing hlayer code hcode ht | cases ht

/-- No phase ends when `OnReceive` starts or is done. -/
theorem Phase.received {receiving' : Bool} (h : Phase p layer ops task receiving)
    (hready : receiving' = true → layer = .plain ∨ layer = .tls) :
    Phase p layer ops task receiving' := by
  refine h.map id id id (fun hlayer _ => ?_) (.inl rfl)
  by_contra hne
  rcases hlayer with rfl | rfl <;> simp [hne] at hready

/-- A logon that notes something in its state stays in its phase. -/
theorem Phase.withLogon {l' : FtpLogon} (h : Phase p layer (op :: rest) task receiving)
    (hl : op.logon = some l) (hstate : l'.opState = l.opState) :
    Phase p layer ({ op with logon := some l' } :: rest) task receiving := by
  refine h.map (fun hnot => notStarting_logon ?_) ?_ nofun (fun _ => id) (.inl rfl)
  · rw [hstate]
    exact hnot op rest l rfl hl
  · rintro state ⟨op', l'', rest', heq, hl'', rfl, hwait⟩
    cases heq
    rw [hl] at hl''
    cases hl''
    exact ⟨_, l', rest, rfl, rfl, hstate, hwait⟩

theorem Reply.has_or_left {a flag : Nat} (b : Nat) (h : Reply.has a flag) :
    Reply.has (a ||| b) flag = true := by
  unfold Reply.has at *
  rw [bne_iff_ne] at *
  intro h0
  rw [Nat.and_or_distrib_right] at h0
  exact h (Nat.or_eq_zero_iff.mp h0).1

/-- A code of a closed connection is none that the operation below is told. -/
theorem Reply.not_told {code : Nat} (h : Reply.has code Reply.disconnected) :
    ¬(code = Reply.ok ∨ code = Reply.error ∨ code = Reply.criticalError ∨
      code = Reply.errorNotFound) := by
  rintro (rfl | rfl | rfl | rfl) <;> exact absurd h (by decide)

namespace FtpSession

variable {env : FtpEnv} {p : ServerProtocol} {s t : FtpSession} {op : FtpOperation}
  {rest : List FtpOperation} {l : FtpLogon}

/-- The phase of a session. -/
def InPhase (p : ServerProtocol) (s : FtpSession) : Prop :=
  Phase p s.layer s.operations s.task s.receiving

/-- Every login command was handed to `Send` while the TLS layer was active. -/
def LoginSecured (s : FtpSession) : Prop :=
  ∀ c ∈ s.sent, isLoginCommand c.1 = true → c.2.isTls = true

/-- The invariant of a connection that must be secured. -/
def Protected (p : ServerProtocol) (s : FtpSession) : Prop := s.InPhase p ∧ s.LoginSecured

/-- The TLS layer is there, and it was for every login command. -/
def Secured (s : FtpSession) : Prop :=
  s.layer.isTls = true ∧ NotStarting s.operations ∧ s.LoginSecured

theorem Secured.protected (h : s.Secured) (task : FtpTask) : Protected p { s with task := task } :=
  ⟨.secured h.1 h.2.1, h.2.2⟩

/-- A call that sends nothing and does not touch the layers. -/
theorem Secured.of_eq (h : s.Secured) (hlayer : t.layer = s.layer) (hsent : t.sent = s.sent)
    (hnot : NotStarting t.operations) : t.Secured := by
  refine ⟨?_, hnot, ?_⟩
  · rw [hlayer]
    exact h.1
  · unfold LoginSecured
    rw [hsent]
    exact h.2.2

/-- A command that is sent over TLS is no exception. -/
theorem Secured.sends (h : s.Secured) (hsends : s.Sends t) : t.Secured := by
  obtain ⟨htls, hnot, hsent⟩ := h
  obtain ⟨commands, hcommands⟩ := hsends.sent
  refine ⟨?_, ?_, ?_⟩
  · rw [hsends.eq]
    exact htls
  · rw [hsends.eq]
    exact hnot
  · intro c hmem hlogin
    rw [hcommands] at hmem
    rcases mem_append.mp hmem with hmem | hmem
    · exact hsent c hmem hlogin
    · obtain ⟨command, -, rfl⟩ := mem_map.mp hmem
      exact htls

/-- A command that is none of the login may be sent at any time. -/
theorem LoginSecured.append (h : s.LoginSecured) {command : WString} {layer : Layer}
    (hcommand : isLoginCommand command = false) {sent : List (WString × Layer)}
    (hsent : sent = s.sent ++ [(command, layer)]) :
    ∀ c ∈ sent, isLoginCommand c.1 = true → c.2.isTls = true := by
  intro c hmem hlogin
  rw [hsent] at hmem
  rcases mem_append.mp hmem with hmem | hmem
  · exact h c hmem hlogin
  · rw [mem_singleton] at hmem
    rw [hmem, hcommand] at hlogin
    cases hlogin

/-! ## Sending -/

/-- A logon that is behind the negotiation does not go back. -/
theorem notStarting_setsLate (hset : s.SetsLate t) : NotStarting t.operations := by
  obtain ⟨f, rfl, hf⟩ := hset
  cases hops : s.operations with
  | nil =>
    rw [mapTop_nil hops, hops]
    rintro op rest l heq
    cases heq
  | cons op rest =>
    rw [mapTop_cons hops]
    rintro op' rest' l heq hl
    cases heq
    obtain ⟨l', hl', hlate⟩ := hf op
    rw [hl'] at hl
    cases hl
    intro hstate
    rw [hstate] at hlate
    cases hlate

theorem layer_mapTop (f : FtpOperation → FtpOperation) : (s.mapTop f).layer = s.layer := by
  unfold mapTop
  split <;> rfl

theorem sent_mapTop (f : FtpOperation → FtpOperation) : (s.mapTop f).sent = s.sent := by
  unfold mapTop
  split <;> rfl

/-- Over the TLS layer every logon command may be sent. -/
theorem Secured.logonSend (h : s.Secured) (hops : s.operations = op :: rest)
    (hl : op.logon = some l) (connects : Bool) : (s.logonSend env l connects).2.Secured := by
  obtain ⟨s', hs', hsends⟩ := logonSend_spec env s connects (h.2.1 op rest l hops hl)
  refine Secured.sends ?_ hsends
  rcases hs' with rfl | hset
  · exact h
  · have hnot := notStarting_setsLate hset
    obtain ⟨f, rfl, -⟩ := hset
    exact h.of_eq (layer_mapTop f) (sent_mapTop f) hnot

theorem withLogon_cons (hops : s.operations = op :: rest) :
    s.withLogon l = { s with operations := { op with logon := some l } :: rest } := mapTop_cons hops

/-- A stack without a logon, after an operation other than a logon has done something. -/
theorem Secured.performed (hw : s.WellFormed p) (h : s.Secured) (o : FtpChoice)
    (hops : s.operations = op :: rest) (hl : op.logon = none) : (s.performed o).Secured := by
  obtain ⟨ops, -, hno, heq⟩ := performed_eq o (by simp [hops]) (hw.noLogon hops hl)
  rw [heq]
  exact ⟨h.1, hno.notStarting, h.2.2⟩

/-- What the calls in progress do, once TLS is there. -/
theorem Secured.callRules : CallRules fun s => s.WellFormed p ∧ s.Secured where
  next := id
  sends h hsends := ⟨h.1.sends hsends, h.2.sends hsends⟩
  logonSend connects h hops hl hskip :=
    ⟨h.1.logonSend hops hl hskip connects, h.2.logonSend hops hl connects⟩
  performed o h hops hl := ⟨h.1.performed o hops hl, h.2.performed h.1 o hops hl⟩
  pops {s n} h := by
    refine ⟨WellFormed.callRules.pops h.1, h.2.1, NoLogon.notStarting ?_, h.2.2.2⟩
    exact h.1.noLogon_tail
  trusted {s l} h hl hstate := by
    refine ⟨WellFormed.callRules.trusted h.1 hl hstate, ?_⟩
    obtain ⟨op, rest, hops, -⟩ := backLogon_eq_some hl
    rw [withLogon_cons hops]
    exact ⟨h.2.1, notStarting_logon (by simp), h.2.2.2⟩

/-- The commands of the negotiation are no login. -/
theorem isLoginCommand_auth :
    isLoginCommand "AUTH TLS".toList = false ∧ isLoginCommand "AUTH SSL".toList = false := by
  decide

/-- Without the TLS layer nothing but the negotiation is sent. -/
theorem logonSend_auth (env : FtpEnv) (s : FtpSession)
    (hstate : l.opState = .authTls ∨ l.opState = .authSsl) (connects : Bool) :
    ∃ command, isLoginCommand command = false ∧
      s.logonSend env l connects = (Reply.wouldBlock, { s with
        sent := s.sent ++ [(command, s.layer)], pendingReplies := s.pendingReplies + 1 }) := by
  rcases hstate with hstate | hstate
  · refine ⟨"AUTH TLS".toList, isLoginCommand_auth.1, ?_⟩
    simp only [logonSend, hstate]
    exact sendCommand_ascii s (by decide) (by decide)
  · refine ⟨"AUTH SSL".toList, isLoginCommand_auth.2, ?_⟩
    simp only [logonSend, hstate]
    exact sendCommand_ascii s (by decide) (by decide)

/-- The logon sends what its state is for. -/
theorem Protected.sendLoop (hw : s.WellFormed p) (h : s.Protected p) (htask : s.task = .sendLoop)
    (o : FtpChoice) : (s.sendLoop env o).Protected p := by
  obtain ⟨hphase, hsent⟩ := h
  rw [InPhase, htask] at hphase
  cases hphase with
  | secured hlayer hnot =>
    exact (Secured.callRules.sendLoop ⟨hw, hlayer, hnot, hsent⟩ o).2.protected _
  | negotiating hlayer hp state hstate hat htask' =>
    -- the command that is sent is `AUTH`, which needs no protection
    obtain ⟨op, l, rest, hops, hl, rfl, hwait⟩ := hat
    have hskip : s.repliesToSkip = 0 := by
      refine (hw.sound hops hl).skips ?_
      rcases hstate with hstate | hstate <;> simp [hstate]
    obtain ⟨command, hcommand, heq⟩ := logonSend_auth env s hstate o.connects
    rw [FtpSession.sendLoop, hops]
    simp only [hwait, hskip, hl, heq]
    refine ⟨.negotiating hlayer hp l.opState hstate ?_ rfl, hsent.append hcommand rfl⟩
    exact ⟨op, l, rest, hops, hl, rfl, hwait⟩
  | starting hlayer hreceiving hat _ =>
    -- the logon waits for replies to skip, or connects
    obtain ⟨op, l, rest, hops, hl, hstate, hwait⟩ := hat
    rw [FtpSession.sendLoop, hops]
    simp only [hwait, hl, logonSend_connect hops hstate]
    by_cases hskip : s.repliesToSkip ≠ 0
    · rw [if_pos hskip]
      exact ⟨.starting hlayer hreceiving ⟨op, l, rest, rfl, hl, hstate, hwait⟩ rfl, hsent⟩
    · rw [if_neg hskip]
      refine ⟨.greeting (.inl ⟨rfl, hreceiving⟩) ⟨_, _, rest, rfl, rfl, rfl, rfl⟩ ?_, hsent⟩
      show (FtpControlSocket.afterSend _).idleOrCloses = true
      cases o.connects <;> decide
  | greeting _ _ htask' | offline _ _ htask' | closing _ _ _ htask' => cases htask'

/-! ## Other calls -/

/-- The loop over the operation on top starts, if there is one. -/
theorem Protected.sendNextCommand (h : s.Protected p) (htask : s.task = .sendNextCommand) :
    s.sendNextCommand.Protected p := by
  obtain ⟨hphase, hsent⟩ := h
  rw [InPhase, htask] at hphase
  unfold FtpSession.sendNextCommand
  cases hphase with
  | secured hlayer hnot => split <;> exact ⟨.secured hlayer hnot, hsent⟩
  | negotiating hlayer hp state hstate hat _ =>
    obtain ⟨op, l, rest, hops, hl⟩ := hat
    rw [hops]
    exact ⟨.negotiating hlayer hp state hstate ⟨op, l, rest, rfl, hl⟩ rfl, hsent⟩
  | starting hlayer hreceiving hat _ =>
    obtain ⟨op, l, rest, hops, hl⟩ := hat
    rw [hops]
    exact ⟨.starting hlayer hreceiving ⟨op, l, rest, rfl, hl⟩ rfl, hsent⟩
  | offline hlayer hops _ =>
    rw [hops]
    exact ⟨.offline hlayer rfl rfl, hsent⟩
  | greeting _ _ htask' | closing _ _ _ htask' => cases htask'

variable {code : Nat}

/-- The connection is being closed, or TLS is there. -/
theorem Protected.resetOperation (hw : s.WellFormed p) (h : s.Protected p)
    (htask : s.task = .resetOperation code) (o : FtpChoice) :
    (s.resetOperation code o).Protected p := by
  obtain ⟨hphase, hsent⟩ := h
  rw [InPhase, htask] at hphase
  cases hphase with
  | secured hlayer hnot =>
    exact (Secured.callRules.resetOperation ⟨hw, hlayer, hnot, hsent⟩ _ o).2.protected _
  | negotiating _ _ _ _ _ htask' | greeting _ _ htask' | starting _ _ _ htask' => cases htask'
  | offline hlayer hops _ =>
    rw [FtpSession.resetOperation, hops]
    exact ⟨.offline hlayer rfl rfl, hsent⟩
  | closing hlayer code' hcode htask' =>
    cases htask'
    unfold FtpSession.resetOperation
    dsimp only
    split
    · rename_i hops
      exact ⟨.offline hlayer hops rfl, hsent⟩
    · rename_i op rest hops
      -- the code keeps the bit that ends all operations below
      have hcode' : Reply.has (if op.logon.isSome then code else code ||| o.extra)
          Reply.disconnected = true := by
        split
        · exact hcode
        · exact Reply.has_or_left _ hcode
      split
      · exact ⟨.offline hlayer rfl rfl, hsent⟩
      · rw [if_neg (Reply.not_told hcode')]
        exact ⟨.closing hlayer _ hcode' rfl, hsent⟩

theorem Protected.doClose (h : s.Protected p) (code : Nat) : (s.doClose code).Protected p := by
  refine ⟨.closing rfl _ ?_ rfl, h.2⟩
  exact Reply.has_or_left _ (by decide)

/-- There is a result to hand on only once TLS is there. -/
theorem Protected.parseSubcommandResult (hw : s.WellFormed p) (h : s.Protected p)
    (htask : s.task = .parseSubcommandResult code) (o : FtpChoice) :
    (s.parseSubcommandResult code o).Protected p := by
  obtain ⟨hphase, hsent⟩ := h
  rw [InPhase, htask] at hphase
  cases hphase with
  | secured hlayer hnot =>
    exact (Secured.callRules.parseSubcommandResult ⟨hw, hlayer, hnot, hsent⟩ _ o).2.protected _
  | negotiating _ _ _ _ _ htask' | greeting _ _ htask' | starting _ _ _ htask'
  | offline _ _ htask' | closing _ _ _ htask' => cases htask'

/-! ## Receiving -/

/-- A reply that is no success closes the connection. -/
theorem afterParse_disconnectedBy (response : WString) :
    ∃ code, FtpControlSocket.afterParse (disconnectedBy response) true = .doClose code := by
  unfold disconnectedBy
  split <;> exact ⟨_, rfl⟩

variable {o : FtpChoice}

/-- A reply goes to the logon if that is on top. -/
theorem passReply_logon {response : WString} {res : Nat} (hops : s.operations = op :: rest)
    (hl : op.logon = some l) (heq : s.logonParseResponse l response o.handshakes = (res, t)) :
    s.passReply response o = { t with task := FtpControlSocket.afterParse res true } := by
  unfold passReply
  rw [hops]
  simp only [hl, heq]

/-- A logon with a new state, in the phase of that state. -/
theorem Protected.of_withLogon {task : FtpTask} (hops : s.operations = op :: rest)
    (hphase : Phase p s.layer ({ op with logon := some l } :: rest) task s.receiving)
    (hsent : s.LoginSecured) : Protected p { s.withLogon l with task := task } := by
  rw [withLogon_cons hops]
  exact ⟨hphase, hsent⟩

section

variable (hw : s.WellFormed .ftpes) (hsent : s.LoginSecured) (hlayer : s.layer = .plain)
  (hops : s.operations = op :: rest) (hl : op.logon = some l)
  (hwait : op.waitForAsyncRequest = false)
include hw hsent hlayer hops hl hwait

/-- A reply to the negotiation secures the connection, lets it go on, or closes it. -/
theorem Protected.passReply_auth (hstate : l.opState = .authTls ∨ l.opState = .authSsl)
    (response : WString) (o : FtpChoice) : (s.passReply response o).Protected .ftpes := by
  have hne : l.opState ≠ .connect := by rcases hstate with h | h <;> simp [h]
  have hearly : l.opState.isEarly = true := by rcases hstate with h | h <;> rw [h] <;> rfl
  cases hpos : positive response with
  | true =>
    -- the handshake starts, or it fails and the connection is closed
    cases ho : o.handshakes with
    | true =>
      have hparse := logonParseResponse_positive (s := s) hstate hpos
      rw [passReply_logon hops hl (ho ▸ hparse)]
      exact .of_withLogon hops (.secured rfl (notStarting_logon (by simp))) hsent
    | false =>
      have hparse := logonParseResponse_positive_fails (s := s) hstate hpos
      rw [passReply_logon hops hl (ho ▸ hparse)]
      exact .of_withLogon hops (.secured rfl (notStarting_logon hne)) hsent
  | false =>
    rcases hstate with hstate | hstate
    · -- after `AUTH TLS` comes `AUTH SSL`, and after that the end
      have hneeded := (hw.sound hops hl).offers hearly rfl
      rw [passReply_logon hops hl (logonParseResponse_authTls hstate hneeded.2 hpos)]
      refine .of_withLogon hops ?_ hsent
      exact .negotiating hlayer rfl .authSsl (.inr rfl) ⟨_, _, rest, rfl, rfl, rfl, hwait⟩ rfl
    · have hprotocol : s.server.protocol ≠ .ftp := by simp [hw.1]
      obtain ⟨code, hcode⟩ := afterParse_disconnectedBy response
      rw [passReply_logon hops hl (logonParseResponse_authSsl hstate hprotocol hpos), hcode]
      refine .of_withLogon hops ?_ hsent
      exact .negotiating hlayer rfl .authSsl (.inr rfl)
        ⟨_, _, rest, rfl, rfl, hstate, hwait⟩ rfl

/-- The greeting is followed by the negotiation. -/
theorem Protected.passReply_welcome (hstate : l.opState = .welcome) (response : WString)
    (o : FtpChoice) : (s.passReply response o).Protected .ftpes := by
  have hearly : l.opState.isEarly = true := by simp [hstate, LogonState.isEarly]
  cases hpos : positive response with
  | true =>
    have hneeded := (hw.sound hops hl).offers hearly rfl
    rw [passReply_logon hops hl (logonParseResponse_welcome hstate hneeded.1 hpos)]
    refine .of_withLogon hops ?_ hsent
    exact .negotiating hlayer rfl .authTls (.inl rfl) ⟨_, _, rest, rfl, rfl, rfl, hwait⟩ rfl
  | false =>
    obtain ⟨code, hcode⟩ := afterParse_disconnectedBy response
    rw [passReply_logon hops hl (logonParseResponse_welcome_negative hstate hpos), hcode]
    refine .of_withLogon hops ?_ hsent
    exact .greeting (.inr ⟨hlayer, rfl⟩) ⟨_, _, rest, rfl, rfl, hstate, hwait⟩ rfl

end

/-- A reply takes no TLS layer away and sends nothing. -/
theorem Hears.kept (h : s.Hears t) : (s.layer.isTls = true → t.layer.isTls = true) ∧
    t.sent = s.sent ∧ t.operations = s.operations := by
  rcases h with h | h
  · exact ⟨fun htls => by rwa [h.layer], h.sent, h.operations⟩
  · exact ⟨fun _ => by rw [h.layer]; rfl, h.sent, h.operations⟩

/-- Once the TLS layer is there a reply leaves it there. -/
theorem Protected.passReply_secured (hw : s.WellFormed p) (hsent : s.LoginSecured)
    (hlayer : s.layer.isTls) (hnot : NotStarting s.operations) (response : WString)
    (o : FtpChoice) : (s.passReply response o).Protected p := by
  cases hops : s.operations with
  | nil =>
    unfold passReply
    rw [hops]
    exact ⟨.secured hlayer hnot, hsent⟩
  | cons op rest =>
    cases hl : op.logon with
    | some l =>
      obtain ⟨res, s', l', heq, hhears, -, hconnect⟩ :=
        logonParseResponse_spec s l response o.handshakes
      rw [passReply_logon hops hl heq]
      obtain ⟨htls, hsame, hback⟩ := hhears.kept
      refine .of_withLogon (hback.trans hops)
        (.secured (htls hlayer) (notStarting_logon ?_)) ?_
      · intro hl'
        exact hnot op rest l hops hl (hconnect hl')
      · intro c hmem
        rw [hsame] at hmem
        exact hsent c hmem
    | none =>
      have hsecured := Secured.performed hw ⟨hlayer, hnot, hsent⟩ o hops hl
      unfold passReply
      rw [hops]
      simp only [hl]
      exact hsecured.protected _

/-- A connection is secured unless there is none or a logon at the back has yet to secure it. -/
theorem Protected.secured_of (h : s.Protected p)
    (hnone : ∀ state, AtLogon state s.operations → state ≠ .connect → False)
    (hlayer : s.layer ≠ .absent) : s.Secured := by
  obtain ⟨hphase, hsent⟩ := h
  cases hphase with
  | secured hlayer' hnot => exact ⟨hlayer', hnot, hsent⟩
  | negotiating _ _ state hstate hat _ =>
    exact (hnone state hat (by rcases hstate with rfl | rfl <;> simp)).elim
  | greeting _ hat _ => exact (hnone _ hat (by simp)).elim
  | starting hlayer' _ _ _ | offline hlayer' _ _ | closing hlayer' _ _ _ =>
    exact absurd hlayer' hlayer

/-- No reply is skipped before the TLS layer is there. -/
theorem Protected.secured_of_skips (hw : s.WellFormed p) (h : s.Protected p)
    (hlayer : s.layer ≠ .absent) (hskip : s.repliesToSkip ≠ 0) : s.Secured := by
  refine h.secured_of ?_ hlayer
  rintro state ⟨op, l, rest, hops, hl, rfl, -⟩ hstate
  exact hskip ((hw.sound hops hl).skips hstate)

/-- An idle connection can be closed at any time. -/
theorem Protected.close (h : s.Protected p) (htask : s.task = .idle) (code : Nat) :
    Protected p { s with task := .doClose code } :=
  ⟨h.1.map id id id (fun _ => id) (.inr ⟨htask, code, rfl⟩), h.2⟩

section

variable (hw : s.WellFormed p) (h : s.Protected p) (hreceiving : s.receiving)
  (hlayer : s.layer ≠ .absent)
include hw h hreceiving hlayer

/-- Whatever phase the reply comes in. -/
theorem Protected.passReply (response : WString) (o : FtpChoice) :
    (s.passReply response o).Protected p := by
  obtain ⟨hphase, hsent⟩ := h
  cases hphase with
  | secured hlayer' hnot => exact .passReply_secured hw hsent hlayer' hnot response o
  | negotiating hlayer' hp state hstate hat _ =>
    obtain ⟨op, l, rest, hops, hl, rfl, hwait⟩ := hat
    subst hp
    exact .passReply_auth hw hsent hlayer' hops hl hwait hstate response o
  | greeting hlayer' hat _ =>
    obtain ⟨op, l, rest, hops, hl, hstate, hwait⟩ := hat
    rcases hlayer' with ⟨-, hno⟩ | ⟨hplain, rfl⟩
    · rw [hreceiving] at hno
      cases hno
    · exact .passReply_welcome hw hsent hplain hops hl hwait hstate response o
  | starting hlayer' _ _ _ | offline hlayer' _ _ | closing hlayer' _ _ _ =>
    exact absurd hlayer' hlayer

end

/-- A connection with the layer that the bytes came from. -/
structure Receives (p : ServerProtocol) (s : FtpSession) : Prop where
  wellFormed : s.WellFormed p
  inPhase : s.Protected p
  layer : s.layer ≠ .absent
  task : s.task = .idle
  receiving : s.receiving = true

theorem Receives.learns (h : s.Receives p) (hlearns : s.Learns t) : t.Receives p := by
  rw [hlearns]
  exact ⟨h.wellFormed, h.inPhase, h.layer, h.task, h.receiving⟩

/-- A line that the logon looks at does not change its state. -/
theorem Receives.withLogon {l' : FtpLogon} (h : s.Receives p) (hback : s.backLogon = some l)
    (hstate : l'.opState = l.opState) (hadvances : l.Advances l') :
    (s.withLogon l').Receives p := by
  have hw := (WellFormed.lineRules {}).withLogon h.wellFormed hback hstate hadvances
  obtain ⟨op, rest, hops, hl⟩ := backLogon_eq_some hback
  have hphase := h.inPhase.1
  unfold InPhase at hphase
  rw [hops] at hphase
  rw [withLogon_cons hops] at hw ⊢
  exact ⟨hw, ⟨hphase.withLogon hl hstate, h.inPhase.2⟩, h.layer, h.task, h.receiving⟩

/-- The lines of a read, one after the other. -/
theorem Receives.lineRules (o : FtpChoice) : LineRules (Receives p) (Protected p) o where
  learns := Receives.learns
  notes h := ⟨h.wellFormed, h.inPhase, h.layer, h.task, h.receiving⟩
  withLogon := Receives.withLogon
  keeps h := h.inPhase
  closes code h := h.inPhase.close h.task code
  skips h hskip := by
    obtain ⟨htls, hnot, hsent⟩ := h.inPhase.secured_of_skips h.wellFormed h.layer hskip
    exact ⟨⟨.secured htls hnot, hsent⟩, ⟨.secured htls hnot, hsent⟩⟩
  passes response h _ := Protected.passReply h.wellFormed h.inPhase h.receiving h.layer response o
  forgets := id

/-- A read, which stops when the layer changes. -/
theorem Protected.scan (hw : s.WellFormed p) (h : s.Protected p) (htask : s.task = .idle)
    (hreceiving : s.receiving) (o : FtpChoice) : (s.scan env o).Protected p := by
  have hdone : Protected p { s with receiving := false } := ⟨h.1.received (by simp), h.2⟩
  exact (Receives.lineRules o).scan (fun hlayer => ⟨hw, h, hlayer, htask, hreceiving⟩) hdone
    fun code _ => hdone.close htask code

/-- The call in progress, by its kind. -/
theorem Protected.call (hw : s.WellFormed p) (h : s.Protected p) (hcall : s.call env o = some t) :
    t.Protected p := by
  unfold FtpSession.call at hcall
  split at hcall
  · rename_i htask
    split at hcall
    · rename_i hreceiving
      cases hcall
      exact .scan hw h htask hreceiving o
    · cases hcall
  · rename_i htask
    cases hcall
    exact h.sendNextCommand htask
  · rename_i htask
    cases hcall
    exact .sendLoop hw h htask o
  · rename_i htask
    cases hcall
    exact .resetOperation hw h htask o
  · cases hcall
    exact h.doClose _
  · rename_i htask
    cases hcall
    exact .parseSubcommandResult hw h htask o

/-! ## Events -/

section

variable (h : s.Protected p) (htask : s.task = .idle)

include h htask

/-- An idle connection with another operation at the back than an early logon is secured. -/
theorem Protected.secured_of_back (hops : s.operations ≠ [])
    (hnone : ∀ state, AtLogon state s.operations → False) : s.Secured := by
  obtain ⟨hphase, hsent⟩ := h
  rw [InPhase, htask] at hphase
  cases hphase with
  | secured hlayer hnot => exact ⟨hlayer, hnot, hsent⟩
  | negotiating _ _ _ _ hat _ | greeting _ hat _ | starting _ _ hat _ => exact (hnone _ hat).elim
  | offline _ hnil _ => exact absurd hnil hops
  | closing _ _ _ htask' => cases htask'

theorem Protected.secured_of_backIsOther (hother : s.backIsOther) : s.Secured := by
  refine h.secured_of_back htask (fun hnil => by simp [backIsOther, hnil] at hother) ?_
  rintro state ⟨op, l, rest, hops, hl, -⟩
  simp [backIsOther, hops, hl] at hother

/-- Only with the TLS layer there the user may be asked something. -/
theorem Protected.secured_of_waits (hwaits : s.waits) : s.Secured := by
  refine h.secured_of_back htask (fun hnil => by simp [waits, hnil] at hwaits) ?_
  rintro state ⟨op, l, rest, hops, -, -, hwait⟩
  simp [waits, hops, hwait] at hwaits

end

/-- The operation on top changes, but not its logon. -/
theorem Secured.mapTop {f : FtpOperation → FtpOperation} (h : s.Secured)
    (hf : ∀ op, (f op).logon = op.logon) : (s.mapTop f).Secured := by
  refine h.of_eq (layer_mapTop f) (sent_mapTop f) ?_
  cases hops : s.operations with
  | nil =>
    rw [mapTop_nil hops]
    exact h.2.1
  | cons op rest =>
    rw [mapTop_cons hops]
    rintro op' rest' l heq hl
    cases heq
    rw [hf] at hl
    exact h.2.1 op rest l hops hl

/-- The answer of the user leaves the TLS layer there. -/
theorem Protected.asyncReply (hw : s.WellFormed p) (h : s.Protected p) (htask : s.task = .idle)
    (reply : AsyncReply) : (s.callSetAsyncRequestReply reply).Protected p := by
  unfold callSetAsyncRequestReply
  split
  · exact h
  · rename_i hwaits
    have hsecured : s.Secured := h.secured_of_waits htask (by simpa using hwaits)
    refine ((Secured.callRules (p := p)).setAsyncRequestReply ⟨?_, ?_⟩ reply).2.protected _
    · exact hw.mapTop_waits fun _ => rfl
    · exact hsecured.mapTop fun _ => rfl

/-- The engine starts an operation. -/
theorem Protected.command (h : s.Protected p) (htask : s.task = .idle)
    (hreceiving : s.receiving = false) (hops : s.operations = []) :
    Protected p { s.push with task := .sendNextCommand } := by
  have hnone : ∀ {state}, AtLogon state s.operations → False := by
    rintro state ⟨op, l, rest, heq, -⟩
    rw [hops] at heq
    cases heq
  obtain ⟨hphase, hsent⟩ := h
  rw [InPhase, htask] at hphase
  unfold push
  rw [hops]
  cases hphase with
  | secured hlayer hnot =>
    have hlayer' : s.layer ≠ .absent := by
      intro habsent
      rw [habsent] at hlayer
      cases hlayer
    simp only [hlayer', and_false, if_false]
    refine ⟨.secured hlayer (NoLogon.notStarting ?_), hsent⟩
    intro op hmem
    rw [mem_singleton] at hmem
    rw [hmem]
  | negotiating _ _ _ _ hat _ | greeting _ hat _ | starting _ _ hat _ => exact (hnone hat).elim
  | offline hlayer _ _ =>
    -- a command without a connection pushes a logon
    simp only [hlayer]
    exact ⟨.starting rfl hreceiving ⟨_, _, _, rfl, rfl, rfl, rfl⟩ rfl, hsent⟩
  | closing _ _ _ htask' => cases htask'

/-- A layer is connected. -/
theorem Protected.onConnect (hw : s.WellFormed p) (hp : p.requiresTls) (h : s.Protected p)
    (hlayer : s.layer = .connecting ∨ s.layer = .handshake) (handshakes : Bool) :
    (s.onConnect handshakes).Protected p := by
  obtain ⟨hphase, hsent⟩ := h
  unfold FtpSession.onConnect
  dsimp only
  rw [hw.1]
  cases hphase with
  | secured htls hnot =>
    have hhandshake : s.layer ≠ .connecting := by
      intro hconnecting
      rw [hconnecting] at htls
      cases htls
    rw [if_neg hhandshake]
    split <;> exact ⟨.secured rfl hnot, hsent⟩
  | greeting hlayer' hat ht =>
    rcases hlayer' with ⟨hconnecting, -⟩ | ⟨hplain, -⟩
    · rw [if_pos hconnecting]
      split
      · exact ⟨.secured rfl (hat.notStarting (by simp)), hsent⟩
      · rename_i hftps
        have hftpes : p = .ftpes := by
          revert hp hftps
          cases p <;> decide
        exact ⟨.greeting (.inr ⟨rfl, hftpes⟩) hat ht, hsent⟩
    · rw [hplain] at hlayer
      simp at hlayer
  -- in these phases nothing connects
  | negotiating hlayer' _ _ _ _ _ | starting hlayer' _ _ _ | offline hlayer' _ _
  | closing hlayer' _ _ _ =>
    rw [hlayer'] at hlayer
    simp at hlayer

/-- The keep-alive command is sent when there is no operation, so behind the logon. -/
theorem Protected.onTimer (h : s.Protected p) (hlayer : s.layer ≠ .absent) (command : WString) :
    (s.onTimer env command).Protected p := by
  unfold FtpSession.onTimer
  split
  · exact h
  · rename_i hcond
    have hops : s.operations = [] := by
      by_contra hne
      exact hcond (.inl hne)
    have hsecured : s.Secured := h.secured_of (by simp [AtLogon, hops]) hlayer
    obtain ⟨htls, hnot, hsent⟩ := hsecured.sends (sends_sendCommand env s command)
    dsimp only
    split <;> exact ⟨.secured htls hnot, hsent⟩

/-- The user cancels. -/
theorem Protected.cancel (h : s.Protected p) (htask : s.task = .idle) : s.cancel.Protected p := by
  unfold FtpSession.cancel
  split
  · exact h
  · rename_i hne
    split
    · exact h.close htask _
    · rename_i hback
      have hother : s.backIsOther = true := by
        cases hops : s.operations with
        | nil => exact absurd hops hne
        | cons op rest =>
          rw [backLogon_cons hops] at hback
          simpa [backIsOther, hops] using hback
      exact (h.secured_of_backIsOther htask hother).protected _

/-- The certificate is shown before the handshake is finished. -/
theorem Protected.onVerifyCert (h : s.Protected p) (hlayer : s.layer = .handshake) :
    s.sendAsyncRequest.Protected p := by
  obtain ⟨hphase, hsent⟩ := h
  cases hphase with
  | secured htls hnot =>
    have hsecured : s.sendAsyncRequest.Secured := Secured.mapTop ⟨htls, hnot, hsent⟩ fun _ => rfl
    exact hsecured.protected _
  | greeting hlayer' _ _ =>
    rw [hlayer] at hlayer'
    simp at hlayer'
  | negotiating hlayer' _ _ _ _ _ | starting hlayer' _ _ _ | offline hlayer' _ _
  | closing hlayer' _ _ _ =>
    rw [hlayer] at hlayer'
    cases hlayer'

variable {e : FtpSessionEvent}

/-- An event, by its kind. -/
theorem Protected.handle (hw : s.WellFormed p) (hp : p.requiresTls) (h : s.Protected p)
    (htask : s.task = .idle) (hreceiving : s.receiving = false)
    (hhandle : s.handle env e = some t) :
    t.Protected p := by
  cases e <;> simp only [handle, Option.ite_none_right_eq_some, Option.some.injEq,
    reduceCtorEq] at hhandle
  case command =>
    obtain ⟨hops, rfl⟩ := hhandle
    exact h.command htask hreceiving hops
  case cancel =>
    subst hhandle
    exact h.cancel htask
  case close code =>
    subst hhandle
    exact h.close htask code
  case resume | reset code =>
    obtain ⟨hother, rfl⟩ := hhandle
    exact (h.secured_of_backIsOther htask hother).protected _
  case onConnect handshakes =>
    obtain ⟨hlayer, rfl⟩ := hhandle
    exact .onConnect hw hp h hlayer handshakes
  case onVerifyCert =>
    obtain ⟨hlayer, rfl⟩ := hhandle
    exact h.onVerifyCert hlayer
  case asyncReply reply =>
    subst hhandle
    exact .asyncReply hw h htask reply
  case receive bytes =>
    obtain ⟨⟨hlayer, -⟩, rfl⟩ := hhandle
    exact ⟨h.1.received fun _ => hlayer, h.2⟩
  case onTimer command =>
    obtain ⟨⟨-, hlayer⟩, rfl⟩ := hhandle
    exact h.onTimer hlayer command

/-- One step of the system. -/
theorem Protected.step (hw : s.WellFormed p) (hp : p.requiresTls) (h : s.Protected p)
    (hstep : s.step env e = some t) : t.Protected p := by
  rcases step_cases hstep with ⟨o, -, hcall⟩ | ⟨cache, rfl⟩ | ⟨htask, hreceiving, hhandle⟩
  · exact .call hw h hcall
  · exact h
  · exact .handle hw hp h htask hreceiving hhandle

/-- A new connection is in the first phase. -/
theorem protected_new (server : CServer) (credentials : Credentials) (cache : CapabilityCache) :
    (new server credentials cache).Protected server.protocol := by
  constructor
  · exact .starting rfl rfl ⟨_, _, [], rfl, rfl, rfl, rfl⟩ rfl
  · intro c hmem
    cases hmem

/-- Along every run of a connection that must be secured, by induction over the steps. -/
theorem protected_of_reach (h : (ftpSessionSystem env).Reach s)
    (hp : s.server.protocol.requiresTls) : s.Protected s.server.protocol := by
  have hinv : ∃ p, s.WellFormed p ∧ (p.requiresTls = true → s.Protected p) := by
    refine Lts.Reach.invariant
      (fun s => ∃ p, s.WellFormed p ∧ (p.requiresTls = true → s.Protected p))
      ?_ ?_ h
    · rintro s ⟨server, credentials, cache, rfl⟩
      exact ⟨server.protocol, wellFormed_new .., fun _ => protected_new ..⟩
    · rintro s e t hstep ⟨p, hw, hprotected⟩
      exact ⟨p, hw.step hstep, fun hp => Protected.step hw hp (hprotected hp) hstep⟩
  obtain ⟨p, hw, hprotected⟩ := hinv
  rw [hw.1] at hp ⊢
  exact hprotected hp

end FtpSession

/-- For FTPES and FTPS, whatever the server replies, whatever the capability cache holds and
whatever happens to the socket, a `USER`, `PASS` or `ACCT` command is handed to
`CRealControlSocket::Send` only while `active_layer_` is the TLS layer. -/
theorem login_sent_over_tls (env : FtpEnv) (s : FtpSession) (h : (ftpSessionSystem env).Reach s)
    (hp : s.server.protocol = .ftpes ∨ s.server.protocol = .ftps) (command : WString)
    (layer : Layer)
    (hsent : (command, layer) ∈ s.sent) (hlogin : isLoginCommand command = true) :
    layer.isTls = true := by
  have hrequires : s.server.protocol.requiresTls = true := by
    rcases hp with hp | hp <;> rw [hp] <;> rfl
  exact (protected_of_reach h hrequires).2 (command, layer) hsent hlogin

/-- Conversions for texts of ASCII characters. -/
def FtpEnv.ascii : FtpEnv where
  fromUtf8 := fun bytes => bytes.map fun b => Char.ofNat b.toNat
  toUtf8 := fun text => text.map fun c => c.toNat.toUInt8
  customToLocal := fun _ _ => []
  customToServer := fun _ _ => []
  toNarrow := fun text => text.map fun c => c.toNat.toUInt8
  toNarrow_ascii := fun _ _ => rfl

/-- A new connection to a server about which nothing is known. -/
def FtpSession.toUnknownServer (protocol : ServerProtocol) : FtpSession :=
  .new { protocol := protocol, user := "bob".toList } ⟨.normal, "pw".toList, []⟩
    fun _ _ => ⟨.unknown, []⟩

/-- The events until the reply to `AUTH TLS` is waited for. -/
def untilAuthTls : List FtpSessionEvent :=
  [.call {}, .call {}, .onConnect true, .receive (ascii "220 hi\r\n"), .call {}, .call {}, .call {},
    .call {}, .call {}]

/-- The login over a connection that was upgraded. -/
theorem login_sent_over_tls_upgraded :
    ∃ s, (ftpSessionSystem .ascii).Reach s ∧ s.server.protocol = .ftpes ∧
      s.sent = [("AUTH TLS".toList, .plain), ("USER bob".toList, .tls), ("PASS pw".toList, .tls)] ∧
      isLoginCommand "USER bob".toList = true ∧ Layer.isTls .tls = true := by
  have hinit : ∃ server credentials cache, toUnknownServer .ftpes =
      .new server credentials cache := ⟨_, _, _, rfl⟩
  have hreach : (ftpSessionSystem .ascii).Reach _ := Lts.reach_ofFun
    (untilAuthTls ++ [.receive (ascii "234 ok\r\n"), .call {}, .call {}, .call {}, .onVerifyCert,
      .asyncReply (.certificate true), .onConnect true, .call {}, .call {},
      .receive (ascii "331 pw?\r\n"), .call {}, .call {}, .call {}, .call {}, .call {}]) hinit rfl
  exact ⟨_, hreach, rfl, rfl, rfl, login_sent_over_tls .ascii _ hreach (.inl rfl)
    "USER bob".toList .tls (List.mem_cons_of_mem _ (List.mem_cons_self ..)) rfl⟩

end FlintZilla
