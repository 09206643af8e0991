import FlintZilla.Ftp.LogonSteps

/-!
# The stack of a control connection

In every reachable state a logon operation is at the back of `operations_` or nowhere. Up to the
negotiation of TLS it waits for no challenge and has not dropped a way to secure the connection, and
once it has opened the connection no reply is to be skipped.

Main results:

* `CallRules`, `LineRules`: what a property has to be closed under, so that the calls of the socket
  and the lines of a read keep it.
* `WellFormed.step`, `wellFormed_of_reach`: the stack is as described in every reachable state.
-/

namespace FlintZilla

open Lib Lib.Search List FtpLogon

/-- TLS is negotiated on the connection if the server can do it. -/
def ServerProtocol.isExplicit : ServerProtocol → Bool
  | .ftp | .ftpes => true
  | _ => false

/-- What is known about a logon at the back, for a protocol and `m_repliesToSkip`. -/
structure FtpLogon.Sound (l : FtpLogon) (p : ServerProtocol) (skip : Nat) : Prop where
  waitChallenge : l.opState.isEarly = true → l.waitChallenge = false
  offers : l.opState.isEarly = true → p.isExplicit = true →
    .authTls ∉ l.skipped ∧ .authSsl ∉ l.skipped
  skips : l.opState ≠ .connect → skip = 0

variable {l : FtpLogon}

/-- A logon that goes on stays sound. -/
theorem FtpLogon.Sound.advances {l' : FtpLogon} {p : ServerProtocol} {skip : Nat}
    (h : l.Sound p skip) (hadvances : l.Advances l')
    (hearly : l'.opState.isEarly = true → l.opState.isEarly = true)
    (hskip : l'.opState ≠ .connect → skip = 0) : l'.Sound p skip where
  waitChallenge := by
    intro hl'
    rw [hadvances.waitChallenge]
    exact h.waitChallenge (hearly hl')
  offers := by
    intro hl' hp
    obtain ⟨htls, hssl⟩ := h.offers (hearly hl') hp
    exact ⟨fun hmem => htls (hadvances.authTls hmem), fun hmem => hssl (hadvances.authSsl hmem)⟩
  skips := hskip

/-- Behind the negotiation there is nothing to ask but the replies to skip. -/
theorem FtpLogon.sound_late (p : ServerProtocol) (h : l.opState.isEarly = false) : l.Sound p 0 where
  waitChallenge := by
    intro hl
    rw [h] at hl
    cases hl
  offers := by
    intro hl
    rw [h] at hl
    cases hl
  skips := fun _ => rfl

/-- A logon that was just made. -/
theorem FtpLogon.sound_new (server : CServer) (skip : Nat) :
    (new server).Sound server.protocol skip where
  waitChallenge := fun _ => rfl
  offers := by
    intro _ hp
    have hexplicit : server.protocol = .ftpes ∨ server.protocol = .ftp := by
      revert hp
      cases server.protocol <;> decide
    have hcond : ¬(server.protocol ≠ .ftpes ∧ server.protocol ≠ .ftp) := by tauto
    simp only [new, if_neg hcond]
    split <;> simp
  skips := fun h => absurd rfl h

/-- No operation is a logon. -/
def NoLogon (ops : List FtpOperation) : Prop := ∀ op ∈ ops, op.logon = none

/-- Only the last operation may be a logon. -/
def StackOk (p : ServerProtocol) (skip : Nat) : List FtpOperation → Prop
  | [] => True
  | op :: rest => (∀ l, op.logon = some l → l.Sound p skip) ∧ NoLogon rest

/-- A stack without a logon. -/
theorem NoLogon.stackOk {ops : List FtpOperation} (h : NoLogon ops) (p : ServerProtocol)
    (skip : Nat) : StackOk p skip ops := by
  cases ops with
  | nil => trivial
  | cons op rest =>
    constructor
    · intro l hl
      rw [h op (by simp)] at hl
      cases hl
    · intro op' hop'
      exact h op' (by simp [hop'])

namespace FtpSession

variable {env : FtpEnv} {p : ServerProtocol} {s t : FtpSession} {op : FtpOperation}
  {rest : List FtpOperation} {l : FtpLogon}

/-- The invariant of the stack, for a connection with the protocol `p`. -/
def WellFormed (p : ServerProtocol) (s : FtpSession) : Prop :=
  s.server.protocol = p ∧ StackOk p s.repliesToSkip s.operations

variable (h : s.WellFormed p)

include h

/-- What is learnt about the server is not on the stack. -/
theorem WellFormed.learns (hlearns : s.Learns t) : t.WellFormed p := by
  rw [hlearns]
  exact h

theorem WellFormed.hears (hhears : s.Hears t) : t.WellFormed p := by
  rcases hhears with hlearns | hlearns
  · exact h.learns hlearns
  · exact WellFormed.learns (s := { s with layer := .handshake }) h hlearns

theorem WellFormed.sends (hsends : s.Sends t) : t.WellFormed p := by
  rw [hsends.eq]
  exact h

variable {f : FtpOperation → FtpOperation}

/-- The operation on top changes, and its logon stays sound. -/
theorem WellFormed.mapTop (hf : ∀ op rest, s.operations = op ::
      rest → ∀ l, (f op).logon = some l → l.Sound p s.repliesToSkip) :
    (s.mapTop f).WellFormed p := by
  cases hops : s.operations with
  | nil => rwa [mapTop_nil hops]
  | cons op rest =>
    rw [mapTop_cons hops]
    have hstack := h.2
    rw [hops] at hstack
    exact ⟨h.1, hf op rest hops, hstack.2⟩

/-- Whether an operation waits for the user does not matter. -/
theorem WellFormed.mapTop_waits (hf : ∀ op, (f op).logon = op.logon) :
    (s.mapTop f).WellFormed p := by
  apply h.mapTop
  intro op rest hops l hl
  have hstack := h.2
  rw [hops] at hstack
  rw [hf] at hl
  exact hstack.1 l hl

/-- The logon goes to a late state. -/
theorem WellFormed.setsLate (hskip : s.repliesToSkip = 0) (hset : s.SetsLate t) :
    t.WellFormed p := by
  obtain ⟨f, rfl, hf⟩ := hset
  apply h.mapTop
  intro op _ _ l hl
  obtain ⟨l', hl', hlate⟩ := hf op
  rw [hl'] at hl
  cases hl
  rw [hskip]
  exact sound_late p hlate

/-- The logon on top. -/
theorem WellFormed.sound (hops : s.operations = op :: rest) (hl : op.logon = some l) :
    l.Sound p s.repliesToSkip := by
  have hstack := h.2
  rw [hops] at hstack
  exact hstack.1 l hl

/-- Below the top there is no logon. -/
theorem WellFormed.noLogon_rest (hops : s.operations = op :: rest) : NoLogon rest := by
  have hstack := h.2
  rw [hops] at hstack
  exact hstack.2

theorem WellFormed.noLogon_tail : NoLogon s.operations.tail := by
  cases hops : s.operations with
  | nil => exact nofun
  | cons op rest => exact h.noLogon_rest hops

theorem WellFormed.noLogon (hops : s.operations = op :: rest) (hl : op.logon = none) :
    NoLogon s.operations := by
  rw [hops]
  intro op' hmem
  rcases mem_cons.mp hmem with rfl | hmem
  · exact hl
  · exact h.noLogon_rest hops op' hmem

omit h

/-- A logon at the back is the only operation. -/
theorem backLogon_eq_some (h : s.backLogon = some l) :
    ∃ op rest, s.operations = op :: rest ∧ op.logon = some l := by
  unfold backLogon at h
  cases hops : s.operations with
  | nil =>
    rw [hops] at h
    cases h
  | cons op rest =>
    rw [hops] at h
    exact ⟨op, rest, rfl, h⟩

theorem backLogon_cons (hops : s.operations = op :: rest) : s.backLogon = op.logon := by
  unfold backLogon
  rw [hops]
  rfl

/-! ## Other operations -/

/-- An operation on top of others is part of them. -/
theorem push_of_ne_nil (hne : s.operations ≠ []) :
    s.push = { s with operations := ⟨none, false, false⟩ :: s.operations } := by
  unfold push
  rw [if_neg]
  rintro ⟨hlen, -⟩
  simp only [length_cons, Nat.add_eq_right, length_eq_zero_iff] at hlen
  exact hne hlen

/-- An operation other than a logon pushes its like. -/
theorem performed_eq (o : FtpChoice) (hne : s.operations ≠ []) (hno : NoLogon s.operations) :
    ∃ ops, ops ≠ [] ∧ NoLogon ops ∧ s.performed o = { s with operations := ops } := by
  -- an operation may ask for a reply first, and then push others
  have hasked : ∃ ops, ops ≠ [] ∧ NoLogon ops ∧
      (if o.asks then s.sendAsyncRequest else s) = { s with operations := ops } := by
    split
    · cases hops : s.operations with
      | nil => exact absurd hops hne
      | cons op rest =>
        refine ⟨_, ?_, ?_, mapTop_cons hops⟩
        · simp
        · intro op' hmem
          rw [hops] at hno
          rcases mem_cons.mp hmem with rfl | hmem
          · exact hno op (by simp)
          · exact hno op' (by simp [hmem])
    · exact ⟨s.operations, hne, hno, rfl⟩
  unfold performed
  generalize (if o.asks then s.sendAsyncRequest else s) = s' at hasked
  induction o.pushes with
  | zero => exact hasked
  | succ n ih =>
    obtain ⟨ops, hops, hnoOps, heq⟩ := ih
    refine ⟨⟨none, false, false⟩ :: ops, by simp, ?_, ?_⟩
    · intro op hmem
      rcases mem_cons.mp hmem with rfl | hmem
      · rfl
      · exact hnoOps op hmem
    · show push (Nat.repeat push n s') = _
      rw [heq, push_of_ne_nil hops]

/-- What another operation than the logon does. -/
theorem WellFormed.performed (h : s.WellFormed p) (o : FtpChoice) (hops : s.operations = op :: rest)
    (hl : op.logon = none) : (s.performed o).WellFormed p := by
  have hne : s.operations ≠ [] := by simp [hops]
  obtain ⟨ops, -, hno, heq⟩ := performed_eq o hne (h.noLogon hops hl)
  rw [heq]
  exact ⟨h.1, hno.stackOk _ _⟩

/-! ## Calls -/

/-- The logon opens the connection. -/
theorem logonSend_connect (hops : s.operations = op :: rest) (hstate : l.opState = .connect)
    (connects : Bool) :
    s.logonSend env l connects =
      (if connects then Reply.wouldBlock else Reply.disconnected ||| Reply.error,
        { s.resetSocket with
          layer := .connecting
          operations := { op with logon := some { l with
            loginSequence := prepareLoginSequence s.credentials
            opState := .welcome } } :: rest }) := by
  simp only [logonSend, hstate, withLogon, mapTop_cons hops]
  rfl

/-- The logon sends in its state. -/
theorem WellFormed.logonSend (h : s.WellFormed p) (hops : s.operations = op :: rest)
    (hl : op.logon = some l) (hskip : s.repliesToSkip = 0) (connects : Bool) :
    (s.logonSend env l connects).2.WellFormed p := by
  by_cases hstate : l.opState = .connect
  · have hsound := h.sound hops hl
    have hearly : l.opState.isEarly = true := by
      rw [hstate]
      rfl
    rw [logonSend_connect hops hstate]
    refine ⟨h.1, ?_, h.noLogon_rest hops⟩
    rintro l' hl'
    cases hl'
    exact ⟨fun _ => hsound.waitChallenge hearly, fun _ => hsound.offers hearly, fun _ => rfl⟩
  · obtain ⟨s', hs', hsends⟩ := logonSend_spec env s connects hstate
    rcases hs' with rfl | hset
    · exact h.sends hsends
    · exact (h.setsLate hskip hset).sends hsends

theorem WellFormed.resetSocket (h : s.WellFormed p) : s.resetSocket.WellFormed p := by
  refine ⟨h.1, ?_⟩
  show StackOk p 0 s.operations
  cases hops : s.operations with
  | nil => trivial
  | cons op rest =>
    constructor
    · intro l hl
      have hsound := h.sound hops hl
      exact ⟨hsound.waitChallenge, hsound.offers, fun _ => rfl⟩
    · exact h.noLogon_rest hops

/-- Rules for what the calls keep, whatever they leave to be called next. -/
structure CallRules (P : FtpSession → Prop) : Prop where
  next : ∀ {s credentials task}, P s → P { s with credentials := credentials, task := task }
  sends : ∀ {s t}, P s → s.Sends t → P t
  logonSend : ∀ {env s op rest l} connects, P s → s.operations = op :: rest → op.logon = some l →
    s.repliesToSkip = 0 → P (s.logonSend env l connects).2
  performed : ∀ {s op rest} o, P s → s.operations = op :: rest → op.logon = none → P (s.performed o)
  pops : ∀ {s n}, P s → P { s with repliesToSkip := n, operations := s.operations.tail }
  trusted : ∀ {s l}, P s → s.backLogon = some l → l.opState = .authWait →
    P (s.withLogon { l with opState := .logon })

namespace CallRules

variable {P : FtpSession → Prop} (r : CallRules P) (hs : P s)

include r hs

/-- The operation on top sends, then its result is used. -/
theorem sendLoop (o : FtpChoice) : P (s.sendLoop env o) := by
  unfold FtpSession.sendLoop
  split
  · exact r.next hs
  · rename_i op rest hops
    split
    · exact r.next hs
    · split
      · exact r.next hs
      · rename_i hskip
        split
        · rename_i l hl
          exact r.next (r.logonSend o.connects hs hops hl (not_not.mp hskip))
        · rename_i hl
          have hsends := sends_foldl env s o.commands
          have hops' : (o.commands.foldl (fun s c => (s.sendCommand env c).2) s).operations =
              op :: rest := by
            rw [hsends.eq]
            exact hops
          exact r.next (r.performed o (r.sends hs hsends) hops' hl)

/-- The operation that ends, and the one below. -/
theorem resetOperation (code : Nat) (o : FtpChoice) : P (s.resetOperation code o) := by
  have hpops := r.pops (n := s.pendingReplies) hs
  unfold FtpSession.resetOperation
  dsimp only
  split
  · rename_i hops
    rw [hops] at hpops ⊢
    exact r.next hpops
  · rename_i op rest hops
    rw [hops] at hpops
    generalize (if op.logon.isSome then code else code ||| o.extra) = code'
    split
    · exact r.next hpops
    · split
      · split <;> exact r.next hpops
      · exact r.next hpops

/-- The operation below gets the result. -/
theorem parseSubcommandResult (code : Nat) (o : FtpChoice) :
    P (s.parseSubcommandResult code o) := by
  unfold FtpSession.parseSubcommandResult
  split
  · exact r.next hs
  · rename_i op rest hops
    have hperformed : P (if op.logon.isSome then s else s.performed o) := by
      split
      · exact hs
      · rename_i hl
        exact r.performed o hs hops (by simpa using hl)
    dsimp only
    generalize (if op.logon.isSome then _ else o.res) = res
    split
    · exact r.next hperformed
    · split <;> exact r.next hperformed

/-- The answer of the user. -/
theorem setAsyncRequestReply (reply : AsyncReply) : P (s.setAsyncRequestReply reply) := by
  unfold FtpSession.setAsyncRequestReply
  cases reply with
  | certificate trusted =>
    dsimp only
    split
    · exact hs
    · split
      · exact r.next hs
      · split
        · rename_i l hl
          split
          · rename_i hstate
            exact r.trusted hs hl hstate
          · exact hs
        · exact hs
  | interactiveLogin pass =>
    dsimp only
    split
    · exact hs
    · cases pass <;> exact r.next hs
  | insecureConnection allow => exact r.next hs
  | other next =>
    dsimp only
    split
    · exact r.next hs
    · exact hs

end CallRules

/-! ## Receiving -/

variable {line : WString}

/-- A line that is looked at before it is put into a reply lets the session learn something, or the
logon note it. -/
theorem watchLine_eq_some (h : s.watchLine line = some t) :
    s.Learns t ∨ ∃ l l', s.backLogon = some l ∧ t = s.withLogon l' ∧ l'.opState = l.opState ∧
      l.Advances l' := by
  unfold watchLine at h
  split at h
  · cases h
    exact .inl (.refl s)
  · rename_i l hl
    split at h
    · cases h
      exact .inr ⟨l, _, hl, rfl, rfl, ⟨rfl, id, id⟩⟩
    · split at h
      · cases h
        exact .inl (learns_parseFeat ..)
      · split at h
        · split at h
          · cases h
          · cases h
            exact .inr ⟨l, _, hl, rfl, rfl, ⟨rfl, id, id⟩⟩
        · cases h
          exact .inl (.refl s)

/-- Rules for what holds while received lines are looked at, and for what holds afterwards. -/
structure LineRules (P Q : FtpSession → Prop) (o : FtpChoice) : Prop where
  learns : ∀ {s t}, P s → s.Learns t → P t
  notes : ∀ {s buffer code lines n}, P s → P { s with
    receiveBuffer := buffer, multilineResponseCode := code, multilineResponseLines := lines
    pendingReplies := n }
  withLogon : ∀ {s l l'}, P s → s.backLogon = some l → l'.opState = l.opState → l.Advances l' →
    P (s.withLogon l')
  keeps : ∀ {s}, P s → Q s
  closes : ∀ {s} code, P s → Q { s with task := .doClose code }
  skips : ∀ {s n}, P s → s.repliesToSkip ≠ 0 →
    Q { s with repliesToSkip := n } ∧ Q { s with repliesToSkip := n, task := .sendNextCommand }
  passes : ∀ {s} response, P s → s.repliesToSkip = 0 → Q (s.passReply response o)
  forgets : ∀ {s lines}, Q s → Q { s with multilineResponseLines := lines }

namespace LineRules

variable {P Q : FtpSession → Prop} {o : FtpChoice} (r : LineRules P Q o) (hs : P s)

include r hs

/-- A reply is skipped, dropped, or given to the operation on top. -/
theorem parseResponse (response : WString) : Q (s.parseResponse response o) := by
  unfold FtpSession.parseResponse
  split
  · exact r.keeps hs
  · have hcounted : P
        (if isFinal response then { s with pendingReplies := s.pendingReplies - 1 } else s) := by
      split
      · exact r.notes hs
      · exact hs
    dsimp only
    generalize (if isFinal response then { s with pendingReplies := s.pendingReplies - 1 } else s) =
      s' at hcounted
    by_cases hskip : s'.repliesToSkip ≠ 0
    · have hn : ∃ n, (if isFinal response then { s' with repliesToSkip := s'.repliesToSkip - 1 }
          else s') = { s' with repliesToSkip := n } := by
        split
        · exact ⟨_, rfl⟩
        · exact ⟨s'.repliesToSkip, rfl⟩
      obtain ⟨n, hn⟩ := hn
      rw [if_pos hskip, hn]
      split
      · exact (r.skips hcounted hskip).2
      · exact (r.skips hcounted hskip).1
    · rw [if_neg hskip]
      exact r.passes response hcounted (not_not.mp hskip)

/-- A line of a reply of several lines, or one of its own. -/
theorem assemble (line : WString) : Q (s.assemble line o) := by
  unfold FtpSession.assemble
  split
  · exact r.keeps hs
  · split
    · split
      · exact r.forgets (r.parseResponse (r.notes hs) line)
      · exact r.keeps (r.notes hs)
    · split
      · exact r.keeps (r.notes hs)
      · exact r.parseResponse hs line

/-- The logon looks at the line first. -/
theorem parseLine (line : WString) : Q (s.parseLine line o) := by
  unfold FtpSession.parseLine
  split
  · rename_i t ht
    rcases watchLine_eq_some ht with hlearns | ⟨l, l', hback, rfl, hstate, hadvances⟩
    · exact r.assemble (r.learns hs hlearns) line
    · exact r.assemble (r.withLogon hs hback hstate hadvances) line
  · exact r.closes _ (r.learns hs (learns_logError ..))

omit hs

/-- The next line of what has been read, or the end of it. -/
theorem scan (hs : s.layer ≠ .absent → P s) (hdone : Q { s with receiving := false })
    (hlong : ∀ code errors,
      Q { s with receiving := false, task := .doClose code, errors := errors }) :
    Q (s.scan env o) := by
  unfold FtpSession.scan
  split
  · exact hdone
  · rename_i hlayer
    have hs := hs hlayer
    split
    · dsimp only
      split
      · exact hlong _ _
      · exact hdone
    · exact r.keeps (r.notes hs)
    · exact r.parseLine (r.notes (r.learns hs (learns_convToLocal env s _))) _

end LineRules

variable (h : s.WellFormed p)

include h

theorem WellFormed.withLogon {l' : FtpLogon} (hback : s.backLogon = some l)
    (hsound : l.Sound p s.repliesToSkip → l'.Sound p s.repliesToSkip) :
    (s.withLogon l').WellFormed p := by
  apply h.mapTop
  intro op rest hops l'' hl''
  cases hl''
  rw [backLogon_cons hops] at hback
  exact hsound (h.sound hops hback)

/-- A reply to the logon, or to another operation. -/
theorem WellFormed.passReply (hskip : s.repliesToSkip = 0) (response : WString) (o : FtpChoice) :
    (s.passReply response o).WellFormed p := by
  unfold FtpSession.passReply
  split
  · exact h
  · rename_i op rest hops
    split
    · rename_i l hl
      obtain ⟨res, s', l', heq, hhears, hearly, -⟩ :=
        logonParseResponse_spec s l response o.handshakes
      rw [heq]
      have hs' := h.hears hhears
      have hback : s'.backLogon = some l := by
        have hops' : s'.operations = op :: rest := by
          rcases hhears with hlearns | hlearns
          · exact hlearns.operations.trans hops
          · exact hlearns.operations.trans hops
        rw [backLogon_cons hops', hl]
      have hskip' : s'.repliesToSkip = 0 := by
        rcases hhears with hlearns | hlearns
        · exact hlearns.repliesToSkip.trans hskip
        · exact hlearns.repliesToSkip.trans hskip
      refine hs'.withLogon hback ?_
      intro hsound
      -- past the security negotiation, every state of the logon is sound
      cases hl' : l'.opState.isEarly with
      | false =>
        rw [hskip']
        exact sound_late p hl'
      | true => exact hsound.advances (hearly hl').2 (fun _ => (hearly hl').1) fun _ => hskip'
    · rename_i hl
      exact h.performed o hops hl

/-- A reply that is skipped leaves fewer of them, or the logon at the back would be one that opened
the connection. -/
theorem WellFormed.skipOne {n : Nat} (hskip : s.repliesToSkip ≠ 0) :
    WellFormed p { s with repliesToSkip := n } := by
  refine ⟨h.1, ?_⟩
  show StackOk p n s.operations
  cases hops : s.operations with
  | nil => trivial
  | cons op rest =>
    constructor
    · intro l hl
      have hsound := h.sound hops hl
      refine ⟨hsound.waitChallenge, hsound.offers, ?_⟩
      intro hstate
      exact absurd (hsound.skips hstate) hskip
    · exact h.noLogon_rest hops

omit h

/-- The rules for lines. -/
theorem WellFormed.lineRules (o : FtpChoice) : LineRules (WellFormed p) (WellFormed p) o where
  learns := WellFormed.learns
  notes := id
  withLogon h hback hstate hadvances := by
    apply h.withLogon hback
    intro hsound
    apply hsound.advances hadvances <;> rw [hstate]
    · exact id
    · exact hsound.skips
  keeps := id
  closes _ := id
  skips h hskip := ⟨h.skipOne hskip, h.skipOne hskip⟩
  passes response h hskip := h.passReply hskip response o
  forgets := id

/-- The rules for calls. -/
theorem WellFormed.callRules : CallRules (WellFormed p) where
  next := id
  sends := WellFormed.sends
  logonSend connects h hops hl hskip := h.logonSend hops hl hskip connects
  performed o h hops hl := h.performed o hops hl
  pops h := ⟨h.1, h.noLogon_tail.stackOk _ _⟩
  trusted {s l} h hl hstate := by
    refine h.withLogon hl fun hsound => ?_
    rw [hsound.skips (by simp [hstate])]
    exact sound_late p rfl

include h

/-- The call in progress, by its kind. -/
theorem WellFormed.call {o : FtpChoice} (hcall : s.call env o = some t) : t.WellFormed p := by
  unfold FtpSession.call at hcall
  split at hcall
  · split at hcall
    · cases hcall
      exact (WellFormed.lineRules o).scan (fun _ => h) h fun _ _ => h
    · cases hcall
  · cases hcall
    unfold FtpSession.sendNextCommand
    split <;> exact h
  · cases hcall
    exact WellFormed.callRules.sendLoop h o
  · cases hcall
    exact WellFormed.callRules.resetOperation h _ o
  · cases hcall
    exact h.resetSocket
  · cases hcall
    exact WellFormed.callRules.parseSubcommandResult h _ o

/-! ## Events -/

/-- A first operation: the logon. -/
theorem WellFormed.push (hops : s.operations = []) : s.push.WellFormed p := by
  unfold FtpSession.push
  dsimp only
  split
  · refine ⟨h.1, ?_, ?_⟩
    · rintro l hl
      cases hl
      rw [← h.1]
      exact sound_new ..
    · intro op hmem
      simp only [hops, mem_singleton] at hmem
      rw [hmem]
  · refine ⟨h.1, NoLogon.stackOk ?_ _ _⟩
    intro op hmem
    simp only [hops, mem_singleton] at hmem
    rw [hmem]

/-- The keep-alive command has a reply to skip, and no operation. -/
theorem WellFormed.onTimer (command : WString) : (s.onTimer env command).WellFormed p := by
  unfold FtpSession.onTimer
  split
  · exact h
  · rename_i hcond
    have hops : s.operations = [] := by
      by_contra hne
      exact hcond (.inl hne)
    have hsends := sends_sendCommand env s command
    have hops' : (s.sendCommand env command).2.operations = [] := by
      rw [hsends.eq]
      exact hops
    have hsent := h.sends hsends
    dsimp only
    split
    · refine ⟨hsent.1, ?_⟩
      show StackOk p _ (s.sendCommand env command).2.operations
      rw [hops']
      trivial
    · exact hsent

variable {e : FtpSessionEvent}

/-- An event, by its kind. -/
theorem WellFormed.handle (hhandle : s.handle env e = some t) : t.WellFormed p := by
  cases e <;> simp only [handle, Option.ite_none_right_eq_some, Option.some.injEq,
    reduceCtorEq] at hhandle
  case command =>
    obtain ⟨hops, rfl⟩ := hhandle
    exact h.push hops
  case cancel =>
    subst hhandle
    unfold cancel
    split
    · exact h
    · split <;> exact h
  case close code =>
    subst hhandle
    exact h
  case onConnect handshakes =>
    obtain ⟨-, rfl⟩ := hhandle
    unfold onConnect
    dsimp only
    split
    · split <;> exact h
    · split <;> exact h
  case onVerifyCert =>
    obtain ⟨-, rfl⟩ := hhandle
    exact h.mapTop_waits fun _ => rfl
  case asyncReply reply =>
    subst hhandle
    unfold callSetAsyncRequestReply
    split
    · exact h
    · refine WellFormed.callRules.setAsyncRequestReply ?_ reply
      exact h.mapTop_waits fun _ => rfl
  case onTimer command =>
    obtain ⟨-, rfl⟩ := hhandle
    exact h.onTimer command
  case resume | reset code | receive bytes =>
    obtain ⟨-, rfl⟩ := hhandle
    exact h

omit h

/-- What a step is: a call, a capability that another connection sets, or an event of the event
loop. -/
theorem step_cases (h : s.step env e = some t) :
    (∃ o, e = .call o ∧ s.call env o = some t) ∨
      (∃ cache, t = { s with cache := cache }) ∨
      (s.task = .idle ∧ s.receiving = false ∧ s.handle env e = some t) := by
  cases e with
  | call o => exact .inl ⟨o, rfl, h⟩
  | capability type name value =>
    cases h
    exact .inr (.inl ⟨_, rfl⟩)
  | _ =>
    simp only [step, Option.ite_none_right_eq_some] at h
    exact .inr (.inr ⟨h.1.1, h.1.2, h.2⟩)

/-- One step of the system. -/
theorem WellFormed.step (h : s.WellFormed p) (hstep : s.step env e = some t) : t.WellFormed p := by
  rcases step_cases hstep with ⟨o, -, hcall⟩ | ⟨cache, rfl⟩ | ⟨-, -, hhandle⟩
  · exact h.call hcall
  · exact h
  · exact h.handle hhandle

/-- A new connection has no operations. -/
theorem wellFormed_new (server : CServer) (credentials : Credentials) (cache : CapabilityCache) :
    (new server credentials cache).WellFormed server.protocol := by
  refine ⟨rfl, ?_, ?_⟩
  · rintro l hl
    cases hl
    exact sound_new ..
  · intro op hmem
    cases hmem

/-- Every reachable state has a stack as described. -/
theorem wellFormed_of_reach (h : (ftpSessionSystem env).Reach s) :
    s.WellFormed s.server.protocol := by
  have hinv : ∃ p, s.WellFormed p := by
    refine Lts.Reach.invariant (fun s => ∃ p, s.WellFormed p) ?_ ?_ h
    · rintro s ⟨server, credentials, cache, rfl⟩
      exact ⟨server.protocol, wellFormed_new ..⟩
    · rintro s e t hstep ⟨p, hp⟩
      exact ⟨p, hp.step hstep⟩
  obtain ⟨p, hp⟩ := hinv
  rw [hp.1]
  exact hp

end FtpSession

end FlintZilla
