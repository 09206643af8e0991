import FlintZilla.Ftp.ControlSocket

/-!
# Whose replies the operations see

The outstanding commands are a queue, of which `m_pendingReplies` is the length. `m_repliesToSkip`
is zero or that length: nothing is sent before the replies to skip are in. If it is zero, every
outstanding command is of an operation that is still on the stack.

Main results:

* `FtpInv.step`, `goodFtpSystem_inv`: the queue and the counters, in every reachable state.
* `ftp_replies_counted`: the counters are right, and no reply goes to an operation that started
  after its sender was reset.
* `ftp_replies_live`: with nothing to skip, every outstanding command has its operation on the
  stack.
-/

namespace FlintZilla

open Lib FtpControlSocket List Nat

/-! ## The stack -/

/-- The operations are numbered in the order they started, and none of them was reset. -/
structure StackInv (operations : List FtpOp) (nextId : Nat) (resetIds : List Nat) : Prop where
  id_lt : ∀ op ∈ operations, op.id < nextId
  reset_lt : ∀ i ∈ resetIds, i < nextId
  order : operations.Pairwise fun a b => b.id < a.id
  not_reset : ∀ op ∈ operations, op.id ∉ resetIds
  before : ∀ op ∈ operations, op.resetBefore ⊆ resetIds

namespace StackInv

variable {operations : List FtpOp} {nextId : Nat} {resetIds : List Nat}

theorem push (h : StackInv operations nextId resetIds) (logon : Option LogonPhase)
    (topLevel wait : Bool) :
    StackInv (⟨logon, topLevel, wait, nextId, resetIds⟩ :: operations) (nextId + 1) resetIds := by
  refine ⟨?_, ?_, ?_, ?_, ?_⟩
  · intro op hop
    rcases mem_cons.mp hop with rfl | hop
    · exact lt_succ_self _
    · exact lt_succ_of_lt (h.id_lt op hop)
  · intro i hi
    exact lt_succ_of_lt (h.reset_lt i hi)
  · exact pairwise_cons.mpr ⟨h.id_lt, h.order⟩
  · intro op hop
    rcases mem_cons.mp hop with rfl | hop
    · intro hmem
      exact lt_irrefl _ (h.reset_lt _ hmem)
    · exact h.not_reset op hop
  · intro op hop
    rcases mem_cons.mp hop with rfl | hop
    · exact List.Subset.refl _
    · exact h.before op hop

variable {op : FtpOp}

/-- The operation at the back is reset; the others have other numbers. -/
theorem pop (h : StackInv (op :: operations) nextId resetIds) :
    StackInv operations nextId (op.id :: resetIds) := by
  rcases pairwise_cons.mp h.order with ⟨hless, horder⟩
  refine ⟨?_, ?_, horder, ?_, ?_⟩
  · intro x hx
    exact h.id_lt x (mem_cons_of_mem _ hx)
  · intro i hi
    rcases mem_cons.mp hi with rfl | hi
    · exact h.id_lt op mem_cons_self
    · exact h.reset_lt i hi
  · intro x hx hmem
    rcases mem_cons.mp hmem with heq | hmem
    · have := hless x hx
      omega
    · exact h.not_reset x (mem_cons_of_mem _ hx) hmem
  · intro x hx i hi
    exact mem_cons_of_mem _ (h.before x (mem_cons_of_mem _ hx) hi)

/-- The operation on top changes, but not who it is. -/
theorem replace {op' : FtpOp} (h : StackInv (op :: operations) nextId resetIds)
    (hid : op'.id = op.id) (hbefore : op'.resetBefore = op.resetBefore) :
    StackInv (op' :: operations) nextId resetIds := by
  rcases pairwise_cons.mp h.order with ⟨hless, horder⟩
  refine ⟨?_, h.reset_lt, ?_, ?_, ?_⟩
  · intro x hx
    rcases mem_cons.mp hx with rfl | hx
    · rw [hid]
      exact h.id_lt op mem_cons_self
    · exact h.id_lt x (mem_cons_of_mem _ hx)
  · refine pairwise_cons.mpr ⟨?_, horder⟩
    intro x hx
    rw [hid]
    exact hless x hx
  · intro x hx
    rcases mem_cons.mp hx with rfl | hx
    · rw [hid]
      exact h.not_reset op mem_cons_self
    · exact h.not_reset x (mem_cons_of_mem _ hx)
  · intro x hx
    rcases mem_cons.mp hx with rfl | hx
    · rw [hbefore]
      exact h.before op mem_cons_self
    · exact h.before x (mem_cons_of_mem _ hx)

end StackInv

/-! ## What an operation may do to the stack -/

/-- Operations are added and changed, none is taken away, and no counter is touched. -/
structure Grows (s t : FtpControlSocket) : Prop where
  pending : t.pendingReplies = s.pendingReplies
  skip : t.repliesToSkip = s.repliesToSkip
  outstanding : t.outstanding = s.outstanding
  link : t.link = s.link
  resetIds : t.resetIds = s.resetIds
  delivered : t.delivered = s.delivered
  kept : ∀ op ∈ s.operations, ∃ op' ∈ t.operations, op'.id = op.id
  stack : StackInv s.operations s.nextId s.resetIds → StackInv t.operations t.nextId t.resetIds

namespace Grows

variable {s t u : FtpControlSocket}

theorem refl (s : FtpControlSocket) : Grows s s :=
  ⟨rfl, rfl, rfl, rfl, rfl, rfl, fun op hop => ⟨op, hop, rfl⟩, id⟩

theorem trans (h : Grows s t) (h' : Grows t u) : Grows s u := by
  refine ⟨h'.pending.trans h.pending, h'.skip.trans h.skip, h'.outstanding.trans h.outstanding,
    h'.link.trans h.link, h'.resetIds.trans h.resetIds, h'.delivered.trans h.delivered, ?_,
    h'.stack ∘ h.stack⟩
  intro op hop
  rcases h.kept op hop with ⟨op', hop', hid⟩
  rcases h'.kept op' hop' with ⟨op'', hop'', hid'⟩
  exact ⟨op'', hop'', hid'.trans hid⟩

theorem pushOp (s : FtpControlSocket) (logon : Option LogonPhase) (topLevel : Bool) :
    Grows s (s.pushOp logon topLevel) :=
  ⟨rfl, rfl, rfl, rfl, rfl, rfl, fun op hop => ⟨op, mem_cons_of_mem _ hop, rfl⟩,
    fun h => h.push logon topLevel false⟩

theorem push (s : FtpControlSocket) (logon : Option LogonPhase) : Grows s (s.push logon) := by
  unfold FtpControlSocket.push
  dsimp only
  split_ifs
  · exact (pushOp s logon false).trans (pushOp _ _ _)
  · exact pushOp s logon false

/-- A change of the operation on top adds nothing to the stack. -/
theorem mapTop (s : FtpControlSocket) {f : FtpOp → FtpOp} (hid : ∀ op, (f op).id = op.id)
    (hbefore : ∀ op, (f op).resetBefore = op.resetBefore) : Grows s (s.mapTop f) := by
  unfold FtpControlSocket.mapTop
  split
  · exact refl s
  · next op rest hops =>
    refine ⟨rfl, rfl, rfl, rfl, rfl, rfl, ?_, ?_⟩
    · intro x hx
      rw [hops] at hx
      rcases mem_cons.mp hx with rfl | hx
      · exact ⟨f x, mem_cons_self, hid x⟩
      · exact ⟨x, mem_cons_of_mem _ hx, rfl⟩
    · intro h
      rw [hops] at h
      exact h.replace (hid op) (hbefore op)

/-- What an operation does before its result is used. -/
theorem performed (s : FtpControlSocket) (o : OpResult) : Grows s (s.performed o) := by
  have hpushes : ∀ n (t : FtpControlSocket), Grows t (Nat.repeat (fun s => s.push none) n t) := by
    intro n
    induction n with
    | zero => exact refl
    | succ n ih => exact fun t => (ih t).trans (push _ _)
  have hask : Grows s (s.mapTop fun op => { op with waitForAsyncRequest := true }) :=
    mapTop s (fun _ => rfl) (fun _ => rfl)
  unfold FtpControlSocket.performed
  split_ifs
  · exact hask.trans (hpushes _ _)
  · exact hpushes _ _

theorem withTask (h : Grows s t) (task : FtpTask) : Grows s { t with task := task } :=
  { h with }

end Grows

/-! ## The invariant -/

/-- A command of an operation on the stack, or the greeting. -/
def Sender.Live (operations : List FtpOp) (who : Sender) : Prop :=
  who = .greeting ∨ ∃ op ∈ operations, who = .op op.id

structure FtpInv (s : FtpControlSocket) : Prop where
  pending_eq : s.pendingReplies = s.outstanding.length
  /-- All outstanding replies are to be skipped, or none. -/
  gate : s.repliesToSkip = 0 ∨ s.repliesToSkip = s.pendingReplies
  live : s.repliesToSkip = 0 → ∀ who ∈ s.outstanding, who.Live s.operations
  stack : StackInv s.operations s.nextId s.resetIds
  /-- Nothing is outstanding before the connection is there, and the logon operation waits for
  it. -/
  connecting : s.link = .connecting → s.outstanding = [] ∧ s.repliesToSkip = 0 ∧
    s.isLogon = true ∧ s.task.idleOrCloses = true
  delivered : ∀ p ∈ s.delivered, p.1 ≠ .keepalive ∧ ∀ i, p.1 = .op i → i ∉ p.2.resetBefore

namespace FtpInv

variable {s t : FtpControlSocket}

theorem new : FtpInv .new := by
  refine ⟨rfl, .inl rfl, ?_, ?_, by simp [FtpControlSocket.new], by simp [FtpControlSocket.new]⟩
  · intro _ who hwho
    exact .inl (mem_singleton.mp hwho)
  · exact ⟨by simp [FtpControlSocket.new], by simp [FtpControlSocket.new], List.Pairwise.nil,
      by simp [FtpControlSocket.new], by simp [FtpControlSocket.new]⟩

variable (h : FtpInv s)

include h

/-- The stack grows, and a connection that is being made stays with the logon. -/
theorem grows_of_connecting (hg : Grows s t)
    (hconnecting : s.link = .connecting → t.isLogon = true ∧ t.task.idleOrCloses = true) :
    FtpInv t := by
  refine ⟨?_, ?_, ?_, hg.stack h.stack, ?_, ?_⟩
  · rw [hg.pending, hg.outstanding]
    exact h.pending_eq
  · rw [hg.skip, hg.pending]
    exact h.gate
  · rw [hg.skip, hg.outstanding]
    intro hskip who hwho
    rcases h.live hskip who hwho with hgreet | ⟨op, hop, heq⟩
    · exact .inl hgreet
    · rcases hg.kept op hop with ⟨op', hop', hid⟩
      exact .inr ⟨op', hop', by rw [hid, heq]⟩
  · rw [hg.link, hg.outstanding, hg.skip]
    intro hlink
    rcases h.connecting hlink with ⟨hout, hskip, -⟩
    exact ⟨hout, hskip, hconnecting hlink⟩
  · rw [hg.delivered]
    exact h.delivered

/-- The effects of a call keep the invariant as long as the connection is not being established. -/
theorem grows (hg : Grows s t) (hlink : s.link ≠ .connecting) : FtpInv t :=
  h.grows_of_connecting hg fun hconnecting => absurd hconnecting hlink

theorem withTask (hlink : s.link ≠ .connecting) (task : FtpTask) : FtpInv { s with task := task } :=
  h.grows ((Grows.refl s).withTask task) hlink

/-- A call that closes the connection may be made at any time. -/
theorem withClose (code : Nat) : FtpInv { s with task := .doClose code } := by
  refine { h with connecting := ?_ }
  intro hconnecting
  rcases h.connecting hconnecting with ⟨hout, hskip, htop, -⟩
  exact ⟨hout, hskip, htop, rfl⟩

theorem timer (b : Bool) : FtpInv { s with idleTimer := b } :=
  { h with }

omit h in
/-- Only the timer is set. -/
theorem startKeepaliveTimer_eq (s : FtpControlSocket) (enabled : Bool) :
    ∃ b, s.startKeepaliveTimer enabled = { s with idleTimer := b } := by
  unfold startKeepaliveTimer
  split_ifs
  · exact ⟨s.idleTimer, rfl⟩
  · exact ⟨s.idleTimer, rfl⟩
  · exact ⟨true, rfl⟩

/-! ## Calls -/

variable {op : FtpOp}

section

variable (hlink : s.link ≠ .connecting) (hskip : s.repliesToSkip = 0) (hop : op ∈ s.operations)

include hlink hskip hop

/-- An operation sends commands when no replies are to be skipped. -/
theorem sendCommand : FtpInv (s.sendCommand (.op op.id)) := by
  refine ⟨?_, .inl hskip, ?_, h.stack, fun hc => absurd hc hlink, h.delivered⟩
  · show s.pendingReplies + 1 = (s.outstanding ++ [Sender.op op.id]).length
    rw [h.pending_eq, length_append]
    rfl
  · intro _ who hwho
    rcases mem_append.mp hwho with hold | hnew
    · exact h.live hskip who hold
    · exact .inr ⟨op, hop, mem_singleton.mp hnew⟩

/-- Commands of one operation, one after the other. -/
theorem sendCommands (n : Nat) :
    FtpInv (Nat.repeat (fun s => s.sendCommand (.op op.id)) n s) ∧
      (Nat.repeat (fun s => s.sendCommand (.op op.id)) n s).link = s.link ∧
      (Nat.repeat (fun s => s.sendCommand (.op op.id)) n s).repliesToSkip = 0 ∧
      (Nat.repeat (fun s => s.sendCommand (.op op.id)) n s).operations = s.operations := by
  induction n with
  | zero => exact ⟨h, rfl, hskip, rfl⟩
  | succ n ih =>
    rcases ih with ⟨hinv, hlink', hskip', hops⟩
    refine ⟨hinv.sendCommand (hlink' ▸ hlink) hskip' (hops ▸ hop), hlink', hskip', hops⟩

end

/-- A closed connection owes no replies. -/
theorem resetSocket (link : Link) (task : FtpTask)
    (hconnecting : link = .connecting → s.isLogon = true ∧ task.idleOrCloses = true) :
    FtpInv { s.resetSocket with link := link, task := task } := by
  refine ⟨rfl, .inl rfl, by simp [FtpControlSocket.resetSocket], h.stack, ?_, h.delivered⟩
  intro hlink
  exact ⟨rfl, rfl, hconnecting hlink⟩

theorem doClose (code : Nat) : FtpInv (s.doClose code) := h.resetSocket .closed _ (by simp)

theorem live_of_pending_eq_zero (hzero : s.pendingReplies = 0)
    (operations : List FtpOp) : ∀ who ∈ s.outstanding, who.Live operations := by
  have hnil : s.outstanding = [] := length_eq_zero_iff.mp (h.pending_eq.symm.trans hzero)
  rw [hnil]
  intro who hwho
  cases hwho

variable {rest : List FtpOp}

/-- When the operation at the back is reset, everything outstanding is skipped from then on. -/
theorem pop (hlink : s.link ≠ .connecting) (hops : s.operations = op :: rest)
    (b : Bool) (task : FtpTask) :
    FtpInv { s with
      repliesToSkip := s.pendingReplies, idleTimer := b, operations := rest
      resetIds := op.id :: s.resetIds, task := task } := by
  refine ⟨h.pending_eq, .inr rfl, ?_, ?_, fun hc => absurd hc hlink, h.delivered⟩
  · exact fun hzero => h.live_of_pending_eq_zero hzero _
  · have hstack := h.stack
    rw [hops] at hstack
    exact hstack.pop

omit h in
/-- The operation that ends, and what is next: nothing, or the operation below. -/
theorem resetOperation_cases (s : FtpControlSocket) (code res : Nat) (timer : Bool) :
    (s.operations = [] ∧ s.resetOperation code res timer =
      { s with repliesToSkip := s.pendingReplies, idleTimer := false, task := .idle }) ∨
    ∃ op rest b task, s.operations = op :: rest ∧ s.resetOperation code res timer = { s with
      repliesToSkip := s.pendingReplies, idleTimer := b, operations := rest
      resetIds := op.id :: s.resetIds, task := task } := by
  rcases s with ⟨operations, pendingReplies, repliesToSkip, idleTimer, link, task, nextId,
    outstanding, resetIds, delivered⟩
  cases operations with
  | nil => exact .inl ⟨rfl, rfl⟩
  | cons op rest =>
    right
    unfold resetOperation
    dsimp only
    -- whatever happens to the timer, the same operation is taken off
    have htimer : ∃ b, (if Reply.has code Reply.disconnected = true then
        (⟨op :: rest, pendingReplies, pendingReplies, false, link, task, nextId, outstanding,
          resetIds, delivered⟩ : FtpControlSocket)
        else startKeepaliveTimer ⟨op :: rest, pendingReplies, pendingReplies,
          idleTimer, link, task, nextId, outstanding, resetIds, delivered⟩ timer) =
        ⟨op :: rest, pendingReplies, pendingReplies, b, link, task, nextId, outstanding, resetIds,
          delivered⟩ := by
      split_ifs
      · exact ⟨false, rfl⟩
      · exact startKeepaliveTimer_eq _ timer
    rcases htimer with ⟨b, hb⟩
    rw [hb]
    cases rest with
    | nil => exact ⟨op, [], b, .idle, rfl, rfl⟩
    | cons op' rest' =>
      split_ifs
      all_goals exact ⟨op, op' :: rest', b, _, rfl, rfl⟩

variable (hlink : s.link ≠ .connecting)

include hlink

/-- The replies to an operation that ends are skipped. -/
theorem resetOperation (code res : Nat) (timer : Bool) :
    FtpInv (s.resetOperation code res timer) := by
  rcases resetOperation_cases s code res timer with ⟨hops, heq⟩ | ⟨op, rest, b, task, hops, heq⟩
  · rw [heq]
    refine ⟨h.pending_eq, .inr rfl, ?_, h.stack, fun hc => absurd hc hlink, h.delivered⟩
    exact fun hzero => h.live_of_pending_eq_zero hzero _
  · rw [heq]
    exact h.pop hlink hops b task

theorem parseSubcommandResult (o : OpResult) : FtpInv (s.parseSubcommandResult o) := by
  have hgrows := Grows.performed s o
  unfold FtpControlSocket.parseSubcommandResult
  split
  · exact h.withTask hlink _
  · split_ifs <;> exact h.grows (hgrows.withTask _) hlink

/-- `DoConnect` starts with nothing outstanding; if it fails, the connection is closed next. -/
theorem sendConnect (hops : s.operations = op :: rest) (o : OpResult)
    (connects : Bool) : FtpInv (s.sendConnect o connects) := by
  unfold FtpControlSocket.sendConnect
  cases connects with
  | false => exact h.withTask hlink _
  | true =>
    have hmap : FtpInv (s.mapTop fun op => { op with logon := some .welcome }) :=
      h.grows (Grows.mapTop s (fun _ => rfl) (fun _ => rfl)) hlink
    have htask : ∀ res, (FtpControlSocket.afterSend (if res = Reply.wouldBlock
        then Reply.wouldBlock else Reply.disconnected ||| Reply.error)).idleOrCloses = true := by
      intro res
      split_ifs <;> rfl
    have hconnecting := hmap.resetSocket .connecting _ fun _ =>
      ⟨by simp [FtpControlSocket.isLogon, FtpControlSocket.mapTop, hops], htask o.res⟩
    simp only [FtpControlSocket.mapTop, FtpControlSocket.resetSocket, hops]
      at hconnecting ⊢
    exact hconnecting

/-- The operation on top sends until it has to wait. -/
theorem sendLoop (o : OpResult) (connects : Bool) : FtpInv (s.sendLoop o connects) := by
  unfold FtpControlSocket.sendLoop
  split
  · exact h.withTask hlink _
  · next op rest hops =>
    have hmem : op ∈ s.operations := by
      rw [hops]
      exact mem_cons_self
    by_cases hwait : op.waitForAsyncRequest = true
    · rw [if_pos hwait]
      exact h.withTask hlink _
    rw [if_neg hwait]
    by_cases hskip : s.repliesToSkip ≠ 0
    · rw [if_pos hskip]
      exact h.withTask hlink _
    rw [if_neg hskip]
    split
    · exact h.sendConnect hlink hops o connects
    · exact h.withTask hlink _
    · -- the commands of the operation are the newest ones
      rcases h.sendCommands hlink (not_not.mp hskip) hmem o.sends with ⟨hsent, hlink', -⟩
      exact hsent.grows ((Grows.performed _ o).withTask _) (hlink' ▸ hlink)

theorem sendNextCommand : FtpInv s.sendNextCommand := by
  unfold FtpControlSocket.sendNextCommand
  split <;> exact h.withTask hlink _

/-! ## Replies -/

variable {who : Sender}

/-- A reply is passed on only if its command is of an operation that was not reset. -/
theorem passReply (hop : op ∈ s.operations) (hwho : who.Live s.operations) (digit : Nat)
    (o : OpResult) : FtpInv (s.passReply who op digit o) := by
  have hlog : FtpInv { s with delivered := s.delivered ++ [(who, op)] } := by
    refine { h with connecting := fun hc => absurd hc hlink, delivered := ?_ }
    refine forall_mem_append.mpr ⟨h.delivered, forall_mem_singleton.mpr ?_⟩
    rcases hwho with rfl | ⟨op', hop', rfl⟩
    · exact ⟨by simp, by simp⟩
    · refine ⟨by simp, ?_⟩
      intro i hi hbefore
      cases hi
      exact h.stack.not_reset op' hop' (h.stack.before op hop hbefore)
  unfold FtpControlSocket.passReply
  by_cases hrefused : op.logon = some .welcome ∧ digit ≠ 2 ∧ digit ≠ 3
  · rw [if_pos hrefused]
    exact hlog.withTask hlink _
  split_ifs
  · have hmap : Grows { s with delivered := s.delivered ++ [(who, op)] }
        (FtpControlSocket.mapTop { s with delivered := s.delivered ++ [(who, op)] }
          fun op => { op with logon := some .later }) :=
      Grows.mapTop _ (fun _ => rfl) (fun _ => rfl)
    exact hlog.grows ((hmap.trans (Grows.performed _ o)).withTask _) hlink
  · exact hlog.grows ((Grows.performed _ o).withTask _) hlink

/-- A preliminary reply changes no count. -/
theorem parseResponse_preliminary (hwho : who ∈ s.outstanding)
    (o : OpResult) (timer : Bool) : FtpInv (s.parseResponse who 1 o timer) := by
  simp only [parseResponse, ne_eq, not_true_eq_false, false_and, if_false]
  by_cases hskip : s.repliesToSkip = 0
  · rw [if_neg (not_not.mpr hskip)]
    split
    · exact h
    · next op rest hops =>
      have hop : op ∈ s.operations := by
        rw [hops]
        exact mem_cons_self
      exact h.passReply hlink hop (h.live hskip who hwho) 1 o
  · rw [if_pos hskip, if_neg hskip]
    exact h

variable {digit : Nat}

/-- A final reply leaves the queue of the outstanding commands, and both counts with it. -/
theorem parseResponse_final {rest : List Sender}
    (hout : s.outstanding = who :: rest) (hdigit : digit ≠ 1) (o : OpResult) (timer : Bool) :
    FtpInv (parseResponse { s with outstanding := rest } who digit o timer) := by
  have hpending := h.pending_eq
  rw [hout, length_cons] at hpending
  have hrest : s.pendingReplies - 1 = rest.length := by omega
  unfold parseResponse
  dsimp only
  rw [if_neg (by omega), if_pos hdigit]
  by_cases hskip : s.repliesToSkip = 0
  · rw [if_neg (not_not.mpr hskip)]
    have hinv : FtpInv { s with outstanding := rest, pendingReplies := s.pendingReplies - 1 } := by
      refine ⟨hrest, .inl hskip, ?_, h.stack, fun hc => absurd hc hlink, h.delivered⟩
      intro _ x hx
      refine h.live hskip x ?_
      rw [hout]
      exact mem_cons_of_mem _ hx
    have hwho : who.Live s.operations := by
      refine h.live hskip who ?_
      rw [hout]
      exact mem_cons_self
    split
    · exact hinv
    · next op ops hops =>
      have hop : op ∈ s.operations := by
        rw [hops]
        exact mem_cons_self
      exact hinv.passReply hlink hop hwho digit o
  · rw [if_pos hskip]
    have hgate : s.repliesToSkip = s.pendingReplies := h.gate.resolve_left hskip
    have hinv : FtpInv { s with
        outstanding := rest, pendingReplies := s.pendingReplies - 1
        repliesToSkip := s.repliesToSkip - 1 } := by
      refine ⟨hrest, .inr ?_, ?_, h.stack, fun hc => absurd hc hlink, h.delivered⟩
      · show s.repliesToSkip - 1 = s.pendingReplies - 1
        rw [hgate]
      · intro hzero
        -- with the last reply to skip nothing is outstanding
        have hzero' : s.repliesToSkip - 1 = 0 := hzero
        have hnil : rest = [] := length_eq_zero_iff.mp (by omega)
        rw [hnil]
        intro x hx
        cases hx
    split_ifs
    · rcases startKeepaliveTimer_eq { s with
        outstanding := rest, pendingReplies := s.pendingReplies - 1
        repliesToSkip := s.repliesToSkip - 1 } timer with ⟨b, hb⟩
      rw [hb]
      exact hinv.timer b
    · exact hinv.withTask hlink _
    · exact hinv
    · exact hinv

omit hlink

variable {o : OpResult} {timer : Bool}

/-- A line of the server. -/
theorem receive (hreceive : s.receive digit o timer = some t) : FtpInv t := by
  unfold FtpControlSocket.receive at hreceive
  by_cases hconnected : s.link ≠ .connected
  · rw [if_pos hconnected] at hreceive
    cases hreceive
  rw [if_neg hconnected] at hreceive
  have hlink : s.link ≠ .connecting := by
    rw [not_not.mp hconnected]
    simp
  split at hreceive
  · cases hreceive
  · next who rest hout =>
    cases hreceive
    by_cases hdigit : digit = 1
    · rw [← hout, hdigit]
      refine h.parseResponse_preliminary hlink ?_ o timer
      rw [hout]
      exact mem_cons_self
    · rw [if_neg hdigit]
      exact h.parseResponse_final hlink hout hdigit o timer

/-! ## Events -/

/-- The keep-alive command is sent only if nothing is outstanding. -/
theorem onTimer : FtpInv s.onTimer := by
  unfold FtpControlSocket.onTimer
  split_ifs with hops hbusy
  · exact h
  · exact h
  · rcases not_or.mp hbusy with ⟨hpending, hskip⟩
    have hpending' : s.pendingReplies = 0 := not_not.mp hpending
    have hskip' : s.repliesToSkip = 0 := not_not.mp hskip
    refine ⟨?_, .inr ?_, ?_, h.stack, ?_, h.delivered⟩
    · show s.pendingReplies + 1 = (s.outstanding ++ [Sender.keepalive]).length
      rw [h.pending_eq, length_append]
      rfl
    · show s.repliesToSkip + 1 = s.pendingReplies + 1
      rw [hpending', hskip']
    · intro hzero
      exact absurd hzero (succ_ne_zero _)
    · -- the logon operation is on the stack while the connection is being established
      intro hconnecting
      rcases h.connecting hconnecting with ⟨-, -, htop, -⟩
      rw [FtpControlSocket.isLogon, not_not.mp hops] at htop
      cases htop

omit h in
theorem isLogon_mapTop (s : FtpControlSocket) {f : FtpOp → FtpOp}
    (hf : ∀ op, (f op).logon = op.logon) : (s.mapTop f).isLogon = s.isLogon := by
  unfold isLogon mapTop
  cases hops : s.operations with
  | nil => rw [hops]
  | cons op rest => simp [hf]

/-- Until the greeting is in, nothing else is outstanding. -/
theorem onConnect (hconnecting : s.link = .connecting) :
    FtpInv { s with
      link := .connected, pendingReplies := 1, outstanding := .greeting :: s.outstanding } := by
  rcases h.connecting hconnecting with ⟨hout, hskip, -⟩
  refine ⟨?_, .inl hskip, ?_, h.stack, by simp, h.delivered⟩
  · rw [hout]
    rfl
  · intro _ who hwho
    rw [hout] at hwho
    exact .inl (mem_singleton.mp hwho)

theorem push (hlink : s.link ≠ .connecting) (logon : Option LogonPhase) :
    FtpInv { s.push logon with task := .sendNextCommand } :=
  h.grows ((Grows.push s logon).withTask _) hlink

/-- The replies to what was cancelled are skipped. -/
theorem cancel : FtpInv s.cancel := by
  unfold FtpControlSocket.cancel
  split_ifs with hops hlogon
  · exact h
  · exact h.withClose _
  · refine h.withTask ?_ _
    intro hconnecting
    exact hlogon (h.connecting hconnecting).2.2.1

/-- The operation that waited for the answer stays on the stack, and so does a logon operation. -/
theorem asyncReply {next : FtpTask} (hnext : s.link = .connecting → next.idleOrCloses = true) :
    FtpInv { s.mapTop fun op => { op with waitForAsyncRequest := false } with task := next } := by
  have hmap : Grows s (s.mapTop fun op => { op with waitForAsyncRequest := false }) :=
    Grows.mapTop s (fun _ => rfl) (fun _ => rfl)
  refine h.grows_of_connecting (hmap.withTask next) ?_
  intro hconnecting
  refine ⟨?_, hnext hconnecting⟩
  have htop : (s.mapTop fun op => { op with waitForAsyncRequest := false }).isLogon = s.isLogon :=
    isLogon_mapTop s fun _ => rfl
  exact htop.trans (h.connecting hconnecting).2.2.1

variable {e : FtpEvent}

/-- An event, by its kind. -/
theorem handle (hadm : s.Admits e) (hhandle : s.handle e = some t) : FtpInv t := by
  cases e <;> simp only [FtpControlSocket.handle, Option.ite_none_right_eq_some,
    Option.some.injEq, reduceCtorEq] at hhandle
  case connect =>
    obtain ⟨hnew, rfl⟩ := hhandle
    exact h.push (by rw [hnew]; simp [FtpControlSocket.new]) _
  case command =>
    obtain ⟨hops, rfl⟩ := hhandle
    refine h.push ?_ _
    intro hconnecting
    have hlogon := (h.connecting hconnecting).2.2.1
    rw [FtpControlSocket.isLogon, hops] at hlogon
    cases hlogon
  case cancel =>
    subst hhandle
    exact h.cancel
  case close code =>
    subst hhandle
    exact h.withClose code
  case resume | reset code =>
    subst hhandle
    exact h.withTask hadm _
  case asyncReply next =>
    obtain ⟨-, rfl⟩ := hhandle
    exact h.asyncReply hadm
  case onConnect =>
    obtain ⟨hconnecting, rfl⟩ := hhandle
    exact h.onConnect hconnecting
  case onTlsConnect =>
    obtain ⟨hconnected, rfl⟩ := hhandle
    exact h.withTask (by rw [hconnected]; simp) _
  case reply digit o timer => exact h.receive hhandle
  case onTimer =>
    obtain ⟨-, rfl⟩ := hhandle
    exact h.onTimer

/-- The call in progress, by its kind. -/
theorem call {connects : Bool} (hcall : s.call o connects timer = some t) : FtpInv t := by
  have hlink : s.task.idleOrCloses = false → s.link ≠ .connecting := by
    intro htask hconnecting
    rw [(h.connecting hconnecting).2.2.2] at htask
    cases htask
  unfold FtpControlSocket.call at hcall
  cases htask : s.task <;> rw [htask] at hcall hlink <;> cases hcall
  case sendNextCommand => exact h.sendNextCommand (hlink rfl)
  case sendLoop => exact h.sendLoop (hlink rfl) o connects
  case resetOperation code => exact h.resetOperation (hlink rfl) code o.res timer
  case doClose code => exact h.doClose code
  case parseSubcommandResult code => exact h.parseSubcommandResult (hlink rfl) o

/-- One step of the system. -/
theorem step (hadm : s.Admits e) (hstep : s.step e = some t) : FtpInv t := by
  unfold FtpControlSocket.step at hstep
  split at hstep
  · exact h.call hstep
  · split_ifs at hstep
    exact h.handle hadm hstep

end FtpInv

/-- Whole runs. -/
theorem goodFtpSystem_inv {s : FtpControlSocket} (h : goodFtpSystem.Reach s) : FtpInv s := by
  refine Lts.Reach.invariant FtpInv ?_ ?_ h
  · rintro s rfl
    exact FtpInv.new
  · rintro s e t ⟨hstep, hadm⟩ hs
    exact hs.step hadm hstep

/-- The greeting of a connection, counted as the reply to a command, is outstanding from the start.
In every run in which a connection that is being established is given up only by closing it, the
counters are right and a reply goes to no operation that started after its sender was reset. -/
theorem ftp_replies_counted {s : FtpControlSocket} (h : goodFtpSystem.Reach s) :
    s.repliesToSkip ≤ s.pendingReplies ∧
      s.pendingReplies = s.outstanding.length ∧
      ∀ p ∈ s.delivered, p.1 ≠ .keepalive ∧ ∀ i, p.1 = .op i → i ∉ p.2.resetBefore := by
  have hinv := goodFtpSystem_inv h
  refine ⟨?_, hinv.pending_eq, hinv.delivered⟩
  rcases hinv.gate with hzero | hall
  · rw [hzero]
    exact Nat.zero_le _
  · exact hall.le

/-- A run for examples: the connection, and the greeting accepted without further commands. -/
def logonRun : List FtpEvent :=
  let ok : OpResult := ⟨0, 0, false, Reply.ok⟩
  let wait : OpResult := ⟨0, 0, false, Reply.wouldBlock⟩
  [.connect, .call ok true true, .call wait true true, .onConnect, .reply 2 ok true,
    .call ok true true]

/-- After the logon an operation sends a command and is canceled; the next one waits for the reply
to be skipped, sends its own command and gets the reply to that one. A keepalive follows. -/
def cancelRun : List FtpEvent :=
  let ok : OpResult := ⟨0, 0, false, Reply.ok⟩
  let sends : OpResult := ⟨1, 0, false, Reply.wouldBlock⟩
  logonRun ++
    [.command, .call ok true true, .call sends true true, .cancel,
      .call ⟨0, 0, false, Reply.canceled⟩ true true,
      .command, .call ok true true, .call ok true true, .reply 1 ok true, .reply 2 ok true,
      .call ok true true, .call sends true true, .reply 1 sends true, .reply 2 ok true,
      .call ok true true, .onTimer]

theorem ftp_replies_counted_cancel :
    ∃ s, goodFtpSystem.Reach s ∧ s.pendingReplies = 1 ∧ s.repliesToSkip = 1 ∧
      s.outstanding = [.keepalive] ∧ s.delivered.map (fun p => (p.1, p.2.id)) =
        [(.greeting, 0), (.op 2, 2), (.op 2, 2)] ∧
      s.repliesToSkip ≤ s.pendingReplies ∧
      s.pendingReplies = s.outstanding.length ∧
      ∀ p ∈ s.delivered, p.1 ≠ .keepalive ∧ ∀ i, p.1 = .op i → i ∉ p.2.resetBefore := by
  have hreach : goodFtpSystem.Reach _ := Lts.reach_restrict_ofFun cancelRun rfl rfl
  exact ⟨_, hreach, rfl, rfl, rfl, rfl, ftp_replies_counted hreach⟩

/-- Without a command sent the greeting is pending. And if the logon operation is reset while the
connection is being established, `OnConnect` forgets a command that was sent before it. -/
theorem pendingReplies_counts_no_commands :
    (∃ s, ftpSystem.Reach s ∧ s.link = .connected ∧ s.pendingReplies = 1 ∧
      s.outstanding.filter (· ≠ .greeting) = []) ∧
    ∃ s, ftpSystem.Reach s ∧ s.pendingReplies = 1 ∧ s.outstanding = [.greeting, .op 1] := by
  constructor
  · exact ⟨_, Lts.reach_ofFun (logonRun.take 4) rfl rfl, rfl, rfl, rfl⟩
  · exact ⟨_, Lts.reach_ofFun (logonRun.take 3 ++
      [.reset Reply.canceled, .call ⟨0, 0, false, Reply.canceled⟩ true true, .command,
        .call ⟨0, 0, false, Reply.ok⟩ true true, .call ⟨1, 0, false, Reply.wouldBlock⟩ true true,
        .onConnect]) rfl rfl, rfl, rfl⟩

/-- In every such run the outstanding replies are all to be skipped, or each of them is the greeting
or answers an operation that is still on the stack. -/
theorem ftp_replies_live {s : FtpControlSocket} (h : goodFtpSystem.Reach s) :
    s.repliesToSkip = s.outstanding.length ∨
      s.repliesToSkip = 0 ∧ ∀ who ∈ s.outstanding, who.Live s.operations := by
  have hinv := goodFtpSystem_inv h
  rcases hinv.gate with hzero | hall
  · exact .inr ⟨hzero, hinv.live hzero⟩
  · exact .inl (hall.trans hinv.pending_eq)

theorem ftp_replies_live_sent : ∃ s : FtpControlSocket, s.outstanding = [.op 1] ∧
    s.repliesToSkip = 0 ∧ ∀ who ∈ s.outstanding, who.Live s.operations := by
  have hreach : goodFtpSystem.Reach _ := Lts.reach_restrict_ofFun (cancelRun.take 9) rfl rfl
  exact ⟨_, rfl, (ftp_replies_live hreach).resolve_left nofun⟩

end FlintZilla
