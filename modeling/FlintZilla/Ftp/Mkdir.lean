import FlintZilla.Ftp.Logon
import FlintZilla.Path.CommonParent
import FlintZilla.Lib.Lts

/-!
# Creating a directory over FTP

`CFtpMkdirOpData`. The operation walks up from the parent of the target until a `CWD` succeeds, then
creates the segments it has passed one by one, each in the directory of the `CWD` before it; if
either part fails it tries the full path once.

The operation sends when the control socket calls `Send`, which it does again as long as the result
is `FZ_REPLY_CONTINUE`, and waits for a reply when it has sent a command. Beside the fields of the
source the state records what was sent, the directory of the last `CWD` that was acknowledged, and
the number of replies.

Main results:

* `Inv.send`, `Inv.parseResponse`, `inv_of_reach`: where the walk is, in every reachable state.
* `send_progress`: the operation never stops without a reply to wait for.
* `ftp_mkdir`: it ends after at most three replies for each segment and one for the full path, and
  creates a segment only in the directory that the last `CWD` went to.
-/

namespace FlintZilla

open Lib Lib.Search List CServerPath

/-- `mkdStates`. -/
inductive MkdState where
  | init
  | findparent
  | mkdsub
  | cwdsub
  | tryfull
deriving DecidableEq

/-- The commands of the operation. -/
inductive MkdCommand where
  | cwd (path : CServerPath)
  /-- With a name relative to the working directory. -/
  | mkd (segment : WString)
  | mkdFull (path : CServerPath)
deriving DecidableEq

def MkdCommand.text : MkdCommand → WString
  | .cwd path => "CWD ".toList ++ path.getPath
  | .mkd segment => "MKD ".toList ++ segment
  | .mkdFull path => "MKD ".toList ++ path.getPath

/-- A command, with `currentMkdPath_` and the acknowledged working directory when it was sent. -/
structure MkdSent where
  command : MkdCommand
  currentMkdPath : CServerPath
  workingDir : CServerPath
deriving DecidableEq

inductive MkdPhase where
  /-- `Send` is to be called. -/
  | sending
  /-- A reply is to come. -/
  | awaiting
  | done (code : Nat)
deriving DecidableEq

/-- `CFtpMkdirOpData`; `currentPath` is the one of the control socket. -/
structure FtpMkdir where
  path : CServerPath
  currentMkdPath : CServerPath
  commonParent : CServerPath
  segments : List WString
  opState : MkdState
  currentPath : CServerPath
  phase : MkdPhase
  workingDir : CServerPath
  sent : List MkdSent
  replies : Nat
deriving DecidableEq

namespace FtpMkdir

/-- The operation before its first `Send`. -/
def new (path currentPath : CServerPath) : FtpMkdir where
  path := path
  currentMkdPath := ⟨.default, none⟩
  commonParent := ⟨.default, none⟩
  segments := []
  opState := .init
  currentPath := currentPath
  phase := .sending
  workingDir := currentPath
  sent := []
  replies := 0

/-- `SendCommand`, which fails for a text that it cannot convert. -/
def sendCommand (canSend : WString → Bool) (s : FtpMkdir) (command : MkdCommand) : FtpMkdir :=
  if canSend command.text then
    { s with sent := s.sent ++ [⟨command, s.currentMkdPath, s.workingDir⟩], phase := .awaiting }
  else { s with phase := .done Reply.error }

/-- The state `mkd_init` of `Send`. -/
def sendInit (s : FtpMkdir) : FtpMkdir :=
  -- a directory exists if the current directory is in it
  if !s.currentPath.empty ∧
      (s.currentPath = s.path ∨ s.currentPath.isSubdirOf s.path (· == ·) false) then
    { s with phase := .done Reply.ok }
  else
    let s := if s.currentPath.empty then s
      else if s.currentPath.isParentOf s.path then { s with commonParent := s.currentPath }
      else { s with commonParent := s.path.getCommonParent s.currentPath }
    if !s.path.hasParent then { s with opState := .tryfull }
    else
      let s := { s with
        currentMkdPath := s.path.getParent
        segments := s.segments ++ [s.path.getLastSegment] }
      { s with opState := if s.currentMkdPath = s.currentPath then .mkdsub else .findparent }

/-- `CFtpMkdirOpData::Send`; `waiting` is what `opLock_` says. -/
def send (canSend : WString → Bool) (s : FtpMkdir) (waiting : Bool) : FtpMkdir :=
  if waiting then s
  else match s.opState with
    | .init => s.sendInit
    | .findparent | .cwdsub =>
      { s with currentPath := s.currentPath.clear }.sendCommand canSend (.cwd s.currentMkdPath)
    | .mkdsub => s.sendCommand canSend (.mkd (s.segments.getLastD []))
    | .tryfull => s.sendCommand canSend (.mkdFull s.path)

/-- The reply says that the directory exists; `path` may be part of the reply. -/
def alreadyExists (path : CServerPath) (response : WString) : Bool :=
  let response := wideStrToLowerAscii (response.drop 4)
  let p := wideStrToLowerAscii path.getPath
  response == "directory already exists".toList ||
    (!FtpSession.containsText "already exists".toList p &&
      FtpSession.containsText "already exists".toList response) ||
    (!FtpSession.containsText "file exists".toList p &&
      FtpSession.containsText "file exists".toList response)

/-- The state `mkd_mkdsub` of `ParseResponse` after a directory has been created or exists. -/
def created (s : FtpMkdir) (result : Nat) : FtpMkdir :=
  match s.segments.getLast? with
  | none => { s with phase := .done Reply.internalError }
  | some segment =>
    let s := { s with
      currentMkdPath := (s.currentMkdPath.addSegment segment).2
      segments := s.segments.dropLast }
    if s.segments = [] ∨ result ≠ Reply.ok then { s with phase := .done result }
    else { s with opState := .cwdsub, phase := .sending }

/-- `CFtpMkdirOpData::ParseResponse`; `isFile` says that the directory cache has the last of the
segments as a file. -/
def parseResponse (s : FtpMkdir) (response : WString) (isFile : Bool) : FtpMkdir :=
  let positive := FtpSession.positive response
  match s.opState with
  | .init => { s with phase := .done Reply.internalError }
  | .findparent =>
    let s := { s with phase := .sending }
    if positive then { s with currentPath := s.currentMkdPath, opState := .mkdsub }
    else if s.currentMkdPath = s.commonParent then { s with opState := .tryfull }
    else if s.currentMkdPath.hasParent then
      { s with
        currentMkdPath := s.currentMkdPath.getParent
        segments := s.segments ++ [s.currentMkdPath.getLastSegment] }
    else { s with opState := .tryfull }
  | .mkdsub =>
    -- the `break` leaves the switch, and the operation fails
    if !positive && !alreadyExists s.path response then
      { s with opState := .tryfull, phase := .done Reply.internalError }
    else s.created (if !positive && isFile then Reply.error else Reply.ok)
  | .cwdsub =>
    let s := { s with phase := .sending }
    if positive then { s with currentPath := s.currentMkdPath, opState := .mkdsub }
    else { s with opState := .tryfull }
  | .tryfull => { s with phase := .done (if positive then Reply.ok else Reply.error) }

/-- The directory of the last acknowledged `CWD`, with a reply to the command sent last. -/
def acknowledged (s : FtpMkdir) (response : WString) : CServerPath :=
  match s.sent.getLast? with
  | some ⟨.cwd path, _, _⟩ => if FtpSession.positive response then path else s.workingDir
  | _ => s.workingDir

end FtpMkdir

inductive MkdEvent where
  | send (waiting : Bool)
  | reply (response : WString) (isFile : Bool)

namespace FtpMkdir

def step (canSend : WString → Bool) (s : FtpMkdir) : MkdEvent → Option FtpMkdir
  | .send waiting => if s.phase = .sending then some (s.send canSend waiting) else none
  | .reply response isFile =>
    if s.phase = .awaiting then
      some ({ s with workingDir := s.acknowledged response, replies := s.replies + 1 }.parseResponse
        response isFile)
    else none

end FtpMkdir

/-- The operation with any replies, from any working directory. -/
def ftpMkdirSystem (canSend : WString → Bool) (path currentPath : CServerPath) :
    Lts FtpMkdir MkdEvent :=
  Lts.ofFun (fun s => s = .new path currentPath) (FtpMkdir.step canSend)

/-! ## Parents and segments -/

/-- The segments of a path; those of an empty path are none. -/
def CServerPath.segmentList (p : CServerPath) : List WString := (p.data.map (·.segments)).getD []

variable {p : CServerPath}

/-- The parent and the last segment of a path put together again. -/
theorem CServerPath.segmentList_getParent (h : p.hasParent) :
    p.getParent.data ≠ none ∧ p.getParent.segmentList ++ [p.getLastSegment] = p.segmentList := by
  obtain ⟨t, data⟩ := p
  cases data with
  | none => cases h
  | some d =>
    have hne : d.segments ≠ [] := by
      intro hnil
      simp [hasParent, hnil] at h
    constructor
    · simp [getParent, makeParent, h]
    · simp only [getParent, makeParent, h, getLastSegment]
      rw [getLastD_eq_getLast?, getLast?_eq_some_getLast hne]
      exact dropLast_append_getLast hne

/-- A segment goes to the end. -/
theorem CServerPath.segmentList_addSegment (h : p.data ≠ none) (segment : WString) :
    (p.addSegment segment).2.data ≠ none ∧
      (p.addSegment segment).2.segmentList = p.segmentList ++ [segment] := by
  obtain ⟨t, data⟩ := p
  cases data with
  | none => exact absurd rfl h
  | some d => simp [addSegment, segmentList]

/-- The states in which the operation is on its way up or down. -/
def MkdState.isWalk : MkdState → Bool
  | .findparent | .mkdsub | .cwdsub => true
  | .init | .tryfull => false

/-- The segments of `currentMkdPath_` and those that are left, from the back, make up the target. -/
structure MkdWay (path currentMkdPath : CServerPath) (segments : List WString) : Prop where
  nonempty : currentMkdPath.data ≠ none
  segments_eq : currentMkdPath.segmentList ++ segments.reverse = path.segmentList

/-- What is left to create and where the walk is make up the target. -/
theorem MkdWay.length {path currentMkdPath : CServerPath} {segments : List WString}
    (h : MkdWay path currentMkdPath segments) :
    currentMkdPath.segmentList.length + segments.length = path.segmentList.length := by
  have hlength := congrArg List.length h.segments_eq
  rw [length_append, length_reverse] at hlength
  exact hlength

namespace FtpMkdir

variable {s t : FtpMkdir} {canSend : WString → Bool}

/-- The commands that may still be sent, before `Send`. -/
def rank (s : FtpMkdir) : Nat :=
  match s.opState with
  | .init => 3 * s.path.segmentList.length + 1
  | .findparent => 2 * s.path.segmentList.length + s.currentMkdPath.segmentList.length
  | .mkdsub => 2 * s.segments.length - 1
  | .cwdsub => 2 * s.segments.length
  | .tryfull => 1

/-- The command of the state. -/
def command (s : FtpMkdir) : MkdCommand :=
  match s.opState with
  | .init | .tryfull => .mkdFull s.path
  | .findparent | .cwdsub => .cwd s.currentMkdPath
  | .mkdsub => .mkd (s.segments.getLastD [])

/-- Where an operation that is not over stands. -/
structure Position (s : FtpMkdir) : Prop where
  init : s.opState = .init → s.segments = [] ∧ s.workingDir = s.currentPath
  way : s.opState.isWalk = true → MkdWay s.path s.currentMkdPath s.segments
  left : s.opState.isWalk = true → s.segments ≠ []
  there : s.opState = .mkdsub → s.workingDir = s.currentMkdPath
  room : s.replies + s.rank ≤ 3 * s.path.segmentList.length + 1

/-- There is always a reply left to wait for. -/
theorem Position.rank_pos (h : s.Position) : 0 < s.rank := by
  have hleft : s.opState.isWalk = true → 0 < s.segments.length ∧ 0 < s.path.segmentList.length := by
    intro hwalk
    have hpos := length_pos_of_ne_nil (h.left hwalk)
    have hlength := (h.way hwalk).length
    exact ⟨hpos, by omega⟩
  unfold rank
  cases hstate : s.opState with
  | init => exact Nat.succ_pos _
  | findparent | mkdsub | cwdsub =>
    have hpos := hleft (by rw [hstate]; rfl)
    dsimp only
    omega
  | tryfull => exact Nat.one_pos

/-- A relative `MKD` was sent in the directory of the last acknowledged `CWD`. -/
def Relative (sent : List MkdSent) : Prop :=
  ∀ c ∈ sent, ∀ segment, c.command = .mkd segment → c.workingDir = c.currentMkdPath

inductive Inv (s : FtpMkdir) : Prop where
  | sending (hphase : s.phase = .sending) (hpos : s.Position) (hrelative : Relative s.sent)
      (hsent : s.sent.length = s.replies)
  | awaiting (hphase : s.phase = .awaiting) (hpos : s.Position) (hrelative : Relative s.sent)
      (hsent : s.sent.length = s.replies + 1) (hstarted : s.opState ≠ .init)
      (hlast : ∃ c, s.sent.getLast? = some c ∧ c.command = s.command)
  | done (code : Nat) (hphase : s.phase = .done code)
      (hway : s.opState.isWalk = true → MkdWay s.path s.currentMkdPath s.segments)
      (hrelative : Relative s.sent) (hsent : s.sent.length ≤ 3 * s.path.segmentList.length + 1)

/-! ## `Send` -/

section

variable (hpos : s.Position) (hrelative : Relative s.sent) (hsent : s.sent.length = s.replies)
include hpos hrelative hsent

/-- The command of the state is sent, or cannot be. -/
theorem Inv.sendCommand (hstarted : s.opState ≠ .init) : Inv (s.sendCommand canSend s.command) := by
  have hroom := hpos.room
  unfold FtpMkdir.sendCommand
  split_ifs
  · refine Inv.awaiting rfl { hpos with } ?_ ?_ hstarted ?_
    · intro c hc segment hcommand
      rcases mem_append.mp hc with hc | hc
      · exact hrelative c hc segment hcommand
      · rw [mem_singleton.mp hc] at hcommand ⊢
        refine hpos.there ?_
        cases hstate : s.opState <;> simp [FtpMkdir.command, hstate] at hcommand ⊢
    · simp [hsent]
    · exact ⟨_, getLast?_concat, rfl⟩
  · refine Inv.done Reply.error rfl hpos.way hrelative ?_
    dsimp only
    omega

/-- The walk starts at the parent of the target, unless the directory exists or has no parent. -/
theorem Inv.sendInit (hphase : s.phase = .sending) (hstate : s.opState = .init) :
    Inv s.sendInit := by
  have hroom := hpos.room
  have hrank : s.rank = 3 * s.path.segmentList.length + 1 := by simp [rank, hstate]
  have hzero : s.replies = 0 := by omega
  obtain ⟨hnil, hdir⟩ := hpos.init hstate
  -- whichever branch is taken, only the common parent changes
  have hcommon : ∃ c, (if s.currentPath.empty then s
      else if s.currentPath.isParentOf s.path then { s with commonParent := s.currentPath }
      else { s with commonParent := s.path.getCommonParent s.currentPath }) =
      { s with commonParent := c } := by
    split_ifs
    · exact ⟨s.commonParent, rfl⟩
    · exact ⟨_, rfl⟩
    · exact ⟨_, rfl⟩
  unfold FtpMkdir.sendInit
  split
  · -- the directory exists
    refine Inv.done Reply.ok rfl ?_ hrelative ?_
    · intro hwalk
      rw [hstate] at hwalk
      cases hwalk
    · dsimp only
      omega
  · obtain ⟨c, hc⟩ := hcommon
    rw [hc]
    dsimp only
    split
    · -- nothing to walk along
      refine Inv.sending hphase ⟨nofun, nofun, nofun, nofun, ?_⟩ hrelative hsent
      simp [rank, hzero]
    · next hparent =>
      rw [Bool.not_eq_true, Bool.not_eq_false'] at hparent
      obtain ⟨hne, hsegments⟩ := segmentList_getParent hparent
      have hway : MkdWay s.path s.path.getParent (s.segments ++ [s.path.getLastSegment]) := by
        refine ⟨hne, ?_⟩
        rw [hnil]
        exact hsegments
      have hlength := hway.length
      refine Inv.sending hphase ⟨?_, fun _ => hway, ?_, ?_, ?_⟩ hrelative hsent
      · intro hinit
        split_ifs at hinit
      · simp
      · intro hsub
        split_ifs at hsub with hsame
        rw [hdir]
        exact hsame.symm
      · dsimp only [rank]
        split_ifs
        · simp [hzero, hnil]
        · dsimp only
          omega

/-- Each state sends its command. -/
theorem Inv.send (hphase : s.phase = .sending) (waiting : Bool) : Inv (s.send canSend waiting) := by
  unfold FtpMkdir.send
  split_ifs
  · exact Inv.sending hphase hpos hrelative hsent
  · -- the working directory is forgotten before a `CWD`
    have hcwd : s.command = .cwd s.currentMkdPath → s.opState ≠ .init →
        Inv ({ s with currentPath := s.currentPath.clear }.sendCommand canSend
          (.cwd s.currentMkdPath)) := by
      intro hcommand hstarted
      have hpos' : Position { s with currentPath := s.currentPath.clear } :=
        { hpos with init := fun hinit => absurd hinit hstarted }
      have hinv := @Inv.sendCommand _ canSend hpos' hrelative hsent hstarted
      rw [show FtpMkdir.command { s with currentPath := s.currentPath.clear } = s.command from rfl,
        hcommand] at hinv
      exact hinv
    have hother : s.opState ≠ .init → Inv (s.sendCommand canSend s.command) :=
      Inv.sendCommand hpos hrelative hsent
    split
    · next hstate => exact Inv.sendInit hpos hrelative hsent hphase hstate
    · next hstate => exact hcwd (by simp [FtpMkdir.command, hstate]) (by simp [hstate])
    · next hstate => exact hcwd (by simp [FtpMkdir.command, hstate]) (by simp [hstate])
    · next hstate =>
      have hinv := hother (by simp [hstate])
      rw [show s.command = .mkd (s.segments.getLastD []) by simp [FtpMkdir.command, hstate]] at hinv
      exact hinv
    · next hstate =>
      have hinv := hother (by simp [hstate])
      rw [show s.command = .mkdFull s.path by simp [FtpMkdir.command, hstate]] at hinv
      exact hinv

end

/-! ## `ParseResponse` -/

section

variable (hphase : t.phase = .sending) (hsent : t.sent.length = t.replies)
  (hrelative : Relative t.sent)

include hphase hsent hrelative

/-- A reply has come and the operation goes on from another position. -/
theorem Inv.goOn (hstate : t.opState.isWalk) (hway : MkdWay t.path t.currentMkdPath t.segments)
    (hleft : t.segments ≠ []) (hthere : t.opState = .mkdsub → t.workingDir = t.currentMkdPath)
    (hroom : t.replies + t.rank ≤ 3 * t.path.segmentList.length + 1) : Inv t := by
  refine Inv.sending hphase ⟨?_, fun _ => hway, fun _ => hleft, hthere, hroom⟩ hrelative hsent
  intro hinit
  rw [hinit] at hstate
  cases hstate

/-- The full path is tried once, from any position. -/
theorem Inv.tryfull (hstate : t.opState = .tryfull)
    (hroom : t.replies ≤ 3 * t.path.segmentList.length) : Inv t := by
  have hrank : t.rank = 1 := by rw [rank, hstate]
  refine Inv.sending hphase ⟨?_, ?_, ?_, ?_, by omega⟩ hrelative hsent
  all_goals
    rw [hstate]
    nofun

end

/-- A positive reply to a `CWD` of the state acknowledges it. -/
theorem acknowledged_cwd (hlast : ∃ c, s.sent.getLast? = some c ∧ c.command = s.command)
    (hcommand : s.command = .cwd s.currentMkdPath) {response : WString}
    (hpositive : FtpSession.positive response) : s.acknowledged response = s.currentMkdPath := by
  obtain ⟨⟨command, x, y⟩, hc, hcc⟩ := hlast
  have heq : command = .cwd s.currentMkdPath := hcc.trans hcommand
  subst heq
  simp [acknowledged, hc, hpositive]

/-- A segment was created, or exists: the walk goes down. -/
theorem Inv.created (hpos : s.Position) (hstate : s.opState = .mkdsub) (hrelative : Relative s.sent)
    (hsent : s.sent.length = s.replies + 1) (dir : CServerPath) (result : Nat) :
    Inv (FtpMkdir.created { s with workingDir := dir, replies := s.replies + 1 } result) := by
  have hwalk : s.opState.isWalk = true := by rw [hstate]; rfl
  have hway := hpos.way hwalk
  have hroom := hpos.room
  have hrank : s.rank = 2 * s.segments.length - 1 := by simp [rank, hstate]
  obtain ⟨segment, hsegment⟩ : ∃ segment, s.segments.getLast? = some segment :=
    ⟨_, getLast?_eq_some_getLast (hpos.left hwalk)⟩
  have hsplit : s.segments = s.segments.dropLast ++ [segment] :=
    (dropLast_append_getLast? segment hsegment).symm
  have hlength := congrArg length hsplit
  rw [length_append, length_singleton] at hlength
  obtain ⟨hne, hadd⟩ := segmentList_addSegment hway.nonempty segment
  -- the segment goes from those that are left to the path that exists
  have hway' : MkdWay s.path (s.currentMkdPath.addSegment segment).2 s.segments.dropLast := by
    refine ⟨hne, ?_⟩
    rw [hadd, ← hway.segments_eq]
    conv_rhs => rw [hsplit]
    simp
  unfold FtpMkdir.created
  simp only [hsegment]
  split
  · refine Inv.done result rfl (fun _ => hway') hrelative ?_
    dsimp only
    omega
  · next hleft =>
    rw [not_or] at hleft
    refine Inv.goOn rfl hsent hrelative rfl hway' hleft.1 (by simp) ?_
    dsimp only [rank]
    omega

/-- The reply to each command. -/
theorem Inv.parseResponse (hpos : s.Position) (hrelative : Relative s.sent)
    (hsent : s.sent.length = s.replies + 1) (hstarted : s.opState ≠ .init)
    (hlast : ∃ c, s.sent.getLast? = some c ∧ c.command = s.command) (response : WString)
    (isFile : Bool) :
    Inv (FtpMkdir.parseResponse { s with
      workingDir := s.acknowledged response, replies := s.replies + 1 } response isFile) := by
  have hroom := hpos.room
  have hrank := hpos.rank_pos
  unfold FtpMkdir.parseResponse
  cases hstate : s.opState with
  | init => exact absurd hstate hstarted
  | findparent =>
    have hwalk : s.opState.isWalk = true := by rw [hstate]; rfl
    have hway := hpos.way hwalk
    have hlength := hway.length
    have hleft := length_pos_of_ne_nil (hpos.left hwalk)
    rw [rank, hstate] at hroom
    dsimp only at hroom ⊢
    split_ifs with hpositive hcommon hparent
    · refine Inv.goOn rfl hsent hrelative rfl hway (hpos.left hwalk) ?_ ?_
      · intro _
        exact acknowledged_cwd hlast (by simp [FtpMkdir.command, hstate]) hpositive
      · dsimp only [rank]
        omega
    · exact Inv.tryfull rfl hsent hrelative rfl (by dsimp only; omega)
    · -- one level up
      obtain ⟨hne, hsegments⟩ := segmentList_getParent hparent
      refine Inv.goOn rfl hsent hrelative rfl ⟨hne, ?_⟩ (by simp) (by simp) ?_
      · rw [reverse_append, reverse_singleton, ← append_assoc, hsegments]
        exact hway.segments_eq
      · have hup := congrArg length hsegments
        rw [length_append, length_singleton] at hup
        dsimp only [rank]
        omega
    · exact Inv.tryfull rfl hsent hrelative rfl (by dsimp only; omega)
  | mkdsub =>
    -- unless the operation fails, the segment exists now
    have hcreated := Inv.created hpos hstate hrelative hsent (s.acknowledged response)
    rw [hstate] at hcreated
    dsimp only
    split
    · refine Inv.done _ rfl nofun hrelative ?_
      dsimp only
      omega
    · exact hcreated _
  | cwdsub =>
    have hwalk : s.opState.isWalk = true := by rw [hstate]; rfl
    have hway := hpos.way hwalk
    have hleft := length_pos_of_ne_nil (hpos.left hwalk)
    rw [rank, hstate] at hroom
    dsimp only at hroom ⊢
    split_ifs with hpositive
    · refine Inv.goOn rfl hsent hrelative rfl hway (hpos.left hwalk) ?_ ?_
      · intro _
        exact acknowledged_cwd hlast (by simp [FtpMkdir.command, hstate]) hpositive
      · dsimp only [rank]
        omega
    · exact Inv.tryfull rfl hsent hrelative rfl (by dsimp only; omega)
  | tryfull =>
    refine Inv.done _ rfl nofun hrelative ?_
    dsimp only
    omega

/-! ## Every sequence of replies -/

variable {path currentPath : CServerPath}

/-- The invariant, step by step. -/
theorem inv_of_reach (h : (ftpMkdirSystem canSend path currentPath).Reach s) : s.Inv := by
  refine Lts.Reach.invariant Inv ?_ ?_ h
  · rintro s rfl
    refine Inv.sending rfl ⟨fun _ => ⟨rfl, rfl⟩, nofun, nofun, nofun, ?_⟩ ?_ rfl
    · simp [rank, new]
    · simp [Relative, new]
  · intro s e t hstep hinv
    cases e <;> simp only [ftpMkdirSystem, Lts.ofFun, step, Option.ite_none_right_eq_some,
      Option.some.injEq] at hstep <;> obtain ⟨hphase, rfl⟩ := hstep
    case send waiting =>
      cases hinv with
      | sending _ hpos hrelative hsent => exact Inv.send hpos hrelative hsent hphase waiting
      | awaiting hother => simp [hphase] at hother
      | done code hother => simp [hphase] at hother
    case reply response isFile =>
      cases hinv with
      | sending hother => simp [hphase] at hother
      | awaiting _ hpos hrelative hsent hstarted hlast =>
        exact Inv.parseResponse hpos hrelative hsent hstarted hlast response isFile
      | done code hother => simp [hphase] at hother

/-- The target stays the same. -/
theorem path_of_reach (h : (ftpMkdirSystem canSend path currentPath).Reach s) : s.path = path := by
  refine Lts.Reach.invariant (fun s => s.path = path) ?_ ?_ h
  · rintro s rfl
    rfl
  · rintro s e t hstep rfl
    cases e <;> simp only [ftpMkdirSystem, Lts.ofFun, step, Option.ite_none_right_eq_some,
      Option.some.injEq] at hstep <;> obtain ⟨-, rfl⟩ := hstep
    case send waiting =>
      unfold send sendInit sendCommand
      dsimp only
      repeat' split
      all_goals rfl
    case reply response isFile =>
      unfold parseResponse created
      dsimp only
      repeat' split
      all_goals rfl

/-- With the lock granted, `Send` sends or ends the operation; only the first one may go on to the
next. -/
theorem send_progress (h : (s.send canSend false).phase = .sending) :
    s.opState = .init ∧ (s.send canSend false).opState ≠ .init := by
  have hcommand : ∀ (u : FtpMkdir) (command : MkdCommand),
      (u.sendCommand canSend command).phase ≠ .sending := by
    intro u command hsending
    unfold sendCommand at hsending
    split_ifs at hsending
  unfold send at h ⊢
  rw [if_neg Bool.false_ne_true] at h ⊢
  cases hstate : s.opState with
  | init =>
    rw [hstate] at h
    unfold sendInit at h ⊢
    dsimp only at h ⊢
    split_ifs at h ⊢ <;> simp at h ⊢
  | findparent | mkdsub | cwdsub | tryfull =>
    rw [hstate] at h
    exact absurd h (hcommand _ _)

end FtpMkdir

/-- Whatever the server replies: on the way up and down the segments of `currentMkdPath_` and those
that are left are the segments of the target; a relative `MKD` is sent in the directory of the last
acknowledged `CWD`; the number of commands is linear in the number of segments, and with so many
replies, or with a `Send` that sends nothing, the operation is over. -/
theorem ftp_mkdir {canSend : WString → Bool} {path currentPath : CServerPath} {s : FtpMkdir}
    (h : (ftpMkdirSystem canSend path currentPath).Reach s) :
    (s.opState ≠ .init → s.opState ≠ .tryfull →
      s.currentMkdPath.segmentList ++ s.segments.reverse = path.segmentList) ∧
    (∀ c ∈ s.sent, ∀ segment, c.command = .mkd segment → c.workingDir = c.currentMkdPath) ∧
    s.sent.length ≤ 3 * path.segmentList.length + 1 ∧
    (3 * path.segmentList.length + 1 ≤ s.replies → ∃ code, s.phase = .done code) ∧
    ((s.send canSend false).phase = .sending →
      s.opState = .init ∧ (s.send canSend false).opState ≠ .init) := by
  have hpath := FtpMkdir.path_of_reach h
  have hwalk : s.opState ≠ .init → s.opState ≠ .tryfull → s.opState.isWalk = true := by
    cases s.opState <;> simp [MkdState.isWalk]
  rw [← hpath]
  cases FtpMkdir.inv_of_reach h with
  | sending hphase hpos hrelative hsent | awaiting hphase hpos hrelative hsent =>
    have hrank := hpos.rank_pos
    have hroom := hpos.room
    refine ⟨?_, hrelative, by omega, ?_, FtpMkdir.send_progress⟩
    · intro hinit hfull
      exact (hpos.way (hwalk hinit hfull)).segments_eq
    · omega
  | done code hphase hway hrelative hsent =>
    refine ⟨?_, hrelative, hsent, fun _ => ⟨code, hphase⟩, FtpMkdir.send_progress⟩
    intro hinit hfull
    exact (hway (hwalk hinit hfull)).segments_eq

/-- The commands that create `/a/b/c` if `/a` exists and `/a/b` does not. -/
def nestedCommands : List MkdSent :=
  [⟨.cwd (unixPath ["a", "b"]), unixPath ["a", "b"], unixPath ["x"]⟩,
    ⟨.cwd (unixPath ["a"]), unixPath ["a"], unixPath ["x"]⟩,
    ⟨.mkd "b".toList, unixPath ["a"], unixPath ["a"]⟩,
    ⟨.cwd (unixPath ["a", "b"]), unixPath ["a", "b"], unixPath ["a"]⟩,
    ⟨.mkd "c".toList, unixPath ["a", "b"], unixPath ["a", "b"]⟩]

/-- One level up, and down again. -/
theorem ftp_mkdir_nested :
    ∃ s, (ftpMkdirSystem (fun _ => true) (unixPath ["a", "b", "c"]) (unixPath ["x"])).Reach s ∧
      s.phase = .done Reply.ok ∧ s.sent = nestedCommands ∧
      s.currentMkdPath.segmentList ++ s.segments.reverse =
        (unixPath ["a", "b", "c"]).segmentList ∧
      (∀ c ∈ s.sent, ∀ segment, c.command = .mkd segment → c.workingDir = c.currentMkdPath) ∧
      s.sent.length ≤ 3 * (unixPath ["a", "b", "c"]).segmentList.length + 1 := by
  have hrun : (ftpMkdirSystem (fun _ => true) (unixPath ["a", "b", "c"]) (unixPath ["x"])).Run
      (.new (unixPath ["a", "b", "c"]) (unixPath ["x"]))
      [.send true, .send false, .send false, .reply "550 no".toList false, .send false,
        .reply "250 ok".toList false, .send false, .reply "257 ok".toList false, .send false,
        .reply "250 ok".toList false, .send false, .reply "257 ok".toList false]
      ⟨unixPath ["a", "b", "c"], unixPath ["a", "b", "c"], unixPath [], [], .mkdsub,
        unixPath ["a", "b"], .done Reply.ok, unixPath ["a", "b"], nestedCommands, 5⟩ :=
    Lts.run_ofFun (by decide)
  have hreach := Lts.Reach.run (Lts.Reach.init rfl) hrun
  obtain ⟨hsegments, hrelative, hlength, -⟩ := ftp_mkdir hreach
  exact ⟨_, hreach, rfl, rfl, hsegments (by simp) (by simp), hrelative, hlength⟩

end FlintZilla
