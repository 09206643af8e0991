import FlintZilla.Sftp.ControlSocket

/-!
# One line a command

`read_input_line` of `putty/fzsftp.c` cuts what the engine writes at every LF. As long as the names
of a transfer hold no line ends, what the helper reads is what the engine wrote, line for line. All
other commands pass `SendCommand`, which refuses line ends whatever the names are.

Main results:

* `readInputLines_flatten`: the helper reads lines as they were written.
* `send_adds`, `handle_adds`: each operation and each event writes whole lines only.
* `sftpSocket_commands_are_lines`: every command is one line, if no name of a transfer has a line
  end.
* `sftpSocket_injected_command`: otherwise a file name can be a command.
-/

namespace FlintZilla

open Lib List Option ServerEncoding Psftp

/-- The lines `read_input_line` returns while it reads the bytes; `buf` is `input_buf`. -/
def readInputLines : List UInt8 → List UInt8 → List (List UInt8)
  | _, [] => []
  | buf, b :: rest =>
    if b = asciiChar '\n' then buf :: readInputLines [] rest
    else readInputLines (buf ++ [b]) rest

/-- A text without line ends, and its end. -/
def IsCommandLine (w : List UInt8) : Prop :=
  ∃ cmd : List UInt8, (∀ b ∈ cmd, Psftp.isCrLf b = false) ∧
    (w = cmd ++ ascii "\n" ∨ w = cmd ++ ascii "\r\n")

namespace SftpSocket

/-- The names that the transfer on top is about to send. -/
def NamesInLine (data : SftpFileTransfer) : Prop :=
  ∀ k ∈ ['\r', '\n'],
    k ∉ data.remotePath.formatFilename data.remoteFile (!data.tryAbsolutePath) ∧ k ∉ data.localName

instance decidableNamesInLine (data : SftpFileTransfer) : Decidable (NamesInLine data) :=
  inferInstanceAs (Decidable (∀ k ∈ ['\r', '\n'],
    k ∉ data.remotePath.formatFilename data.remoteFile (!data.tryAbsolutePath) ∧
      k ∉ data.localName))

/-- The transfer that `Send` starts. -/
def starting : SftpOp → Option SftpFileTransfer
  | .fileTransfer data => if data.opState = .transfer then some data else none
  | _ => none

/-- No transfer starts with a name that holds a line end. -/
def Admits (s : SftpSocket) : SftpSocketEvent → Prop
  | .call _ => s.task = .sendNextCommand →
      ∀ entry ∈ s.operations.head?, ∀ data ∈ starting entry.op, NamesInLine data
  | _ => True

instance decidableAdmits (s : SftpSocket) (e : SftpSocketEvent) : Decidable (s.Admits e) :=
  match e with
  | .call _ => inferInstanceAs (Decidable (s.task = .sendNextCommand →
      ∀ entry ∈ s.operations.head?, ∀ data ∈ starting entry.op, NamesInLine data))
  | .start _ | .reply .. | .listEntry _ | .obtainLock | .fileExists .. | .answer .. | .grant ..
  | .close _ => isTrue trivial

end SftpSocket

def goodSftpSystem (cfg : SftpConfig) : Lts SftpSocket SftpSocketEvent :=
  (sftpSystem cfg).restrict SftpSocket.Admits

/-! ## Reading -/

/-- Bytes without LF go to the line that is being read. -/
theorem readInputLines_append {cmd : List UInt8} (h : ∀ b ∈ cmd, b ≠ asciiChar '\n')
    (buf rest : List UInt8) :
    readInputLines buf (cmd ++ rest) = readInputLines (buf ++ cmd) rest := by
  induction cmd generalizing buf with
  | nil => rw [nil_append, append_nil]
  | cons b cmd ih =>
    have hb := h b mem_cons_self
    rw [cons_append, readInputLines, if_neg hb,
      ih (fun c hc => h c (mem_cons_of_mem b hc)), append_assoc]
    rfl

theorem readInputLines_line {line : List UInt8} (h : ∀ b ∈ line, b ≠ asciiChar '\n')
    (rest : List UInt8) :
    readInputLines [] (line ++ ascii "\n" ++ rest) = line :: readInputLines [] rest := by
  rw [append_assoc, readInputLines_append h]
  rfl

/-- A command line is a line and its LF. -/
theorem IsCommandLine.exists_line {w : List UInt8} (h : IsCommandLine w) :
    ∃ line, (∀ b ∈ line, b ≠ asciiChar '\n') ∧ w = line ++ ascii "\n" := by
  obtain ⟨cmd, hcmd, rfl | rfl⟩ := h
  · refine ⟨cmd, ?_, rfl⟩
    rintro b hb rfl
    exact absurd (hcmd _ hb) (by decide)
  · refine ⟨cmd ++ ascii "\r", ?_, by rw [append_assoc]; rfl⟩
    rintro b hb rfl
    rcases mem_append.mp hb with hb | hb
    · exact absurd (hcmd _ hb) (by decide)
    · exact absurd hb (by decide)

/-- The helper reads every command line, and each as one line. -/
theorem readInputLines_flatten {ws : List (List UInt8)} (h : ∀ w ∈ ws, IsCommandLine w) :
    readInputLines [] ws.flatten = ws.map dropLast := by
  induction ws with
  | nil => rfl
  | cons w ws ih =>
    obtain ⟨line, hline, rfl⟩ := (h w mem_cons_self).exists_line
    rw [flatten_cons, readInputLines_line hline, ih fun v hv => h v (mem_cons_of_mem _ hv)]
    congr 1
    exact dropLast_concat.symm

/-! ## Writing -/

namespace SftpSocket

variable {cfg : SftpConfig} {ans : SftpAnswers} {s t u : SftpSocket}

/-- What `t` adds to the writes of `s` are command lines. -/
def AddsLines (s t : SftpSocket) : Prop :=
  ∀ w ∈ t.written, w ∈ s.written ∨ IsCommandLine w

theorem AddsLines.of_eq (h : t.written = s.written) : AddsLines s t := by
  intro w hw
  exact .inl (h ▸ hw)

theorem AddsLines.trans (h1 : AddsLines s t) (h2 : AddsLines t u) : AddsLines s u := by
  intro w hw
  rcases h2 w hw with h | h
  · exact h1 w h
  · exact .inr h

@[simp] theorem setTop_written (op : SftpOp) : (s.setTop op).written = s.written := by
  unfold setTop
  split <;> rfl

@[simp] theorem push_written (op : SftpOp) : (s.push cfg op).written = s.written := by
  unfold push
  split
  · rfl
  · split <;> rfl
  · rfl

@[simp] theorem clearCurrentPath_written : s.clearCurrentPath.written = s.written := rfl

@[simp] theorem changeDir_written (path : CServerPath) (subDir : WString) (link : Bool) :
    (s.changeDir cfg path subDir link).written = s.written :=
  push_written _

/-- A line is written, or the stream is gone. -/
theorem addToStream_adds {cmd : List UInt8} (h : IsCommandLine cmd) :
    AddsLines s (s.addToStream ans cmd).2 := by
  unfold addToStream
  split_ifs
  · exact .of_eq rfl
  · exact .of_eq rfl
  · intro w hw
    rcases mem_append.mp hw with hw | hw
    · exact .inl hw
    · rw [mem_singleton.mp hw]
      exact .inr h

/-- `SendCommand` writes one line or nothing. -/
theorem sendCommand_adds (cmd : WString) : AddsLines s (s.sendCommand cfg ans cmd).2 := by
  unfold sendCommand
  split_ifs with hends
  · exact .of_eq rfl
  · exact .of_eq rfl
  · apply addToStream_adds
    rw [not_or] at hends
    have hlf : asciiChar '\n' ∉ cfg.encoding.convToServer cmd :=
      asciiChar_notMem (by decide) hends.1
    have hcr : asciiChar '\r' ∉ cfg.encoding.convToServer cmd :=
      asciiChar_notMem (by decide) hends.2
    refine ⟨cfg.encoding.convToServer cmd, ?_, .inl ?_⟩
    · intro b hb
      have h1 : b ≠ asciiChar '\n' := fun h => hlf (h ▸ hb)
      have h2 : b ≠ asciiChar '\r' := fun h => hcr (h ▸ hb)
      simp [isCrLf, h1, h2]
    · rw [convToServer_append, convToServer_cons, cfg.encoding.encode_low '\n' (by decide)]
      rfl

theorem sendCommand_adds_of_eq (h : t.written = s.written) (cmd : WString) :
    AddsLines s (t.sendCommand cfg ans cmd).2 :=
  (AddsLines.of_eq h).trans (sendCommand_adds cmd)

/-- Keys and proxy come before the host. -/
theorem sendConnect_adds (opState : SftpConnectState) (keyfiles : List WString) :
    AddsLines s (sendConnect cfg ans s opState keyfiles).2 := by
  unfold sendConnect
  cases opState with
  | init =>
    dsimp only
    split_ifs
    · exact .of_eq rfl
    · intro w hw
      cases hw
  | proxy =>
    dsimp only
    split_ifs
    · exact sendCommand_adds _
    · exact .of_eq rfl
  | keys =>
    cases keyfiles with
    | nil => exact .of_eq rfl
    | cons keyfile rest => exact sendCommand_adds_of_eq (setTop_written _) _
  | open_ => exact sendCommand_adds _

theorem sendChangeDir_adds (data : SftpChangeDir) :
    AddsLines s (sendChangeDir cfg ans s data).2 := by
  unfold sendChangeDir
  split
  · split
    · exact .of_eq rfl
    · exact .of_eq (setTop_written _)
  · exact sendCommand_adds _
  · dsimp only
    split_ifs
    · exact .of_eq (setTop_written _)
    · exact sendCommand_adds_of_eq (by simp) _
  · split_ifs
    · exact .of_eq rfl
    · exact sendCommand_adds_of_eq (by simp) _

theorem sendMkdir_adds (data : SftpMkdir) : AddsLines s (sendMkdir cfg ans s data).2 := by
  unfold sendMkdir
  dsimp only
  split_ifs
  · exact .of_eq (setTop_written _)
  · split
    · split
      · exact .of_eq (setTop_written _)
      · exact .of_eq ((setTop_written _).trans (setTop_written _))
    · exact sendCommand_adds_of_eq (by simp) _
    · exact sendCommand_adds_of_eq (by simp) _
    · exact sendCommand_adds_of_eq (by simp) _
    · exact sendCommand_adds_of_eq (by simp) _

theorem sendDelete_adds (data : SftpDelete) : AddsLines s (sendDelete cfg ans s data).2 := by
  unfold sendDelete
  dsimp only
  split_ifs
  · exact .of_eq rfl
  · exact .of_eq rfl
  · exact sendCommand_adds _

theorem sendRemoveDir_adds (data : SftpRemoveDir) :
    AddsLines s (sendRemoveDir cfg ans s data).2 := by
  unfold sendRemoveDir
  by_cases h : (if (ans.pathLookup data.path data.subDir).empty then
      data.path.addSegment data.subDir else (true, ans.pathLookup data.path data.subDir)).1 = true
  · rw [if_neg (by simp [h])]
    exact sendCommand_adds _
  · rw [if_pos (by simpa using h)]
    exact .of_eq rfl

theorem sendRename_adds (data : SftpRename) : AddsLines s (sendRename cfg ans s data).2 := by
  unfold sendRename
  split
  · exact .of_eq ((changeDir_written _ _ _).trans (setTop_written _))
  · exact sendCommand_adds _
  · exact .of_eq rfl

theorem sendChmod_adds (data : SftpChmod) : AddsLines s (sendChmod cfg ans s data).2 := by
  unfold sendChmod
  split
  · exact .of_eq ((changeDir_written _ _ _).trans (setTop_written _))
  · exact sendCommand_adds _
  · exact .of_eq rfl

theorem sendList_adds (data : SftpList) : AddsLines s (sendList cfg ans s data).2 := by
  unfold sendList
  split
  · exact .of_eq ((changeDir_written _ _ _).trans (setTop_written _))
  · split_ifs
    · exact .of_eq rfl
    · exact .of_eq (setTop_written _)
    · exact .of_eq ((setTop_written _).trans (setTop_written _))
  · exact sendCommand_adds _
  · exact .of_eq rfl

/-! A transfer writes its own line. -/

/-- A byte of an encoded name that holds no line end. -/
theorem isCrLf_convToServer {conv : ServerEncoding} {text : WString}
    (h : ∀ k ∈ ['\r', '\n'], k ∉ text) : ∀ b ∈ conv.convToServer text, isCrLf b = false := by
  intro b hb
  have hcr : b ≠ asciiChar '\r' := by
    rintro rfl
    exact asciiChar_notMem (by decide) (h '\r' (by simp)) hb
  have hlf : b ≠ asciiChar '\n' := by
    rintro rfl
    exact asciiChar_notMem (by decide) (h '\n' (by simp)) hb
  simp [isCrLf, hcr, hlf]

variable {data : SftpFileTransfer}

/-- Names without line ends make a line. -/
theorem isCrLf_transferCommand (h : NamesInLine data) :
    ∀ b ∈ transferCommand cfg data, isCrLf b = false := by
  have hremote : ∀ b ∈ cfg.encoding.convToServer (remoteName data), isCrLf b = false := by
    refine isCrLf_convToServer fun k hk => notMem_quoteFilename (h k hk).1 ?_
    fin_cases hk <;> decide
  have hlocal : ∀ b ∈ utf8.convToServer (quoteFilename data.localName), isCrLf b = false := by
    refine isCrLf_convToServer fun k hk => notMem_quoteFilename (h k hk).2 ?_
    fin_cases hk <;> decide
  have hresume : ∀ b ∈ (if data.resume then ascii "re" else []), isCrLf b = false := by
    split <;> decide
  have hget : ∀ b ∈ ascii "get ", isCrLf b = false := by decide
  have hput : ∀ b ∈ ascii "put ", isCrLf b = false := by decide
  have hblank : ∀ b ∈ ascii " ", isCrLf b = false := by decide
  intro b hb
  unfold transferCommand at hb
  dsimp only at hb
  split at hb
  · simp only [mem_append] at hb
    rcases hb with (((hb | hb) | hb) | hb) | hb
    exacts [hresume b hb, hget b hb, hremote b hb, hblank b hb, hlocal b hb]
  · simp only [mem_append] at hb
    rcases hb with (((hb | hb) | hb) | hb) | hb
    exacts [hresume b hb, hput b hb, hlocal b hb, hblank b hb, hremote b hb]

theorem sendFileTransfer_adds (h : ∀ d ∈ starting (.fileTransfer data), NamesInLine d) :
    AddsLines s (sendFileTransfer cfg ans s data).2 := by
  unfold sendFileTransfer
  split
  · exact .of_eq (by simp)
  · next hstate =>
    split_ifs
    · exact .of_eq rfl
    · exact addToStream_adds ⟨_, isCrLf_transferCommand (h data (by simp [starting, hstate])),
        .inr rfl⟩
  · exact sendCommand_adds _
  · split_ifs
    · exact .of_eq rfl
    · exact sendCommand_adds _
  · exact .of_eq rfl
  · exact .of_eq rfl

/-- Each operation. -/
theorem send_adds {op : SftpOp} (h : ∀ data ∈ starting op, NamesInLine data) :
    AddsLines s (s.send cfg ans op).2 := by
  cases op with
  | connect opState keyfiles => exact sendConnect_adds opState keyfiles
  | changeDir data => exact sendChangeDir_adds data
  | mkdir data => exact sendMkdir_adds data
  | delete data => exact sendDelete_adds data
  | removeDir data => exact sendRemoveDir_adds data
  | rename data => exact sendRename_adds data
  | chmod data => exact sendChmod_adds data
  | list data => exact sendList_adds data
  | fileTransfer data => exact sendFileTransfer_adds h

/-! ## Answers do not write -/

theorem parseConnect_written (versionOk : Bool) (opState : SftpConnectState)
    (keyfiles : List WString) (result : Nat) :
    (parseConnect cfg s versionOk opState keyfiles result).2.written = s.written := by
  unfold parseConnect
  repeat' split
  all_goals simp

theorem parseChangeDir_written (data : SftpChangeDir) (result : Nat) (response : WString) :
    (parseChangeDir cfg ans s data result response).2.written = s.written := by
  unfold parseChangeDir
  dsimp only
  repeat' split
  all_goals simp

theorem parseMkdir_written (data : SftpMkdir) (result : Nat) :
    (parseMkdir s data result).2.written = s.written := by
  unfold parseMkdir
  dsimp only
  repeat' split
  all_goals simp

theorem parseDelete_written (data : SftpDelete) (result : Nat) :
    (parseDelete s data result).2.written = s.written := by
  unfold parseDelete
  dsimp only
  split_ifs <;> simp

theorem checkOverwriteFile_written : (s.checkOverwriteFile ans).2.written = s.written := by
  unfold checkOverwriteFile
  split
  · split_ifs <;> simp
  · rfl

theorem startTransfer_written (data : SftpFileTransfer) :
    (startTransfer ans s data).2.written = s.written := by
  have hcheck (op : SftpOp) : ((s.setTop op).checkOverwriteFile ans).2.written = s.written :=
    checkOverwriteFile_written.trans (setTop_written op)
  unfold startTransfer
  dsimp only
  split_ifs <;> exact hcheck _

theorem parseFileTransfer_written (data : SftpFileTransfer) (result : Nat) :
    (parseFileTransfer cfg ans s data result).2.written = s.written := by
  unfold parseFileTransfer
  split
  · split_ifs <;> simp
  · exact startTransfer_written data
  all_goals rfl

/-- Replies are not answered by the operation itself. -/
theorem parse_written (versionOk : Bool) (op : SftpOp) (result : Nat) (response : WString) :
    (s.parse cfg ans versionOk op result response).2.written = s.written := by
  cases op with
  | connect opState keyfiles => exact parseConnect_written versionOk opState keyfiles result
  | changeDir data => exact parseChangeDir_written data result response
  | mkdir data => exact parseMkdir_written data result
  | delete data => exact parseDelete_written data result
  | removeDir data | rename data | chmod data => rfl
  | list data =>
    unfold parse
    dsimp only
    split_ifs <;> rfl
  | fileTransfer data => exact parseFileTransfer_written data result

theorem subcommandResult_written (op : SftpOp) (prevResult : Nat) :
    (s.subcommandResult cfg ans op prevResult).2.written = s.written := by
  cases op with
  | connect opState keyfiles | changeDir data | mkdir data | delete data | removeDir data => rfl
  | rename data => exact setTop_written _
  | chmod data =>
    unfold subcommandResult
    dsimp only
    split_ifs <;> simp
  | list data =>
    unfold subcommandResult listSubcommandResult
    dsimp only
    split_ifs <;> simp
  | fileTransfer data =>
    unfold subcommandResult transferSubcommandResult
    dsimp only
    repeat' split
    all_goals first | exact startTransfer_written data | simp

/-! ## Runs -/

/-- The call in progress, by its kind. -/
theorem performCall_adds (hgood : s.Admits (.call ans)) (h : s.performCall cfg ans = some t) :
    AddsLines s t := by
  unfold performCall at h
  split at h
  · cases h
  · next htask =>
    obtain rfl := some.inj h
    unfold sendNextCommand
    split
    · exact .of_eq rfl
    · next entry rest hops =>
      split_ifs
      · exact .of_eq rfl
      · have hadds : AddsLines s (s.send cfg ans entry.op).2 :=
          send_adds (hgood htask entry (by simp [hops]))
        exact hadds
  · obtain rfl := some.inj h
    unfold resetOperation
    repeat' split
    all_goals exact .of_eq rfl
  · obtain rfl := some.inj h
    exact .of_eq rfl
  · obtain rfl := some.inj h
    unfold parseSubcommandResult
    split
    · exact .of_eq rfl
    · exact .of_eq (subcommandResult_written _ _)

theorem processReply_written (versionOk : Bool) (result : Nat) (response : WString) :
    (s.processReply cfg ans versionOk result response).written = s.written := by
  unfold processReply
  split
  · rfl
  · split
    · rfl
    · exact parse_written _ _ _ _

theorem setFileExistsAction_written (action : FileExistsAction) :
    (s.setFileExistsAction ans action).written = s.written := by
  unfold setFileExistsAction
  split
  · dsimp only
    split
    · rfl
    · rfl
    · split
      · rfl
      · split
        · rfl
        · exact checkOverwriteFile_written
    · rfl
  · rfl

theorem isAnswerByte_isCrLf {b : UInt8} (h : isAnswerByte b) : isCrLf b = false := by
  by_contra hend
  simp only [isCrLf, Bool.not_eq_false, Bool.or_eq_true, decide_eq_true_eq] at hend
  rcases hend with rfl | rfl <;> exact absurd h (by decide)

variable {e : SftpSocketEvent}

/-- An event, by its kind. -/
theorem handle_adds (h : s.handle cfg e = some t) : AddsLines s t := by
  cases e with
  | call _ => cases h
  | start op =>
    simp only [handle, ite_none_right_eq_some, some.injEq] at h
    obtain ⟨-, rfl⟩ := h
    exact .of_eq (push_written op)
  | reply ans versionOk result response =>
    simp only [handle, ite_none_right_eq_some, some.injEq] at h
    obtain ⟨-, rfl⟩ := h
    exact .of_eq (processReply_written _ _ _)
  | listEntry tooLong =>
    simp only [handle, ite_none_right_eq_some, some.injEq] at h
    obtain ⟨-, rfl⟩ := h
    refine .of_eq ?_
    unfold listEntry
    split
    · split_ifs <;> rfl
    · rfl
  | obtainLock =>
    obtain rfl := some.inj h
    exact .of_eq rfl
  | fileExists ans action =>
    obtain rfl := some.inj h
    exact .of_eq (setFileExistsAction_written action)
  | answer ans text =>
    obtain rfl := some.inj h
    exact sendCommand_adds text
  | grant ans numbers =>
    simp only [handle, ite_none_right_eq_some, some.injEq] at h
    obtain ⟨hnumbers, rfl⟩ := h
    refine addToStream_adds ⟨asciiChar '-' :: numbers, ?_, .inl rfl⟩
    intro b hb
    rcases mem_cons.mp hb with rfl | hb
    · decide
    · exact isAnswerByte_isCrLf (all_eq_true.mp hnumbers b hb)
  | close code =>
    obtain rfl := some.inj h
    exact .of_eq rfl

theorem step_adds (hgood : s.Admits e) (h : s.step cfg e = some t) : AddsLines s t := by
  unfold step at h
  split at h
  · exact performCall_adds hgood h
  · split_ifs at h
    exact handle_adds h

/-- Whole runs. -/
theorem isCommandLine_of_reach (h : (goodSftpSystem cfg).Reach s) :
    ∀ w ∈ s.written, IsCommandLine w := by
  refine Lts.Reach.invariant (fun s : SftpSocket => ∀ w ∈ s.written, IsCommandLine w) ?_ ?_ h
  · rintro s rfl w hw
    cases hw
  · intro s e t hstep hinv w hw
    rcases step_adds hstep.2 hstep.1 w hw with h | h
    · exact hinv w h
    · exact h

end SftpSocket

/-- In every run in which no transfer is started under a name with a line end, whatever all other
paths and names are, every command the engine writes is one line, and the helper reads these lines
one for one. -/
theorem sftpSocket_commands_are_lines (cfg : SftpConfig) {s : SftpSocket}
    (h : (goodSftpSystem cfg).Reach s) :
    (∀ w ∈ s.written, IsCommandLine w) ∧
      readInputLines [] s.written.flatten = s.written.map List.dropLast := by
  have hlines := SftpSocket.isCommandLine_of_reach h
  exact ⟨hlines, readInputLines_flatten hlines⟩

/-! ## A download -/

def sftpRunConfig : SftpConfig := { encoding := ServerEncoding.utf8, user := ['u'], host := ['h'] }

/-- The download of `remoteFile` from `/`, which the directory cache knows. -/
def sftpDownloadRun (remoteFile : WString) : List SftpSocketEvent :=
  let root : CServerPath := ⟨.unix, some {}⟩
  let cached : SftpAnswers :=
    { fileLookup := fun _ _ => { entry := some (false, true), matchedCase := true } }
  [.start (.fileTransfer
      { download := true, remotePath := root, remoteFile, localName := "/tmp/x".toList }),
    -- the helper is started, and connects
    .call {}, .reply {} true Reply.ok [], .call {}, .reply {} true Reply.ok [], .call {},
    -- cd
    .call {}, .call {}, .call {}, .reply { pwdReply := some root } true Reply.ok ['/'], .call {},
    -- get
    .call cached, .call {}]

theorem sftpSocket_commands_are_lines_download :
    ∃ s : SftpSocket, (goodSftpSystem sftpRunConfig).Reach s ∧
      s.written = [ascii "open \"u@h\" 22\n", ascii "cd \"/\"\n",
        ascii "get \"a \"\"b\"\"\" \"/tmp/x\"\r\n"] ∧
      ((∀ w ∈ s.written, IsCommandLine w) ∧
        readInputLines [] s.written.flatten = s.written.map List.dropLast) := by
  have hreach : (goodSftpSystem sftpRunConfig).Reach _ :=
    Lts.reach_restrict_ofFun (sftpDownloadRun "a \"b\"".toList) rfl rfl
  exact ⟨_, hreach, by decide, sftpSocket_commands_are_lines sftpRunConfig hreach⟩

/-- The file is called `a`, LF, `rm b`, LF, `c`. The command that should download it is read as
three, and the second one deletes `b`. -/
theorem sftpSocket_injected_command :
    ∃ s : SftpSocket, (sftpSystem sftpRunConfig).Reach s ∧
      ∃ w ∈ s.written, (readInputLines [] w).map (fun line => Psftp.sftpGetcmd (some line)) =
        [⟨[ascii "get", ascii "a"], .get⟩, ⟨[ascii "rm", ascii "b"], .rm⟩,
          ⟨[ascii "c /tmp/x"], .unknown⟩] := by
  exact ⟨_, Lts.reach_ofFun (sftpDownloadRun "a\nrm b\nc".toList) rfl rfl,
    ascii "get \"a\nrm b\nc\" \"/tmp/x\"\r\n", by decide, by decide⟩

end FlintZilla
