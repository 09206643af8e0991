import FlintZilla.Queue.FileItem
import FlintZilla.Recursive.Steps

/-!
# Recursive downloads

The virtual functions of `CRemoteRecursiveOperation`, `interface/remote_recursive_operation.cpp`,
put what a recursive operation finds into the transfer queue. `handle_file` passes the local name to
`QueueFile` where the remote name is expected, so an item has the name of its entry only if the
local name is the same.

Main results:

* `localName_eq_self_iff`, `handleFile_remote_iff`: exactly when the name is passed on as it is.
* `recursiveDownload_remoteFile`: when every item of the queue has the name of its entry.
-/

namespace FlintZilla

open Lib RecursiveOperation List

/-! ## The queue -/

/-- `CRemoteRecursiveOperation::sanitize_filename`. -/
def sanitizeFilename (o : NameOptions) (name : WString) : WString := replaceInvalidCharacters o name

/-- What a recursive operation is started with. -/
structure DownloadContext where
  options : NameOptions
  /-- `m_immediate`. -/
  immediate : Bool
  asAscii : Bool → WString → ServerType → Bool

/-- The local name of a remote file. -/
def localName (o : NameOptions) (type : ServerType) (sourceFile : WString) : WString :=
  if type = .vms ∧ o.stripVmsRevision then stripVmsRevision (sanitizeFilename o sourceFile)
  else sanitizeFilename o sourceFile

/-- `CRemoteRecursiveOperation::handle_file`: the item it queues. -/
def handleFile (x : DownloadContext) (sourceFile : WString) (localPath : CLocalPath)
    (remotePath : CServerPath) (size : Int) : CFileItem :=
  let file := localName x.options remotePath.type sourceFile
  queueFile x.asAscii (!x.immediate) true file (if sourceFile = file then [] else file) localPath
    remotePath size

/-- The item that is queued for a call of a virtual function. -/
def queuedItem (x : DownloadContext) : RecursiveAction → Option CFileItem
  | .handleFile sourceFile localPath remotePath size =>
    some (handleFile x sourceFile localPath remotePath size)
  | .handleInvalidDirLink sourceFile localPath remotePath =>
    some (handleFile x sourceFile localPath remotePath (-1))
  | .handleEmptyDirectory localPath =>
    if x.immediate then none
    else some (queueFile x.asAscii true true [] [] localPath ⟨.default, none⟩ (-1))
  | _ => none

/-- The items that were queued, in order. -/
def RecursiveOperation.queue (x : DownloadContext) (s : RecursiveOperation) : List CFileItem :=
  s.log.filterMap fun l => queuedItem x l.action

/-! ## Names that are kept -/

/-- A number behind a semicolon that is not the first character. -/
def HasRevision (name : WString) : Prop :=
  ∃ base revision, name = base ++ ';' :: revision ∧ base ≠ [] ∧ revision ≠ [] ∧
    ∀ c ∈ revision, '0' ≤ c ∧ c ≤ '9'

/-- No character of the name is one that is replaced by another one, and there is no revision that
is stripped. -/
structure KeepsName (o : NameOptions) (type : ServerType) (name : WString) : Prop where
  characters : o.invalidCharReplaceEnable = true → ∀ c ∈ name,
    isInvalidChar o.windows c false = true → o.invalidCharReplace.headD '\x00' = c
  revision : type = .vms → o.stripVmsRevision = true → ¬HasRevision name

/-- A revision is a number behind a semicolon. -/
theorem stripVmsRevision_of_digits {base revision : WString} (hbase : base ≠ [])
    (hrevision : revision ≠ []) (hdigits : ∀ c ∈ revision, '0' ≤ c ∧ c ≤ '9') :
    stripVmsRevision (base ++ ';' :: revision) = base := by
  have hfind : Lib.Search.rfind (· == ';') (base ++ ';' :: revision) = some base.length := by
    refine Lib.Search.rfind_append_cons (Lib.Search.forall_beq_eq_false fun hc => ?_) rfl
    exact absurd (hdigits _ hc) (by decide)
  have hdrop : (base ++ ';' :: revision).drop (base.length + 1) = revision := by
    rw [List.drop_length_add_append, List.drop_succ_cons, List.drop_zero]
  have hall : (revision.all fun c => '0' ≤ c ∧ c ≤ '9') = true := by simpa using hdigits
  unfold stripVmsRevision
  rw [hfind]
  split
  · contradiction
  · rename_i hzero
    exact absurd (List.eq_nil_of_length_eq_zero (Option.some.inj hzero)) hbase
  · rename_i pos _ hpos
    cases hpos
    dsimp only
    rw [hdrop, if_neg hrevision, if_pos hall, List.take_left]

theorem stripVmsRevision_eq_self_iff {name : WString} :
    stripVmsRevision name = name ↔ ¬HasRevision name := by
  constructor
  · rintro hsame ⟨base, revision, rfl, hbase, hrevision, hdigits⟩
    rw [stripVmsRevision_of_digits hbase hrevision hdigits] at hsame
    simp at hsame
  · intro hno
    unfold stripVmsRevision
    split
    · rfl
    · rfl
    · rename_i pos hzero hpos
      dsimp only
      split_ifs with hnil hdigits
      · rfl
      · -- what is cut off is a revision
        obtain ⟨base, c, revision, rfl, rfl, hc, -⟩ := Lib.Search.rfind_eq_some hpos
        rw [List.drop_length_add_append, List.drop_succ_cons, List.drop_zero] at hnil hdigits
        refine absurd ⟨base, revision, by rw [beq_iff_eq.mp hc], ?_, hnil, ?_⟩ hno
        · rintro rfl
          exact hzero rfl
        · simpa using hdigits
      · rfl

theorem sanitizeFilename_eq_self_iff {o : NameOptions} {name : WString} :
    sanitizeFilename o name = name ↔ (o.invalidCharReplaceEnable = true → ∀ c ∈ name,
      isInvalidChar o.windows c false = true → o.invalidCharReplace.headD '\x00' = c) := by
  unfold sanitizeFilename replaceInvalidCharacters
  cases o.invalidCharReplaceEnable with
  | false => simp
  | true =>
    rw [if_neg (by decide)]
    nth_rewrite 2 [← List.map_id name]
    rw [List.map_inj_left]
    refine ⟨fun h _ c hc hinvalid => ?_, fun h c hc => ?_⟩
    · simpa [hinvalid] using h c hc
    · split_ifs with hinvalid
      · exact h rfl c hc hinvalid
      · rfl

/-- A revision can be stripped only off a name whose characters stay. -/
theorem localName_eq_self_iff {o : NameOptions} {type : ServerType} {name : WString} :
    localName o type name = name ↔ KeepsName o type name := by
  have hlength : (sanitizeFilename o name).length = name.length := by
    unfold sanitizeFilename replaceInvalidCharacters
    split_ifs <;> simp
  unfold localName
  split_ifs with hvms
  · constructor
    · intro h
      have hsame : stripVmsRevision (sanitizeFilename o name) = sanitizeFilename o name := by
        by_contra hne
        obtain ⟨base, revision, hparts, hbase, hrevision, hdigits⟩ :=
          not_not.mp (mt stripVmsRevision_eq_self_iff.mpr hne)
        rw [hparts, stripVmsRevision_of_digits hbase hrevision hdigits] at h
        rw [hparts, h] at hlength
        simp at hlength
      rw [hsame] at h
      rw [h, stripVmsRevision_eq_self_iff] at hsame
      exact ⟨sanitizeFilename_eq_self_iff.mp h, fun _ _ => hsame⟩
    · rintro ⟨hcharacters, hrevision⟩
      rw [sanitizeFilename_eq_self_iff.mpr hcharacters]
      exact stripVmsRevision_eq_self_iff.mpr (hrevision hvms.1 hvms.2)
  · rw [sanitizeFilename_eq_self_iff]
    exact ⟨fun h => ⟨h, fun htype hstrip => absurd ⟨htype, hstrip⟩ hvms⟩, KeepsName.characters⟩

/-- The item has the name of the entry if that is kept, and it has the path unless it stands for a
directory. -/
theorem handleFile_remote_iff {x : DownloadContext} {name : WString} {localPath : CLocalPath}
    {remotePath : CServerPath} {size : Int} :
    ((handleFile x name localPath remotePath size).getRemoteFile = name ∧
      (handleFile x name localPath remotePath size).remotePath = remotePath) ↔
      KeepsName x.options remotePath.type name ∧ (name = [] → remotePath = ⟨.default, none⟩) := by
  rw [← localName_eq_self_iff]
  unfold handleFile queueFile
  dsimp only
  generalize localName x.options remotePath.type name = file
  by_cases hfile : file = []
  · subst hfile
    refine and_congr_right fun (hname : [] = name) => ?_
    exact ⟨fun h _ => h.symm, fun h => (h hname.symm).symm⟩
  · rw [if_neg hfile]
    refine and_congr_right fun (hname : file = name) => ?_
    exact ⟨fun _ h => absurd (hname.trans h) hfile, fun _ => rfl⟩

/-! ## Downloads -/

/-- The operation is started only as a download. -/
def OperationMode.Downloads (mode : OperationMode) : Prop :=
  mode = .transfer ∨ mode = .transferFlatten

instance OperationMode.decidableDownloads (mode : OperationMode) : Decidable mode.Downloads :=
  inferInstanceAs (Decidable (_ ∨ _))

def RecursiveEvent.Downloads : RecursiveEvent → Prop
  | .start mode _ => mode.Downloads
  | _ => True

instance RecursiveEvent.decidableDownloads : (e : RecursiveEvent) → Decidable e.Downloads
  | .start mode _ => mode.decidableDownloads
  | .addRecursionRoot .. | .setChmodData _ | .next | .processDirectoryListing _ | .listingFailed _
  | .linkIsNotDir _ | .stop => instDecidableTrue

def recursiveDownloadSystem (o : NameOptions) : Lts RecursiveOperation RecursiveEvent :=
  (recursiveSystem (sanitizeFilename o)).restrict fun _ e => e.Downloads

/-- `handle_file` was called for an entry of a listing. -/
def Handled (log : List LogEntry) (path : CServerPath) (dir : NewDir) (entry : CDirentry) : Prop :=
  ∃ l ∈ log, l.action = .handleFile entry.name dir.localDir path entry.size

/-- For every listing that was processed `handle_file` was called for its files. -/
def FilesHandled (log : List LogEntry) : Prop :=
  ∀ l ∈ log, ∀ listing entries, l.action = .processed listing entries →
    ∀ entry ∈ entries, entry.isDir = false → Handled log listing.path l.dir entry

variable {log log' : List LogEntry} {path : CServerPath} {dir : NewDir} {entry : CDirentry}
variable {s t : RecursiveOperation} {root : RecursionRoot} {sanitize : WString → WString}

theorem Handled.mono (h : Handled log path dir entry) (hlog : log <+: log') :
    Handled log' path dir entry := by
  obtain ⟨l, hl, haction⟩ := h
  exact ⟨l, hlog.subset hl, haction⟩

/-- New entries of the log, with what was done for them. -/
theorem FilesHandled.append {new : List LogEntry} (h : FilesHandled log)
    (hnew : ∀ l ∈ new, ∀ listing entries, l.action = .processed listing entries →
      ∀ entry ∈ entries, entry.isDir = false → Handled (log ++ new) listing.path l.dir entry) :
    FilesHandled (log ++ new) := by
  intro l hl listing entries haction entry hentry hfile
  rcases mem_append.mp hl with hl | hl
  · exact (h l hl listing entries haction entry hentry hfile).mono (prefix_append log new)
  · exact hnew l hl listing entries haction entry hentry hfile

/-- The log has grown, and no listing was processed. -/
structure Extends (s t : RecursiveOperation) : Prop where
  mode : t.mode = s.mode
  log : s.log <+: t.log
  handled : FilesHandled s.log → FilesHandled t.log

theorem Extends.trans {u : RecursiveOperation} (h : Extends s t) (h' : Extends t u) : Extends s u :=
  ⟨h'.mode.trans h.mode, h.log.trans h'.log, fun hs => h'.handled (h.handled hs)⟩

theorem extends_record {action : RecursiveAction}
    (haction : ∀ listing entries, action ≠ .processed listing entries) :
    Extends s (s.record action root dir) :=
  ⟨rfl, prefix_append _ _, fun h => h.append (by simp [haction])⟩

/-! ## One listing -/

/-- The listing of a directory: its record comes behind the files. -/
theorem visitListing_download (hmode : s.mode.Downloads) (listing : CDirectoryListing) :
    Extends s (visitListing sanitize s root listing dir).1 := by
  obtain ⟨t, root', new, heq, ⟨n, rfl⟩, -, -, hcalls, -, hhands⟩ :=
    visited_visitListing sanitize s root listing dir
  have hdelete : s.mode ≠ .delete := by rcases hmode with h | h <;> simp [h]
  rw [heq]
  refine ⟨rfl, ⟨_, (append_assoc _ _ _).symm⟩, fun h => ?_⟩
  rw [append_assoc]
  refine h.append ?_
  intro l hl listing' entries haction entry hentry hfile
  rcases mem_append.mp hl with hl | hl
  · rcases hcalls hdelete l hl with hcall | ⟨-, hcall⟩
    · rw [haction] at hcall
      cases hcall
    · cases haction.symm.trans hcall
  · cases mem_singleton.mp hl
    cases haction
    obtain ⟨e, he, hhandled⟩ := hhands hmode entry hentry hfile
    exact ⟨e, mem_append_right _ (mem_append_left _ he), hhandled⟩

theorem processListing_download (hmode : s.mode.Downloads) (listing : CDirectoryListing) :
    Extends s (processListing sanitize s root listing dir).1 := by
  have hnumber : Extends s { s with nextListing := s.nextListing + 1 } := ⟨rfl, prefix_rfl, id⟩
  unfold processListing
  dsimp only
  split_ifs
  · exact hnumber
  · exact hnumber
  · exact hnumber
  · exact hnumber.trans
      (visitListing_download (s := { s with nextListing := s.nextListing + 1 }) hmode listing)

/-! ## Whole runs -/

/-- What is true of an operation that is only started as a download. -/
structure DownloadInv (s : RecursiveOperation) : Prop where
  mode : s.mode = .none ∨ s.mode.Downloads
  handled : FilesHandled s.log

namespace DownloadInv

theorem extend (h : DownloadInv s) (hst : Extends s t) : DownloadInv t :=
  ⟨hst.mode ▸ h.mode, hst.handled h.handled⟩

theorem withRoots (h : DownloadInv s) (roots : List RecursionRoot) (next : Bool) :
    DownloadInv { s with roots := roots, next := next } :=
  ⟨h.mode, h.handled⟩

/-- Each event. -/
theorem step {e : RecursiveEvent} (h : DownloadInv s) (he : e.Downloads)
    (hstep : s.step sanitize e = some t) : DownloadInv t := by
  cases (step_case hstep).1 with
  | ignored => exact h
  | stopped => exact ⟨.inl rfl, h.handled⟩
  | started => exact ⟨.inr he, h.handled⟩
  | rootAdded | chmodData | paused | popped | retried | unlisted | linkSkipped =>
    exact ⟨h.mode, h.handled⟩
  | removed | listed | linkDeleted | linkHandled =>
    exact ⟨h.mode, (extends_record (by simp)).handled h.handled⟩
  | processed hat listing hr =>
    subst hr
    have hmode := h.mode.resolve_left hat.active
    exact (h.extend (processListing_download hmode listing)).withRoots _ true

end DownloadInv

theorem recursiveDownloadSystem_inv {o : NameOptions}
    (h : (recursiveDownloadSystem o).Reach s) : DownloadInv s := by
  refine Lts.Reach.invariant DownloadInv ?_ ?_ h
  · rintro s rfl
    exact ⟨.inl rfl, by simp [FilesHandled, new]⟩
  · rintro s e t ⟨hstep, he⟩ hs
    exact hs.step he hstep

/-- For every file among the selected entries of a listing that was processed there is an item in
the queue. Its remote name is the name of the file and its remote path the path of the listing
exactly if no character of the name is replaced and no revision stripped; a file without a name
becomes a directory. -/
theorem recursiveDownload_remoteFile (x : DownloadContext)
    (h : (recursiveDownloadSystem x.options).Reach s) :
    ∀ l ∈ s.log, ∀ listing entries, l.action = .processed listing entries →
      ∀ entry ∈ entries, entry.isDir = false →
        ∃ call ∈ s.log, call.action =
            .handleFile entry.name l.dir.localDir listing.path entry.size ∧
          ∃ item, queuedItem x call.action = some item ∧ item ∈ s.queue x ∧
            (item.getRemoteFile = entry.name ∧ item.remotePath = listing.path ↔
              KeepsName x.options listing.path.type entry.name ∧
                (entry.name = [] → listing.path = ⟨.default, none⟩)) := by
  intro l hl listing entries haction entry hentry hfile
  obtain ⟨call, hcall, hhandled⟩ :=
    (recursiveDownloadSystem_inv h).handled l hl listing entries haction entry hentry hfile
  have hitem : queuedItem x call.action =
      some (handleFile x entry.name l.dir.localDir listing.path entry.size) := by
    rw [hhandled]
    rfl
  refine ⟨call, hcall, hhandled, _, hitem, ?_, handleFile_remote_iff⟩
  exact List.mem_filterMap.mpr ⟨call, hcall, hitem⟩

/-! ## Names that are changed -/

/-- The user downloads the directory of a path. -/
def downloadRun (path : CServerPath) (entries : List CDirentry) : List RecursiveEvent :=
  [.addRecursionRoot path true [.dir path [] ⟨"/home/".toList⟩ false],
    .start .transfer fun _ _ => false, .next,
    .processDirectoryListing (some ⟨path, entries, false⟩)]

theorem recursiveDownload_remoteFile_plain :
    ∃ s, (recursiveDownloadSystem {}).Reach s ∧ ∃ item ∈ s.queue ⟨{}, true, fun _ _ _ => false⟩,
      item.getRemoteFile = "f.txt".toList ∧ item.remotePath = ⟨.unix, some ⟨[['d']], none⟩⟩ := by
  have hreach : (recursiveDownloadSystem {}).Reach _ := Lts.reach_restrict_ofFun
    (downloadRun ⟨.unix, some ⟨[['d']], none⟩⟩ [{ name := "f.txt".toList }]) rfl rfl
  obtain ⟨call, hcall, haction, item, hqueued, hmem, hremote⟩ :=
    recursiveDownload_remoteFile ⟨{}, true, fun _ _ _ => false⟩ hreach _
      (List.mem_of_getLast? rfl) _ _ rfl _ (List.mem_singleton.mpr rfl) rfl
  have hkeeps : KeepsName {} .unix "f.txt".toList := ⟨by decide, nofun⟩
  exact ⟨_, hreach, item, hmem, hremote.mpr ⟨hkeeps, nofun⟩⟩

/-- A revision that is stripped and a character that is replaced are missing in the remote name. -/
theorem recursiveDownload_wrong_remoteFile :
    (∃ s, (recursiveDownloadSystem { stripVmsRevision := true }).Reach s ∧
      (∃ l ∈ s.log, l.action = .processed
        ⟨⟨.vms, some ⟨["DISK".toList], none⟩⟩, [{ name := "F.TXT;3".toList }], false⟩
        [{ name := "F.TXT;3".toList }]) ∧
      (s.queue ⟨{ stripVmsRevision := true }, true, fun _ _ _ => false⟩).map
        CFileItem.getRemoteFile = ["F.TXT".toList]) ∧
    ∃ s, (recursiveDownloadSystem { windows := true }).Reach s ∧ (∃ l ∈ s.log, l.action = .processed
        ⟨⟨.unix, some ⟨[['d']], none⟩⟩, [{ name := "a?b".toList }], false⟩
        [{ name := "a?b".toList }]) ∧
      (s.queue ⟨{ windows := true }, true, fun _ _ _ => false⟩).map
        CFileItem.getRemoteFile = ["a_b".toList] := by
  constructor
  · exact ⟨_, Lts.reach_restrict_ofFun (downloadRun
        ⟨.vms, some ⟨["DISK".toList], none⟩⟩ [{ name := "F.TXT;3".toList }]) rfl rfl,
      ⟨_, List.mem_of_getLast? rfl, rfl⟩, by decide⟩
  · exact ⟨_, Lts.reach_restrict_ofFun (downloadRun
        ⟨.unix, some ⟨[['d']], none⟩⟩ [{ name := "a?b".toList }]) rfl rfl,
      ⟨_, List.mem_of_getLast? rfl, rfl⟩, by decide⟩

end FlintZilla
