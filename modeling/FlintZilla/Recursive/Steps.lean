import FlintZilla.Recursive.Operation

/-!
# The steps of a recursive operation

What a call or a result can do, with the root and the directory in front that it is for, and what
the entries of a listing come to: the directories that are pushed, the files that are deleted with
one command, and the calls that are made for single entries.

Main results:

* `step_case`: what a call or a result can do.
* `visited_visitListing`: what the entries of a listing come to.
-/

namespace FlintZilla

open List

/-- A directory in front of the first root, with what is behind it. -/
structure Front where
  root : RecursionRoot
  roots : List RecursionRoot
  dir : NewDir
  dirs : List NewDir

/-- The root without the directory. -/
def Front.rest (f : Front) : RecursionRoot := { f.root with dirsToVisit := f.dirs }

/-- The names that are deleted as files, in the order of the command. -/
def deletedNames (entries : List CDirentry) : List WString :=
  (entries.reverse.filter fun entry => !RecursiveOperation.visits .delete entry).map CDirentry.name

namespace RecursiveOperation

/-- The operation is at the directory. -/
structure At (s : RecursiveOperation) (f : Front) : Prop where
  active : s.mode ≠ .none
  roots : s.roots = f.root :: f.roots
  dirs : f.root.dirsToVisit = f.dir :: f.dirs

/-- The result for the directory in front is dealt with. -/
def withFront (s : RecursiveOperation) (root : RecursionRoot) (roots : List RecursionRoot) :
    RecursiveOperation :=
  { s with roots := root :: roots, next := true }

inductive StepCase (sanitize : WString → WString) (s : RecursiveOperation) :
    RecursiveEvent → RecursiveOperation → Prop where
  | ignored (e : RecursiveEvent) : StepCase sanitize s e s
  | stopped (e : RecursiveEvent) : StepCase sanitize s e s.stopRecursiveOperation
  | rootAdded (startDir : CServerPath) (allowParent : Bool) (added : List AddDir) :
      StepCase sanitize s (.addRecursionRoot startDir allowParent added)
        { s with roots := s.roots ++ [added.foldl RecursionRoot.add
          { remoteStartDir := startDir, allowParent := allowParent }] }
  | chmodData (data : ChmodData) :
      StepCase sanitize s (.setChmodData data) { s with chmodData := some data }
  | started (mode : OperationMode) (filtered : WString → CDirentry → Bool) :
      StepCase sanitize s (.start mode filtered) { s with
        mode := mode, filtered := filtered, processedFiles := 0, processedDirectories := 0,
        next := true }
  /-- `NextOperation` without an operation. -/
  | paused (hmode : s.mode = .none) : StepCase sanitize s .next { s with next := false }
  | popped {root : RecursionRoot} {roots : List RecursionRoot} (hroots : s.roots = root :: roots) :
      StepCase sanitize s .next { s with roots := roots }
  | removed {f : Front} (hat : s.At f) (hmode : s.mode = .delete) (hvisit : f.dir.doVisit = false) :
      StepCase sanitize s .next { s.record (.removeDir f.dir.parent f.dir.subdir) f.root f.dir with
        roots := f.rest :: f.roots }
  | listed {f : Front} (hat : s.At f) (hlist : ¬(s.mode = .delete ∧ f.dir.doVisit = false)) :
      StepCase sanitize s .next { s.record
        (.list f.dir.parent f.dir.subdir (f.dir.link != .no)) f.root f.dir with next := false }
  | processed {f : Front} (hat : s.At f) (listing : CDirectoryListing)
      {r : RecursiveOperation × RecursionRoot}
      (hr : s.processListing sanitize f.rest listing f.dir = r) :
      StepCase sanitize s (.processDirectoryListing (some listing)) (r.1.withFront r.2 f.roots)
  /-- A directory that could not be listed is tried once more. -/
  | retried {f : Front} (hat : s.At f) (error : Nat) (hfirst : f.dir.secondTry = false) :
      StepCase sanitize s (.listingFailed error)
        (s.withFront (f.rest.pushFront { f.dir with secondTry := true }) f.roots)
  | unlisted {f : Front} (hat : s.At f) (error : Nat) :
      StepCase sanitize s (.listingFailed error)
        (s.withFront (pushRemoval s.mode f.rest f.dir) f.roots)
  | linkSkipped {f : Front} (hat : s.At f) (site : Bool) :
      StepCase sanitize s (.linkIsNotDir site) (s.withFront f.rest f.roots)
  | linkDeleted {f : Front} (hat : s.At f) (site : Bool) (hmode : s.mode = .delete)
      (hsubdir : f.dir.subdir ≠ []) :
      StepCase sanitize s (.linkIsNotDir site)
        ((s.record (.delete f.dir.parent [f.dir.subdir]) f.rest f.dir).withFront f.rest f.roots)
  | linkHandled {f : Front} (hat : s.At f) (site : Bool) (hmode : s.mode ≠ .delete)
      {localPath : CLocalPath}
      (hlocal : s.mode ≠ .transferFlatten → localPath = f.dir.localDir.makeParent.2) :
      StepCase sanitize s (.linkIsNotDir site)
        ((s.record (.handleInvalidDirLink f.dir.subdir localPath f.dir.parent) f.rest
          f.dir).withFront f.rest f.roots)

variable {sanitize : WString → WString} {s t : RecursiveOperation}

/-- A round of the loop: the next directory, the next root, or the end. -/
theorem nextOperation_case : StepCase sanitize s .next s.nextOperation := by
  unfold nextOperation
  split
  · exact .paused ‹_›
  split
  case _ => exact .stopped _
  case _ hmode _ root roots hroots =>
    split
    case _ => exact .popped hroots
    case _ dir dirs hdirs =>
      have hat : s.At ⟨root, roots, dir, dirs⟩ := ⟨hmode, hroots, hdirs⟩
      split_ifs with hremove
      · exact .removed hat hremove.1 (by simpa using hremove.2)
      · exact .listed hat (by simpa using hremove)

/-- A listing for the directory in front. -/
theorem processDirectoryListing_case (listing : Option CDirectoryListing) :
    StepCase sanitize s (.processDirectoryListing listing)
      (s.processDirectoryListing sanitize listing) := by
  unfold processDirectoryListing
  split
  · exact .stopped _
  split
  · exact .ignored _
  split
  · exact .ignored _
  split
  · exact .ignored _
  split
  case _ => exact .stopped _
  case _ listing hmode _ root roots hroots _ _ dir dirs hdirs =>
    exact .processed (f := ⟨root, roots, dir, dirs⟩) ⟨hmode, hroots, hdirs⟩ listing rfl

/-- The directory is tried once more, removed, or given up. -/
theorem listingFailed_case (error : Nat) :
    StepCase sanitize s (.listingFailed error) (s.listingFailed error) := by
  unfold listingFailed
  split
  · exact .ignored _
  split
  · exact .ignored _
  split
  · exact .stopped _
  split
  case _ => exact .stopped _
  case _ hmode _ root roots hroots _ _ dir dirs hdirs =>
    have hat : s.At ⟨root, roots, dir, dirs⟩ := ⟨hmode, hroots, hdirs⟩
    split_ifs with hretry
    · exact .retried hat error (by simpa using hretry.2)
    · exact .unlisted hat error

/-- The link is a file after all. -/
theorem linkIsNotDir_case (site : Bool) :
    StepCase sanitize s (.linkIsNotDir site) (s.linkIsNotDir site) := by
  unfold linkIsNotDir
  split
  · exact .ignored _
  split
  · exact .ignored _
  split
  case _ => exact .stopped _
  case _ hmode _ root roots hroots _ dir dirs hdirs =>
    have hat : s.At ⟨root, roots, dir, dirs⟩ := ⟨hmode, hroots, hdirs⟩
    split_ifs with hsite hdelete hsubdir hlist hflatten
    · exact .linkSkipped hat site
    · exact .linkDeleted hat site hdelete hsubdir
    · exact .linkSkipped hat site
    · exact .linkHandled hat site hdelete fun _ => rfl
    · exact .linkHandled hat site hdelete fun hne => absurd hne hflatten
    · exact .linkSkipped hat site

/-- While the loop of `NextOperation` runs nothing else happens, and only then it does. -/
theorem step_case {e : RecursiveEvent} (h : s.step sanitize e = some t) :
    StepCase sanitize s e t ∧ (s.next = true ↔ e = .next) := by
  unfold step at h
  split at h <;> cases h
  case _ hnext => exact ⟨nextOperation_case, by simp [hnext]⟩
  case _ hnext =>
    refine ⟨?_, by simp [hnext]⟩
    unfold addRecursionRoot
    split_ifs
    · exact .ignored _
    · exact .rootAdded _ _ _
  case _ hnext => exact ⟨.chmodData _, by simp [hnext]⟩
  case _ hnext =>
    refine ⟨?_, by simp [hnext]⟩
    unfold startRecursiveOperation
    split_ifs
    · exact .ignored _
    · exact .ignored _
    · exact .ignored _
    · exact .started _ _
  case _ hnext => exact ⟨processDirectoryListing_case _, by simp [hnext]⟩
  case _ hnext => exact ⟨listingFailed_case _, by simp [hnext]⟩
  case _ hnext => exact ⟨linkIsNotDir_case _, by simp [hnext]⟩
  case _ hnext => exact ⟨.stopped _, by simp [hnext]⟩

/-! ## The entries of a listing -/

/-- The directories that are pushed for the entries of a listing. -/
def subDirs (sanitize : WString → WString) (mode : OperationMode) (path : CServerPath)
    (dir : NewDir)
    (entries : List CDirentry) : List NewDir :=
  if dir.recurse then (entries.filter (visits mode)).map (subDir sanitize mode path dir) else []

/-- A call that is made for one of the entries at once. -/
inductive EntryCall (mode : OperationMode) (path : CServerPath) (dir : NewDir)
    (entries : List CDirentry) : RecursiveAction → Prop where
  | handleFile {entry : CDirentry} (hentry : entry ∈ entries)
      (hmode : mode = .transfer ∨ mode = .transferFlatten) :
      EntryCall mode path dir entries (.handleFile entry.name dir.localDir path entry.size)
  | chmod {entry : CDirentry} (hentry : entry ∈ entries) (hmode : mode = .chmod)
      (permissions : WString) :
      EntryCall mode path dir entries (.chmod path entry.name permissions)

/-- Among the calls is one for each file of a download. -/
def HandsOver (mode : OperationMode) (path : CServerPath) (dir : NewDir) (entries : List CDirentry)
    (new : List LogEntry) : Prop :=
  mode = .transfer ∨ mode = .transferFlatten → ∀ entry ∈ entries, entry.isDir = false →
    ∃ e ∈ new, e.action = .handleFile entry.name dir.localDir path entry.size

/-- What the loop makes of entries, where `new` is logged. -/
structure Entered (sanitize : WString → WString) (path : CServerPath) (dir : NewDir)
    (entries : List CDirentry) (l l' : EntryLoop) (new : List LogEntry) : Prop where
  operation : ∃ n, l'.operation =
    { l.operation with processedFiles := n, log := l.operation.log ++ new }
  root : l'.root = { l.root with
    dirsToVisit := subDirs sanitize l.operation.mode path dir entries.reverse ++
      l.root.dirsToVisit }
  files : l'.filesToDelete = l.filesToDelete ++
    if l.operation.mode = .delete then deletedNames entries.reverse else []
  count : new.length ≤ entries.length
  calls : ∀ e ∈ new, EntryCall l.operation.mode path dir entries e.action
  handsOver : HandsOver l.operation.mode path dir entries new

section Entries

variable {path : CServerPath} {dir : NewDir} {entry : CDirentry} {entries entries' : List CDirentry}
  {l l' l'' m : EntryLoop} {new new' : List LogEntry} {mode : OperationMode}
  {action : RecursiveAction}

theorem EntryCall.ne_delete (h : EntryCall mode path dir entries action) : mode ≠ .delete := by
  rcases h with ⟨_, rfl | rfl⟩ | ⟨_, rfl, _⟩
  all_goals decide

theorem EntryCall.mono (h : EntryCall mode path dir entries action) (hsub : entries ⊆ entries') :
    EntryCall mode path dir entries' action := by
  rcases h with ⟨hentry, hmode⟩ | ⟨hentry, hmode, permissions⟩
  · exact .handleFile (hsub hentry) hmode
  · exact .chmod (hsub hentry) hmode permissions

theorem chmodEntry_eq (s : RecursiveOperation) (root : RecursionRoot) (path : CServerPath)
    (dir : NewDir) (entry : CDirentry) :
    s.chmodEntry root path dir entry = s ∨ s.mode = .chmod ∧ ∃ permissions,
      s.chmodEntry root path dir entry =
        s.record (.chmod path entry.name permissions) root dir := by
  unfold chmodEntry
  split
  · split_ifs with hchmod
    · exact .inr ⟨hchmod.1, _, rfl⟩
    · exact .inl rfl
  · exact .inl rfl

theorem subDirs_append (mode : OperationMode) (xs ys : List CDirentry) :
    subDirs sanitize mode path dir (xs ++ ys) =
      subDirs sanitize mode path dir xs ++ subDirs sanitize mode path dir ys := by
  unfold subDirs
  split_ifs
  · simp
  · rfl

theorem Entered.nil : Entered sanitize path dir [] l l [] := by
  refine ⟨⟨l.operation.processedFiles, by simp⟩, ?_, ?_, Nat.le_refl _, by simp,
    by simp [HandsOver]⟩
  · simp [subDirs]
  · simp [deletedNames]

/-- Entries one after the other. -/
theorem Entered.append (h : Entered sanitize path dir entries l l' new)
    (h' : Entered sanitize path dir entries' l' l'' new') :
    Entered sanitize path dir (entries ++ entries') l l'' (new ++ new') := by
  obtain ⟨n, hop⟩ := h.operation
  obtain ⟨n', hop'⟩ := h'.operation
  obtain ⟨-, hroot', hfiles', hcount', hcalls', hhands'⟩ := h'
  rw [show l'.operation.mode = l.operation.mode by rw [hop]] at hroot' hfiles' hcalls' hhands'
  refine ⟨⟨n', by rw [hop', hop, append_assoc]⟩, ?_, ?_, ?_, ?_, ?_⟩
  · rw [hroot', h.root, reverse_append, subDirs_append, append_assoc]
  · rw [hfiles', h.files]
    split_ifs
    · simp [deletedNames]
    · simp
  · have hcount := h.count
    rw [length_append, length_append]
    omega
  · intro e he
    rcases mem_append.mp he with he | he
    · exact (h.calls e he).mono (subset_append_left _ _)
    · exact (hcalls' e he).mono (subset_append_right _ _)
  · intro hdown entry hentry hfile
    rcases mem_append.mp hentry with hentry | hentry
    · obtain ⟨e, he, haction⟩ := h.handsOver hdown entry hentry hfile
      exact ⟨e, mem_append_left _ he, haction⟩
    · obtain ⟨e, he, haction⟩ := hhands' hdown entry hentry hfile
      exact ⟨e, mem_append_right _ he, haction⟩

/-- The permissions are set last, and then nothing else was logged for the entry. -/
theorem Entered.chmodEntry (h : Entered sanitize path dir [entry] l m []) :
    ∃ new, Entered sanitize path dir [entry] l
      { m with operation := m.operation.chmodEntry m.root path dir entry } new := by
  obtain ⟨n, hop⟩ := h.operation
  have hmode : m.operation.mode = l.operation.mode := by rw [hop]
  rcases chmodEntry_eq m.operation m.root path dir entry with heq | ⟨hchmod, permissions, heq⟩
  · rw [heq]
    exact ⟨[], h⟩
  · rw [heq]
    rw [hmode] at hchmod
    refine ⟨[⟨.chmod path entry.name permissions, m.root, dir⟩], ⟨n, ?_⟩, h.root, h.files,
      Nat.le_refl _, ?_, ?_⟩
    · rw [record, hop, append_nil]
    · intro e he
      cases mem_singleton.mp he
      exact .chmod mem_cons_self hchmod permissions
    · rw [HandsOver, hchmod]
      simp

/-- One entry: a directory, a link, or a file, by the mode of the operation. -/
theorem entered_processEntry (l : EntryLoop) (entry : CDirentry) :
    ∃ new, Entered sanitize path dir [entry] l (processEntry sanitize path dir l entry) new := by
  have hop : ∃ n, l.operation.countFile entry =
      { l.operation with processedFiles := n, log := l.operation.log ++ [] } :=
    ⟨_, by rw [append_nil, countFile]⟩
  unfold processEntry
  dsimp only
  rw [show (l.operation.countFile entry).mode = l.operation.mode from rfl]
  split_ifs with hvisits hrecurse
  case pos | neg =>
    have hdir : entry.isDir = true := by
      rw [visits, Bool.and_eq_true] at hvisits
      exact hvisits.1
    refine Entered.chmodEntry (m := ⟨_, _, l.filesToDelete⟩)
      ⟨hop, ?_, ?_, Nat.zero_le _, by simp, by simp [HandsOver, hdir]⟩
    · simp [subDirs, hvisits, hrecurse, RecursionRoot.pushFront]
    · split_ifs with hmode
      · rw [hmode] at hvisits
        simp [deletedNames, hvisits]
      · simp
  · have hnone : subDirs sanitize l.operation.mode path dir [entry] = [] := by
      simp [subDirs, hvisits]
    -- downloads log the file, and every other mode logs nothing before the permissions
    have hquiet : ∀ files, l.operation.mode ≠ .transfer ∧ l.operation.mode ≠ .transferFlatten →
        files = l.filesToDelete ++ (if l.operation.mode = .delete then [entry.name] else []) →
        ∃ new, Entered sanitize path dir [entry] l
          ⟨(l.operation.countFile entry).chmodEntry l.root path dir entry, l.root, files⟩ new := by
      rintro files hmode rfl
      refine Entered.chmodEntry (m := ⟨_, l.root, _⟩)
        ⟨hop, by simp [hnone], ?_, Nat.zero_le _, by simp, by simp [HandsOver, hmode]⟩
      dsimp only
      split_ifs with hdelete
      · rw [hdelete] at hvisits
        simp [deletedNames, hvisits]
      · simp
    split
    case _ hmode | _ hmode =>
      rcases chmodEntry_eq ((l.operation.countFile entry).record _ l.root dir) l.root path dir entry
        with heq | ⟨hchmod, -⟩
      · rw [heq]
        refine ⟨[⟨.handleFile entry.name dir.localDir path entry.size, l.root, dir⟩], ⟨_, rfl⟩,
          by simp [hnone], by simp [hmode], Nat.le_refl _, ?_, ?_⟩
        · intro e he
          cases mem_singleton.mp he
          exact .handleFile mem_cons_self (by simp [hmode])
        · intro _ e he _
          cases mem_singleton.mp he
          exact ⟨_, mem_cons_self, rfl⟩
      · cases hmode.symm.trans hchmod
    case _ hmode => exact hquiet _ (by simp [hmode]) (by simp [hmode])
    case _ htransfer hflatten hdelete =>
      exact hquiet _ ⟨htransfer, hflatten⟩ (by rw [if_neg hdelete, append_nil])

variable (sanitize path dir) in
/-- By induction on the entries. -/
theorem entered_foldl (entries : List CDirentry) (l : EntryLoop) :
    ∃ new, Entered sanitize path dir entries l
      (entries.foldl (processEntry sanitize path dir) l) new := by
  induction entries generalizing l with
  | nil => exact ⟨[], .nil⟩
  | cons entry entries ih =>
    obtain ⟨new, hfirst⟩ := entered_processEntry l entry
    obtain ⟨new', hrest⟩ := ih (processEntry sanitize path dir l entry)
    exact ⟨new ++ new', hfirst.append hrest⟩

/-- The entries of a listing that are processed. -/
def selected (s : RecursiveOperation) (dir : NewDir) (listing : CDirectoryListing) :
    List CDirentry :=
  listing.entries.filter (s.selects dir listing.path.getPath)

/-- What is made of a listing whose path is new, where `new` is logged before it counts as
processed. -/
structure Visited (sanitize : WString → WString) (s : RecursiveOperation) (root : RecursionRoot)
    (listing : CDirectoryListing) (dir : NewDir) (t : RecursiveOperation) (root' : RecursionRoot)
    (new : List LogEntry) : Prop where
  operation : ∃ n, t = { s with
    processedFiles := n, processedDirectories := s.processedDirectories + 1,
    log := s.log ++ new ++ [⟨.processed listing (s.selected dir listing), root', dir⟩] }
  root : root' = { root with
    visitedDirs := listing.path :: root.visitedDirs,
    dirsToVisit := subDirs sanitize s.mode listing.path dir (s.selected dir listing) ++
      root.dirsToVisit }
  count : s.mode = .transfer ∨ new.length ≤ listing.entries.length
  calls : s.mode ≠ .delete → ∀ e ∈ new, EntryCall s.mode listing.path dir listing.entries e.action ∨
    s.mode = .transfer ∧ e.action = .handleEmptyDirectory dir.localDir
  /-- The files that are to be deleted go with one command. -/
  deletes : s.mode = .delete → new = if deletedNames (s.selected dir listing) = [] then []
    else [⟨.delete listing.path (deletedNames (s.selected dir listing)), root', dir⟩]
  handsOver : HandsOver s.mode listing.path dir (s.selected dir listing) new

section

variable (sanitize : WString → WString) (s : RecursiveOperation) (root : RecursionRoot)
  (listing : CDirectoryListing) (dir : NewDir)

theorem processEntries_entered :
    ∃ l new,
      Entered sanitize listing.path dir (s.selected dir listing).reverse ⟨s, root, []⟩ l new ∧
      processEntries sanitize s root listing dir =
        if l.operation.mode = .delete ∧ l.filesToDelete ≠ [] then
          (l.operation.record (.delete listing.path l.filesToDelete) l.root dir, l.root)
        else (l.operation, l.root) := by
  obtain ⟨new, h⟩ := entered_foldl sanitize listing.path dir (s.selected dir listing).reverse
    ⟨s, root, []⟩
  exact ⟨_, new, h, rfl⟩

/-- The loop over the entries, and the one command for all files to delete. -/
theorem visited_visitListing :
    ∃ t root' new, visitListing sanitize s root listing dir = (t, root') ∧
      Visited sanitize s root listing dir t root' new := by
  have hsub : s.selected dir listing ⊆ listing.entries := filter_subset_self _
  unfold visitListing
  dsimp only
  split_ifs with hempty
  · -- an empty listing is for the caller alone
    have hnone : s.selected dir listing = [] := by
      rw [selected, hempty.1, filter_nil]
    refine ⟨_, _, [_], rfl, ⟨s.processedFiles, rfl⟩, ?_, .inl hempty.2, ?_, ?_, ?_⟩
    · simp [hnone, subDirs]
    · intro _ e he
      cases mem_singleton.mp he
      exact .inr ⟨hempty.2, rfl⟩
    · simp [hempty.2]
    · simp [HandsOver, hnone]
  · obtain ⟨l, new, h, hprocess⟩ := processEntries_entered sanitize
      { s with processedDirectories := s.processedDirectories + 1 }
      { root with visitedDirs := listing.path :: root.visitedDirs } listing dir
    obtain ⟨⟨n, hop⟩, hroot, hfiles, hcount, hcalls, hhands⟩ := h
    rw [length_reverse] at hcount
    simp only [reverse_reverse, nil_append] at hroot hfiles
    -- deletion calls nothing for single entries
    have hquiet : s.mode = .delete → new = [] := by
      intro hmode
      exact eq_nil_iff_forall_not_mem.mpr fun e he => (hcalls e he).ne_delete hmode
    have hlength : new.length ≤ listing.entries.length := hcount.trans (length_filter_le _ _)
    have hcall : ∀ e ∈ new, EntryCall s.mode listing.path dir listing.entries e.action :=
      fun e he => (hcalls e he).mono fun x hx => hsub (mem_reverse.mp hx)
    rw [hprocess]
    split_ifs with hdelete
    · -- one command deletes all files of the listing
      rw [hop] at hdelete
      rw [if_pos hdelete.1] at hfiles
      obtain rfl := hquiet hdelete.1
      have hnames : deletedNames (s.selected dir listing) ≠ [] := hfiles ▸ hdelete.2
      refine ⟨_, _, [⟨.delete listing.path l.filesToDelete, l.root, dir⟩], rfl, ⟨n, ?_⟩, hroot, ?_,
        fun h => absurd hdelete.1 h, ?_, ?_⟩
      · rw [hop, append_nil]
        rfl
      · refine .inr (length_pos_of_ne_nil ?_)
        intro hnil
        exact hnames (by simp [selected, hnil, deletedNames])
      · intro _
        rw [if_neg hnames, hfiles]
        rfl
      · simp [HandsOver, show s.mode = .delete from hdelete.1]
    · refine ⟨_, _, new, rfl, ⟨n, by rw [hop]; rfl⟩, hroot, .inr hlength,
        fun _ e he => .inl (hcall e he), ?_, ?_⟩
      · intro hmode
        rw [hquiet hmode, if_pos]
        rw [if_pos hmode] at hfiles
        by_contra hnames
        exact hdelete ⟨by rw [hop]; exact hmode, hfiles ▸ hnames⟩
      · intro hdown entry hentry
        exact hhands hdown entry (mem_reverse.mpr hentry)

end

end Entries

end RecursiveOperation

end FlintZilla
