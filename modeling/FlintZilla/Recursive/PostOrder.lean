import FlintZilla.Recursive.Steps

/-!
# Recursive deletion

Directories are removed after their contents and, unless the user has added a link, stay within the
recursion root. A directory that is to be removed lies in the stack behind everything that its
listing led to, and every listing number in the stack is older than the next one.

Main results:

* `visitListing_inv`, `processListing_inv`: what a listing puts on the stack and in the log.
* `recursiveDelete_safe`: a directory is removed after all that was found in it, and nothing outside
  of the root.
-/

namespace FlintZilla

open Lib RecursiveOperation List Nat

/-! ## What the log says -/

/-- A path the user has added, or one that passes the test against the start directory. -/
def RecursionRoot.Covers (root : RecursionRoot) (path : CServerPath) : Prop :=
  path ∈ root.added ∨ path.isSubdirOf root.remoteStartDir (· == ·) false = true ∨
    (path = root.remoteStartDir ∧ root.allowParent = true)

/-- The files among the entries of a listing are deleted in one command. -/
def DeletedIn (log : List LogEntry) (number : Nat) (listing : CDirectoryListing)
    (entries : List CDirentry) : Prop :=
  deletedNames entries ≠ [] → ∃ entry ∈ log, entry.dir.listing = some number ∧
    entry.action = .delete listing.path (deletedNames entries)

/-- No directory in the stack comes from the listing of that number. -/
def RecursionRoot.Popped (root : RecursionRoot) (number : Nat) : Prop :=
  ∀ dir ∈ root.dirsToVisit, number ∉ dir.above

/-- What is wrong with no entry of the log. -/
def LogEntry.Ok (entry : LogEntry) : Prop :=
  match entry.action with
  | .list _ _ _ => ∀ e, entry.dir.entry = some e → e.isLink = false
  | .removeDir parent _ => (entry.root.addedLink = false → entry.root.Covers parent) ∧
      (∀ number, entry.dir.listing = some number → entry.root.Popped number) ∧
      ∀ e, entry.dir.entry = some e → e.isLink = false
  | .delete parent _ => entry.root.addedLink = false → entry.root.Covers parent
  | _ => True

/-- Where the entries of a listing are processed, its files are deleted, and both before the
directory of the listing is removed. -/
structure LogInv (next : Nat) (log : List LogEntry) : Prop where
  ok : ∀ entry ∈ log, entry.Ok
  number_lt : ∀ entry ∈ log, ∀ number, entry.dir.listing = some number → number < next
  deleted : ∀ entry ∈ log, ∀ listing entries number, entry.action = .processed listing entries →
    entry.dir.listing = some number → DeletedIn log number listing entries
  order : ∀ before removal after, log = before ++ removal :: after →
    ∀ parent subdir number, removal.action = .removeDir parent subdir →
      removal.dir.listing = some number →
    ∀ entry ∈ log, ∀ listing entries, entry.action = .processed listing entries →
      entry.dir.listing = some number →
      entry ∈ before ∧ DeletedIn before number listing entries

/-! ## The stack -/

structure DirInv (root : RecursionRoot) (next : Nat) (dir : NewDir) : Prop where
  link : root.addedLink = false → dir.link = .no
  unlisted : dir.doVisit = true → dir.listing = none
  named : dir.doVisit = false → dir.subdir ≠ []
  startDir : root.addedLink = false → dir.startDir.empty = true
  parent : root.addedLink = false → dir.subdir ≠ [] → root.Covers dir.parent
  entry : ∀ e, dir.entry = some e → e.isLink = false
  above_lt : ∀ number ∈ dir.above, number < next
  listing_lt : ∀ number, dir.listing = some number → number < next ∧ number ∉ dir.above

structure RootInv (next : Nat) (root : RecursionRoot) : Prop where
  dirs : ∀ dir ∈ root.dirsToVisit, DirInv root next dir
  /-- A directory to remove lies behind everything its listing led to. -/
  postOrder : root.dirsToVisit.Pairwise fun dir later =>
    dir.doVisit = false → ∀ number, dir.listing = some number → number ∉ later.above

structure RecursiveInv (s : RecursiveOperation) : Prop where
  mode : s.mode = .none ∨ s.mode = .delete
  roots : ∀ root ∈ s.roots, RootInv s.nextListing root
  log : LogInv s.nextListing s.log

/-! ## Adding to the log -/

theorem DeletedIn.mono {log log' : List LogEntry} {number : Nat} {listing : CDirectoryListing}
    {entries : List CDirentry} (h : DeletedIn log number listing entries) (hsub : log ⊆ log') :
    DeletedIn log' number listing entries := by
  intro hne
  rcases h hne with ⟨entry, hentry, hrest⟩
  exact ⟨entry, hsub hentry, hrest⟩

namespace LogInv

variable {next : Nat} {log : List LogEntry}

theorem nil : LogInv next [] := ⟨by simp, by simp, by simp, by simp⟩

theorem mono (h : LogInv next log) : LogInv (next + 1) log :=
  ⟨h.ok, fun entry hentry number heq => lt_succ_of_lt (h.number_lt entry hentry number heq),
    h.deleted, h.order⟩

/-- A listing is noted as processed after its files were deleted and before its directory is. -/
theorem append (h : LogInv next log) {entry : LogEntry} (hok : entry.Ok)
    (hnumber : ∀ number, entry.dir.listing = some number → number < next)
    (hprocessed : ∀ listing entries number, entry.action = .processed listing entries →
      entry.dir.listing = some number → DeletedIn log number listing entries ∧
        ∀ removal ∈ log, ∀ parent subdir, removal.action = .removeDir parent subdir →
          removal.dir.listing ≠ some number) :
    LogInv next (log ++ [entry]) := by
  have hsub : log ⊆ log ++ [entry] := subset_append_left _ _
  refine ⟨?_, ?_, ?_, ?_⟩
  · exact forall_mem_append.mpr ⟨h.ok, forall_mem_singleton.mpr hok⟩
  · exact forall_mem_append.mpr ⟨h.number_lt, forall_mem_singleton.mpr hnumber⟩
  · -- every processed listing has been deleted, now as before
    intro x hx listing entries number hact hlist
    rcases mem_append.mp hx with hx | hx
    · exact (h.deleted x hx listing entries number hact hlist).mono hsub
    · rw [mem_singleton.mp hx] at hact hlist
      exact (hprocessed listing entries number hact hlist).1.mono hsub
  · intro before removal after heq parent subdir number hremoval hrlist x hx listing entries hact
      hlist
    rcases eq_nil_or_concat after with rfl | ⟨after', y, rfl⟩
    · -- the new entry is the removal
      rcases append_inj' heq rfl with ⟨rfl, hentry⟩
      rcases mem_append.mp hx with hx | hx
      · exact ⟨hx, h.deleted x hx listing entries number hact hlist⟩
      · rw [mem_singleton.mp hx] at hact
        rw [← head_eq_of_cons_eq hentry, hact] at hremoval
        cases hremoval
    · -- the removal was there before
      have hsplit : log = before ++ removal :: after' ∧ [entry] = [y] := by
        refine append_inj' ?_ rfl
        rw [heq]
        simp
      rcases hsplit with ⟨hlog, -⟩
      rcases mem_append.mp hx with hx | hx
      · exact h.order before removal after' hlog parent subdir number hremoval hrlist x hx listing
          entries hact hlist
      · rw [mem_singleton.mp hx] at hact hlist
        have hmem : removal ∈ log := by
          rw [hlog]
          simp
        exact absurd hrlist
          ((hprocessed listing entries number hact hlist).2 removal hmem parent subdir hremoval)

end LogInv

/-! ## Changes of the stack -/

variable {root : RecursionRoot} {next : Nat} {dir : NewDir}

theorem DirInv.mono (h : DirInv root next dir) : DirInv root (next + 1) dir :=
  { h with
    above_lt := fun number hn => lt_succ_of_lt (h.above_lt number hn)
    listing_lt := fun number heq => (h.listing_lt number heq).imp_left lt_succ_of_lt }

/-- Only what the root covers matters, and whether a link was added to it. -/
theorem DirInv.withRoot {root' : RecursionRoot} (h : DirInv root next dir)
    (hlink : root'.addedLink = false → root.addedLink = false)
    (hcovers : ∀ path, root.Covers path → root'.Covers path) : DirInv root' next dir :=
  ⟨h.link ∘ hlink, h.unlisted, h.named, h.startDir ∘ hlink,
    fun hno hsub => hcovers _ (h.parent (hlink hno) hsub), h.entry, h.above_lt, h.listing_lt⟩

namespace RootInv

variable {next : Nat} {root : RecursionRoot}

theorem mono (h : RootInv next root) : RootInv (next + 1) root :=
  ⟨fun dir hdir => (h.dirs dir hdir).mono, h.postOrder⟩

variable {dir : NewDir} {dirs : List NewDir}

/-- The directory in front is taken off the stack. -/
theorem pop (h : RootInv next root) (hdirs : root.dirsToVisit = dir :: dirs) :
    RootInv next { root with dirsToVisit := dirs } ∧
      DirInv { root with dirsToVisit := dirs } next dir ∧
      (dir.doVisit = false → ∀ number, dir.listing = some number →
        ∀ later ∈ dirs, number ∉ later.above) := by
  have hinv := h.dirs
  have horder := h.postOrder
  rw [hdirs] at hinv horder
  rcases pairwise_cons.mp horder with ⟨hfront, hrest⟩
  refine ⟨⟨?_, hrest⟩, ?_, ?_⟩
  · intro d hd
    exact (hinv d (mem_cons_of_mem _ hd)).withRoot id fun _ => id
  · exact (hinv dir mem_cons_self).withRoot id fun _ => id
  · intro hvisit number heq later hlater
    exact hfront later hlater hvisit number heq

/-- A directory goes in front of what it is older than. -/
theorem pushFront (h : RootInv next root) (hdir : DirInv root next dir)
    (hremoval : dir.doVisit = false → ∀ number, dir.listing = some number →
      ∀ later ∈ root.dirsToVisit, number ∉ later.above) :
    RootInv next (root.pushFront dir) := by
  refine ⟨?_, pairwise_cons.mpr ⟨?_, h.postOrder⟩⟩
  · intro d hd
    rcases mem_cons.mp hd with rfl | hd
    · exact hdir.withRoot id fun _ => id
    · exact (h.dirs d hd).withRoot id fun _ => id
  · intro later hlater hvisit number heq
    exact hremoval hvisit number heq later hlater

theorem visit (h : RootInv next root) (visitedDirs : List CServerPath) :
    RootInv next { root with visitedDirs := visitedDirs } :=
  ⟨fun dir hdir => (h.dirs dir hdir).withRoot id fun _ => id, h.postOrder⟩

/-- Directories that are to be visited may be pushed at any time. -/
theorem pushDirs (h : RootInv next root)
    (hdirs : ∀ dir ∈ dirs, DirInv root next dir ∧ dir.doVisit = true) :
    RootInv next { root with dirsToVisit := dirs ++ root.dirsToVisit } := by
  induction dirs with
  | nil => exact h
  | cons dir dirs ih =>
    have hrest := ih fun d hd => hdirs d (mem_cons_of_mem _ hd)
    rcases hdirs dir mem_cons_self with ⟨hdir, hvisit⟩
    have hpush := hrest.pushFront (hdir.withRoot id fun _ => id) (by simp [hvisit])
    exact hpush

end RootInv

/-! ## The entries of a listing -/

section Entries

variable {sanitize : WString → WString} {s : RecursiveOperation} {root : RecursionRoot}
  {path : CServerPath} {dir : NewDir} {next : Nat}

/-- The directories of a listing are below it. -/
theorem subDirs_inv (hdir : DirInv root next dir)
    (hcovers : root.addedLink = false → root.Covers path) {entries : List CDirentry} {d : NewDir}
    (hd : d ∈ subDirs sanitize .delete path { dir with listing := some next } entries) :
    DirInv root (next + 1) d ∧ d.doVisit = true := by
  unfold subDirs at hd
  split_ifs at hd
  · rcases mem_map.mp hd with ⟨entry, hentry, rfl⟩
    have hvisit : entry.isDir = true ∧ entry.isLink = false := by
      simpa [visits] using (mem_filter.mp hentry).2
    refine ⟨⟨?_, fun _ => rfl, by simp [subDir], hdir.startDir, fun hno _ => hcovers hno, ?_, ?_,
      by simp [subDir]⟩, rfl⟩
    · simp [subDir, hvisit.2]
    · intro e he
      cases he
      exact hvisit.2
    · intro number hn
      simp only [subDir, Option.toList_some, singleton_append, mem_cons] at hn
      rcases hn with rfl | hn
      · exact lt_succ_self _
      · exact lt_succ_of_lt (hdir.above_lt number hn)
  · cases hd

/-- The entries of a listing are processed under the number `next`. -/
theorem visitListing_inv (hmode : s.mode = .delete) (hlog : LogInv next s.log)
    (hroot : RootInv (next + 1) root) (hdir : DirInv root next dir) {listing : CDirectoryListing}
    (hcovers : root.addedLink = false → root.Covers listing.path)
    {t : RecursiveOperation × RecursionRoot}
    (ht : visitListing sanitize s root listing { dir with listing := some next } = t) :
    t.1.mode = .delete ∧ t.1.nextListing = s.nextListing ∧ LogInv (next + 1) t.1.log ∧
      RootInv (next + 1) t.2 := by
  have hfresh : ∀ removal ∈ s.log, removal.dir.listing ≠ some next := by
    intro removal hmem heq
    exact lt_irrefl _ (hlog.number_lt removal hmem next heq)
  obtain ⟨u, root', new, heq, ⟨n, rfl⟩, hroot', -, -, hdeletes, -⟩ :=
    visited_visitListing sanitize s root listing { dir with listing := some next }
  rw [heq] at ht
  subst ht
  rw [hmode] at hroot'
  generalize s.selected { dir with listing := some next } listing = entries at *
  have hinv : RootInv (next + 1) root' := by
    rw [hroot']
    refine (hroot.visit (listing.path :: root.visitedDirs)).pushDirs fun d hd => ?_
    rcases subDirs_inv hdir hcovers hd with ⟨hd, hvisit⟩
    exact ⟨hd.withRoot id fun _ => id, hvisit⟩
  have hnumber : ∀ number, some next = some number → number < next + 1 := by
    intro number heq
    cases heq
    exact lt_succ_self _
  -- the files are deleted, and nothing is removed for the listing
  have hnew : LogInv (next + 1) (s.log ++ new) ∧ DeletedIn (s.log ++ new) next listing entries ∧
      ∀ removal ∈ s.log ++ new, ∀ parent subdir, removal.action = .removeDir parent subdir →
        removal.dir.listing ≠ some next := by
    rw [hdeletes hmode]
    split_ifs with hfiles
    · rw [append_nil]
      exact ⟨hlog.mono, fun hne => absurd hfiles hne, fun removal hmem _ _ _ => hfresh removal hmem⟩
    · refine ⟨hlog.mono.append ?_ hnumber (by simp), ?_, ?_⟩
      · rw [hroot']
        exact hcovers
      · exact fun _ => ⟨_, mem_append_right _ (mem_singleton_self _), rfl, rfl⟩
      · intro removal hmem parent subdir hremoval
        rcases mem_append.mp hmem with hmem | hmem
        · exact hfresh removal hmem
        · rw [mem_singleton.mp hmem] at hremoval
          cases hremoval
  refine ⟨hmode, rfl, hnew.1.append trivial hnumber ?_, hinv⟩
  intro listing' entries' number hact hlist
  cases hact
  cases hlist
  exact hnew.2

end Entries

/-! ## Results -/

section Results

variable {sanitize : WString → WString} {s t : RecursiveOperation} {root : RecursionRoot}
  {path : CServerPath} {dir : NewDir} {next : Nat}

variable (path) in
/-- If no link was added, a path that passes the test is covered; the start directory of a directory
changes for links only. -/
theorem belowRecursionRoot_inv (hdir : DirInv root next dir) :
    DirInv root next (belowRecursionRoot root path dir).2 ∧
      ((belowRecursionRoot root path dir).1 = true → root.addedLink = false →
        root.Covers path) := by
  unfold belowRecursionRoot
  split_ifs with hstart hsub hsame hlink
  · refine ⟨hdir, fun _ hno => ?_⟩
    rw [hdir.startDir hno] at hstart
    cases hstart
  · exact ⟨hdir, fun _ _ => .inr (.inl hsub)⟩
  · exact ⟨hdir, fun _ _ => .inr (.inr hsame)⟩
  · have hlinks : root.addedLink = false → False := by
      intro hno
      rw [hdir.link hno] at hlink
      cases hlink
    exact ⟨{ hdir with startDir := fun hno => (hlinks hno).elim }, fun _ hno => (hlinks hno).elim⟩
  · exact ⟨hdir, by simp⟩

/-- The directory is pushed again, to be removed behind what its listing leads to. -/
theorem pushRemoval_listed (mode : OperationMode) (hroot : RootInv next root)
    (hdir : DirInv root next dir) :
    RootInv (next + 1) (pushRemoval mode root { dir with listing := some next }) := by
  unfold pushRemoval
  split_ifs with hremove
  · refine hroot.mono.pushFront ?_ ?_
    · refine { hdir with
        unlisted := by simp, named := fun _ => hremove.2.2, above_lt := hdir.mono.above_lt
        listing_lt := ?_ }
      intro number heq
      cases heq
      exact ⟨lt_succ_self _, fun hmem => lt_irrefl _ (hdir.above_lt _ hmem)⟩
    · intro _ number heq later hlater hmem
      cases heq
      exact lt_irrefl _ ((hroot.dirs later hlater).above_lt _ hmem)
  · exact hroot.mono

/-- Nor is anything known of a directory that could not be listed. -/
theorem pushRemoval_unlisted (mode : OperationMode) (hroot : RootInv next root)
    (hdir : DirInv root next dir) : RootInv next (pushRemoval mode root dir) := by
  unfold pushRemoval
  split_ifs with hremove
  · have hnone := hdir.unlisted hremove.2.1
    refine hroot.pushFront { hdir with
      unlisted := by simp, named := fun _ => hremove.2.2 } ?_
    intro _ number heq
    rw [show dir.listing = some number from heq] at hnone
    cases hnone
  · exact hroot

theorem covers_pushRemoval (mode : OperationMode) (root : RecursionRoot) (dir : NewDir)
    (path : CServerPath) : (pushRemoval mode root dir).Covers path ↔ root.Covers path := by
  unfold pushRemoval
  split_ifs <;> rfl

theorem addedLink_pushRemoval (mode : OperationMode) (root : RecursionRoot) (dir : NewDir) :
    (pushRemoval mode root dir).addedLink = false ↔ root.addedLink = false := by
  unfold pushRemoval
  split_ifs <;> rfl

/-- A listing, wherever it leads. -/
theorem processListing_inv (hmode : s.mode = .delete) (hlog : LogInv s.nextListing s.log)
    (hroot : RootInv s.nextListing root) (hdir : DirInv root s.nextListing dir)
    {listing : CDirectoryListing} {r : RecursiveOperation × RecursionRoot}
    (hr : processListing sanitize s root listing dir = r) :
    r.1.mode = .delete ∧ r.1.nextListing = s.nextListing + 1 ∧
      LogInv (s.nextListing + 1) r.1.log ∧ RootInv (s.nextListing + 1) r.2 := by
  unfold processListing at hr
  dsimp only at hr
  rcases belowRecursionRoot_inv listing.path hdir with ⟨hdir', hcovers⟩
  by_cases hbelow : (belowRecursionRoot root listing.path dir).1 = true
  · have hpush := pushRemoval_listed s.mode hroot hdir'
    rw [if_neg (by simp [hbelow])] at hr
    split_ifs at hr
    · subst hr
      exact ⟨hmode, rfl, hlog.mono, hpush⟩
    · subst hr
      exact ⟨hmode, rfl, hlog.mono, hpush⟩
    · exact visitListing_inv (s := { s with nextListing := s.nextListing + 1 }) hmode hlog hpush
        (hdir'.withRoot (addedLink_pushRemoval _ _ _).mp fun p => (covers_pushRemoval _ _ _ p).mpr)
        (fun hno => (covers_pushRemoval _ _ _ _).mpr
          (hcovers hbelow ((addedLink_pushRemoval _ _ _).mp hno))) hr
  · rw [if_pos (by simp [hbelow])] at hr
    subst hr
    exact ⟨hmode, rfl, hlog.mono, hroot.mono⟩

end Results

namespace RecursiveInv

variable {sanitize : WString → WString} {s t : RecursiveOperation}

theorem new : RecursiveInv .new := ⟨.inl rfl, by simp [RecursiveOperation.new], LogInv.nil⟩

theorem stop (h : RecursiveInv s) : RecursiveInv s.stopRecursiveOperation :=
  ⟨.inl rfl, by simp [stopRecursiveOperation], h.log⟩

theorem delete_of_ne (h : RecursiveInv s) (hmode : s.mode ≠ .none) : s.mode = .delete :=
  h.mode.resolve_left hmode

variable {f : Front} {root' : RecursionRoot}

/-- The root in front is replaced. -/
theorem withFront (h : RecursiveInv s) (hat : s.At f) (hmode : t.mode = .delete)
    (hnext : t.nextListing = s.nextListing ∨ t.nextListing = s.nextListing + 1)
    (hlog : LogInv t.nextListing t.log) (hroot' : RootInv t.nextListing root') (b : Bool) :
    RecursiveInv { t with roots := root' :: f.roots, next := b } := by
  refine ⟨.inr hmode, ?_, hlog⟩
  intro r hr
  rcases mem_cons.mp hr with rfl | hr
  · exact hroot'
  · have hold := h.roots r (hat.roots ▸ mem_cons_of_mem _ hr)
    rcases hnext with hnext | hnext
    · exact hnext ▸ hold
    · exact hnext ▸ hold.mono

/-- The directory in front, with what is behind it. -/
theorem front (h : RecursiveInv s) (hat : s.At f) :
    RootInv s.nextListing f.rest ∧ DirInv f.rest s.nextListing f.dir ∧
      (f.dir.doVisit = false → ∀ number, f.dir.listing = some number →
        ∀ later ∈ f.dirs, number ∉ later.above) := by
  exact (h.roots f.root (hat.roots ▸ mem_cons_self)).pop hat.dirs

variable {root : RecursionRoot}

theorem record (h : RecursiveInv s) {dir : NewDir} (hdir : DirInv root s.nextListing dir)
    {action : RecursiveAction} (hok : LogEntry.Ok ⟨action, root', dir⟩)
    (haction : ∀ listing entries, action ≠ .processed listing entries) :
    LogInv s.nextListing (s.record action root' dir).log := by
  refine h.log.append hok (fun number heq => (hdir.listing_lt number heq).1) ?_
  intro listing entries number hact
  exact absurd hact (haction listing entries)

/-! ## Starting -/

variable {next : Nat}

/-- A directory that the user adds has no listing above it. -/
theorem rootInv_add (h : RootInv next root) (dir : AddDir) : RootInv next (root.add dir) := by
  -- a directory at the end, that comes from no listing
  have hend : ∀ (root' : RecursionRoot) (d : NewDir), root'.dirsToVisit = root.dirsToVisit ++ [d] →
      (root'.addedLink = false → root.addedLink = false) →
      (∀ path, root.Covers path → root'.Covers path) → DirInv root' next d → d.above = [] →
      RootInv next root' := by
    intro root' d hdirs hlink hcovers hd habove
    refine ⟨?_, ?_⟩
    · rw [hdirs]
      exact forall_mem_append.mpr ⟨fun x hx => (h.dirs x hx).withRoot hlink hcovers,
        forall_mem_singleton.mpr hd⟩
    · rw [hdirs]
      refine pairwise_append.mpr ⟨h.postOrder, pairwise_singleton _ _, ?_⟩
      intro x _ y hy _ number _
      rw [mem_singleton.mp hy, habove]
      simp
  cases dir with
  | dir path subdir localDir isLink =>
    have hno : (root.addedLink || isLink) = false → root.addedLink = false ∧ isLink = false :=
      (Bool.or_eq_false_iff).mp
    refine hend _ _ rfl (fun hlink => (hno hlink).1) ?_ ?_ rfl
    · rintro p (hadded | hbelow)
      · exact .inl (mem_cons_of_mem _ hadded)
      · exact .inr hbelow
    · refine ⟨fun hlink => ?_, fun _ => rfl, by simp, fun _ => rfl,
        fun _ _ => .inl mem_cons_self, by simp, by simp, by simp⟩
      simp [(hno hlink).2]
  | restricted path restricted recurse =>
    refine hend _ _ rfl id (fun _ => id) ?_ rfl
    exact ⟨fun _ => rfl, fun _ => rfl, by simp, fun _ => rfl, by simp, by simp, by simp, by simp⟩

theorem rootInv_foldl_add (dirs : List AddDir) (h : RootInv next root) :
    RootInv next (dirs.foldl RecursionRoot.add root) := by
  induction dirs generalizing root with
  | nil => exact h
  | cons dir dirs ih => exact ih (rootInv_add h dir)

/-- Each event. -/
theorem step (h : RecursiveInv s) {e : RecursiveEvent} (he : e.Deletes)
    (hstep : s.step sanitize e = some t) : RecursiveInv t := by
  cases (step_case hstep).1 with
  | ignored => exact h
  | stopped => exact h.stop
  | chmodData | paused => exact ⟨h.mode, h.roots, h.log⟩
  | started => exact ⟨.inr he, h.roots, h.log⟩
  | rootAdded _ _ added =>
    refine ⟨h.mode, ?_, h.log⟩
    refine forall_mem_append.mpr ⟨h.roots, forall_mem_singleton.mpr ?_⟩
    exact rootInv_foldl_add added ⟨by simp, List.Pairwise.nil⟩
  | popped hroots =>
    refine ⟨h.mode, ?_, h.log⟩
    intro r hr
    exact h.roots r (hroots ▸ mem_cons_of_mem _ hr)
  | @removed f hat hmode hvisit =>
    obtain ⟨hpop, hdir, horder⟩ := h.front hat
    have hok : LogEntry.Ok ⟨.removeDir f.dir.parent f.dir.subdir, f.root, f.dir⟩ := by
      refine ⟨fun hno => hdir.parent hno (hdir.named hvisit), ?_, hdir.entry⟩
      intro number heq d hd
      rcases mem_cons.mp (hat.dirs ▸ hd) with rfl | hd
      · exact (hdir.listing_lt number heq).2
      · exact horder hvisit number heq d hd
    have hlog := h.record hdir hok (by simp)
    exact h.withFront (t := s.record _ f.root f.dir) hat hmode (.inl rfl) hlog hpop s.next
  | @listed f hat _ =>
    obtain ⟨-, hdir, -⟩ := h.front hat
    have hok : LogEntry.Ok ⟨.list f.dir.parent f.dir.subdir (f.dir.link != .no), f.root, f.dir⟩ :=
      hdir.entry
    exact ⟨h.mode, h.roots, h.record hdir hok (by simp)⟩
  | processed hat listing hr =>
    obtain ⟨hpop, hdir, -⟩ := h.front hat
    obtain ⟨hmode, hnext, hlog, hroot⟩ :=
      processListing_inv (h.delete_of_ne hat.active) h.log hpop hdir hr
    rw [← hnext] at hlog hroot
    exact h.withFront hat hmode (.inr hnext) hlog hroot true
  | retried hat _ _ =>
    obtain ⟨hpop, hdir, horder⟩ := h.front hat
    refine h.withFront hat (h.delete_of_ne hat.active) (.inl rfl) h.log ?_ true
    -- the second try keeps the place of the first
    exact hpop.pushFront { hdir with } horder
  | unlisted hat _ =>
    obtain ⟨hpop, hdir, -⟩ := h.front hat
    exact h.withFront hat (h.delete_of_ne hat.active) (.inl rfl) h.log
      (pushRemoval_unlisted _ hpop hdir) true
  | linkSkipped hat _ =>
    exact h.withFront hat (h.delete_of_ne hat.active) (.inl rfl) h.log (h.front hat).1 true
  | @linkDeleted f hat _ hmode hsubdir =>
    obtain ⟨hpop, hdir, -⟩ := h.front hat
    have hok : LogEntry.Ok ⟨.delete f.dir.parent [f.dir.subdir], f.rest, f.dir⟩ :=
      fun hno => hdir.parent hno hsubdir
    have hlog := h.record hdir hok (by simp)
    exact h.withFront (t := s.record _ f.rest f.dir) hat hmode (.inl rfl) hlog hpop true
  | linkHandled hat _ hmode => exact absurd (h.delete_of_ne hat.active) hmode

end RecursiveInv

/-- Whole runs. -/
theorem recursiveDeleteSystem_inv {sanitize : WString → WString} {s : RecursiveOperation}
    (h : (recursiveDeleteSystem sanitize).Reach s) : RecursiveInv s := by
  refine Lts.Reach.invariant RecursiveInv ?_ ?_ h
  · rintro s rfl
    exact RecursiveInv.new
  · rintro s e t ⟨hstep, he⟩ hs
    exact hs.step he hstep

/-- Recursive deletion.

The removal of a directory is logged when nothing that its listing led to is in the stack, and if
the entries of its listing were processed, then before it, as was the deletion of the files among
them. If the user has added no link to the root, removed and deleted is only in a path of the user
or below the start directory. No entry that is a link is listed or removed as a directory; with the
others it is deleted as a file. -/
theorem recursiveDelete_safe {sanitize : WString → WString} {s : RecursiveOperation}
    (h : (recursiveDeleteSystem sanitize).Reach s) :
    (∀ before removal after parent subdir number, s.log = before ++ removal :: after →
      removal.action = .removeDir parent subdir → removal.dir.listing = some number →
      removal.root.Popped number ∧
        ∀ entry ∈ s.log, ∀ listing entries, entry.action = .processed listing entries →
          entry.dir.listing = some number →
          entry ∈ before ∧ DeletedIn before number listing entries) ∧
    (∀ entry ∈ s.log, entry.root.addedLink = false → ∀ parent,
      ((∃ subdir, entry.action = .removeDir parent subdir) ∨
        ∃ files, entry.action = .delete parent files) → entry.root.Covers parent) ∧
    (∀ entry ∈ s.log, ∀ parent subdir, ((∃ linkFlag, entry.action = .list parent subdir linkFlag) ∨
      entry.action = .removeDir parent subdir) →
      ∀ e, entry.dir.entry = some e → e.isLink = false) ∧
    ∀ entry ∈ s.log, ∀ listing entries number, entry.action = .processed listing entries →
      entry.dir.listing = some number → ∀ e ∈ entries, e.isLink = true →
      ∃ files, e.name ∈ files ∧ ∃ command ∈ s.log, command.dir.listing = some number ∧
        command.action = .delete listing.path files := by
  have hlog := (recursiveDeleteSystem_inv h).log
  refine ⟨?_, ?_, ?_, ?_⟩
  · intro before removal after parent subdir number heq hact hlist
    refine ⟨?_, hlog.order before removal after heq parent subdir number hact hlist⟩
    have hok := hlog.ok removal (by simp [heq])
    rw [LogEntry.Ok, hact] at hok
    exact hok.2.1 number hlist
  · intro entry hentry hno parent hact
    have hok := hlog.ok entry hentry
    rcases hact with ⟨subdir, hact⟩ | ⟨files, hact⟩
    · rw [LogEntry.Ok, hact] at hok
      exact hok.1 hno
    · rw [LogEntry.Ok, hact] at hok
      exact hok hno
  · intro entry hentry parent subdir hact
    have hok := hlog.ok entry hentry
    rcases hact with ⟨linkFlag, hact⟩ | hact
    · rw [LogEntry.Ok, hact] at hok
      exact hok
    · rw [LogEntry.Ok, hact] at hok
      exact hok.2.2
  · intro entry hentry listing entries number hact hlist e he hlink
    have hname : e.name ∈ deletedNames entries := by
      refine List.mem_map_of_mem (List.mem_filter.mpr ⟨List.mem_reverse.mpr he, ?_⟩)
      simp [visits, hlink]
    have hdeleted := hlog.deleted entry hentry listing entries number hact hlist
    exact ⟨_, hname, hdeleted (List.ne_nil_of_mem hname)⟩

/-- The directory `a` of the user has a directory, a link to one and a file. -/
def deleteRun : List RecursiveEvent :=
  [.addRecursionRoot (unixPath ["r"]) false [.dir (unixPath ["r"]) ['a'] {} false],
    .start .delete fun _ _ => false, .next,
    .processDirectoryListing (some ⟨unixPath ["r", "a"],
      [{ name := ['d'], isDir := true }, { name := ['l'], isDir := true, isLink := true },
        { name := ['f'] }], false⟩), .next,
    .processDirectoryListing (some ⟨unixPath ["r", "a", "d"], [], false⟩), .next, .next]

theorem recursiveDelete_safe_nested :
    ∃ s, (recursiveDeleteSystem id).Reach s ∧ (s.log.map LogEntry.action).filter (fun action =>
        match action with | .processed _ _ => false | _ => true) =
        [.list (unixPath ["r"]) ['a'] false,
          .delete (unixPath ["r", "a"]) [['f'], ['l']],
          .list (unixPath ["r", "a"]) ['d'] false,
          .removeDir (unixPath ["r", "a"]) ['d'],
          .removeDir (unixPath ["r"]) ['a']] ∧
      ∀ entry ∈ s.log, entry.root.addedLink = false → ∀ parent,
        ((∃ subdir, entry.action = .removeDir parent subdir) ∨
          ∃ files, entry.action = .delete parent files) → entry.root.Covers parent := by
  have hreach : (recursiveDeleteSystem id).Reach _ := Lts.reach_restrict_ofFun deleteRun rfl rfl
  exact ⟨_, hreach, rfl, (recursiveDelete_safe hreach).2.1⟩

/-- The user adds `a` and `b` of `/r`. If the server gives the path of `a` with the listing of `b`,
its file is not deleted, and `b` is removed all the same. Nor is a file deleted that is filtered. -/
theorem removeDir_without_delete :
    (∃ s t, (recursiveDeleteSystem id).Reach s ∧
      (recursiveDeleteSystem id).Run s [.processDirectoryListing
        (some ⟨unixPath ["r", "a"], [{ name := ['g'] }], false⟩), .next] t ∧
      s.log.map LogEntry.action = [.list (unixPath ["r"]) ['a'] false,
        .processed ⟨unixPath ["r", "a"], [], false⟩ [], .removeDir (unixPath ["r"]) ['a'],
        .list (unixPath ["r"]) ['b'] false] ∧
      t.log.map LogEntry.action = s.log.map LogEntry.action ++
        [.removeDir (unixPath ["r"]) ['b']]) ∧
    ∃ s t, (recursiveDeleteSystem id).Reach s ∧
      (recursiveDeleteSystem id).Run s [.processDirectoryListing
        (some ⟨unixPath ["r", "a"], [{ name := ['g'] }], false⟩), .next] t ∧
      s.log.map LogEntry.action = [.list (unixPath ["r"]) ['a'] false] ∧
      t.log.map LogEntry.action = s.log.map LogEntry.action ++
        [.processed ⟨unixPath ["r", "a"], [{ name := ['g'] }], false⟩ [],
          .removeDir (unixPath ["r"]) ['a']] := by
  have hvisited : (recursiveDeleteSystem id).Reach _ := Lts.reach_restrict_ofFun
      [.addRecursionRoot (unixPath ["r"]) false
        [.dir (unixPath ["r"]) ['a'] {} false, .dir (unixPath ["r"]) ['b'] {} false],
        .start .delete fun _ _ => false, .next,
        .processDirectoryListing (some ⟨unixPath ["r", "a"], [], false⟩), .next, .next] rfl rfl
  have hfiltered : (recursiveDeleteSystem id).Reach _ := Lts.reach_restrict_ofFun
      [.addRecursionRoot (unixPath ["r"]) false [.dir (unixPath ["r"]) ['a'] {} false],
        .start .delete fun _ _ => true, .next] rfl rfl
  exact ⟨⟨_, _, hvisited, Lts.run_restrict_ofFun rfl, rfl, rfl⟩,
    ⟨_, _, hfiltered, Lts.run_restrict_ofFun rfl, rfl, rfl⟩⟩

end FlintZilla
