import FlintZilla.Path.LocalSetPath
import FlintZilla.Recursive.Download

/-!
# Where a recursive download writes

Each recursion root is for a local directory that the user has chosen. The state of the operation is
extended by these directories, and the calls are kept with the directory of the root they are for.
The names of a listing come from the server: `sanitize_filename` replaces separators in them, but
not if the filter is off, and the character that replaces may be a dot, so that `//` becomes `..`.

Results of `LinkIsNotDir` come only for directories that were listed as links, since the engine
sends `FZ_REPLY_LINKNOTDIR` only for list commands with `LIST_FLAG_LINK`.

Main results:

* `visitListing_below`, `processListing_below`: what a listing leads to lies below the directory of
  its root.
* `localSystem_inv`: so does everything, in every reachable state.
* `download_normalises_below`: no call writes outside of the directory that was chosen for it.
* `download_leaves_directory`: with some options a server can have files written elsewhere.
-/

namespace FlintZilla

open Lib RecursiveOperation CLocalPath List

/-! ## The operation with the chosen directories -/

/-- The operation, the local directories chosen for its roots, and the calls with the directory of
their root. -/
structure LocalRun where
  op : RecursiveOperation
  bases : List CLocalPath
  calls : List (CLocalPath × RecursiveAction)

namespace LocalRun

def new : LocalRun := ⟨.new, [], []⟩

/-- The directories of the roots that are left, or one more for a new root. -/
def basesAfter (s : LocalRun) (op' : RecursiveOperation) (base : CLocalPath) : List CLocalPath :=
  if s.op.roots.length < op'.roots.length then s.bases ++ [base]
  else s.bases.drop (s.op.roots.length - op'.roots.length)

/-- All calls of one step are for the first root. -/
def callsAfter (s : LocalRun) (op' : RecursiveOperation) : List (CLocalPath × RecursiveAction) :=
  s.calls ++ (op'.log.drop s.op.log.length).map fun l => (s.bases.headD {}, l.action)

/-- A step of the operation; the directory is that of the root that is added. -/
def step (sanitize : WString → WString) (s : LocalRun) (e : RecursiveEvent × CLocalPath) :
    Option LocalRun :=
  (s.op.step sanitize e.1).map fun op' => ⟨op', s.basesAfter op' e.2, s.callsAfter op'⟩

end LocalRun

/-- The check of the option for the character that replaces. -/
def NameOptions.Valid (o : NameOptions) : Prop :=
  ∃ c, o.invalidCharReplace = [c] ∧ isInvalidChar o.windows c true = false

/-- A name that is not empty and has no meaning of its own in a path. -/
structure PlainName (name : WString) : Prop where
  ne_nil : name ≠ []
  ne_dot : name ≠ ['.']
  ne_dotdot : name ≠ ['.', '.']

/-- The user adds a directory at or below the directory `base`; below it and with a good name if it
is a link. -/
def AddDir.ChosenFor (good : WString → Prop) (base : CLocalPath) : AddDir → Prop
  | .dir _ subdir localDir isLink =>
    ∃ more : List WString, (∀ s ∈ more, CLocalPath.Ordinary s) ∧
      localDir = more.foldl CLocalPath.addSegment base ∧ (isLink = true → more ≠ [] ∧ good subdir)
  | .restricted .. => False

/-- The directory whose listing is waited for is a link. -/
def RecursiveOperation.ListsLink (s : RecursiveOperation) : Prop :=
  ∀ root roots dir dirs, s.roots = root :: roots → root.dirsToVisit = dir :: dirs → dir.link ≠ .no

/-- A download into directories of the user, with good names in all listings. -/
def LocalRun.Allowed (good : WString → Prop) (s : LocalRun) (e : RecursiveEvent × CLocalPath) :
    Prop :=
  match e.1 with
  | .addRecursionRoot _ _ dirs =>
    (∃ text, CLocalPath.setPath text = (true, e.2)) ∧ ∀ d ∈ dirs, d.ChosenFor good e.2
  | .start mode _ => mode = .transfer
  | .processDirectoryListing (some listing) => ∀ entry ∈ listing.entries, good entry.name
  | .linkIsNotDir _ => s.op.ListsLink
  | _ => True

/-- Every sequence of calls and results of a download. -/
def localSystem (o : NameOptions) (good : WString → Prop) :
    Lts LocalRun (RecursiveEvent × CLocalPath) :=
  (Lts.ofFun (fun s => s = .new) (LocalRun.step (sanitizeFilename o))).restrict
    (LocalRun.Allowed good)

/-- The path normalises to the directory or to one below it. -/
def NormalisesBelow (base p : CLocalPath) : Prop :=
  ∃ segments more, CLocalPath.setPathSegments base.path = some segments ∧
    CLocalPath.setPathSegments p.path = some (segments ++ more)

/-- The local directory passed to `handle_file` or `handle_empty_directory`. -/
def RecursiveAction.localDir : RecursiveAction → Option CLocalPath
  | .handleFile _ localPath _ _ => some localPath
  | .handleInvalidDirLink _ localPath _ => some localPath
  | .handleEmptyDirectory localPath => some localPath
  | _ => none

/-! ## Names -/

/-- The name has no separator, or separators are replaced by something else than dots. -/
structure SafeName (o : NameOptions) (name : WString) : Prop extends PlainName name where
  nul : ∀ c ∈ name, c ≠ '\x00'
  separator : (∀ c ∈ name, c ≠ '/') ∨
    o.invalidCharReplaceEnable = true ∧ o.invalidCharReplace ≠ ['.']

/-- Outside of quotes only the separator is invalid. -/
theorem isInvalidChar_posix (c : Char) : isInvalidChar false c false = decide (c = '/') := by
  unfold isInvalidChar
  by_cases hc : c = '/'
  · simp [hc]
  · simp [hc]

variable {o : NameOptions} {r : Char}

/-- The map of `ReplaceInvalidCharacters` for the character that replaces. -/
theorem replace_eq (hposix : o.windows = false) (hr : o.invalidCharReplace = [r]) (name : WString) :
    sanitizeFilename o name =
      if o.invalidCharReplaceEnable then name.map fun c => if c = '/' then r else c else name := by
  unfold sanitizeFilename replaceInvalidCharacters
  rw [hposix, hr]
  cases o.invalidCharReplaceEnable with
  | false => rfl
  | true => simp [isInvalidChar_posix]

variable {name : WString}

theorem map_replace_of_forall (h : ∀ c ∈ name, c ≠ '/') :
    (name.map fun c => if c = '/' then r else c) = name := by
  conv_rhs => rw [← map_id name]
  refine map_congr_left ?_
  intro c hc
  exact if_neg (h c hc)

/-- The option accepts neither the separator nor control characters. -/
theorem ne_of_valid (h : isInvalidChar false r true = false) : r ≠ '/' ∧ r ≠ '\x00' := by
  constructor
  · rintro rfl
    cases h
  · rintro rfl
    cases h

/-- A safe name becomes a segment. -/
theorem SafeName.ordinary (h : SafeName o name) (hposix : o.windows = false) (hvalid : o.Valid) :
    CLocalPath.Ordinary (sanitizeFilename o name) := by
  obtain ⟨r, hr, hinvalid⟩ := hvalid
  rw [hposix] at hinvalid
  obtain ⟨hsep, hnul⟩ := ne_of_valid hinvalid
  rw [replace_eq hposix hr]
  have hkept : (∀ c ∈ name, c ≠ '/') → CLocalPath.Ordinary name := fun hchars =>
    ⟨h.ne_nil, h.ne_dot, h.ne_dotdot, fun c hc => ⟨hchars c hc, h.nul c hc⟩⟩
  rcases h.separator with hchars | ⟨henable, hdot⟩
  · rw [map_replace_of_forall hchars, ite_self]
    exact hkept hchars
  · have hr' : r ≠ '.' := by
      rintro rfl
      exact hdot hr
    -- only a dot becomes a dot
    have hback : ∀ c, (if c = '/' then r else c) = '.' → c = '.' := by
      intro c hc
      split_ifs at hc
      · exact absurd hc hr'
      · exact hc
    rw [if_pos henable]
    refine ⟨?_, ?_, ?_, ?_⟩
    · intro hnil
      exact h.ne_nil (map_eq_nil_iff.mp hnil)
    · intro hone
      obtain ⟨c, hname, hc⟩ := map_eq_singleton_iff.mp hone
      exact h.ne_dot (by rw [hname, hback c hc])
    · intro htwo
      obtain ⟨c, rest, hname, hc, hrest⟩ := map_eq_cons_iff.mp htwo
      obtain ⟨c', hname', hc'⟩ := map_eq_singleton_iff.mp hrest
      exact h.ne_dotdot (by rw [hname, hname', hback c hc, hback c' hc'])
    · intro c hc
      obtain ⟨x, hx, rfl⟩ := mem_map.mp hc
      split_ifs with hslash
      · exact ⟨hsep, hnul⟩
      · exact ⟨hslash, h.nul x hx⟩

/-! ## Directories below -/

/-- The segments of `p` are those of `base` and ordinary ones behind them. -/
def LiesBelow (base p : CLocalPath) (more : List WString) : Prop :=
  ∃ segments, (∀ s ∈ segments ++ more, CLocalPath.Ordinary s) ∧
    base = CLocalPath.ofSegments segments ∧ p = CLocalPath.ofSegments (segments ++ more)

variable {base p : CLocalPath} {more : List WString} {segment name : WString} {o : NameOptions}
  (h : LiesBelow base p more)

include h

theorem LiesBelow.normalisesBelow : NormalisesBelow base p := by
  obtain ⟨segments, hall, rfl, rfl⟩ := h
  refine ⟨segments, more, ?_, setPathSegments_ofSegments hall⟩
  exact setPathSegments_ofSegments fun s hs => hall s (mem_append_left more hs)

/-- An ordinary segment leads further down. -/
theorem LiesBelow.addSegment (hs : CLocalPath.Ordinary segment) :
    LiesBelow base (p.addSegment segment) (more ++ [segment]) := by
  obtain ⟨segments, hall, hbase, rfl⟩ := h
  refine ⟨segments, ?_, hbase, ?_⟩
  · intro s hmem
    rw [← append_assoc] at hmem
    rcases mem_append.mp hmem with hmem | hmem
    · exact hall s hmem
    · cases mem_singleton.mp hmem
      exact hs
  · rw [addSegment_ofSegments hs.ne_nil, append_assoc]

variable {segments : List WString}

theorem LiesBelow.foldl_addSegment (hs : ∀ s ∈ segments, CLocalPath.Ordinary s) :
    LiesBelow base (segments.foldl CLocalPath.addSegment p) (more ++ segments) := by
  induction segments generalizing p more with
  | nil => simpa using h
  | cons s segments ih =>
    rw [append_cons]
    exact ih (h.addSegment (hs s mem_cons_self)) fun x hx => hs x (mem_cons_of_mem s hx)

/-- Below the base there is a way back up. -/
theorem LiesBelow.makeParent (hne : more ≠ []) : ∃ more', LiesBelow base p.makeParent.2 more' := by
  obtain ⟨segments, hall, hbase, rfl⟩ := h
  obtain ⟨init, last, rfl⟩ := (eq_nil_or_concat' more).resolve_left hne
  rw [← append_assoc] at hall ⊢
  refine ⟨init, segments, ?_, hbase, makeParent_ofSegments (hall last (by simp))⟩
  intro s hs
  exact hall s (mem_append_left [last] hs)

/-- A local path with a name without separators behind it. -/
theorem LiesBelow.directoryPart (hname : ∀ c ∈ name, c ≠ '/') :
    directoryPart (p.path ++ name) = p.path := by
  obtain ⟨segments, -, -, rfl⟩ := h
  exact directoryPart_append _ hname

omit h

/-! ## One listing -/

/-- A directory to visit is at or below the directory of its root, and below it if it is a link. -/
def DirBelow (o : NameOptions) (base : CLocalPath) (dir : NewDir) : Prop :=
  ∃ more, LiesBelow base dir.localDir more ∧ (dir.link ≠ .no → more ≠ [] ∧ SafeName o dir.subdir)

/-- A call for the directory `base`: the local directory lies below, and the name of a file is
safe. -/
def CallBelow (o : NameOptions) (base : CLocalPath) (action : RecursiveAction) : Prop :=
  (∀ p, action.localDir = some p → ∃ more, LiesBelow base p more) ∧
    (∀ sourceFile localPath remotePath size,
      action = .handleFile sourceFile localPath remotePath size → SafeName o sourceFile) ∧
    ∀ sourceFile localPath remotePath,
      action = .handleInvalidDirLink sourceFile localPath remotePath → SafeName o sourceFile

def RootBelow (o : NameOptions) (base : CLocalPath) (root : RecursionRoot) : Prop :=
  ∀ dir ∈ root.dirsToVisit, DirBelow o base dir

/-- The log has grown by calls for `base`, and the mode is the same. -/
def Calls (o : NameOptions) (base : CLocalPath) (s t : RecursiveOperation) : Prop :=
  t.mode = s.mode ∧ ∃ added, t.log = s.log ++ added ∧ ∀ l ∈ added, CallBelow o base l.action

variable {s t u : RecursiveOperation} {root : RecursionRoot} {dir : NewDir} {entry : CDirentry}
  {path : CServerPath} {listing : CDirectoryListing} {l : EntryLoop}

theorem Calls.refl (s : RecursiveOperation) : Calls o base s s := ⟨rfl, [], by simp, by simp⟩

theorem Calls.trans (h : Calls o base s t) (h' : Calls o base t u) : Calls o base s u := by
  obtain ⟨hmode, added, hlog, hall⟩ := h
  obtain ⟨hmode', added', hlog', hall'⟩ := h'
  exact ⟨hmode'.trans hmode, added ++ added', by rw [hlog', hlog, append_assoc],
    forall_mem_append.mpr ⟨hall, hall'⟩⟩

variable {action : RecursiveAction}

theorem Calls.record (h : CallBelow o base action) : Calls o base s (s.record action root dir) := by
  refine ⟨rfl, [⟨action, root, dir⟩], rfl, ?_⟩
  intro l hl
  cases mem_singleton.mp hl
  exact h

/-- Calls of the other functions. -/
theorem callBelow_of_localDir_eq_none (h : action.localDir = none) : CallBelow o base action := by
  refine ⟨?_, ?_, ?_⟩
  · intro p hp
    rw [h] at hp
    cases hp
  · rintro _ _ _ _ rfl
    cases h
  · rintro _ _ _ rfl
    cases h

/-- A file goes to the directory it was found for. -/
theorem DirBelow.handleFile (h : DirBelow o base dir) (hname : SafeName o entry.name) :
    CallBelow o base (.handleFile entry.name dir.localDir path entry.size) := by
  obtain ⟨more, hlies, -⟩ := h
  refine ⟨?_, ?_, ?_⟩
  · rintro _ ⟨⟩
    exact ⟨more, hlies⟩
  · rintro _ _ _ _ ⟨⟩
    exact hname
  · rintro _ _ _ ⟨⟩

/-- A directory is pushed. -/
theorem RootBelow.pushFront (h : RootBelow o base root) (hdir : DirBelow o base dir) :
    RootBelow o base (root.pushFront dir) := by
  intro d hd
  rcases mem_cons.mp hd with rfl | hd
  · exact hdir
  · exact h d hd

section Options

variable (hposix : o.windows = false) (hvalid : o.Valid)

include hposix hvalid

/-- The directory pushed for an entry. -/
theorem DirBelow.subDir (h : DirBelow o base dir) (hname : SafeName o entry.name) :
    DirBelow o base (subDir (sanitizeFilename o) .transfer path dir entry) := by
  obtain ⟨more, hlies, -⟩ := h
  refine ⟨more ++ [sanitizeFilename o entry.name], ?_, fun _ => ⟨by simp, hname⟩⟩
  exact hlies.addSegment (hname.ordinary hposix hvalid)

section

variable (hmode : s.mode = .transfer) (hroot : RootBelow o base root) (hdir : DirBelow o base dir)
  (hnames : ∀ entry ∈ listing.entries, SafeName o entry.name)

include hmode hroot hdir hnames

/-- The entries of a listing, file by file and directory by directory. -/
theorem visitListing_below :
    Calls o base s (visitListing (sanitizeFilename o) s root listing dir).1 ∧
      RootBelow o base (visitListing (sanitizeFilename o) s root listing dir).2 := by
  obtain ⟨t, root', new, heq, ⟨n, rfl⟩, rfl, -, hcalls, -⟩ :=
    visited_visitListing (sanitizeFilename o) s root listing dir
  rw [heq]
  refine ⟨⟨rfl, _, append_assoc _ _ _, ?_⟩, ?_⟩
  · intro l hl
    rcases mem_append.mp hl with hl | hl
    · -- a file is handled below the directory; an empty listing is for the directory itself
      have hcall := hcalls (by simp [hmode]) l hl
      generalize l.action = action at hcall ⊢
      rcases hcall with (⟨hentry, -⟩ | ⟨-, -⟩) | ⟨-, rfl⟩
      · exact hdir.handleFile (hnames _ hentry)
      · exact callBelow_of_localDir_eq_none rfl
      · obtain ⟨more, hlies, -⟩ := hdir
        refine ⟨?_, by rintro _ _ _ _ ⟨⟩, by rintro _ _ _ ⟨⟩⟩
        rintro _ ⟨⟩
        exact ⟨more, hlies⟩
    · cases mem_singleton.mp hl
      exact callBelow_of_localDir_eq_none rfl
  · -- the directories that are pushed are named by entries of the listing
    intro d hd
    rcases mem_append.mp hd with hd | hd
    · rw [hmode, subDirs] at hd
      split_ifs at hd
      · obtain ⟨entry, hentry, rfl⟩ := mem_map.mp hd
        have hlisted := filter_subset_self _ (filter_subset_self _ hentry)
        exact hdir.subDir hposix hvalid (hnames entry hlisted)
      · cases hd
    · exact hroot d hd

theorem processListing_below :
    Calls o base s (processListing (sanitizeFilename o) s root listing dir).1 ∧
      RootBelow o base (processListing (sanitizeFilename o) s root listing dir).2 := by
  have hnumber : Calls o base s { s with nextListing := s.nextListing + 1 } :=
    ⟨rfl, [], by simp, by simp⟩
  -- `BelowRecursionRoot` changes neither the local directory nor the link
  have hbelow : DirBelow o base { (belowRecursionRoot root listing.path dir).2 with
      listing := some s.nextListing } := by
    unfold belowRecursionRoot
    split_ifs
    all_goals exact hdir
  have hremoval : ∀ dir, pushRemoval s.mode root dir = root := by
    intro dir
    unfold pushRemoval
    rw [if_neg fun h => absurd (hmode.symm.trans h.1) (by decide)]
  unfold processListing
  dsimp only
  rw [hremoval]
  split_ifs
  · exact ⟨hnumber, hroot⟩
  · exact ⟨hnumber, hroot⟩
  · exact ⟨hnumber, hroot⟩
  · obtain ⟨hcalls, hroot'⟩ := visitListing_below hposix hvalid
      (s := { s with nextListing := s.nextListing + 1 }) hmode hroot hbelow hnames
    exact ⟨hnumber.trans hcalls, hroot'⟩

end

end Options

/-! ## Whole runs -/

structure LocalInv (o : NameOptions) (r : LocalRun) : Prop where
  mode : r.op.mode = .none ∨ r.op.mode = .transfer
  roots : List.Forall₂ (RootBelow o) r.bases r.op.roots
  calls : ∀ c ∈ r.calls, CallBelow o c.1 c.2

/-- What one step of the operation may do to a state with the invariant. -/
structure OpStep (o : NameOptions) (r : LocalRun) (base : CLocalPath) (t : RecursiveOperation) :
    Prop where
  mode : t.mode = .none ∨ t.mode = .transfer
  log : ∃ added, t.log = r.op.log ++ added ∧ ∀ l ∈ added, CallBelow o (r.bases.headD {}) l.action
  roots : List.Forall₂ (RootBelow o) (r.basesAfter t base) t.roots

/-- The first root and the local directory it is downloaded to. -/
theorem LocalInv.front_cons {r : LocalRun} {roots : List RecursionRoot} (h : LocalInv o r)
    (hfront : r.op.roots = root :: roots) :
    ∃ first rest, r.bases = first :: rest ∧ RootBelow o first root ∧
      List.Forall₂ (RootBelow o) rest roots := by
  have hroots := h.roots
  rw [hfront] at hroots
  obtain ⟨first, rest, hroot, hrest, hbases⟩ := forall₂_cons_right_iff.mp hroots
  exact ⟨first, rest, hbases, hroot, hrest⟩

namespace OpStep

variable {r : LocalRun} {root' : RecursionRoot} {roots : List RecursionRoot} {dirs : List NewDir}

/-- A step keeps what holds of roots and calls. -/
theorem localInv (h : LocalInv o r) (hstep : OpStep o r base t) :
    LocalInv o ⟨t, r.basesAfter t base, r.callsAfter t⟩ := by
  refine ⟨hstep.mode, hstep.roots, ?_⟩
  obtain ⟨added, hlog, hadded⟩ := hstep.log
  intro c hc
  rcases mem_append.mp hc with hc | hc
  · exact h.calls c hc
  · rw [hlog, drop_left] at hc
    obtain ⟨l, hl, rfl⟩ := mem_map.mp hc
    exact hadded l hl

/-- The number of roots is the same. -/
theorem of_same (hmode : t.mode = .none ∨ t.mode = .transfer)
    (hlog : ∃ added, t.log = r.op.log ++ added ∧ ∀ l ∈ added,
      CallBelow o (r.bases.headD {}) l.action)
    (hroots : List.Forall₂ (RootBelow o) r.bases t.roots)
    (hlength : t.roots.length = r.op.roots.length) : OpStep o r base t := by
  refine ⟨hmode, hlog, ?_⟩
  unfold LocalRun.basesAfter
  rw [hlength, if_neg (lt_irrefl _), Nat.sub_self]
  exact hroots

/-- Nothing that matters here has changed. -/
theorem of_eq (h : LocalInv o r) (hmode : t.mode = .none ∨ t.mode = .transfer)
    (hlog : t.log = r.op.log) (hroots : t.roots = r.op.roots) : OpStep o r base t := by
  refine of_same hmode ⟨[], by simpa using hlog, by simp⟩ ?_ (by rw [hroots])
  rw [hroots]
  exact h.roots

theorem of_stop (h : LocalInv o r) : OpStep o r base r.op.stopRecursiveOperation := by
  refine ⟨.inl rfl, ⟨[], by simp [stopRecursiveOperation], by simp⟩, ?_⟩
  have hnil : r.basesAfter r.op.stopRecursiveOperation base = [] := by
    exact drop_eq_nil_of_le (by simp [stopRecursiveOperation, h.roots.length_eq])
  rw [hnil]
  exact List.Forall₂.nil

/-- The first root has changed. -/
theorem of_front (h : LocalInv o r) {f : Front} (hat : r.op.At f)
    (hcalls : Calls o (r.bases.headD {}) r.op s) (hroot : RootBelow o (r.bases.headD {}) root') :
    OpStep o r base (s.withFront root' f.roots) := by
  obtain ⟨hsame, hlog⟩ := hcalls
  refine of_same (hsame ▸ h.mode) hlog ?_ (by simp [hat.roots, withFront])
  obtain ⟨first, rest, hbases, -, hrest⟩ := h.front_cons hat.roots
  rw [hbases] at hroot ⊢
  exact List.Forall₂.cons hroot hrest

end OpStep

namespace LocalInv

variable {r : LocalRun} {roots : List RecursionRoot} {dirs : List NewDir}

/-- The directory in front, and the root that it is taken from. -/
theorem front (h : LocalInv o r) {f : Front} (hat : r.op.At f) :
    r.op.mode = .transfer ∧ DirBelow o (r.bases.headD {}) f.dir ∧
      RootBelow o (r.bases.headD {}) f.rest := by
  obtain ⟨first, rest, hbases, hroot, -⟩ := h.front_cons hat.roots
  rw [hbases]
  refine ⟨h.mode.resolve_left hat.active, hroot f.dir (by simp [hat.dirs]), ?_⟩
  intro d hd
  refine hroot d ?_
  rw [hat.dirs]
  exact mem_cons_of_mem f.dir hd

/-- The directories of the user. -/
theorem rootBelow_add {d : AddDir} (hroot : RootBelow o base root) (hbase : LiesBelow base base [])
    (hd : d.ChosenFor (SafeName o) base) : RootBelow o base (root.add d) := by
  cases d with
  | dir path subdir localDir isLink =>
    obtain ⟨more, hmore, rfl, hlink⟩ := hd
    refine forall_mem_append.mpr ⟨hroot, forall_mem_singleton.mpr ?_⟩
    refine ⟨[] ++ more, hbase.foldl_addSegment hmore, ?_⟩
    intro hne
    cases isLink with
    | false => exact absurd rfl hne
    | true => exact hlink rfl
  | restricted _ _ _ => cases hd

/-- Directories that the user adds. -/
theorem rootBelow_foldl_add {added : List AddDir} {text : WString}
    (hbase : setPath text = (true, base)) (hadded : ∀ d ∈ added, d.ChosenFor (SafeName o) base)
    (hroot : RootBelow o base root) : RootBelow o base (added.foldl RecursionRoot.add root) := by
  have hself : LiesBelow base base [] := by
    obtain ⟨segments, hall, rfl⟩ := setPath_canonical hbase
    exact ⟨segments, by simpa using hall, rfl, by rw [append_nil]⟩
  induction added generalizing root with
  | nil => exact hroot
  | cons d added ih =>
    exact ih (fun x hx => hadded x (mem_cons_of_mem d hx))
      (rootBelow_add hroot hself (hadded d mem_cons_self))

/-- Every event that is allowed. -/
theorem step (hposix : o.windows = false) (hvalid : o.Valid) (h : LocalInv o r)
    {e : RecursiveEvent × CLocalPath} {r' : LocalRun} (hallowed : r.Allowed (SafeName o) e)
    (hstep : r.step (sanitizeFilename o) e = some r') : LocalInv o r' := by
  obtain ⟨e, base⟩ := e
  obtain ⟨t, ht, rfl⟩ := Option.map_eq_some_iff.mp hstep
  refine OpStep.localInv h ?_
  have hop : r.op.step (sanitizeFilename o) e = some t := ht
  cases (step_case hop).1 with
  | ignored | chmodData | paused => exact OpStep.of_eq h h.mode rfl rfl
  | stopped => exact OpStep.of_stop h
  | started mode => exact OpStep.of_eq h (.inr hallowed) rfl rfl
  | rootAdded startDir allowParent added =>
    obtain ⟨⟨text, hbase⟩, hadded⟩ := hallowed
    refine ⟨h.mode, ⟨[], by simp, by simp⟩, ?_⟩
    unfold LocalRun.basesAfter
    rw [if_pos (by simp)]
    refine rel_append h.roots (List.Forall₂.cons ?_ List.Forall₂.nil)
    exact rootBelow_foldl_add hbase hadded (by simp [RootBelow])
  | popped hfront =>
    refine ⟨h.mode, ⟨[], by simp, by simp⟩, ?_⟩
    obtain ⟨first, rest, hbases, -, hrest⟩ := h.front_cons hfront
    unfold LocalRun.basesAfter
    rw [hfront, hbases]
    simpa using hrest
  | removed hat hdelete | linkDeleted hat _ hdelete =>
    exact absurd ((h.front hat).1.symm.trans hdelete) (by decide)
  | @listed f hat =>
    have hlist : Calls o (r.bases.headD {}) r.op
        (r.op.record (.list f.dir.parent f.dir.subdir (f.dir.link != .no)) f.root f.dir) :=
      Calls.record (callBelow_of_localDir_eq_none rfl)
    exact OpStep.of_same h.mode hlist.2 h.roots rfl
  | processed hat listing hr =>
    subst hr
    obtain ⟨hmode, hdir, hroot⟩ := h.front hat
    obtain ⟨hcalls, hroot'⟩ := processListing_below hposix hvalid hmode hroot hdir hallowed
    exact OpStep.of_front h hat hcalls hroot'
  | retried hat =>
    obtain ⟨-, hdir, hroot⟩ := h.front hat
    exact OpStep.of_front h hat (Calls.refl _) (hroot.pushFront hdir)
  | unlisted hat =>
    obtain ⟨hmode, -, hroot⟩ := h.front hat
    refine OpStep.of_front h hat (Calls.refl _) ?_
    unfold pushRemoval
    rw [if_neg fun hdelete => absurd (hmode.symm.trans hdelete.1) (by decide)]
    exact hroot
  | linkSkipped hat => exact OpStep.of_front h hat (Calls.refl _) (h.front hat).2.2
  | @linkHandled f hat _ _ localPath hlocal =>
    -- a link that is no directory becomes a file beside it
    obtain ⟨hmode, ⟨more, hlies, hname⟩, hroot⟩ := h.front hat
    obtain ⟨hne, hsafe⟩ := hname (hallowed f.root f.roots f.dir f.dirs hat.roots hat.dirs)
    obtain rfl := hlocal (by simp [hmode])
    refine OpStep.of_front h hat (Calls.record ⟨?_, by rintro _ _ _ _ ⟨⟩, ?_⟩) hroot
    · rintro _ ⟨⟩
      exact hlies.makeParent hne
    · rintro _ _ _ ⟨⟩
      exact hsafe

end LocalInv

/-- Whole runs. -/
theorem localSystem_inv {r : LocalRun} (hposix : o.windows = false) (hvalid : o.Valid)
    (h : (localSystem o (SafeName o)).Reach r) : LocalInv o r := by
  refine Lts.Reach.invariant (LocalInv o) ?_ ?_ h
  · rintro r rfl
    exact ⟨.inl rfl, List.Forall₂.nil, by simp [LocalRun.new]⟩
  · rintro r e r' ⟨hstep, hallowed⟩ hr
    exact hr.step hposix hvalid hallowed hstep

/-! ## The files -/

/-- A revision is cut off, or nothing is. -/
theorem stripVmsRevision_cases (name : WString) :
    stripVmsRevision name = name ∨ ∃ pos, stripVmsRevision name = name.take (pos + 1) := by
  unfold stripVmsRevision
  split
  · exact .inl rfl
  · exact .inl rfl
  · next pos hpos _ =>
    dsimp only
    split_ifs
    · exact .inl rfl
    · cases pos with
      | zero => exact absurd rfl hpos
      | succ pos => exact .inr ⟨pos, rfl⟩
    · exact .inl rfl

/-- The local name of a file with a safe name is a name in its directory. -/
theorem localName_safe (hposix : o.windows = false) (hvalid : o.Valid) (h : SafeName o name)
    (type : ServerType) : localName o type name ≠ [] ∧ ∀ c ∈ localName o type name, c ≠ '/' := by
  have hordinary := h.ordinary hposix hvalid
  have hchars : ∀ c ∈ sanitizeFilename o name, c ≠ '/' := fun c hc => (hordinary.chars c hc).1
  unfold localName
  split
  · rcases stripVmsRevision_cases (sanitizeFilename o name) with heq | ⟨pos, heq⟩
    · rw [heq]
      exact ⟨hordinary.ne_nil, hchars⟩
    · rw [heq]
      constructor
      · intro hnil
        rcases take_eq_nil_iff.mp hnil with hpos | hnil
        · cases hpos
        · exact hordinary.ne_nil hnil
      · intro c hc
        exact hchars c (mem_of_mem_take hc)
  · exact ⟨hordinary.ne_nil, hchars⟩

variable {x : DownloadContext}

/-- The item for a file is for its local name in the directory. -/
theorem handleFile_local (localPath : CLocalPath) {remotePath : CServerPath}
    (size : Int) (h : localName x.options remotePath.type name ≠ []) :
    (handleFile x name localPath remotePath size).localPath = localPath ∧
      (handleFile x name localPath remotePath size).getLocalFile =
        localName x.options remotePath.type name := by
  unfold handleFile queueFile
  rw [if_neg h]
  unfold CFileItem.getLocalFile CFileItem.new
  by_cases hname : name = localName x.options remotePath.type name
  · simp [← hname]
  · simp [hname, h]

/-- The item has its file in the directory of the call. -/
theorem handleFile_below (hposix : x.options.windows = false)
    (hvalid : x.options.Valid) (hsafe : SafeName x.options name) (h : LiesBelow base p more)
    (remotePath : CServerPath) (size : Int) :
    directoryPart ((handleFile x name p remotePath size).localPath.path ++
      (handleFile x name p remotePath size).getLocalFile) = p.path := by
  obtain ⟨hne, hchars⟩ := localName_safe hposix hvalid hsafe remotePath.type
  obtain ⟨hpath, hfile⟩ := handleFile_local p size hne
  rw [hpath, hfile]
  exact h.directoryPart hchars

/-- On POSIX, in every run of a recursive download in which the names of the listings are safe, the
local directories passed to `handle_file` and `handle_empty_directory` normalise to the directory
that the user has chosen for the root or to one below it, and so does the directory part of every
local target file. A name is safe if it is neither empty nor made of one or two dots, has no null
character, and has no separator unless separators are replaced by something else than dots. -/
theorem download_normalises_below (x : DownloadContext) (hposix : x.options.windows = false)
    (hvalid : x.options.Valid) (r : LocalRun)
    (h : (localSystem x.options (SafeName x.options)).Reach r) (base : CLocalPath)
    (action : RecursiveAction) (hcall : (base, action) ∈ r.calls) :
    (∀ p, action.localDir = some p → NormalisesBelow base p) ∧
      ∀ item, queuedItem x action = some item → NormalisesBelow base
          ⟨CLocalPath.directoryPart (item.localPath.path ++ item.getLocalFile)⟩ := by
  obtain ⟨hdir, hfile, hlink⟩ := (localSystem_inv hposix hvalid h).calls _ hcall
  constructor
  · intro p hp
    obtain ⟨more, hlies⟩ := hdir p hp
    exact hlies.normalisesBelow
  · intro item hitem
    cases action with
    | handleFile sourceFile localPath remotePath size =>
      -- the name of the file takes the item no further than its directory
      cases hitem
      obtain ⟨more, hlies⟩ := hdir localPath rfl
      rw [handleFile_below hposix hvalid (hfile _ _ _ _ rfl) hlies]
      exact hlies.normalisesBelow
    | handleInvalidDirLink sourceFile localPath remotePath =>
      cases hitem
      obtain ⟨more, hlies⟩ := hdir localPath rfl
      rw [handleFile_below hposix hvalid (hlink _ _ _ rfl) hlies]
      exact hlies.normalisesBelow
    | handleEmptyDirectory localPath =>
      -- an item without a file is for the directory itself
      obtain ⟨more, hlies⟩ := hdir localPath rfl
      unfold queuedItem at hitem
      split_ifs at hitem
      cases hitem
      have hpart : directoryPart (localPath.path ++ []) = localPath.path :=
        hlies.directoryPart (by simp)
      show NormalisesBelow base ⟨directoryPart (localPath.path ++ [])⟩
      rw [hpart]
      exact hlies.normalisesBelow
    | list | removeDir | delete | chmod | processed => cases hitem

/-! ## Names that leave the directory -/

/-- The remote directory `/r` is downloaded into `/home/u`; it has one directory, which is empty. -/
def emptyDirRun (name : WString) : List (RecursiveEvent × CLocalPath) :=
  [(.addRecursionRoot ⟨.unix, some ⟨[['r']], none⟩⟩ true
      [.dir ⟨.unix, some ⟨[['r']], none⟩⟩ [] ⟨"/home/u/".toList⟩ false], ⟨"/home/u/".toList⟩),
    (.start .transfer fun _ _ => false, {}), (.next, {}),
    (.processDirectoryListing (some ⟨⟨.unix, some ⟨[['r']], none⟩⟩,
      [{ name := name, isDir := true }], false⟩), {}),
    (.next, {}),
    (.processDirectoryListing (some ⟨⟨.unix, some ⟨[['r'], ['a']], none⟩⟩, [], false⟩), {})]

variable {good : WString → Prop}

/-- Only the name must be good. -/
theorem emptyDirRun_allowed (hname : good name) :
    ∀ e ∈ emptyDirRun name, ∀ r : LocalRun, r.Allowed good e := by
  have hbase : setPath "/home/u".toList = (true, ⟨"/home/u/".toList⟩) := by decide
  intro e he r
  simp only [emptyDirRun, mem_cons, not_mem_nil, or_false] at he
  rcases he with rfl | rfl | rfl | rfl | rfl | rfl
  · exact ⟨⟨_, hbase⟩, forall_mem_singleton.mpr ⟨[], by simp, rfl, by simp⟩⟩
  · rfl
  · trivial
  · exact forall_mem_singleton.mpr hname
  · trivial
  · exact forall_mem_nil _

theorem emptyDirRun_reach (o : NameOptions) (hname : good name)
    (call : CLocalPath × RecursiveAction)
    (h : ((emptyDirRun name).foldlM (LocalRun.step (sanitizeFilename o)) .new).bind (·.calls[3]?) =
      some call) : ∃ r, (localSystem o good).Reach r ∧ call ∈ r.calls := by
  obtain ⟨r, hr, hcall⟩ := Option.bind_eq_some_iff.mp h
  have hrun : (Lts.ofFun (fun s => s = .new) (LocalRun.step (sanitizeFilename o))).Run .new
      (emptyDirRun name) r := Lts.run_ofFun hr
  exact ⟨r, Lts.Reach.run (Lts.Reach.init rfl) (hrun.restrict (emptyDirRun_allowed hname)),
    mem_of_getElem? hcall⟩

/-- The directory `d/e` is downloaded with the default options. -/
theorem download_normalises_below_replaced :
    ∃ r, (localSystem {} (SafeName {})).Reach r ∧
      NormalisesBelow ⟨"/home/u/".toList⟩ ⟨"/home/u/d_e/".toList⟩ := by
  have hvalid : NameOptions.Valid {} := ⟨'_', rfl, by decide⟩
  have hsafe : SafeName {} "d/e".toList :=
    ⟨⟨by decide, by decide, by decide⟩, by decide, .inr ⟨rfl, by decide⟩⟩
  obtain ⟨r, hreach, hcall⟩ := emptyDirRun_reach {} hsafe
    (⟨"/home/u/".toList⟩, .handleEmptyDirectory ⟨"/home/u/d_e/".toList⟩) (by decide +kernel)
  exact ⟨r, hreach, (download_normalises_below ⟨{}, false, fun _ _ _ => false⟩ rfl hvalid r hreach
    _ _ hcall).1 _ rfl⟩

theorem not_normalisesBelow {base p : CLocalPath} {segments' : List WString}
    (hbase : setPathSegments base.path = some segments)
    (hp : setPathSegments p.path = some segments') (h : ¬segments <+: segments') :
    ¬NormalisesBelow base p := by
  rintro ⟨first, more, hfirst, hmore⟩
  obtain rfl : segments = first := Option.some.inj (hbase.symm.trans hfirst)
  obtain rfl : segments' = segments ++ more := Option.some.inj (hp.symm.trans hmore)
  exact h (prefix_append segments more)

/-- Two ways up: a directory `//` with a dot for invalid characters, and a directory `../v` with the
filter off. -/
theorem download_leaves_directory :
    (NameOptions.Valid { invalidCharReplace := ['.'] } ∧ PlainName "//".toList ∧
      ∃ r, (localSystem { invalidCharReplace := ['.'] } PlainName).Reach r ∧
        (⟨"/home/u/".toList⟩, .handleEmptyDirectory ⟨"/home/u/../".toList⟩) ∈ r.calls ∧
        CLocalPath.setPath "/home/u/../".toList = (true, ⟨"/home/".toList⟩) ∧
        ¬NormalisesBelow ⟨"/home/u/".toList⟩ ⟨"/home/u/../".toList⟩) ∧
    NameOptions.Valid { invalidCharReplaceEnable := false } ∧ PlainName "../v".toList ∧
      ∃ r, (localSystem { invalidCharReplaceEnable := false } PlainName).Reach r ∧
        (⟨"/home/u/".toList⟩, .handleEmptyDirectory ⟨"/home/u/../v/".toList⟩) ∈ r.calls ∧
        CLocalPath.setPath "/home/u/../v/".toList = (true, ⟨"/home/v/".toList⟩) ∧
        ¬NormalisesBelow ⟨"/home/u/".toList⟩ ⟨"/home/u/../v/".toList⟩ := by
  have hslashes : PlainName "//".toList := ⟨by decide, by decide, by decide⟩
  have hup : PlainName "../v".toList := ⟨by decide, by decide, by decide⟩
  obtain ⟨r, hreach, hcall⟩ := emptyDirRun_reach { invalidCharReplace := ['.'] } hslashes
    (⟨"/home/u/".toList⟩, .handleEmptyDirectory ⟨"/home/u/../".toList⟩) (by decide +kernel)
  obtain ⟨r', hreach', hcall'⟩ := emptyDirRun_reach { invalidCharReplaceEnable := false } hup
    (⟨"/home/u/".toList⟩, .handleEmptyDirectory ⟨"/home/u/../v/".toList⟩) (by decide +kernel)
  refine ⟨⟨⟨'.', rfl, by decide⟩, hslashes, r, hreach, hcall, by decide, ?_⟩,
    ⟨'_', rfl, by decide⟩, hup, r', hreach', hcall', by decide, ?_⟩
  · exact not_normalisesBelow rfl rfl (by decide)
  · exact not_normalisesBelow rfl rfl (by decide)

end FlintZilla
