import FlintZilla.Ftp.ChangeDir
import FlintZilla.Path.Segments

/-!
# The current path and the path cache are true

Against a server whose directory tree does not change, the control socket's current path is the
working directory whenever it is not empty, and every entry of the path cache names the directory
the server resolves it to. The two depend on each other: a path is taken from the cache without
asking the server, and entries are stored for the directory the current path names.

Both rest on reading the reply to `PWD`. A server of unknown type may have directories whose names
look like paths of another type; they are misread.

Main results:

* `parsePwdReply_quoted`: exactly when a quoted path is read back from the reply to `PWD`.
* `settled_parseResponse`: a reply leaves nothing untrue behind.
* `Inv.step`: neither does any step.
* `ftp_changeDir_truth`: current path and path cache are true after every run.
-/

namespace FlintZilla

open Lib Lib.Search Lib.Quoting FtpChangeDir CwdSession List CServerPath

/-! ## Reading the reply -/

variable {code comment : WString}

/-- The text between the first and the last mark. -/
theorem enclosed_quoted {mark : Char} {text : WString} (hcode : mark ∉ code)
    (hcomment : mark ∉ comment) :
    enclosed mark (code ++ mark :: (text ++ mark :: comment)) = some text := by
  have hfind : find (· == mark) (code ++ mark :: (text ++ mark :: comment)) = some code.length :=
    find_append_cons (forall_beq_eq_false hcode) (by simp)
  have hrfind : rfind (· == mark) (code ++ mark :: (text ++ mark :: comment)) =
      some (code ++ mark :: text).length := by
    rw [← cons_append, ← append_assoc]
    exact rfind_append_cons (forall_beq_eq_false hcomment) (by simp)
  have hlength : (code ++ mark :: text).length = code.length + 1 + text.length := by
    rw [length_append, length_cons]
    omega
  have hdrop : (code ++ mark :: (text ++ mark :: comment)).drop (code.length + 1) =
      text ++ mark :: comment := by
    simp
  have hcount : code.length + 1 + text.length - code.length - 1 = text.length := by omega
  simp only [enclosed, hfind, hrfind, hlength, hdrop, hcount]
  rw [if_pos (by omega), take_left']
  rfl

/-- A name in quotation marks, without a mark behind it. -/
theorem pwdText_quoted {name : WString} (hcode : '"' ∉ code)
    (hcomment : '"' ∉ comment) : pwdText (code ++ quoted '"' name ++ comment) = name := by
  have hreply : code ++ quoted '"' name ++ comment =
      code ++ '"' :: (doubled '"' name ++ '"' :: comment) := by
    simp [quoted]
  rw [hreply, pwdText, enclosed_quoted hcode hcomment]
  exact undoubled_doubled name

/-- With a mark in the comment, what is read goes on from the name up to the last one. -/
theorem pwdText_quoted_mark {name c1 c2 : WString} (hcode : '"' ∉ code) (hlast : '"' ∉ c2) :
    pwdText (code ++ quoted '"' name ++ ' ' :: (c1 ++ '"' :: c2)) =
      name ++ '"' :: ' ' :: undoubled '"' c1 := by
  have hreply : code ++ quoted '"' name ++ ' ' :: (c1 ++ '"' :: c2) =
      code ++ '"' :: ((doubled '"' name ++ '"' :: ' ' :: c1) ++ '"' :: c2) := by
    simp [quoted]
  rw [hreply, pwdText, enclosed_quoted hcode hlast]
  show undoubled '"' (doubled '"' name ++ '"' :: ' ' :: c1) = _
  rw [undoubled_doubled_append, undoubled, if_neg (by simp), undoubled_cons (by decide)]

/-- A path that starts at the root is one, whatever was the path before. -/
theorem setPath_unix {p : CServerPath} (htype : p.type = .unix) {path : WString}
    (hpath : path.head? = some '/') :
    p.setPath path false = (true, ⟨.unix, some ⟨walk .unix [] path, none⟩⟩, path) := by
  obtain ⟨rest, rfl⟩ : ∃ rest, path = '/' :: rest := by
    cases path with
    | nil => cases hpath
    | cons c rest =>
      cases hpath
      exact ⟨rest, rfl⟩
  simp [setPath, htype, changePath, doChangePath, changeByType,
    changeRooted, extractIfFile, finishSegments, segmentize_eq_walk (t := .unix) rfl, isSeparator,
    traits]

/-- A Unix path is the segments that the walk leaves. -/
theorem ofText_unix {path : WString} (hpath : path.head? = some '/') :
    CServerPath.ofText path .unix = ⟨.unix, some ⟨walk .unix [] path, none⟩⟩ := by
  rw [ofText, setPath_unix rfl hpath]

/-! ### A quotation mark in the comment -/

/-- Text behind a path that leads back to it: it makes another name of the last component of the
path, `first` being what stands before its first slash, and the rest goes from the directory of that
name to the path again. -/
def LeadsBack (path behind : WString) : Prop :=
  ∃ dir last first more, path = dir ++ '/' :: last ∧ '/' ∉ last ∧
    behind = first ++ '/' :: more ∧ '/' ∉ first ∧
    walk .unix (walk .unix [] dir ++ [last ++ first]) more = walk .unix [] path

/-- The last occurrence. -/
theorem exists_last_of_mem {c : Char} {s : WString} (h : c ∈ s) :
    ∃ a b, s = a ++ c :: b ∧ c ∉ b := by
  obtain ⟨b, a, hs, hb⟩ := eq_append_cons_of_mem (mem_reverse.mpr h)
  refine ⟨a.reverse, b.reverse, ?_, by simpa using hb⟩
  simpa using congrArg reverse hs

/-- There is one last occurrence. -/
theorem last_unique {c : Char} {a b a' b' : WString} (h : a ++ c :: b = a' ++ c :: b')
    (hb : c ∉ b) (hb' : c ∉ b') : a = a' := by
  have hpos := congrArg (rfind (· == c)) h
  rw [rfind_append_cons (forall_beq_eq_false hb) (by simp),
    rfind_append_cons (forall_beq_eq_false hb') (by simp)] at hpos
  exact append_inj_left h (Option.some.inj hpos)

/-- A word without a slash is dropped, takes a segment off, or adds one. -/
theorem walk_word {l : List WString} {w : WString} (hw : '/' ∉ w) :
    walk .unix l w = l ∨ walk .unix l w = l.dropLast ∨ walk .unix l w = l ++ [w] := by
  have hforall : ∀ c ∈ w, isSeparator .unix c = false := by
    intro c hc
    have hne : c ≠ '/' := fun heq => hw (heq ▸ hc)
    simpa [isSeparator, traits] using hne
  by_cases hnil : w = []
  · subst hnil
    exact .inl rfl
  rw [walk, fields_of_forall hnil hforall, foldl_cons, foldl_nil]
  unfold segmentizeAddSegment
  split_ifs
  · exact .inl rfl
  · exact .inr (.inl rfl)
  · exact .inr (.inr (by simp [traits, pushSegment]))

/-- A name that is longer than `last` by a quotation mark. -/
theorem walk_marked (l : List WString) {last first : WString} (hlast : '/' ∉ last)
    (hfirst : '/' ∉ first) (hmark : '"' ∈ first) :
    walk .unix l (last ++ first) = l ++ [last ++ first] := by
  have hforall : ∀ c ∈ last ++ first, isSeparator .unix c = false := by
    intro c hc
    have hne : c ≠ '/' := by
      rintro rfl
      rcases mem_append.mp hc with hc | hc
      · exact hlast hc
      · exact hfirst hc
    simpa [isSeparator, traits] using hne
  have hmem : '"' ∈ last ++ first := mem_append_right _ hmark
  have hdot : last ++ first ≠ ['.'] ∧ last ++ first ≠ ['.', '.'] := by
    constructor
    all_goals
      intro heq
      rw [heq] at hmem
      exact absurd hmem (by decide)
  rw [walk, fields_of_forall (ne_nil_of_mem hmem) hforall, foldl_cons, foldl_nil,
    segmentizeAddSegment_plain _ (fun _ => hdot) (by simp [traits])]
  rfl

/-- Text with a quotation mark before its first slash is no part of the path exactly if it leads
back. -/
theorem walk_append_eq_iff {path behind : WString} (hpath : path.head? = some '/')
    (hmark : '"' ∈ behind.takeWhile (· ≠ '/')) :
    walk .unix [] (path ++ behind) = walk .unix [] path ↔ LeadsBack path behind := by
  have hsep : isSeparator .unix '/' = true := by decide
  have happend := fun (l : List WString) (a b : WString) =>
    walk_append (t := .unix) (l := l) (a := a) (b := b) rfl hsep
  -- the first name behind the path has the quotation mark in it
  have hfirst (first more : WString) (h : behind = first ++ '/' :: more) (hslash : '/' ∉ first) :
      '"' ∈ first := by
    have htake : behind.takeWhile (· ≠ '/') = first := by
      rw [h, takeWhile_append_of_pos, takeWhile_cons_of_neg (by simp), append_nil]
      intro c hc
      simpa using fun heq : c = '/' => hslash (heq ▸ hc)
    rwa [htake] at hmark
  constructor
  · intro heq
    obtain ⟨dir, last, rfl, hlast⟩ := exists_last_of_mem (mem_of_head? hpath)
    by_cases hslash : '/' ∈ behind
    · obtain ⟨first, more, rfl, hnone⟩ := eq_append_cons_of_mem hslash
      refine ⟨dir, last, first, more, rfl, hlast, rfl, hnone, ?_⟩
      rw [← heq, ← append_assoc, happend, append_assoc, cons_append, happend,
        walk_marked _ hlast hnone (hfirst first more rfl hnone)]
    · -- the longer name is no segment of the path
      have hbehind : '"' ∈ behind := (takeWhile_sublist _).subset hmark
      rw [append_assoc, cons_append, happend, happend, walk_marked _ hlast hslash hbehind] at heq
      rcases walk_word (l := walk .unix [] dir) hlast with hw | hw | hw
      · simp [hw] at heq
      · have hlength := congrArg length (heq.trans hw)
        simp at hlength
        omega
      · rw [hw, append_cancel_left_eq, cons_eq_cons, append_right_eq_self] at heq
        rw [heq.1] at hbehind
        cases hbehind
  · rintro ⟨dir, last, first, more, rfl, hlast, hbehind, hnone, hback⟩
    rw [hbehind, ← append_assoc, happend, append_assoc, cons_append, happend,
      walk_marked _ hlast hnone (hfirst first more hbehind hnone)]
    exact hback

/-- The path in the reply to `PWD` becomes the current one exactly if there is no quotation mark
behind it, or what stands before the last one leads back to it. -/
theorem parsePwdReply_quoted (currentPath defaultPath : CServerPath) (path comment : WString)
    (htype : (currentPath.setType .unix).type = .unix) (hpath : path.head? = some '/') :
    parsePwdReply .unix currentPath
      ("257 ".toList ++ quoted '"' path ++ ' ' :: comment) defaultPath =
      (true, .ofText path .unix) ↔
    ∀ c1 c2, comment = c1 ++ '"' :: c2 → '"' ∉ c2 →
      LeadsBack path ('"' :: ' ' :: undoubled '"' c1) := by
  by_cases hcomment : '"' ∈ comment
  · -- the last quotation mark of the comment ends the text that is taken as the path
    obtain ⟨c1, c2, rfl, hlast⟩ := exists_last_of_mem hcomment
    have hhead : (path ++ '"' :: ' ' :: undoubled '"' c1).head? = some '/' := by
      simp [head?_append, hpath]
    have hread : parsePwdReply .unix currentPath
        ("257 ".toList ++ quoted '"' path ++ ' ' :: (c1 ++ '"' :: c2)) defaultPath =
          (true, ⟨.unix, some ⟨walk .unix [] (path ++ '"' :: ' ' :: undoubled '"' c1), none⟩⟩) := by
      rw [parsePwdReply, pwdText_quoted_mark (by decide) hlast, setPath_unix htype hhead]
      rfl
    have hpathIff : _ ↔ LeadsBack path ('"' :: ' ' :: undoubled '"' c1) :=
      walk_append_eq_iff hpath (by simp)
    rw [hread, ofText_unix hpath]
    simp only [Prod.mk.injEq, CServerPath.mk.injEq, Option.some.injEq, CServerPathData.mk.injEq,
      true_and, and_true, hpathIff]
    constructor
    · intro hback d1 d2 hsplit hnone
      rwa [← (last_unique hsplit hlast hnone)]
    · intro hback
      exact hback c1 c2 rfl hlast
  · refine iff_of_true ?_ ?_
    · have htext : pwdText ("257 ".toList ++ quoted '"' path ++ ' ' :: comment) = path :=
        pwdText_quoted (by decide) (by simpa using hcomment)
      rw [parsePwdReply, htext, setPath_unix htype hpath, ofText_unix hpath]
      rfl
    · rintro c1 c2 rfl
      simp at hcomment

/-- Two marks inside the path, none in the comment. -/
theorem parsePwdReply_quoted_mark :
    parsePwdReply .unix ⟨.default, none⟩ "257 \"/a\"\"b\" is it".toList ⟨.unix, none⟩ =
      (true, ⟨.unix, some ⟨["a\"b".toList], none⟩⟩) := by
  refine (parsePwdReply_quoted _ _ "/a\"b".toList "is it".toList rfl rfl).mpr ?_
  intro c1 c2 hcomment
  have hmark : '"' ∈ "is it".toList := hcomment ▸ mem_append_right _ (mem_cons_self ..)
  exact absurd hmark (by decide)

/-- The path is taken to end at the last quotation mark of the reply. -/
theorem parsePwdReply_last_mark : parsePwdReply .unix ⟨.unix, none⟩
        ("257 ".toList ++ quoted '"' "/a".toList ++ ' ' :: "is \"cwd\"".toList) ⟨.unix, none⟩ =
      (true, ⟨.unix, some ⟨["a\" is \"cwd".toList], none⟩⟩) ∧
    CServerPath.ofText "/a".toList .unix = ⟨.unix, some ⟨["a".toList], none⟩⟩ := by
  decide

variable {Dir : Type}

namespace FtpServer

/-! ## What the server means by a path -/

/-- The path leads to the directory, from everywhere. -/
def Resolves (server : FtpServer Dir) (path : CServerPath) (dir : Dir) : Prop :=
  ∀ workingDir, server.cwd workingDir path.getPath = some dir

/-- The directory of a source path, or of a subdirectory relative to it. -/
def Leads (server : FtpServer Dir) (source : CServerPath) (subdir : WString) (dir : Dir) : Prop :=
  if subdir = [] then server.Resolves source dir
  else ∃ base, server.Resolves source base ∧
    (server.cwd base (source.formatSubdir subdir) = some dir ∨
      subdir = "..".toList ∧ server.cdup base = some dir)

/-- The path the client reads from the name of a directory. -/
def pathOf (server : FtpServer Dir) (dir : Dir) : CServerPath :=
  CServerPath.ofText (server.name dir) server.type

/-- The client reads the names of all directories, as paths that lead there. -/
structure Readable (server : FtpServer Dir) : Prop where
  accepted : ∀ dir, (CServerPath.setPath ⟨server.type, none⟩ (server.name dir) false).1 = true
  resolves : ∀ dir, server.Resolves (server.pathOf dir) dir

/-- A path that does not depend on the working directory, and of which its key tells everything. -/
structure Fixed (server : FtpServer Dir) (path : CServerPath) : Prop where
  plain : path.Plain
  absolute : ∀ v w, server.cwd v path.getPath = server.cwd w path.getPath

/-- What the user may ask for: nothing, or a path that means the same everywhere. -/
def Asked (server : FtpServer Dir) (path : CServerPath) : Prop :=
  path.empty = true ∨ server.Fixed (path.typedAs server.type)

/-- An entry of the path cache names the directory it leads to. -/
def Sound (server : FtpServer Dir) (entry : CSourcePath × CServerPath) : Prop :=
  ∃ dir, server.Leads entry.1.source entry.1.subdir dir ∧ entry.2 = server.pathOf dir

variable {server : FtpServer Dir} {path : CServerPath} {dir workingDir : Dir}

/-- The server changes to one directory. -/
theorem Resolves.unique {other : Dir} (h : server.Resolves path dir)
    (hcwd : server.cwd workingDir path.getPath = some other) : other = dir :=
  Option.some.inj (hcwd.symm.trans (h workingDir))

variable {response : WString}

/-- A command that succeeds has moved the server to where it leads. -/
theorem leads_moved {command : CwdCommand} (hpositive : FtpSession.positive response)
    (hsome : (server.leads workingDir command).isSome) :
    server.leads workingDir command = some (server.moved workingDir command response) := by
  obtain ⟨dir, hdir⟩ := Option.isSome_iff_exists.mp hsome
  rw [moved, if_pos hpositive, hdir]
  rfl

theorem moved_pwd (response : WString) : server.moved workingDir .pwd response = workingDir := by
  unfold moved
  split_ifs <;> rfl

/-- The reply to `PWD` gives the path of the working directory, whatever path is assumed. -/
theorem Readable.parsePwdReply (hread : server.Readable) {currentPath : CServerPath}
    (hempty : currentPath.empty) (hanswer : server.Answers workingDir .pwd response)
    (assumed : CServerPath) :
    parsePwdReply server.type currentPath response assumed = (true, server.pathOf workingDir) := by
  rcases hanswer with ⟨-, code, comment, hcode, hcomment, rfl⟩
  have htype : currentPath.setType server.type = ⟨server.type, none⟩ := by
    rw [empty, Option.isNone_iff_eq_none] at hempty
    simp [setType, empty, hempty]
  unfold FlintZilla.parsePwdReply
  rw [pwdText_quoted hcode hcomment, htype, if_pos (hread.accepted workingDir)]
  rfl

end FtpServer

theorem CServerPath.empty_typedAs (p : CServerPath) (type : ServerType) :
    (p.typedAs type).empty = p.empty := by
  unfold typedAs setType
  split_ifs <;> rfl

/-! ## The states of the operation -/

namespace FtpChangeDir

open FtpServer

/-- What each state knows. -/
def Valid (server : FtpServer Dir) (currentPath : CServerPath) (workingDir : Dir)
    (op : FtpChangeDir) : Prop :=
  match op.opState with
  | .init => server.Asked op.path
  | .pwd => currentPath.empty = true
  | .cwd =>
    (∀ v w, server.cwd v op.path.getPath = server.cwd w op.path.getPath) ∧
    -- what the cache has said
    (op.target.empty = false →
      ∃ dir, server.Resolves op.path dir ∧ op.target = server.pathOf dir) ∧
    (op.target.empty = true ∨ op.subDir ≠ [] → op.path.Plain)
  | .pwdCwd =>
    currentPath.empty = true ∧ op.target.empty = true ∧ op.path.Plain ∧
      server.Resolves op.path workingDir
  | .cwdSubdir =>
    op.target.empty = true ∧ op.path.Plain ∧ op.subDir ≠ [] ∧ server.Resolves op.path workingDir
  | .pwdSubdir =>
    currentPath.empty = true ∧ op.target.empty = true ∧ op.path.Plain ∧ op.subDir ≠ [] ∧
      server.Leads op.path op.subDir workingDir

/-- The command whose reply the operation waits for. -/
def Awaits (op : FtpChangeDir) (command : CwdCommand) : Prop :=
  match op.opState with
  | .init => False
  | .pwd | .pwdCwd | .pwdSubdir => command = .pwd
  | .cwd => command = .cwd op.path.getPath
  | .cwdSubdir => command = op.subdirCommand

end FtpChangeDir

/-- The current path and the cache are true. -/
structure CwdTruth (server : FtpServer Dir) (currentPath : CServerPath) (cache : ServerPathCache)
    (workingDir : Dir) : Prop where
  path : currentPath.empty = true ∨ currentPath = server.pathOf workingDir
  sound : ∀ entry ∈ cache, server.Sound entry
  plain : ∀ entry ∈ cache, entry.1.source.Plain

section Steps

variable {server : FtpServer Dir} {currentPath : CServerPath} {cache : ServerPathCache}
  {workingDir : Dir} {op : FtpChangeDir} {command : CwdCommand} {response : WString}

namespace CwdTruth

variable {source : CServerPath} {subdir : WString}

/-- What is looked up for a plain path. -/
theorem lookup (h : CwdTruth server currentPath cache workingDir) (hsource : source.Plain)
    (hfound : (cache.lookup source subdir).empty = false) :
    ∃ dir, server.Leads source subdir dir ∧ cache.lookup source subdir = server.pathOf dir :=
  h.sound _ (ServerPathCache.mem_of_lookup h.plain hsource hfound)

/-- What is looked up for a path alone. -/
theorem lookup_path (h : CwdTruth server currentPath cache workingDir) (hsource : source.Plain)
    (hfound : (cache.lookup source []).empty = false) :
    ∃ dir, server.Resolves source dir ∧ cache.lookup source [] = server.pathOf dir := by
  obtain ⟨dir, hleads, htarget⟩ := h.lookup hsource hfound
  exact ⟨dir, by simpa [FtpServer.Leads] using hleads, htarget⟩

/-- A path that needs no command is the one of the working directory. -/
theorem resolves_of_isCurrent (hread : server.Readable)
    (h : CwdTruth server currentPath cache workingDir) {path : CServerPath} (hpath : path.Plain)
    (hcurrent : isCurrent currentPath path (cache.lookup path [])) :
    server.Resolves path workingDir := by
  simp only [isCurrent, Bool.or_eq_true, Bool.and_eq_true, Bool.not_eq_true',
    decide_eq_true_eq] at hcurrent
  have hnonempty : path.empty = false := by
    simpa [empty, Option.isNone_eq_false_iff, Option.isSome_iff_ne_none]
      using hpath.nonempty
  rcases hcurrent with rfl | ⟨hfound, hcurrent⟩
  · rcases h.path with hempty | hname
    · rw [hnonempty] at hempty
      cases hempty
    · rw [hname]
      exact hread.resolves workingDir
  · obtain ⟨dir, hresolves, htarget⟩ := h.lookup_path hpath hfound
    rcases h.path with hempty | hname
    · rw [← hcurrent, hfound] at hempty
      cases hempty
    · -- both directories have this path
      have hsame : server.pathOf dir = server.pathOf workingDir := by
        rw [← htarget, hcurrent, hname]
      have hdir := hread.resolves dir workingDir
      rw [hsame, hread.resolves workingDir workingDir] at hdir
      rw [Option.some.inj hdir]
      exact hresolves

/-- A new entry for the working directory. -/
theorem store (h : CwdTruth server currentPath cache workingDir) (hsource : source.Plain)
    (hleads : server.Leads source subdir workingDir) :
    CwdTruth server (server.pathOf workingDir)
      (cache.store (server.pathOf workingDir) source subdir) workingDir := by
  refine ⟨.inr rfl, ?_, ?_⟩
  · intro entry hentry
    rcases ServerPathCache.mem_store h.plain hsource hentry with hold | rfl
    · exact h.sound entry hold
    · exact ⟨workingDir, hleads, rfl⟩
  · intro entry hentry
    rcases ServerPathCache.mem_store h.plain hsource hentry with hold | rfl
    · exact h.plain entry hold
    · exact hsource

/-- The server moves while the current path is not known. -/
theorem of_empty (h : CwdTruth server currentPath cache workingDir)
    (hempty : currentPath.empty) (dir : Dir) : CwdTruth server currentPath cache dir :=
  ⟨.inl hempty, h.sound, h.plain⟩

end CwdTruth

namespace FtpChangeDir

open FtpServer

/-- The first `Send` has nothing to do, or finds out what the next state has to know. -/
theorem sendInit_valid (hread : server.Readable)
    (htruth : CwdTruth server currentPath cache workingDir) (hasked : server.Asked op.path) :
    (sendInit server.type cache currentPath op).1 = Reply.ok ∨
      (sendInit server.type cache currentPath op).2.Valid server currentPath workingDir := by
  rw [Asked, ← empty_typedAs op.path server.type] at hasked
  unfold sendInit
  generalize op.path.typedAs server.type = path at hasked
  dsimp only
  -- the branches in the order of the source; those that return need no directory
  split_ifs with hempty hcurrent hsub hfound hthere hbase hbase
  · exact .inr hcurrent
  · exact .inl rfl
  all_goals
    have hfixed : server.Fixed path := hasked.resolve_left hempty
  · exact .inl rfl
  · -- straight to the cached target of the subdirectory
    right
    have hlookup : (cache.lookup path op.subDir).empty = false := by simpa using hfound
    obtain ⟨dir, -, htarget⟩ := htruth.lookup hfixed.plain hlookup
    have hresolves : server.Resolves (cache.lookup path op.subDir) dir := by
      rw [htarget]
      exact hread.resolves dir
    refine ⟨?_, fun _ => ⟨dir, hresolves, htarget⟩, ?_⟩
    · intro v w
      rw [hresolves v, hresolves w]
    · rintro (htarget | hsub)
      · rw [hlookup] at htarget
        cases htarget
      · exact absurd rfl hsub
  · exact .inr ⟨rfl, hfixed.plain, hsub, htruth.resolves_of_isCurrent hread hfixed.plain hbase⟩
  · exact .inr ⟨hfixed.absolute, htruth.lookup_path hfixed.plain, fun _ => hfixed.plain⟩
  · exact .inl rfl
  · exact .inr ⟨hfixed.absolute, htruth.lookup_path hfixed.plain, fun _ => hfixed.plain⟩

/-- What a reply leaves behind: nothing untrue, and an operation that is over or knows what its
state has to know. -/
structure Settled (server : FtpServer Dir) (workingDir : Dir) (code : Nat)
    (currentPath : CServerPath) (cache : ServerPathCache) (op : FtpChangeDir) : Prop where
  truth : CwdTruth server currentPath cache workingDir
  noMkdir : op.tryMkdOnFail = false
  state : ¬(code = Reply.continue_ ∨ code = Reply.wouldBlock) ∨
    op.Valid server currentPath workingDir

/-- The reply settles the operation, with the server in the directory. -/
abbrev Settles (server : FtpServer Dir) (currentPath : CServerPath) (cache : ServerPathCache)
    (op : FtpChangeDir) (response : WString) (dir : Dir) : Prop :=
  ∃ code currentPath' cache' op', op.parseResponse server.type cache currentPath response =
      (.result code, currentPath', cache', op') ∧
    Settled server dir code currentPath' cache' op'

section Replies

variable (htruth : CwdTruth server currentPath cache workingDir) (hmkdir : op.tryMkdOnFail = false)
  (hvalid : op.Valid server currentPath workingDir)

include htruth hmkdir hvalid

/-- The reply to the `PWD` of an operation without a path. -/
theorem settled_pwd (hread : server.Readable) (hstate : op.opState = .pwd)
    (hanswer : server.Answers workingDir .pwd response) :
    Settles server currentPath cache op response workingDir := by
  simp only [Valid, hstate] at hvalid
  simp only [Settles, parseResponse, hstate, hanswer.1, hread.parsePwdReply hvalid hanswer]
  exact ⟨_, _, _, _, rfl, ⟨.inr rfl, htruth.sound, htruth.plain⟩, hmkdir, .inl (by decide)⟩

/-- The reply to `CWD`: the server is where the cache says, or has to be asked. -/
theorem settled_cwd (hstate : op.opState = .cwd) (hempty : currentPath.empty)
    (hanswer : server.Answers workingDir (.cwd op.path.getPath) response) :
    Settles server currentPath cache op response
      (server.moved workingDir (.cwd op.path.getPath) response) := by
  simp only [Valid, hstate] at hvalid
  obtain ⟨habsolute, hcached, hplain⟩ := hvalid
  cases hpositive : FtpSession.positive response with
  | false =>
    simp only [Settles, parseResponse, hstate, hpositive, hmkdir]
    exact ⟨_, _, _, _, rfl, htruth.of_empty hempty _, hmkdir, .inl (by decide)⟩
  | true =>
    have hcwd := leads_moved hpositive (hanswer hpositive)
    generalize server.moved workingDir (.cwd op.path.getPath) response = dir at hcwd
    have hresolves : server.Resolves op.path dir := by
      intro w
      rw [habsolute w workingDir]
      exact hcwd
    simp only [Settles, parseResponse, hstate, hpositive, Bool.not_true, Bool.false_eq_true,
      if_false]
    split_ifs with htarget hsub
    · exact ⟨_, _, _, _, rfl, htruth.of_empty hempty _, hmkdir,
        .inr ⟨hempty, htarget, hplain (.inl htarget), hresolves⟩⟩
    all_goals
      -- the cache knows the directory
      obtain ⟨known, hknown, hpath⟩ := hcached (by simpa using htarget)
      obtain rfl : dir = known := hknown.unique hcwd
      have htruth' : CwdTruth server op.target cache dir := ⟨.inr hpath, htruth.sound, htruth.plain⟩
    · exact ⟨_, _, _, _, rfl, htruth', hmkdir, .inl (by decide)⟩
    · exact ⟨_, _, _, _, rfl, htruth', hmkdir, .inr ⟨rfl, hplain (.inr hsub), hsub, hresolves⟩⟩

/-- The reply to the `PWD` after `CWD`. -/
theorem settled_pwdCwd (hread : server.Readable) (hstate : op.opState = .pwdCwd)
    (hanswer : server.Answers workingDir .pwd response) :
    Settles server currentPath cache op response workingDir := by
  simp only [Valid, hstate] at hvalid
  obtain ⟨hempty, htarget, hplain, hresolves⟩ := hvalid
  have hleads : server.Leads op.path [] workingDir := by simpa [Leads] using hresolves
  simp only [Settles, parseResponse, hstate, hanswer.1, hread.parsePwdReply hempty hanswer, htarget,
    if_true, Bool.not_true, Bool.false_eq_true, if_false]
  split_ifs with hsub
  · exact ⟨_, _, _, _, rfl, htruth.store hplain hleads, hmkdir, .inl (by decide)⟩
  · exact ⟨_, _, _, _, rfl, htruth.store hplain hleads, hmkdir,
      .inr ⟨htarget, hplain, hsub, hresolves⟩⟩

omit htruth hmkdir hvalid in
/-- Where the command for the subdirectory leads. -/
theorem leads_subdirCommand {dir : Dir} (hsub : op.subDir ≠ [])
    (hresolves : server.Resolves op.path workingDir)
    (hdir : server.leads workingDir op.subdirCommand = some dir) :
    server.Leads op.path op.subDir dir := by
  rw [Leads, if_neg hsub]
  refine ⟨workingDir, hresolves, ?_⟩
  unfold subdirCommand at hdir
  split_ifs at hdir with hcdup
  · exact .inr ⟨hcdup.1, hdir⟩
  · exact .inl hdir

/-- The reply to the command for the subdirectory; `CDUP` may be tried again as `CWD ..`. -/
theorem settled_cwdSubdir (hstate : op.opState = .cwdSubdir) (hempty : currentPath.empty)
    (hanswer : FtpSession.positive response = true →
      (server.leads workingDir op.subdirCommand).isSome = true) :
    Settles server currentPath cache op response
      (server.moved workingDir op.subdirCommand response) := by
  simp only [Valid, hstate] at hvalid
  obtain ⟨htarget, hplain, hsub, hresolves⟩ := hvalid
  have htruth' := htruth.of_empty hempty (server.moved workingDir op.subdirCommand response)
  cases hpositive : FtpSession.positive response with
  | false =>
    have hmoved : server.moved workingDir op.subdirCommand response = workingDir := by
      rw [moved, hpositive]
      rfl
    simp only [Settles, parseResponse, hstate, hpositive, Bool.false_eq_true, if_false]
    split_ifs with hcdup hlink
    · refine ⟨_, _, _, _, rfl, htruth', hmkdir, .inr ?_⟩
      simp only [Valid, hmoved]
      exact ⟨htarget, hplain, hsub, hresolves⟩
    · exact ⟨_, _, _, _, rfl, htruth', hmkdir, .inl (by decide)⟩
    · exact ⟨_, _, _, _, rfl, htruth', hmkdir, .inl (by decide)⟩
  | true =>
    have hleads := leads_subdirCommand hsub hresolves (leads_moved hpositive (hanswer hpositive))
    simp only [Settles, parseResponse, hstate, hpositive, if_true]
    exact ⟨_, _, _, _, rfl, htruth', hmkdir, .inr ⟨hempty, htarget, hplain, hsub, hleads⟩⟩

/-- The reply to the last `PWD`. -/
theorem settled_pwdSubdir (hread : server.Readable) (hstate : op.opState = .pwdSubdir)
    (hanswer : server.Answers workingDir .pwd response) :
    Settles server currentPath cache op response workingDir := by
  simp only [Valid, hstate] at hvalid
  obtain ⟨hempty, htarget, hplain, -, hleads⟩ := hvalid
  simp only [Settles, parseResponse, hstate, confirm, hanswer.1, hread.parsePwdReply hempty hanswer,
    htarget]
  exact ⟨_, _, _, _, rfl, htruth.store hplain hleads, hmkdir, .inl (by decide)⟩

/-- The reply to the command the operation waits for. -/
theorem settled_parseResponse (hread : server.Readable) (hawaits : op.Awaits command)
    (hempty : command ≠ .pwd → currentPath.empty = true)
    (hanswer : server.Answers workingDir command response) :
    Settles server currentPath cache op response (server.moved workingDir command response) := by
  cases hstate : op.opState <;> simp only [Awaits, hstate] at hawaits
  case pwd =>
    subst hawaits
    rw [moved_pwd]
    exact settled_pwd htruth hmkdir hvalid hread hstate hanswer
  case pwdCwd =>
    subst hawaits
    rw [moved_pwd]
    exact settled_pwdCwd htruth hmkdir hvalid hread hstate hanswer
  case pwdSubdir =>
    subst hawaits
    rw [moved_pwd]
    exact settled_pwdSubdir htruth hmkdir hvalid hread hstate hanswer
  case cwd =>
    subst hawaits
    exact settled_cwd htruth hmkdir hvalid hstate (hempty (by simp)) hanswer
  case cwdSubdir =>
    subst hawaits
    have hmoves : op.subdirCommand ≠ .pwd := by
      unfold subdirCommand
      split_ifs <;> simp
    refine settled_cwdSubdir htruth hmkdir hvalid hstate (hempty hmoves) ?_
    generalize op.subdirCommand = command at hanswer hmoves
    cases command with
    | pwd => exact absurd rfl hmoves
    | cwd argument | cdup => exact hanswer

end Replies

end FtpChangeDir

/-! ## The session -/

namespace CwdSession

open FtpServer

variable {s t : CwdSession Dir} {canSend : WString → Bool}

/-- What holds between any two events. -/
structure Inv (server : FtpServer Dir) (s : CwdSession Dir) : Prop where
  truth : CwdTruth server s.currentPath s.cache s.workingDir
  valid : ∀ op, s.op = some op →
    op.tryMkdOnFail = false ∧ op.Valid server s.currentPath s.workingDir
  /-- The current path is not known while the server may move. -/
  moving : ∀ command, s.outstanding = some command → command ≠ .pwd → s.currentPath.empty = true
  awaits : ∀ command op, s.outstanding = some command → s.op = some op →
    if s.skip then op.opState = .init else op.Awaits command
  /-- Without an operation, the reply that is to come is skipped. -/
  skipped : s.outstanding.isSome = true → s.op = none → s.skip = true

/-- Nothing is known at first. -/
theorem Inv.fresh (workingDir : Dir) : Inv server (fresh workingDir) where
  truth := ⟨.inl rfl, by simp [CwdSession.fresh], by simp [CwdSession.fresh]⟩
  valid := by simp [CwdSession.fresh]
  moving := by simp [CwdSession.fresh]
  awaits := by simp [CwdSession.fresh]
  skipped := by simp [CwdSession.fresh]

/-- An operation that is told to go on, wait or end. -/
theorem Inv.settle {code : Nat} (houtstanding : s.outstanding = none)
    (h : FtpChangeDir.Settled server s.workingDir code s.currentPath s.cache op) :
    Inv server (s.settle op code) where
  truth := h.truth
  valid := by
    intro op' hop
    simp only [CwdSession.settle] at hop
    split_ifs at hop with hcode
    obtain rfl := Option.some.inj hop
    exact ⟨h.noMkdir, h.state.resolve_left (not_not_intro hcode)⟩
  moving := by simp [CwdSession.settle, houtstanding]
  awaits := by simp [CwdSession.settle, houtstanding]
  skipped := by simp [CwdSession.settle, houtstanding]

/-- A command is sent, or the operation fails. -/
theorem Inv.sendCommand (houtstanding : s.outstanding = none)
    (htruth : CwdTruth server currentPath s.cache s.workingDir) (hmkdir : op.tryMkdOnFail = false)
    (hvalid : op.Valid server currentPath s.workingDir) (hawaits : op.Awaits command)
    (hempty : command ≠ .pwd → currentPath.empty = true) :
    Inv server (if canSend command.text then
      { s with currentPath, op := some op, outstanding := some command, skip := false }
      else { s with currentPath }.settle op Reply.error) := by
  split_ifs
  · constructor
    · exact htruth
    · rintro _ ⟨⟩
      exact ⟨hmkdir, hvalid⟩
    · rintro _ ⟨⟩
      exact hempty
    · rintro _ _ ⟨⟩ ⟨⟩
      exact hawaits
    · rintro - ⟨⟩
  · exact Inv.settle houtstanding ⟨htruth, hmkdir, .inl (by decide)⟩

theorem sendInit_tryMkdOnFail :
    (sendInit server.type cache currentPath op).2.tryMkdOnFail = op.tryMkdOnFail := by
  unfold sendInit
  dsimp only
  split_ifs <;> rfl

/-- What the operation sends, and when it ends without sending. -/
theorem Inv.send (hread : server.Readable) (h : Inv server s) (hop : s.op = some op)
    (houtstanding : s.outstanding = none) : Inv server (s.send server canSend op) := by
  obtain ⟨hmkdir, hvalid⟩ := h.valid op hop
  have hcleared : CwdTruth server s.currentPath.clear s.cache s.workingDir :=
    ⟨.inl rfl, h.truth.sound, h.truth.plain⟩
  -- only the two `CWD` states forget the working directory
  cases hstate : op.opState <;>
    simp only [CwdSession.send, FtpChangeDir.send, hstate, Bool.false_eq_true, if_false]
  case init =>
    simp only [FtpChangeDir.Valid, hstate] at hvalid
    refine Inv.settle houtstanding ⟨h.truth, sendInit_tryMkdOnFail.trans hmkdir, ?_⟩
    refine (FtpChangeDir.sendInit_valid hread h.truth hvalid).imp_left ?_
    intro hcode
    rw [hcode]
    decide
  case cwd =>
    refine Inv.sendCommand houtstanding hcleared hmkdir ?_ ?_ fun _ => rfl
    · simpa only [FtpChangeDir.Valid, hstate] using hvalid
    · simp only [FtpChangeDir.Awaits, hstate]
  case cwdSubdir =>
    have hsub : op.subDir ≠ [] := by
      simp only [FtpChangeDir.Valid, hstate] at hvalid
      exact hvalid.2.2.1
    simp only [hsub, if_false]
    refine Inv.sendCommand houtstanding hcleared hmkdir ?_ ?_ fun _ => rfl
    · simpa only [FtpChangeDir.Valid, hstate] using hvalid
    · simp only [FtpChangeDir.Awaits, hstate]
  all_goals
    refine Inv.sendCommand houtstanding h.truth hmkdir hvalid ?_ fun hne => absurd rfl hne
    simp only [FtpChangeDir.Awaits, hstate]

/-- A reply that is skipped: the server may have moved, and the next operation has not begun. -/
theorem Inv.skip (h : Inv server s) (houtstanding : s.outstanding = some command)
    (hskip : s.skip) : Inv server { s with
      outstanding := none, workingDir := server.moved s.workingDir command response,
      skip := false } := by
  have hmoved : s.currentPath.empty = true ∨
      server.moved s.workingDir command response = s.workingDir := by
    by_cases hcommand : command = .pwd
    · right
      rw [hcommand, moved_pwd]
    · exact .inl (h.moving command houtstanding hcommand)
  constructor
  · rcases hmoved with hempty | hsame
    · exact h.truth.of_empty hempty _
    · simpa only [hsame] using h.truth
  · intro op hop
    have hinit := h.awaits command op houtstanding hop
    rw [if_pos hskip] at hinit
    have hvalid := h.valid op hop
    simp only [FtpChangeDir.Valid, hinit] at hvalid ⊢
    exact hvalid
  · rintro _ ⟨⟩
  · rintro _ _ ⟨⟩
  · rintro ⟨⟩

/-- The reply to the command that is outstanding. -/
theorem Inv.reply (hread : server.Readable) (h : Inv server s)
    (houtstanding : s.outstanding = some command)
    (hanswer : server.Answers s.workingDir command response) :
    Inv server (s.reply server command response) := by
  unfold CwdSession.reply
  cases hskip : s.skip with
  | true => exact h.skip houtstanding hskip
  | false =>
    cases hop : s.op with
    | none =>
      rw [h.skipped (by simp [houtstanding]) hop] at hskip
      cases hskip
    | some op =>
      have hawaits := h.awaits command op houtstanding hop
      simp only [hskip, Bool.false_eq_true] at hawaits
      obtain ⟨hmkdir, hvalid⟩ := h.valid op hop
      obtain ⟨code, currentPath, cache, op', hparse, hsettled⟩ :=
        FtpChangeDir.settled_parseResponse h.truth hmkdir hvalid hread hawaits
          (h.moving command houtstanding) hanswer
      simp only [hparse]
      exact Inv.settle rfl hsettled

/-- Whatever happens, if the server answers as its tree is. -/
theorem Inv.step (hread : server.Readable) (h : Inv server s) {e : CwdEvent}
    (hanswered : s.Answered server e)
    (hasked : ∀ path subDir linkDiscovery, e = .changeDir path subDir linkDiscovery →
      server.Asked path)
    (hstep : s.step server canSend e = some t) : Inv server t := by
  cases e with
  | changeDir path subDir linkDiscovery =>
    simp only [CwdSession.step] at hstep
    split at hstep <;> cases hstep
    rename_i hop
    constructor
    · exact h.truth
    · rintro _ ⟨⟩
      exact ⟨rfl, hasked _ _ _ rfl⟩
    · exact h.moving
    · rintro command _ houtstanding ⟨⟩
      have hsome : s.outstanding = some command := houtstanding
      rw [if_pos (h.skipped (by simp [hsome]) hop)]
      rfl
    · rintro - ⟨⟩
  | send =>
    simp only [CwdSession.step] at hstep
    split at hstep <;> cases hstep
    exact h.send hread ‹_› ‹_›
  | reply response =>
    simp only [CwdSession.step] at hstep
    split at hstep <;> cases hstep
    exact h.reply hread ‹_› (hanswered _ ‹_›)
  | cancel =>
    simp only [CwdSession.step] at hstep
    split at hstep <;> cases hstep
    constructor
    · exact h.truth
    · rintro _ ⟨⟩
    · exact h.moving
    · rintro _ _ _ ⟨⟩
    · intro houtstanding _
      exact houtstanding

end CwdSession

end Steps

/-- For a server whose directory names the client can read, and paths that mean the same in every
directory, without a zero in a segment: whenever no command is outstanding the current path is empty
or the one of the working directory, and the path cache names for every path and subdirectory the
directory the server resolves it to. -/
theorem ftp_changeDir_truth (server : FtpServer Dir) (canSend : WString → Bool)
    (hread : server.Readable) {workingDir : Dir} {events : List CwdEvent} {s : CwdSession Dir}
    (hrun : (changeDirSystem server canSend).Run (.fresh workingDir) events s)
    (hasked : ∀ path subDir linkDiscovery, .changeDir path subDir linkDiscovery ∈ events →
      server.Asked path) :
    (s.outstanding = none → s.currentPath.empty = true ∨
      s.currentPath = server.pathOf s.workingDir ∧ server.Resolves s.currentPath s.workingDir) ∧
    ∀ entry ∈ s.cache, server.Sound entry := by
  have hrun' := hrun.restrict (G := fun _ e => ∀ path subDir linkDiscovery,
    e = .changeDir path subDir linkDiscovery → server.Asked path) (by
      rintro e he - path subDir linkDiscovery rfl
      exact hasked path subDir linkDiscovery he)
  have hinv : CwdSession.Inv server s := by
    refine hrun'.invariant (CwdSession.Inv server) ?_ (.fresh workingDir)
    rintro s e t ⟨⟨hstep, hanswered⟩, hasked⟩ h
    exact h.step hread hanswered hasked hstep
  refine ⟨fun _ => hinv.truth.path.imp_right fun hpath => ⟨hpath, ?_⟩, hinv.truth.sound⟩
  rw [hpath]
  exact hread.resolves s.workingDir

/-- A server with the directories `/` and `/pub`, and a link to the second. -/
def twoDirs : FtpServer Bool where
  type := .unix
  name dir := if dir then "/pub".toList else "/".toList
  cwd workingDir argument :=
    if argument = "/".toList then some false
    else if argument = "/pub".toList ∨ argument = "/link".toList then some true
    else if !workingDir ∧ argument = "pub".toList then some true
    else none
  cdup _ := some false

/-- To where the link leads, and up from there. -/
def overLink : List CwdEvent :=
  [.changeDir (unixPath ["link"]) [] false, .send, .send, .reply "250 OK".toList, .send,
    .reply "257 \"/pub\" is the current directory".toList,
    .changeDir (unixPath ["link"]) "..".toList false, .send, .send, .reply "250 OK".toList, .send,
    .reply "257 \"/\"".toList]

theorem ftp_changeDir_truth_link : ∃ s, (changeDirSystem twoDirs fun _ => true).Run
      (.fresh false) overLink s ∧ s.outstanding = none ∧ s.currentPath = unixPath [] ∧
    s.cache = [(⟨unixPath ["link"], []⟩, unixPath ["pub"]),
      (⟨unixPath ["link"], "..".toList⟩, unixPath [])] ∧
    (s.currentPath.empty = true ∨ s.currentPath = twoDirs.pathOf s.workingDir ∧
      twoDirs.Resolves s.currentPath s.workingDir) ∧
    ∀ entry ∈ s.cache, twoDirs.Sound entry := by
  have hread : twoDirs.Readable := by
    constructor
    · decide
    · intro dir w
      revert dir w
      decide
  have hrun : (changeDirSystem twoDirs fun _ => true).Run (.fresh false) overLink
      ⟨unixPath [], [(⟨unixPath ["link"], []⟩, unixPath ["pub"]),
        (⟨unixPath ["link"], "..".toList⟩, unixPath [])], none, none, false, false⟩ :=
    Lts.run_restrict_ofFun (by decide +kernel)
  have hasked : twoDirs.Asked (unixPath ["link"]) := by
    refine .inr ⟨⟨by decide, ?_⟩, ?_⟩
    · decide
    · decide
  have htruth := ftp_changeDir_truth twoDirs (fun _ => true) hread hrun (by
    intro path subDir linkDiscovery hmem
    have hpath : path = unixPath ["link"] := by
      simp only [overLink, List.mem_cons, CwdEvent.changeDir.injEq, reduceCtorEq, false_or,
        List.not_mem_nil, or_false] at hmem
      rcases hmem with h | h <;> exact h.1
    rw [hpath]
    exact hasked)
  exact ⟨_, hrun, rfl, rfl, rfl, htruth.1 rfl, htruth.2⟩

/-- A Unix server of unknown type with a directory `backup:[2020..2021]`. -/
def bracketServer : FtpServer Bool where
  type := .default
  name dir := if dir then "/backup:[2020..2021]".toList else "/".toList
  cwd workingDir argument :=
    if argument = "/".toList then some false
    else if argument = "/backup:[2020..2021]".toList then some true
    else if !workingDir ∧ argument = "backup:[2020..2021]".toList then some true
    else none
  cdup _ := some false

/-- The name of the directory is taken for a path of a VMS server, which has no empty segments: the
current path and the cache name a directory that does not exist. -/
theorem ftp_changeDir_misreads : ∃ s, (changeDirSystem bracketServer fun _ => true).Run
      (.fresh false)
      [.changeDir (unixPath ["backup:[2020..2021]"]) [] false, .send, .send,
        .reply "250 OK".toList, .send,
        .reply "257 \"/backup:[2020..2021]\" is the current directory".toList] s ∧
    (∀ v w, bracketServer.cwd w (bracketServer.name v) = some v) ∧
    bracketServer.Asked (unixPath ["backup:[2020..2021]"]) ∧
    s.outstanding = none ∧ s.workingDir = true ∧ s.currentPath.empty = false ∧
    bracketServer.name s.workingDir = "/backup:[2020..2021]".toList ∧
    s.currentPath.getPath = "/backup:[2020.2021]".toList ∧
    (∀ w, bracketServer.cwd w s.currentPath.getPath = none) ∧
    s.cache = [(⟨unixPath ["backup:[2020..2021]"], []⟩, s.currentPath)] := by
  have hrun : (changeDirSystem bracketServer fun _ => true).Run (.fresh false)
      [.changeDir (unixPath ["backup:[2020..2021]"]) [] false, .send, .send,
        .reply "250 OK".toList, .send,
        .reply "257 \"/backup:[2020..2021]\" is the current directory".toList]
      ⟨⟨.vms, some ⟨["2020".toList, "2021".toList], some "/backup:".toList⟩⟩,
        [(⟨unixPath ["backup:[2020..2021]"], []⟩,
          ⟨.vms, some ⟨["2020".toList, "2021".toList], some "/backup:".toList⟩⟩)],
        none, none, false, true⟩ :=
    Lts.run_restrict_ofFun (by decide +kernel)
  refine ⟨_, hrun, by decide, ?_, rfl, rfl, rfl, rfl, by decide, by decide, rfl⟩
  refine .inr ⟨⟨by decide, ?_⟩, by decide⟩
  rintro d ⟨⟩
  decide

end FlintZilla
