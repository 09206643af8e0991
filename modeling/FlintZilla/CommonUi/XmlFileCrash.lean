import FlintZilla.Ascii
import FlintZilla.CommonUi.XmlFile
import FlintZilla.Lib.Lts

/-!
# A crash while settings are saved

At any moment of `Save` the file or its backup is complete: the backup is synced before the file is
emptied, and it goes only after the file is synced, or in its place. So the next `Load` finds the
old document or the new one, and while it restores the file from the backup this stays so.

Main results:

* `safe_save`, `safe_load`: between any two operations on the disk the document can be recovered.
* `recoverable_reach`: so it can in every state that a crash may leave.
* `load_after_crash`: the next `Load` gives the old document or the new one.
-/

namespace FlintZilla

open Lib Lib.Crash Lib.Files List Option

variable {Doc : Type} {fmt : XmlFormat Doc}

/-- A complete file. Of its proper beginnings, those that parse give the same document. -/
structure XmlFormat.Serialised (fmt : XmlFormat Doc) (data : List UInt8) (doc : Doc) : Prop where
  ne_nil : data ≠ []
  loads : fmt.loadFile data = .ok doc
  hasRoot : fmt.hasRoot doc = true
  parts : ∀ part, part <+: data → part ≠ data →
    (∃ e, fmt.loadFile part = .error e) ∨ fmt.loadFile part = .ok doc

/-- A part of a document is the document or does not parse. -/
theorem XmlFormat.Serialised.part {data part : List UInt8} {doc : Doc}
    (h : fmt.Serialised data doc) (hpart : part <+: data) :
    (∃ e, fmt.loadFile part = .error e) ∨ fmt.loadFile part = .ok doc := by
  by_cases heq : part = data
  · right
    rw [heq, h.loads]
  · exact h.parts part hpart heq

/-! ## Copying and writing -/

section Writing

variable {ok : Fault → Prop} {C : Disk XmlName → Prop} {d : Disk XmlName} {dest : XmlName}

/-- The loop writes everything, or stops at a failure. -/
theorem safe_copyLoop {fuel : Nat} (before : List UInt8) {rest : List UInt8}
    (hfuel : rest.length < fuel) (hC : ∀ part, part <+: before ++ rest → C (d.writing dest part)) :
    Safe (device XmlName) ok
      (fun res t => (res = 0 ∧ t = d.writing dest (before ++ rest)) ∨ (res = -1 ∧ Fails ok)) C
      (copyLoop dest fuel rest) (d.writing dest before) := by
  have hhere : C (d.writing dest before) := hC before (prefix_append before rest)
  induction fuel generalizing before rest with
  | zero => cases hfuel
  | succ fuel ih =>
    refine Safe.read ?_ fun hfails => Safe.pure hhere (.inr ⟨rfl, hfails⟩)
    -- what is read is empty only at the end
    cases rest with
    | nil => exact .pure hhere (.inl ⟨rfl, by rw [append_nil]⟩)
    | cons b rest =>
      have hsplit : before ++ (b :: rest).take copyBufferSize ++ (b :: rest).drop copyBufferSize =
          before ++ b :: rest := by
        rw [append_assoc, take_append_drop]
      have hpart : ∀ part, part <+: before ++ (b :: rest).take copyBufferSize →
          C (d.writing dest part) := by
        intro part hpart
        refine hC part (hpart.trans ?_)
        rw [← hsplit]
        exact prefix_append _ _
      refine Safe.write hhere (Safe.ite (fun _ => ?_) fun h => absurd rfl h) ?_
      · have hshort : ((b :: rest).drop copyBufferSize).length < fuel := by
          rw [length_drop]
          simp only [copyBufferSize, length_cons] at hfuel ⊢
          omega
        have hrest := ih (before ++ (b :: rest).take copyBufferSize) hshort
          (fun part hp => hC part (hsplit ▸ hp)) (hpart _ (prefix_refl _))
        rwa [hsplit] at hrest
      · intro kept hkept hfails
        have hC' := hpart (before ++ kept) (prefix_append_right_inj before |>.mpr hkept)
        exact .ite (fun h => absurd h Bool.false_ne_true) fun _ =>
          Safe.pure hC' (.inr ⟨rfl, hfails⟩)

/-- `copy_file` leaves a synced copy, or has failed. -/
theorem safe_copyFile {src : XmlName} {data : List UInt8} (hsrc : (d src).content = some data)
    (hC : C d) (hwriting : ∀ part, part <+: data → C (d.writing dest part))
    (hdone : C (d.set dest { durable := some data })) :
    Safe (device XmlName) ok
      (fun r t => (r = true ∧ t = d.set dest { durable := some data }) ∨ (r = false ∧ Fails ok)) C
      (copyFile src dest) d := by
  have hempty : C (d.writing dest []) := hwriting [] nil_prefix
  refine Safe.openRead ?_ fun hfails => ?_
  · rw [hsrc]
    refine Safe.openEmpty hC ?_ fun hfails => Safe.pure hC (.inr ⟨rfl, hfails⟩)
    refine .bind (safe_copyLoop [] (Nat.lt_succ_self _) hwriting) ?_
    rintro res t ht (⟨rfl, rfl⟩ | ⟨rfl, hfails⟩)
    · exact Safe.fsync ht (Safe.pure hdone (.inl ⟨rfl, rfl⟩)) fun _ =>
        Safe.pure hdone (.inl ⟨rfl, rfl⟩)
    · exact .pure ht (.inr ⟨rfl, hfails⟩)
  · -- the destination is emptied even so
    exact Safe.openEmpty hC (Safe.pure hempty (.inr ⟨rfl, hfails⟩)) fun _ =>
      Safe.pure hC (.inr ⟨rfl, hfails⟩)

variable {blocks : List (List UInt8)}

/-- Block after block, a beginning of the data is in the file. -/
theorem safe_writeBlocks (before : List UInt8)
    (hC : ∀ part, part <+: before ++ blocks.flatten → C (d.writing dest part)) :
    Safe (device XmlName) ok
      (fun r t => (r = true ∧ t = d.writing dest (before ++ blocks.flatten)) ∨
        (r = false ∧ ∃ part, t = d.writing dest part)) C
      (writeBlocks dest blocks) (d.writing dest before) := by
  have hhere : C (d.writing dest before) := hC before (prefix_append before _)
  induction blocks generalizing before with
  | nil => exact .pure hhere (.inl ⟨rfl, by simp⟩)
  | cons block blocks ih =>
    rw [flatten_cons, ← append_assoc] at hC ⊢
    have hblock : ∀ part, part <+: before ++ block → C (d.writing dest part) := fun part hpart =>
      hC part (hpart.trans (prefix_append _ _))
    refine Safe.write hhere ?_ ?_
    · exact ih (before ++ block) hC (hblock _ (prefix_refl _))
    · intro kept hkept _
      have hC' := hblock (before ++ kept) ((prefix_append_right_inj before).mpr hkept)
      exact .pure hC' (.inr ⟨rfl, _, rfl⟩)

/-- The file is written and synced, or the writer has failed and touched nothing else. -/
theorem safe_flushingXmlWriterSave (hC : C d)
    (hwriting : ∀ part, part <+: blocks.flatten → C (d.writing dest part))
    (hdone : C (d.set dest { durable := some blocks.flatten })) :
    Safe (device XmlName) ok
      (fun r t => (r = true ∧ t = d.set dest { durable := some blocks.flatten }) ∨
        (r = false ∧ ∀ n, n ≠ dest → t n = d n)) C
      (flushingXmlWriterSave blocks dest) d := by
  refine Safe.openEmpty hC ?_ fun _ => Safe.pure hC (.inr ⟨rfl, fun _ _ => rfl⟩)
  refine .bind (safe_writeBlocks [] hwriting) ?_
  rintro r t ht (⟨rfl, rfl⟩ | ⟨rfl, part, rfl⟩)
  · refine Safe.fsync (g := Prog.ret) ht (Safe.pure hdone (.inl ⟨rfl, rfl⟩)) fun _ => ?_
    exact .pure hdone (.inr ⟨rfl, fun n hn => Disk.set_other _ hn⟩)
  · exact .pure ht (.inr ⟨rfl, fun n hn => Disk.writing_other _ hn⟩)

end Writing

/-! ## Disks that can be recovered -/

/-- The beginning of one of the two contents, if there is a file at all. -/
def Cut (o n : List UInt8) (content : Option (List UInt8)) : Prop :=
  ∀ data ∈ content, data <+: o ∨ data <+: n

/-- The file is complete, or it is cut off and the backup is complete. -/
inductive Recoverable (o n : List UInt8) (d : Disk XmlName) : Prop where
  | complete {data : List UInt8} (hdata : data = o ∨ data = n)
      (hfile : d .file = { durable := some data })
  | restorable (hbackup : d .backup = { durable := some o }) (hdurable : Cut o n (d .file).durable)
      (hunsynced : Cut o n (d .file).unsynced)

section Recovery

variable {o n : List UInt8} {d : Disk XmlName}

/-- A file that is not there. -/
theorem cut_none : Cut o n none := by
  intro data hdata
  cases hdata

variable {data : List UInt8}

theorem cut_some (h : data <+: o ∨ data <+: n) : Cut o n (some data) := by
  intro data' hdata
  rw [← some.inj hdata]
  exact h

/-- A crash may leave less of it. -/
theorem Cut.part {part : List UInt8} (h : Cut o n (some data)) (hpart : part <+: data) :
    Cut o n (some part) := by
  rcases h data rfl with ho | hn
  · exact cut_some (.inl (hpart.trans ho))
  · exact cut_some (.inr (hpart.trans hn))

/-- A crash leaves the disk recoverable. -/
theorem Recoverable.crash (h : Recoverable o n d) (loss : XmlName → Option Nat) :
    Recoverable o n ((device XmlName).crash loss d) := by
  cases h with
  | complete hdata hfile =>
    refine .complete hdata ?_
    change (d .file).crash (loss .file) = _
    rw [hfile, File.crash_synced]
  | restorable hbackup hdurable hunsynced =>
    have hbackup' : (device XmlName).crash loss d .backup = { durable := some o } := by
      change (d .backup).crash (loss .backup) = _
      rw [hbackup, File.crash_synced]
    have hfile : (device XmlName).crash loss d .file = (d .file).crash (loss .file) := rfl
    rcases File.crash_cases (loss .file) (d .file) with hkeep | ⟨data, kept, hdata, hkept, hkeep⟩
    · refine .restorable hbackup' ?_ ?_
      · rw [hfile, hkeep]
        exact hdurable
      · rw [hfile, hkeep]
        exact cut_none
    · rw [hdata] at hunsynced
      refine .restorable hbackup' ?_ ?_
      · rw [hfile, hkeep]
        exact hunsynced.part hkept
      · rw [hfile, hkeep]
        exact cut_none

/-- Writing one of the two contents to the file keeps the backup usable. -/
theorem Recoverable.writing {part : List UInt8} (hbackup : d .backup = { durable := some o })
    (hdurable : Cut o n (d .file).durable) (hpart : part <+: o ∨ part <+: n) :
    Recoverable o n (d.writing .file part) := by
  refine .restorable ?_ ?_ ?_
  · rw [Disk.writing_other part (by decide), hbackup]
  · exact hdurable
  · exact cut_some hpart

/-! ## `Save` -/

variable {ok : Fault → Prop} {x : XmlFile Doc}

/-- With a complete backup, the file can be written; if that fails the backup takes its place. -/
theorem safe_saveOver (hn : (fmt.save x.document).flatten = n)
    (hfile : d .file = { durable := some o }) (hbackup : d .backup = { durable := some o }) :
    Safe (device XmlName) ok (fun _ _ => True) (Recoverable o n) (x.saveOver fmt true) d := by
  have hcut : Cut o n (d .file).durable := by
    rw [hfile]
    exact cut_some (.inl (prefix_refl o))
  -- as long as the file is written, the backup is whole
  have hwriting : ∀ part, part <+: (fmt.save x.document).flatten →
      Recoverable o n (d.writing .file part) := fun part hpart =>
    Recoverable.writing hbackup hcut (.inr (hn ▸ hpart))
  have hdone : ∀ t : Disk XmlName, t .file = { durable := some (fmt.save x.document).flatten } →
      Recoverable o n t := fun t ht => .complete (.inr hn) ht
  have hrename : ∀ t : Disk XmlName, Recoverable o n t → t .backup = { durable := some o } →
      Safe (device XmlName) ok (fun _ _ => True) (Recoverable o n)
        (rename .backup .file >>= fun _ =>
          pure (false, { x with error := "Failed to write xml file".toList })) t := by
    intro t ht htb
    refine Safe.rename ht (Safe.pure (.complete (.inl rfl) ?_) trivial) (Safe.pure ht trivial)
    rw [Disk.set_other _ (by decide), Disk.set_same, htb]
  refine .bind (safe_flushingXmlWriterSave (.complete (.inl rfl) hfile) hwriting
    (hdone _ (Disk.set_same _))) ?_
  rintro success t ht (⟨rfl, rfl⟩ | ⟨rfl, hother⟩)
  · -- the file is synced, so the backup may go
    refine Safe.remove ht (Safe.pure (hdone _ ?_) trivial) fun _ => Safe.pure ht trivial
    rw [Disk.set_other _ (by decide), Disk.set_same]
  · -- the file could not be written: the backup takes its place
    have hbackup' : t .backup = { durable := some o } := by
      rw [hother .backup (by decide), hbackup]
    refine Safe.remove ht (hrename _ ?_ ?_) fun _ => hrename _ ht hbackup'
    · refine .restorable ?_ ?_ ?_
      · rw [Disk.set_other _ (by decide), hbackup']
      · exact cut_none
      · exact cut_none
    · rw [Disk.set_other _ (by decide), hbackup']

/-- From a file with the old content on, `SaveXmlFile` may stop anywhere. -/
theorem safe_saveXmlFile (hn : (fmt.save x.document).flatten = n)
    (hfile : d .file = { durable := some o }) :
    Safe (device XmlName) ok (fun _ _ => True) (Recoverable o n) (x.saveXmlFile fmt) d := by
  have hcontent : (d .file).content = some o := by
    rw [hfile]
    rfl
  -- the file is complete while the backup is made
  have hfile' : ∀ t : Disk XmlName, t .file = d .file → Recoverable o n t := fun t ht =>
    .complete (.inl rfl) (ht.trans hfile)
  refine Safe.isFile ?_
  rw [hcontent]
  refine .bind (safe_copyFile hcontent (hfile' d rfl)
    (fun part _ => hfile' _ (Disk.writing_other part (by decide)))
    (hfile' _ (Disk.set_other _ (by decide)))) ?_
  rintro copied t ht (⟨rfl, rfl⟩ | ⟨rfl, -⟩)
  · exact safe_saveOver hn ((Disk.set_other _ (by decide)).trans hfile) (Disk.set_same _)
  · exact .pure ht trivial

/-- `Save` of the document. -/
theorem safe_save {updateMetadata : Bool} (hn : (fmt.save (x.saved fmt updateMetadata)).flatten = n)
    (hfile : d .file = { durable := some o }) :
    Safe (device XmlName) ok (fun _ _ => True) (Recoverable o n) (x.save fmt updateMetadata) d := by
  refine .ite (fun _ => Safe.pure (.complete (.inl rfl) hfile) trivial) fun _ => ?_
  exact safe_saveXmlFile hn hfile

/-! ## `Load` -/

/-- No operation fails. -/
def NoFault (f : Fault) : Prop := f.fails = false

/-- Without faults no operation fails. -/
theorem not_fails_noFault : ¬Fails NoFault := by
  rintro ⟨f, hf, hfails⟩
  rw [hf] at hfails
  cases hfails

variable {C : Disk XmlName → Prop} {x : XmlFile Doc} {name : XmlName}

/-- A file that does not parse, or no file. -/
theorem safe_getXmlFile_unusable (hC : C d)
    (hcontent : ∀ data ∈ (d name).content, data = [] ∨ ∃ e, fmt.loadFile data = .error e) :
    Safe (device XmlName) NoFault
      (fun y t => t = d ∧ y.element = false ∧ y.fileName = x.fileName) C
      (x.getXmlFile fmt name) d := by
  refine Safe.getSize ?_
  cases hdata : (d name).content with
  | none => exact .pure hC ⟨rfl, rfl, rfl⟩
  | some data =>
    refine .ite (fun _ => Safe.pure hC ⟨rfl, rfl, rfl⟩) fun hsize => ?_
    refine Safe.openRead ?_ fun hfails => absurd hfails not_fails_noFault
    rw [hdata]
    rcases hcontent data hdata with rfl | ⟨e, he⟩
    · exact absurd le_rfl hsize
    · dsimp only
      rw [he]
      exact .pure hC ⟨rfl, rfl, rfl⟩

/-- A file with a document is read and not changed. -/
theorem safe_getXmlFile_document {doc : Doc} (hC : C d) (hcontent : (d name).content = some data)
    (hne : data ≠ []) (hload : fmt.loadFile data = .ok doc) (hroot : fmt.hasRoot doc) :
    Safe (device XmlName) NoFault
      (fun y t => t = d ∧ y.element = true ∧ y.document = doc ∧ y.fileName = x.fileName) C
      (x.getXmlFile fmt name) d := by
  refine Safe.getSize ?_
  rw [hcontent]
  refine .ite (fun hsize => ?_) fun _ => ?_
  · have hlength := length_pos_iff.mpr hne
    simp only [elim_some] at hsize
    omega
  · refine Safe.openRead ?_ fun hfails => absurd hfails not_fails_noFault
    rw [hcontent]
    dsimp only
    rw [hload]
    dsimp only
    rw [if_pos hroot]
    exact .pure hC ⟨rfl, rfl, rfl, rfl⟩

/-- The file is restored from the complete backup. -/
theorem safe_restore {err : WString} (hbackup : d .backup = { durable := some o })
    (hdurable : Cut o n (d .file).durable) (hunsynced : Cut o n (d .file).unsynced)
    (helement : x.element) :
    Safe (device XmlName) NoFault (fun y _ => y.root = some x.document) (Recoverable o n)
      (x.restore fmt err) d := by
  have hcontent : (d .backup).content = some o := by
    rw [hbackup]
    rfl
  refine .bind (safe_copyFile hcontent (.restorable hbackup hdurable hunsynced)
    (fun part hpart => Recoverable.writing hbackup hdurable (.inl hpart))
    (.complete (.inl rfl) (Disk.set_same _))) ?_
  rintro copied t ht (⟨rfl, rfl⟩ | ⟨rfl, hfails⟩)
  · have hroot : ∀ e, ({ x with error := e } : XmlFile Doc).root = some x.document := by
      intro e
      unfold XmlFile.root
      rw [if_pos helement]
    refine Safe.remove ht (Safe.pure (.complete (.inl rfl) ?_) (hroot _)) fun hfails =>
      absurd hfails not_fails_noFault
    rw [Disk.set_other _ (by decide), Disk.set_same]
  · exact absurd hfails not_fails_noFault

/-- The documents a load may give. -/
def LoadsOne (old new : Doc) (y : XmlFile Doc) : Prop := y.root = some old ∨ y.root = some new

variable {old new : Doc}

/-- What is read is what was synced or what was not. -/
theorem cut_content {f : File} (hdurable : Cut o n f.durable) (hunsynced : Cut o n f.unsynced) :
    Cut o n f.content := by
  unfold File.content
  cases hdata : f.unsynced with
  | none => exact hdurable
  | some data =>
    rw [hdata] at hunsynced
    exact hunsynced

/-- What is in a cut file is a beginning of one of the two documents, and says so if it parses. -/
theorem Cut.loads {content : Option (List UInt8)} (h : Cut o n content)
    (hold : fmt.Serialised o old) (hnew : fmt.Serialised n new) :
    (∀ data ∈ content, data = [] ∨ ∃ e, fmt.loadFile data = .error e) ∨
      ∃ data doc, content = some data ∧ data ≠ [] ∧ fmt.loadFile data = .ok doc ∧
        (doc = old ∨ doc = new) := by
  cases content with
  | none =>
    left
    intro data hdata
    cases hdata
  | some data =>
    have hparse : (∃ e, fmt.loadFile data = .error e) ∨
        ∃ doc, fmt.loadFile data = .ok doc ∧ (doc = old ∨ doc = new) := by
      rcases h data rfl with ho | hn
      · exact (hold.part ho).imp id fun hload => ⟨old, hload, .inl rfl⟩
      · exact (hnew.part hn).imp id fun hload => ⟨new, hload, .inr rfl⟩
    by_cases hne : data = []
    · left
      intro data' hdata
      exact .inl (some.inj hdata ▸ hne)
    · rcases hparse with herror | ⟨doc, hload, hdoc⟩
      · left
        intro data' hdata
        obtain rfl := some.inj hdata
        exact .inr herror
      · exact .inr ⟨data, doc, rfl, hne, hload, hdoc⟩

/-- `Load` of a file that parses to one of the documents. -/
theorem safe_load_file {doc : Doc} (hname : x.fileName ≠ [])
    (overwriteInvalid : Bool) (hC : C d) (hcontent : (d .file).content = some data)
    (hne : data ≠ []) (hload : fmt.loadFile data = .ok doc) (hroot : fmt.hasRoot doc) :
    Safe (device XmlName) NoFault (fun y _ => y.root = some doc) C
      (x.load fmt overwriteInvalid) d := by
  refine .ite (fun hempty => absurd (isEmpty_iff.mp hempty) hname) fun _ => ?_
  refine .bind (safe_getXmlFile_document hC hcontent hne hload hroot) ?_
  rintro y t ht ⟨-, helement, rfl, -⟩
  rw [if_pos helement]
  exact .pure ht (by rw [XmlFile.root, if_pos helement])

/-- `Load` of a file that does not parse, with a complete backup. -/
theorem safe_load_backup (hold : fmt.Serialised o old) (hname : x.fileName ≠ [])
    (overwriteInvalid : Bool) (hbackup : d .backup = { durable := some o })
    (hdurable : Cut o n (d .file).durable) (hunsynced : Cut o n (d .file).unsynced)
    (hcontent : ∀ data ∈ (d .file).content, data = [] ∨ ∃ e, fmt.loadFile data = .error e) :
    Safe (device XmlName) NoFault (fun y _ => y.root = some old) (Recoverable o n)
      (x.load fmt overwriteInvalid) d := by
  have hd : Recoverable o n d := .restorable hbackup hdurable hunsynced
  have hbackup' : (d .backup).content = some o := by
    rw [hbackup]
    rfl
  refine .ite (fun hempty => absurd (isEmpty_iff.mp hempty) hname) fun _ => ?_
  refine .bind (safe_getXmlFile_unusable hd hcontent) ?_
  rintro y t ht ⟨rfl, helement, -⟩
  rw [if_neg (by simp [helement])]
  refine .bind
    (safe_getXmlFile_document hd hbackup' hold.ne_nil hold.loads hold.hasRoot) ?_
  rintro z t ht ⟨rfl, helement, rfl, -⟩
  rw [if_pos helement]
  exact safe_restore hbackup hdurable hunsynced helement

/-- `Load` of a recoverable disk gives one of the documents, and may stop anywhere. -/
theorem safe_load (hold : fmt.Serialised o old) (hnew : fmt.Serialised n new)
    (hname : x.fileName ≠ []) (overwriteInvalid : Bool) (hd : Recoverable o n d) :
    Safe (device XmlName) NoFault (fun y _ => LoadsOne old new y) (Recoverable o n)
      (x.load fmt overwriteInvalid) d := by
  have hone : ∀ (doc : Doc), doc = old ∨ doc = new → ∀ (y : XmlFile Doc),
      y.root = some doc → LoadsOne old new y := by
    rintro doc (rfl | rfl) y hy
    · exact .inl hy
    · exact .inr hy
  have hroot : ∀ doc, doc = old ∨ doc = new → fmt.hasRoot doc = true := by
    rintro doc (rfl | rfl)
    · exact hold.hasRoot
    · exact hnew.hasRoot
  cases hd with
  | complete hdata hfile =>
    rename_i data
    have hcontent : (d .file).content = some data := by
      rw [hfile]
      rfl
    obtain ⟨doc, hserialised, hdoc⟩ : ∃ doc, fmt.Serialised data doc ∧ (doc = old ∨ doc = new) := by
      rcases hdata with rfl | rfl
      · exact ⟨old, hold, .inl rfl⟩
      · exact ⟨new, hnew, .inr rfl⟩
    refine .mono (safe_load_file hname overwriteInvalid (.complete hdata hfile) hcontent
      hserialised.ne_nil hserialised.loads hserialised.hasRoot) ?_
    intro y _ _ hy
    exact hone doc hdoc y hy
  | restorable hbackup hdurable hunsynced =>
    rcases (cut_content hdurable hunsynced).loads hold hnew with hcontent |
      ⟨data, doc, hcontent, hne, hload, hdoc⟩
    · refine .mono (safe_load_backup hold hname overwriteInvalid hbackup hdurable hunsynced
        hcontent) ?_
      intro y _ _ hy
      exact .inl hy
    · refine .mono (safe_load_file hname overwriteInvalid
        (.restorable hbackup hdurable hunsynced) hcontent hne hload (hroot doc hdoc)) ?_
      intro y _ _ hy
      exact hone doc hdoc y hy

end Recovery

/-! ## Crashes -/

/-- A crash of `Load`: after so many operations, with what is lost. -/
structure LoadCrash (Doc : Type) where
  file : XmlFile Doc
  overwriteInvalid : Bool
  operations : Nat
  loss : XmlName → Option Nat

/-- The disks after a crash in `Save`, and then any number of crashes in `Load`. -/
def recovery (fmt : XmlFormat Doc) (start : Disk XmlName) (x : XmlFile Doc)
    (updateMetadata : Bool) : Lts (Disk XmlName) (LoadCrash Doc) where
  Init := fun d => ∃ faults loss,
    d = (device XmlName).crash loss
      ((x.save fmt updateMetadata).exec (device XmlName) faults start).2
  Step := fun d c e =>
    e = (device XmlName).crash c.loss
      ((c.file.load fmt c.overwriteInvalid).exec (device XmlName)
        (List.replicate c.operations {}) d).2

/-- A crash of `Save`, or of the `Load` after it, any number of times. -/
theorem recoverable_reach {o : List UInt8} {old : Doc} {start d : Disk XmlName} {x : XmlFile Doc}
    {updateMetadata : Bool} (hold : fmt.Serialised o old)
    (hnew : fmt.Serialised (fmt.save (x.saved fmt updateMetadata)).flatten
      (x.saved fmt updateMetadata))
    (hstart : start .file = { durable := some o })
    (hreach : (recovery fmt start x updateMetadata).Reach d) :
    Recoverable o (fmt.save (x.saved fmt updateMetadata)).flatten d := by
  refine Lts.Reach.invariant _ ?_ ?_ hreach
  · rintro d ⟨faults, loss, rfl⟩
    have hsafe : Safe (device XmlName) (fun _ => True) _ _ (x.save fmt updateMetadata) start :=
      safe_save rfl hstart
    have hstopped := (hsafe.exec (fun f (_ : f ∈ faults) => trivial)).stopped
    exact hstopped.crash loss
  · rintro d c e rfl hd
    have hsafe : Safe (device XmlName) NoFault (fun _ _ => True)
        (Recoverable o (fmt.save (x.saved fmt updateMetadata)).flatten)
        (c.file.load fmt c.overwriteInvalid) d := by
      by_cases hname : c.file.fileName = []
      · -- without a name `Load` does nothing
        exact .ite (fun _ => Safe.pure hd trivial) fun h => absurd (isEmpty_iff.mpr hname) h
      · exact .mono (safe_load hold hnew hname c.overwriteInvalid hd) fun _ _ _ _ => trivial
    have hfaults : ∀ f ∈ replicate c.operations ({} : Fault), NoFault f := by
      intro f hf
      rw [eq_of_mem_replicate hf]
      rfl
    exact (hsafe.exec hfaults).stopped.crash c.loss

/-- However `Save` is interrupted, with whatever failures before, and however often the loads behind
it are: the next `Load` ends with the complete old document or the complete new one. -/
theorem load_after_crash {o : List UInt8} {old : Doc} {start d : Disk XmlName} {x : XmlFile Doc}
    {updateMetadata : Bool} (hold : fmt.Serialised o old)
    (hnew : fmt.Serialised (fmt.save (x.saved fmt updateMetadata)).flatten
      (x.saved fmt updateMetadata))
    (hstart : start .file = { durable := some o })
    (hreach : (recovery fmt start x updateMetadata).Reach d)
    (y : XmlFile Doc) (hname : y.fileName ≠ []) (overwriteInvalid : Bool) :
    LoadsOne old (x.saved fmt updateMetadata)
      ((y.load fmt overwriteInvalid).finish (device XmlName) {} d).1 := by
  have hd := recoverable_reach hold hnew hstart hreach
  have hsafe := safe_load hold hnew hname overwriteInvalid hd
  exact hsafe.finish (f := {}) rfl

/-- Documents as bytes; a document ends with `>`. -/
def tagFormat : XmlFormat (List UInt8) where
  loadFile := fun data =>
    if data.getLast? = some (asciiChar '>') then .ok data
    else .error ("Error parsing start element tag".toList, data.length)
  hasRoot := fun _ => true
  hasChild := fun _ => true
  appendRoot := id
  emptyDoc := []
  createEmpty := []
  updateMetadata := id
  save := fun doc => [doc]

theorem serialised_tag {c : UInt8} (hc : c ≠ asciiChar '>') :
    tagFormat.Serialised [asciiChar '<', c, asciiChar '>'] [asciiChar '<', c, asciiChar '>'] where
  ne_nil := by simp
  loads := rfl
  hasRoot := rfl
  parts := by
    intro part hpart hne
    left
    refine ⟨_, if_neg ?_⟩
    intro hlast
    obtain ⟨rest, hrest⟩ := hpart
    rcases part with _ | ⟨a, _ | ⟨b, _ | ⟨d, part⟩⟩⟩
    · cases hlast
    · simp only [cons_append, cons.injEq] at hrest
      rw [hrest.1] at hlast
      revert hlast
      decide
    · simp only [cons_append, cons.injEq] at hrest
      rw [hrest.2.1] at hlast
      exact hc (some.inj hlast)
    · simp only [cons_append, cons.injEq, append_eq_nil_iff] at hrest
      obtain ⟨rfl, rfl, rfl, rfl, -⟩ := hrest
      exact hne rfl

/-- `<a>` is overwritten by `<b>`, and the crash leaves `<` of it. -/
theorem load_after_crash_restores : let x : XmlFile (List UInt8) :=
      { fileName := "settings.xml".toList, document := ascii "<b>", element := true }
    let start : Disk XmlName := fun n => if n = .file then { durable := some (ascii "<a>") } else {}
    let d := (device XmlName).crash (fun _ => some 1)
      ((x.save tagFormat true).exec (device XmlName) (List.replicate 9 {}) start).2
    (d .file).durable = some (ascii "<") ∧ LoadsOne (ascii "<a>") (ascii "<b>")
        ((x.load tagFormat false).finish (device XmlName) {} d).1 := by
  intro x start d
  refine ⟨by decide, ?_⟩
  have hold : tagFormat.Serialised (ascii "<a>") (ascii "<a>") := serialised_tag (by decide)
  have hnew : tagFormat.Serialised (tagFormat.save (x.saved tagFormat true)).flatten
      (x.saved tagFormat true) := serialised_tag (c := asciiChar 'b') (by decide)
  have hreach : (recovery tagFormat start x true).Reach d := Lts.Reach.init ⟨_, _, rfl⟩
  exact load_after_crash hold hnew rfl hreach x (by decide) false

end FlintZilla
