import FlintZilla.CommonUi.Updater

/-!
# Only signed builds get ready

The build that is offered keeps to a line of the version information: its hash and its version are
signed, and it is newer than the running program. The updater gets ready in three ways, with a file
that is there already, with one that was downloaded before, and with a new download. Each checks the
size and the hash of the file, and none changes the build in between.

Main results:

* `stepped_handle`: what one event does to the build that is offered and to the state.
* `offered_reach`: the build that is offered is one of the version information, in every reachable
  state.
* `updater_ready_only_signed`: whenever the updater gets ready, the local file is such a build.
-/

namespace FlintZilla

open Lib Lib.Search UpdaterEnv List Option Updater

variable {Date : Type} {env : UpdaterEnv Date}

/-! ## Lines -/

/-- The tokens of a build line with all its fields. -/
structure BuildLine where
  type : WString
  version : WString
  url : WString
  size : WString
  hashAlgo : WString
  hash : WString
  more : List WString
deriving DecidableEq

def BuildLine.tokens (l : BuildLine) : List WString :=
  l.type :: l.version :: l.url :: l.size :: l.hashAlgo :: l.hash :: l.more

/-- A signature of the line is one for its hash and version. -/
def BuildLine.Signed (env : UpdaterEnv Date) (l : BuildLine) : Prop :=
  ∃ token ∈ l.more, token.take 4 = sigTag ∧
    env.verify (Hex.decode l.hash ++ 0 :: l.version.map fun c => c.toNat.toUInt8)
      (env.base64Decode (token.drop 4)) = true

/-- The version of the line is newer than the own one, or its date later than the build date. -/
def BuildLine.Newer (env : UpdaterEnv Date) (l : BuildLine) : Prop :=
  ((l.type = "release".toList ∨ l.type = "beta".toList) ∧
    convertToVersionNumber env.fileZillaVersion < convertToVersionNumber l.version) ∨
  (l.type = "nightly".toList ∧ ∃ date buildDate, env.parseDate l.version = some date ∧
    env.buildDate = some buildDate ∧ env.notLater date buildDate = false)

/-- The build of a signed line of the text. -/
structure BuildLine.Gives (env : UpdaterEnv Date) (text : WString) (l : BuildLine) (b : Build) :
    Prop where
  mem : l.tokens ∈ informationLines text
  signed : l.Signed env
  newer : l.Newer env
  size : b.size = toInt64 (env.toUint64 l.size)
  hash : b.hash = l.hash.map wideToLowerAscii

variable {tokens : List WString}

/-- One of the tokens is a signature that is valid. -/
theorem UpdaterEnv.exists_of_signed {message : List UInt8} (h : env.signed message tokens) :
    ∃ token ∈ tokens, token.take 4 = sigTag ∧
      env.verify message (env.base64Decode (token.drop 4)) = true := by
  unfold signed at h
  -- the last token that is a signature has set the flag
  induction tokens using reverseRecOn with
  | nil => cases h
  | append_singleton tokens token ih =>
    rw [foldl_append, foldl_cons] at h
    split_ifs at h with htag
    · exact ⟨token, by simp, htag, h⟩
    · obtain ⟨token', hmem, htoken'⟩ := ih h
      exact ⟨token', mem_append_left _ hmem, htoken'⟩

/-- Newer as the kind of the build requires it. -/
theorem UpdaterEnv.newer_of_isNewer {kind : BuildKind} {l : BuildLine}
    (hkind : buildKind l.type = some kind) (h : env.isNewer kind l.version) : l.Newer env := by
  unfold buildKind at hkind
  split_ifs at hkind with hnightly hrelease hbeta
  · obtain rfl := some.inj hkind
    right
    refine ⟨hnightly, ?_⟩
    unfold isNewer at h
    dsimp only at h
    split at h
    · next date buildDate hdate hbuild =>
      exact ⟨date, buildDate, hdate, hbuild, by simpa using h⟩
    · cases h
  · obtain rfl := some.inj hkind
    left
    exact ⟨.inl hrelease, by simpa [isNewer] using h⟩
  · obtain rfl := some.inj hkind
    left
    exact ⟨.inr hbeta, by simpa [isNewer] using h⟩

variable {b : Build} {text : WString} {s0 : UpdaterState} {t : Updater} {version : WString}

/-- A build is made only of a line that is signed. -/
theorem UpdaterEnv.parseBuild_eq_some {url sizestr hashAlgo hash : WString}
    {more : List WString} (h : env.parseBuild version url sizestr hashAlgo hash more = some b) :
    env.signed (signedMessage hash version) more = true ∧
      b.size = toInt64 (env.toUint64 sizestr) ∧ b.hash = hash.map wideToLowerAscii := by
  unfold parseBuild at h
  dsimp only at h
  split_ifs at h with hname halgo hsize hsigned hhash
  have hb := some.inj h
  refine ⟨by simpa using hsigned, ?_, ?_⟩
  · rw [← hb]
  · rw [← hb]

/-- A build with a hash comes from a line with all fields. -/
theorem UpdaterEnv.lineBuild_eq_some {fields : List WString}
    (h : env.lineBuild version fields = some b) (hhash : b.hash ≠ []) :
    ∃ url sizestr hashAlgo hash more, fields = url :: sizestr :: hashAlgo :: hash :: more ∧
      env.signed (signedMessage hash version) more = true ∧
      b.size = toInt64 (env.toUint64 sizestr) ∧ b.hash = hash.map wideToLowerAscii := by
  unfold lineBuild at h
  split at h
  · next url sizestr hashAlgo hash more =>
    split_ifs at h
    · exact ⟨url, sizestr, hashAlgo, hash, more, rfl, parseBuild_eq_some h⟩
    · obtain rfl := some.inj h
      exact absurd rfl hhash
  · obtain rfl := some.inj h
    exact absurd rfl hhash

/-! ## The whole text -/

/-- The build has no hash, or it is that of a signed line of the text. -/
def Offered (env : UpdaterEnv Date) (text : WString) (b : Build) : Prop :=
  b.hash ≠ [] → ∃ l : BuildLine, l.Gives env text b

/-- So are all builds found. -/
structure VersionInformation.Offered (env : UpdaterEnv Date) (text : WString)
    (info : VersionInformation) : Prop where
  stable : FlintZilla.Offered env text info.stable
  beta : FlintZilla.Offered env text info.beta
  nightly : FlintZilla.Offered env text info.nightly

/-- Where no build is offered there is nothing to ask. -/
theorem offered_empty : Offered env text {} := fun h => absurd rfl h

variable {info : VersionInformation}

/-- A build is put in its place if it is newer than what is there. -/
theorem UpdaterEnv.offered_setBuild (hinfo : info.Offered env text)
    (hb : Offered env text b) (kind : BuildKind) : (env.setBuild info kind b).Offered env text := by
  cases kind with
  | nightly =>
    unfold setBuild
    dsimp only
    split
    · exact ⟨hinfo.stable, hinfo.beta, hb⟩
    · exact hinfo
  | release => exact ⟨hb, hinfo.beta, hinfo.nightly⟩
  | beta => exact ⟨hinfo.stable, hb, hinfo.nightly⟩

/-- Each line adds at most the build that it describes. -/
theorem UpdaterEnv.offered_parseLine (hinfo : info.Offered env text)
    (hmem : tokens ∈ informationLines text) : (env.parseLine info tokens).Offered env text := by
  unfold parseLine
  split
  · next type version fields =>
    split
    · -- an `eol` line has no build
      split
      · split
        · exact ⟨hinfo.stable, hinfo.beta, hinfo.nightly⟩
        · exact hinfo
      · exact hinfo
    · split
      · exact hinfo
      · next kind hkind =>
        split
        · next hnewer =>
          split
          · exact hinfo
          · next b hb =>
            refine offered_setBuild hinfo (fun hne => ?_) kind
            obtain ⟨url, sizestr, hashAlgo, hash, more, rfl, hsigned, hsize, hhash⟩ :=
              lineBuild_eq_some hb hne
            let l : BuildLine := ⟨type, version, url, sizestr, hashAlgo, hash, more⟩
            exact ⟨l, hmem, exists_of_signed hsigned,
              newer_of_isNewer (l := l) hkind hnewer, hsize, hhash⟩
        · exact hinfo
  · exact hinfo

/-- By induction on the lines. -/
theorem UpdaterEnv.offered_parseInformation (checkBeta : Int) (text : WString) :
    Offered env text (env.parseInformation checkBeta text).available := by
  have hlines : ∀ lines : List (List WString), lines ⊆ informationLines text →
      ∀ info : VersionInformation, info.Offered env text →
        (lines.foldl env.parseLine info).Offered env text := by
    intro lines
    induction lines with
    | nil =>
      intro _ info hinfo
      exact hinfo
    | cons line lines ih =>
      intro hsubset info hinfo
      refine ih (fun x hx => hsubset (mem_cons_of_mem line hx)) _ ?_
      exact offered_parseLine hinfo (hsubset mem_cons_self)
  have hinfo := hlines (informationLines text) (List.Subset.refl _) {}
    ⟨offered_empty, offered_empty, offered_empty⟩
  change Offered env text (VersionInformation.choose _ checkBeta)
  unfold VersionInformation.choose
  split
  · exact hinfo.nightly
  · split
    · exact hinfo.beta
    · exact hinfo.stable

/-! ## Files -/

/-- The file has the size and the hash of the build. -/
def Matches (env : UpdaterEnv Date) (node : Option LocalNode) (b : Build) : Prop :=
  b.hash ≠ [] ∧ ∃ data readable, node = some (.file data readable) ∧ (data.length : Int) = b.size ∧
    Hex.encode (env.sha512 data) = b.hash

variable {files : LocalFiles}

/-- The check compares size and hash of the file itself. -/
theorem UpdaterEnv.matches_of_verifyChecksum {name : WString}
    (h : env.verifyChecksum files name b.size b.hash) : Matches env (files name) b := by
  unfold verifyChecksum at h
  split at h
  · cases h
  · next hempty =>
    rw [Bool.or_eq_true, not_or] at hempty
    refine ⟨fun hhash => hempty.2 (isEmpty_iff.mpr hhash), ?_⟩
    split at h
    · next data readable hnode =>
      simp only [Bool.and_eq_true, decide_eq_true_eq] at h
      exact ⟨data, readable, hnode, h.1.1, h.2⟩
    · cases h

/-- The loop ends without a name, at a name that is free, or at a file that may be used. -/
theorem UpdaterEnv.localFileLoop_cases {allowExisting : Bool} {fn : WString}
    (fuel i : Nat) (f : WString) : let r := env.localFileLoop files b allowExisting fn fuel i f
    r = [] ∨ files r = none ∨
      (allowExisting = true ∧ env.verifyChecksum files r b.size b.hash = true) := by
  induction fuel generalizing i f with
  | zero => exact .inl rfl
  | succ fuel ih =>
    intro r
    by_cases htaken : ((files f).isSome &&
        (!allowExisting || !env.verifyChecksum files f b.size b.hash)) = true
    · have hr : r = if 99 < i + 1 then [] else env.localFileLoop files b allowExisting fn fuel
          (i + 1) (env.downloadDir ++ numberedName fn (i + 1)) := if_pos htaken
      rw [hr]
      split
      · exact .inl rfl
      · exact ih _ _
    · have hr : r = f := if_neg htaken
      rw [hr]
      right
      cases hf : files f with
      | none => exact .inl rfl
      | some node =>
        rw [hf] at htaken
        simpa using htaken

/-- The local file exists already with the right content, or its name is free. -/
theorem UpdaterEnv.getLocalFile_cases (files : LocalFiles) (b : Build) (allowExisting : Bool) :
    let r := env.getLocalFile files b allowExisting
    r = [] ∨ files r = none ∨
      (allowExisting = true ∧ env.verifyChecksum files r b.size b.hash = true) :=
  localFileLoop_cases 99 1 _

/-! ## Steps -/

/-- What a check or a download has come to: the build is still one of the text that was parsed, and
if the state is to be ready then the local file matches it. -/
structure Outcome (env : UpdaterEnv Date) (s0 : UpdaterState) (r : UpdaterState × Updater) :
    Prop where
  state : r.2.state = s0
  offered : Offered env r.2.storedInformation r.2.info.available
  ready : r.1 = .newversionReady → Matches env (r.2.files r.2.localFile) r.2.info.available

variable {u : Updater} {s0 s : UpdaterState}

/-- An outcome that does not make the updater ready. -/
theorem outcome_other (hstate : t.state = s0)
    (hoffered : Offered env t.storedInformation t.info.available) (hs : s ≠ .newversionReady) :
    Outcome env s0 (s, t) :=
  ⟨hstate, hoffered, fun h => absurd h hs⟩

/-- The file is renamed to a name that was free, so the local file is what was checked. -/
theorem outcome_processFinishedDownload (renames : Bool)
    (hoffered : Offered env u.storedInformation u.info.available) :
    Outcome env u.state (env.processFinishedDownload u renames) := by
  unfold processFinishedDownload
  dsimp only
  split
  · exact outcome_other rfl hoffered (by decide)
  · split
    · exact outcome_other rfl hoffered (by decide)
    · next hverify =>
      split
      · exact outcome_other rfl hoffered (by decide)
      · next hname =>
        have hmatches := matches_of_verifyChecksum (by simpa using hverify)
        refine ⟨rfl, hoffered, fun _ => ?_⟩
        dsimp only
        -- the file is renamed to a name that was free, so the content is that of the checked file
        have hfree : u.files (env.getLocalFile u.files u.info.available false) = none := by
          rcases env.getLocalFile_cases u.files u.info.available false with h | h | ⟨h, -⟩
          · rw [h] at hname
            exact absurd rfl hname
          · exact h
          · cases h
        have hne : env.getLocalFile u.files u.info.available false ≠
            env.getTempFile u.info.available := by
          intro heq
          obtain ⟨-, data, readable, hnode, -⟩ := hmatches
          rw [← heq, hfree] at hnode
          cases hnode
        unfold LocalFiles.rename
        rw [Function.update_of_ne hne, Function.update_self]
        exact hmatches

/-- Commands change neither the state nor what is offered. -/
theorem execute_frame (replies : List Nat) (commands : List UpdaterCommand) :
    (u.execute replies commands).2.state = u.state ∧
      (u.execute replies commands).2.storedInformation = u.storedInformation ∧
      (u.execute replies commands).2.info = u.info := by
  unfold execute
  split <;> exact ⟨rfl, rfl, rfl⟩

theorem download_frame (env : UpdaterEnv Date) (replies : List Nat) (url temp : WString) :
    (env.download u replies url temp).2.state = u.state ∧
      (env.download u replies url temp).2.storedInformation = u.storedInformation ∧
      (env.download u replies url temp).2.info = u.info := by
  unfold download
  split
  · exact ⟨rfl, rfl, rfl⟩
  · exact execute_frame _ _

/-- The build is there, or it is downloaded. -/
theorem outcome_fetchBuild (w : Surroundings) (canDownload : Bool) (temp localFile : WString)
    (hoffered : Offered env u.storedInformation u.info.available) :
    Outcome env u.state (env.fetchBuild u w canDownload temp localFile) := by
  unfold fetchBuild
  dsimp only
  split
  · exact outcome_other rfl hoffered (by decide)
  · split
    · exact outcome_processFinishedDownload w.renames hoffered
    · split
      · exact outcome_other rfl hoffered (by decide)
      · obtain ⟨hstate, hstored, hinfo⟩ :=
          download_frame (u := u) env w.replies u.info.available.url temp
        refine outcome_other hstate ?_ ?_
        · rw [hstored, hinfo]
          exact hoffered
        · split <;> decide

/-- Whatever was known before, the parsed text decides. -/
theorem outcome_processFinishedData (w : Surroundings) (canDownload : Bool) :
    Outcome env u.state (env.processFinishedData u w canDownload) := by
  have hoffered : Offered env (env.parseData u w.checkBeta).storedInformation
      (env.parseData u w.checkBeta).info.available :=
    offered_parseInformation w.checkBeta u.rawInformation
  have hstate : (env.parseData u w.checkBeta).state = u.state := rfl
  unfold processFinishedData
  dsimp only
  generalize env.parseData u w.checkBeta = t at hoffered hstate ⊢
  split
  · exact outcome_other hstate hoffered (by decide)
  · split
    · exact outcome_other hstate hoffered (by decide)
    · split
      · exact outcome_other hstate hoffered (by decide)
      · split
        · next hfile =>
          -- the name is taken, so the file there was checked
          refine ⟨hstate, hoffered, fun _ => ?_⟩
          simp only [Bool.and_eq_true, Bool.not_eq_true', isEmpty_eq_false_iff] at hfile
          rcases env.getLocalFile_cases t.files t.info.available true with h | h | ⟨-, h⟩
          · exact absurd h hfile.1
          · rw [h] at hfile
            cases hfile.2
          · exact matches_of_verifyChecksum h
        · rw [← hstate]
          exact outcome_fetchBuild w canDownload _ _ hoffered

/-- The outcome of the local data stands unless a check is due. -/
theorem outcome_shouldCheck (w : Surroundings) (h : Outcome env s0 (s, t)) :
    Outcome env s0 (env.shouldCheck t w s).2 := by
  unfold shouldCheck
  split
  · exact h
  · split
    · split
      · exact h
      · split
        · exact outcome_other h.state offered_empty (by decide)
        · exact h
    · exact h

theorem setState_state (s : UpdaterState) : (u.setState s).state = s := by
  unfold setState
  split
  · next h => exact h.symm
  · rfl

theorem setState_frame (s : UpdaterState) :
    (u.setState s).storedInformation = u.storedInformation ∧ (u.setState s).info = u.info ∧
      (u.setState s).files = u.files ∧ (u.setState s).localFile = u.localFile := by
  unfold setState
  split <;> exact ⟨rfl, rfl, rfl, rfl⟩

/-- The updater is as it may be after a step from state `s0`. -/
structure Stepped (env : UpdaterEnv Date) (s0 : UpdaterState) (t : Updater) : Prop where
  offered : Offered env t.storedInformation t.info.available
  ready : s0 ≠ .newversionReady → t.state = .newversionReady →
    Matches env (t.files t.localFile) t.info.available

/-- An outcome that has become the state. -/
theorem stepped_setState {s1 : UpdaterState} (h : Outcome env s1 (s, t)) :
    Stepped env s0 (t.setState s) := by
  obtain ⟨hstored, hinfo, hfiles, hlocal⟩ := setState_frame (u := t) s
  refine ⟨?_, ?_⟩
  · rw [hstored, hinfo]
    exact h.offered
  · intro _ hready
    rw [setState_state] at hready
    rw [hfiles, hlocal, hinfo]
    exact h.ready hready

theorem stepped_unready (hoffered : Offered env t.storedInformation t.info.available)
    (hstate : t.state = .newversionReady → s0 = .newversionReady) : Stepped env s0 t :=
  ⟨hoffered, fun h0 ht => absurd (hstate ht) h0⟩

theorem outcome_loadLocalData (env : UpdaterEnv Date) (u : Updater) (w : Surroundings) :
    Outcome env u.state (env.loadLocalData u w) := by
  unfold loadLocalData
  generalize (if !w.longTimeAtLoad || w.disableUpdateCheck then u.storedInformation else []) = raw
  exact outcome_processFinishedData (u := { u with rawInformation := raw }) w env.autoUpdateCheck

/-- A request to the server is started, or the check has failed. -/
theorem stepped_startCheck (w : Surroundings) (hstate : u.state = .checking)
    (hoffered : Offered env u.storedInformation u.info.available) :
    Stepped env s0 (u.startCheck w) := by
  obtain ⟨hstate', hstored, hinfo⟩ := execute_frame (u := { u with localFile := [] })
    w.replies [.disconnect, .connect, .httpRequest]
  unfold startCheck request
  dsimp only at hstate' hstored hinfo ⊢
  generalize execute _ _ _ = r at hstate' hstored hinfo ⊢
  split
  · refine stepped_unready ?_ ?_
    · rw [hstored, hinfo]
      exact hoffered
    · intro hready
      rw [hstate', hstate] at hready
      cases hready
  · obtain ⟨hstored', hinfo', -⟩ := setState_frame (u := r.2) .failed
    refine stepped_unready ?_ ?_
    · rw [hstored', hinfo', hstored, hinfo]
      exact hoffered
    · intro hready
      rw [setState_state] at hready
      cases hready

/-- A run that is not turned away passes through the state `checking`, so that whatever state it
started from does not matter. -/
theorem stepped_checked (hrun : ¬(u.state.isBusy || env.fileZillaVersion.isEmpty) = true)
    (manual : Bool) (w : Surroundings) : Stepped env s0 (env.onRun u manual w) := by
  unfold onRun
  rw [if_neg hrun]
  dsimp only
  have hloaded := outcome_loadLocalData env ({ u with manual := manual }.setState .checking) w
  rw [setState_state] at hloaded
  have hchecked := outcome_shouldCheck w hloaded
  split
  · exact stepped_startCheck w hchecked.state hchecked.offered
  · exact stepped_setState hchecked

section

variable (hoffered : Offered env u.storedInformation u.info.available)
include hoffered

/-- A run. -/
theorem stepped_onRun (manual : Bool) (w : Surroundings) :
    Stepped env u.state (env.onRun u manual w) := by
  by_cases hrun : (u.state.isBusy || env.fileZillaVersion.isEmpty) = true
  · unfold onRun
    rw [if_pos hrun]
    exact stepped_unready hoffered id
  · exact stepped_checked hrun manual w

/-- The version information has arrived. -/
theorem stepped_commandsDone (w : Surroundings) : Stepped env s0 (env.commandsDone u w) := by
  unfold commandsDone
  split
  · dsimp only
    have hfilter : Offered env u.filterOutput.2.storedInformation
        u.filterOutput.2.info.available := by
      unfold filterOutput
      split
      · exact hoffered
      · split <;> exact hoffered
    split
    · exact stepped_setState (outcome_other rfl hfilter (by decide))
    · exact stepped_setState (outcome_processFinishedData w true)
  · exact stepped_setState (outcome_processFinishedDownload w.renames hoffered)

/-- A reply of the engine. -/
theorem stepped_processOperation (replyCode : Nat) (isDisconnect : Bool) (w : Surroundings) :
    Stepped env u.state (env.processOperation u replyCode isDisconnect w) := by
  have hfailed : (if u.state = .checking then UpdaterState.failed else .newversion) ≠
      .newversionReady := by
    split <;> decide
  unfold processOperation
  split
  · exact stepped_unready hoffered id
  · split
    · exact stepped_setState (outcome_other rfl hoffered (by decide))
    · dsimp only
      split
      · split
        · exact stepped_unready hoffered id
        · split
          · exact stepped_setState (outcome_other rfl hoffered hfailed)
          · apply stepped_commandsDone
            exact hoffered
      · exact stepped_setState (outcome_other rfl hoffered hfailed)

theorem stepped_reset : Stepped env u.state u.reset := by
  unfold reset
  split
  · exact stepped_unready hoffered id
  · have hidle : Outcome env u.state (.idle, { u with
        storedInformation := [], info := {}, rawInformation := [], localFile := [] }) :=
      outcome_other rfl offered_empty (by decide)
    exact stepped_setState hidle

/-- One event, whatever it is. -/
theorem stepped_handle (e : UpdaterEvent) : Stepped env u.state (env.handle u e) := by
  cases e with
  | run manual w => exact stepped_onRun hoffered manual w
  | operation replyCode isDisconnect w =>
    exact stepped_processOperation hoffered replyCode isDisconnect w
  | reset => exact stepped_reset hoffered
  | received data | filesChanged files => exact stepped_unready hoffered id

end

/-- From step to step. -/
theorem offered_reach (h : (updaterSystem env).Reach u) :
    Offered env u.storedInformation u.info.available := by
  refine Lts.Reach.invariant (fun u => Offered env u.storedInformation u.info.available) ?_ ?_ h
  · intro u hu
    rw [hu]
    exact offered_empty
  · intro u e t hstep hu
    obtain rfl := some.inj hstep
    exact (stepped_handle hu e).offered

/-! ## The result -/

theorem value_upper : ∀ n < 91, 65 ≤ n →
    Hex.value (Char.ofNat (n + 32)) = none ∨
      Hex.value (Char.ofNat (n + 32)) = Hex.value (Char.ofNat n) := by
  decide

/-- Changing the case of a digit keeps its value; this is why the lower-case hash decodes to the
same bytes. -/
theorem value_wideToLowerAscii (c : Char) (v : Nat)
    (h : Hex.value (wideToLowerAscii c) = some v) : Hex.value c = some v := by
  unfold wideToLowerAscii at h
  split_ifs at h with hupper hi
  · have hlow : 65 ≤ c.toNat := UInt32.le_iff_toNat_le.mp hupper.1
    have hhigh : c.toNat ≤ 90 := UInt32.le_iff_toNat_le.mp hupper.2
    rcases value_upper c.toNat (by omega) hlow with hnone | heq
    · rw [hnone] at h
      cases h
    · rw [heq, Char.ofNat_toNat] at h
      exact h
  · have hnone : Hex.value 'i' = none := by decide
    rw [hnone] at h
    cases h
  · exact h

variable {k : Nat}

theorem eq_of_eq_bmod {n m : Nat} (hn : n < m) (h : (k : Int) = (n : Int).bmod m) : k = n := by
  rw [Int.bmod_def, Int.emod_eq_of_lt (by omega) (by omega)] at h
  split at h <;> omega

theorem toNat_of_toInt64 {n : UInt64} (h : (k : Int) = toInt64 n) : k = n.toNat :=
  eq_of_eq_bmod n.toNat_lt h

/-- The file is that of a line of the version information: it has its size and its SHA-512, the
signature for that hash and the version of the line is good, and the line is for a newer build. -/
structure BuildLine.IsFile (env : UpdaterEnv Date) (l : BuildLine) (data : List UInt8) : Prop where
  size : data.length = (env.toUint64 l.size).toNat
  sha512 : env.sha512 data = Hex.decode l.hash
  signed : l.Signed env
  newer : l.Newer env

/-- A file that matches an offered build is the file of a line. -/
theorem Matches.isFile {node : Option LocalNode} (h : Matches env node b)
    (hoffered : Offered env text b) :
    ∃ data readable, node = some (.file data readable) ∧
      ∃ l : BuildLine, l.tokens ∈ informationLines text ∧ l.IsFile env data := by
  obtain ⟨hne, data, readable, hnode, hsize, hhash⟩ := h
  obtain ⟨l, hgives⟩ := hoffered hne
  refine ⟨data, readable, hnode, l, hgives.mem, ?_, ?_, hgives.signed, hgives.newer⟩
  · exact toNat_of_toInt64 (hsize.trans hgives.size)
  · exact (Hex.decode_of_encode_eq_map value_wideToLowerAscii (hhash.trans hgives.hash)).symm

/-- The event sets the state anew even in the state `newversionReady`: a run goes through
`checking`. The other events that set the state are taken only during a check or a download. -/
def UpdaterEvent.SetsState (env : UpdaterEnv Date) (e : UpdaterEvent) : Prop :=
  ∃ manual w, e = .run manual w ∧ env.fileZillaVersion ≠ []

/-- Whenever the updater gets ready, be it from another state or from being ready within one run,
the local file is that of a signed line for a newer build, in the version information that was
parsed last. -/
theorem updater_ready_only_signed {e : UpdaterEvent} {t : Updater}
    (hreach : (updaterSystem env).Reach u) (hstep : (updaterSystem env).Step u e t)
    (hentered : u.state ≠ .newversionReady ∨ e.SetsState env)
    (hready : t.state = .newversionReady) :
    ∃ data readable, t.files t.localFile = some (.file data readable) ∧
      ∃ l : BuildLine, l.tokens ∈ informationLines t.storedInformation ∧ l.IsFile env data := by
  obtain rfl := Option.some.inj hstep
  have hoffered := offered_reach hreach
  have hmatches : Matches env ((env.handle u e).files (env.handle u e).localFile)
      (env.handle u e).info.available := by
    by_cases hbefore : u.state = .newversionReady
    · obtain ⟨manual, w, rfl, hversion⟩ := hentered.resolve_left (absurd hbefore)
      have hrun : ¬(u.state.isBusy || env.fileZillaVersion.isEmpty) = true := by
        simpa [hbefore, UpdaterState.isBusy] using hversion
      have hchecked : Stepped env .checking (env.onRun u manual w) := stepped_checked hrun manual w
      exact hchecked.ready (by decide) hready
    · exact (stepped_handle hoffered e).ready hbefore hready
  exact hmatches.isFile (stepped_handle hoffered e).offered

/-- Hashes are the data themselves, and signatures the message in hexadecimal. -/
def plainUpdaterEnv : UpdaterEnv Nat where
  fileZillaVersion := "1".toList
  buildDate := some 1
  buildType := "official".toList
  parseDate := fun text => some text.length
  notLater := fun a b => a ≤ b
  toUint64 := fun text => text.length.toUInt64
  base64Decode := Hex.decode
  verify := fun message signature => message = signature
  sha512 := id
  eolMessage := none
  windows := false
  autoUpdateCheck := true
  downloadDir := "/d/".toList
  tempDir := "/t/".toList
  usableUrl := fun _ => true

/-- The update was downloaded before, and there is another file of that name. -/
def downloadedBefore : Updater where
  storedInformation := "release 2 http://h/f.exe 1 sha512 AB sig:ab0032\n".toList
  files := fun name =>
    if name = "/d/f.exe".toList then some (.file [1, 2] true)
    else if name = "/d/f (2).exe".toList then some (.file [0xab] true)
    else none

theorem updater_ready_only_signed_existing :
    (updaterSystem plainUpdaterEnv).Reach downloadedBefore ∧
      (plainUpdaterEnv.handle downloadedBefore (.run false {})).localFile = "/d/f (2).exe".toList ∧
      ∃ data readable,
        (plainUpdaterEnv.handle downloadedBefore (.run false {})).files "/d/f (2).exe".toList =
          some (.file data readable) ∧
        ∃ l : BuildLine, l.tokens ∈ informationLines downloadedBefore.storedInformation ∧
          l.IsFile plainUpdaterEnv data := by
  have hreach : (updaterSystem plainUpdaterEnv).Reach downloadedBefore := Lts.Reach.init rfl
  exact ⟨hreach, by decide, updater_ready_only_signed hreach rfl (.inl (by decide)) (by decide)⟩

end FlintZilla
