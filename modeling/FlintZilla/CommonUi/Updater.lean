import FlintZilla.Ascii
import FlintZilla.Lib.Hex
import FlintZilla.Lib.Lts
import FlintZilla.Lib.Search
import FlintZilla.Path.ServerPath
import FlintZilla.Reply

/-!
# The updater

`CUpdater` of `commonui/updater.cpp`: it asks the update server for version information, takes the
newest build from it, and downloads that. The server's text is not trusted; a build counts if its
line carries a signature for its hash and version.

What the engine does is left to the events: any reply to any command, any data received, and any
change of the local files between two events. The log, the changelog and the resources are written
and not read here, and left out, as is which certificates are trusted.
-/

namespace FlintZilla

open Lib Lib.Search

/-! ## Texts -/

/-- `ConvertToVersionNumber`. The state is `v`, `segment` and `shifts`. Where the source shifts by a
negative number, the processor takes it modulo 64. -/
def versionStep (s : BitVec 64 × BitVec 32 × Int) (c : Char) : BitVec 64 × BitVec 32 × Int :=
  let s :=
    if c = '.' ∨ c = '-' ∨ c = 'b' then
      ((s.1 + s.2.1.signExtend 64) <<< 10, 0, s.2.2 + 1)
    else s
  if c = '-' ∧ s.2.2 < 4 then (s.1 <<< ((4 - s.2.2) * 10).toNat, s.2.1, 4)
  else if '0' ≤ c ∧ c ≤ '9' then
    (s.1, s.2.1 * 10 + BitVec.ofNat 32 (c.toNat - '0'.toNat), s.2.2)
  else s

def convertToVersionNumber (version : WString) : Int :=
  match version.takeWhile (· ≠ '\x00') with
  | [] => -1
  | c :: rest =>
    if c < '0' ∨ '9' < c then -1
    else
      let s := (c :: rest).foldl versionStep (0, 0, 0)
      let v := (s.1 + s.2.1.signExtend 64) <<< (((5 - s.2.2) * 10) % 64).toNat
      (if v &&& 0x0FFFFF = 0 then v ||| 0x080000 else v).toInt

/-! ## Builds -/

structure Build where
  url : WString := []
  version : WString := []
  hash : WString := []
  size : Int := -1
deriving DecidableEq

structure VersionInformation where
  stable : Build := {}
  beta : Build := {}
  nightly : Build := {}
  available : Build := {}
  eol : Bool := false
deriving DecidableEq

/-- What does not change while the program runs. -/
structure UpdaterEnv (Date : Type) where
  /-- `GetFileZillaVersion`. -/
  fileZillaVersion : WString
  /-- `CBuildInfo::GetBuildDate`. -/
  buildDate : Option Date
  /-- `CBuildInfo::GetBuildType`. -/
  buildType : WString
  /-- `fz::datetime(text, utc)`, and its `<=`. -/
  parseDate : WString → Option Date
  notLater : Date → Date → Bool
  /-- `fz::to_integral<uint64_t>`. -/
  toUint64 : WString → UInt64
  /-- `fz::base64_decode`, of the text in UTF-8. -/
  base64Decode : WString → List UInt8
  /-- `fz::verify` of a message and a signature, with the key of the updater. -/
  verify : List UInt8 → List UInt8 → Bool
  sha512 : List UInt8 → List UInt8
  /-- The message an `eol` line has to sign, on the platforms that know it. -/
  eolMessage : Option (List UInt8)
  windows : Bool
  /-- `FZ_AUTOUPDATECHECK`. -/
  autoUpdateCheck : Bool
  downloadDir : WString
  tempDir : WString
  /-- `Site::ParseUrl` gives an HTTP or HTTPS server. -/
  usableUrl : WString → Bool

variable {Date : Type} (env : UpdaterEnv Date)

/-- `UpdatableBuild`. -/
def UpdaterEnv.updatableBuild : Bool :=
  env.buildType = "nightly".toList || env.buildType = "official".toList

/-- `GetFilename`. -/
def UpdaterEnv.getFilename (url : WString) : WString :=
  let ret := (rfind (· = '/') url).elim [] fun pos => url.drop (pos + 1)
  let ret := ret.takeWhile fun c => c ≠ '?' && c ≠ '#'
  if env.windows then ret.map fun c => if c = ':' then '_' else c else ret

/-! ## Version information -/

def sigTag : WString := "sig:".toList

/-- The loop over the signatures of a line: the last one counts. -/
def UpdaterEnv.signed (message : List UInt8) (tokens : List WString) : Bool :=
  tokens.foldl
    (fun valid token =>
      if token.take 4 = sigTag then env.verify message (env.base64Decode (token.drop 4)) else valid)
    false

/-- The same loop for an `eol` line, which passes over signatures that cannot be decoded. -/
def UpdaterEnv.eolSigned (message : List UInt8) (tokens : List WString) : Bool :=
  tokens.foldl
    (fun valid token =>
      if token.take 4 = sigTag && !(env.base64Decode (token.drop 4)).isEmpty then
        env.verify message (env.base64Decode (token.drop 4))
      else valid)
    false

/-- What the signature of a build is for: the hash, and the version against replays. -/
def signedMessage (hash version : WString) : List UInt8 :=
  Hex.decode hash ++ 0 :: version.map fun c => c.toNat.toUInt8

def isTokenEnd (c : Char) : Bool := c = ' ' || c = '\t' || c = '\r' || c = '\n'

/-- The types of build lines. -/
inductive BuildKind where
  | nightly
  | release
  | beta
deriving DecidableEq

def buildKind (type : WString) : Option BuildKind :=
  if type = "nightly".toList then some .nightly
  else if type = "release".toList then some .release
  else if type = "beta".toList then some .beta
  else none

/-- Whether the build is newer than the own one. -/
def UpdaterEnv.isNewer (kind : BuildKind) (versionOrDate : WString) : Bool :=
  match kind with
  | .nightly =>
    match env.parseDate versionOrDate, env.buildDate with
    | some nightlyDate, some buildDate => !env.notLater nightlyDate buildDate
    | _, _ => false
  | .release | .beta =>
    convertToVersionNumber env.fileZillaVersion < convertToVersionNumber versionOrDate

/-- `int64_t` of an `uint64_t`. -/
def toInt64 (n : UInt64) : Int := (n.toNat : Int).bmod (2 ^ 64)

/-- A build line with all its fields; `none` if it is passed over. -/
def UpdaterEnv.parseBuild (version url sizestr hashAlgo hash : WString) (more : List WString) :
    Option Build :=
  if (env.getFilename url).isEmpty then none
  else if hashAlgo.map wideToLowerAscii ≠ "sha512".toList then none
  else if env.toUint64 sizestr = 0 then none
  else if !env.signed (signedMessage hash version) more then none
  else
    let hash := hash.map wideToLowerAscii
    if hash.any fun c => (c < 'a' || 'f' < c) && (c < '0' || '9' < c) then none
    else
      some { url := url, version := version, size := toInt64 (env.toUint64 sizestr), hash := hash }

/-- The build of a line whose type and version are known. Without the other fields, or for a program
that cannot be updated, there is only the version. -/
def UpdaterEnv.lineBuild (version : WString) (fields : List WString) : Option Build :=
  match fields with
  | url :: sizestr :: hashAlgo :: hash :: more =>
    if env.updatableBuild then env.parseBuild version url sizestr hashAlgo hash more
    else some { version := version }
  | _ => some { version := version }

/-- Where the build of a line goes. -/
def UpdaterEnv.setBuild (info : VersionInformation) (kind : BuildKind) (b : Build) :
    VersionInformation :=
  match kind with
  | .nightly => if env.updatableBuild then { info with nightly := b } else info
  | .release => { info with stable := b }
  | .beta => { info with beta := b }

/-- One line of `ParseData`. -/
def UpdaterEnv.parseLine (info : VersionInformation) (tokens : List WString) :
    VersionInformation :=
  match tokens with
  | type :: version :: fields =>
    if type = "eol".toList then
      match env.eolMessage with
      | some message =>
        if env.eolSigned message (version :: fields) then { info with eol := true } else info
      | none => info
    else
      match buildKind type with
      | none => info
      | some kind =>
        if env.isNewer kind version then
          match env.lineBuild version fields with
          | none => info
          | some b => env.setBuild info kind b
        else info
  | _ => info

/-- The lines of the text that are parsed, as tokens: those before the first without any. The fuel
bounds their number. -/
def tokenLines : Nat → WString → List (List WString)
  | 0, _ => []
  | _, [] => []
  | fuel + 1, c :: text =>
    let line := (c :: text).takeWhile (· ≠ '\n')
    let rest := ((c :: text).dropWhile (· ≠ '\n')).tail
    match fields isTokenEnd line with
    | [] => []
    | token :: tokens => (token :: tokens) :: tokenLines fuel rest

def informationLines (text : WString) : List (List WString) := tokenLines text.length text

/-- The build to be offered. -/
def VersionInformation.choose (info : VersionInformation) (checkBeta : Int) : Build :=
  if !info.nightly.url.isEmpty && checkBeta = 2 then info.nightly
  else if !info.beta.version.isEmpty && checkBeta ≠ 0 then info.beta
  else info.stable

def UpdaterEnv.parseInformation (checkBeta : Int) (text : WString) : VersionInformation :=
  let info := (informationLines text).foldl env.parseLine {}
  { info with available := info.choose checkBeta }

/-! ## Local files -/

inductive LocalNode where
  | file (data : List UInt8) (readable : Bool)
  | other
deriving DecidableEq

abbrev LocalFiles := WString → Option LocalNode

/-- `fz::local_filesys::get_size`. -/
def LocalFiles.getSize (files : LocalFiles) (name : WString) : Int :=
  match files name with
  | some (.file data _) => data.length
  | _ => -1

def LocalFiles.remove (files : LocalFiles) (name : WString) : LocalFiles :=
  Function.update files name none

/-- `fz::rename_file`, when it succeeds. -/
def LocalFiles.rename (files : LocalFiles) (source dest : WString) : LocalFiles :=
  Function.update (Function.update files dest (files source)) source none

/-- `VerifyChecksum`. -/
def UpdaterEnv.verifyChecksum (files : LocalFiles) (name : WString) (size : Int)
    (checksum : WString) : Bool :=
  if name.isEmpty || checksum.isEmpty then false
  else
    match files name with
    | some (.file data readable) =>
      data.length = size && readable && Hex.encode (env.sha512 data) = checksum
    | _ => false

/-- The name with a number, in front of the extension. -/
def numberedName (fn : WString) (i : Nat) : WString :=
  let pos :=
    if 8 < fn.length && (fn.drop (fn.length - 8)).map wideToLowerAscii = ".tar.bz2".toList then
      some (fn.length - 8)
    else rfind (· = '.') fn
  let number := " (".toList ++ (toString i).toList ++ ")".toList
  match pos with
  | none => fn ++ number
  | some pos => fn.take pos ++ number ++ fn.drop pos

/-- The loop of `GetLocalFile`, from the name `f` with number `i` on. -/
def UpdaterEnv.localFileLoop (files : LocalFiles) (b : Build) (allowExisting : Bool)
    (fn : WString) : Nat → Nat → WString → WString
  | 0, _, _ => []
  | fuel + 1, i, f =>
    if (files f).isSome && (!allowExisting || !env.verifyChecksum files f b.size b.hash) then
      if 99 < i + 1 then []
      else localFileLoop files b allowExisting fn fuel (i + 1)
        (env.downloadDir ++ numberedName fn (i + 1))
    else f

/-- `GetLocalFile`. -/
def UpdaterEnv.getLocalFile (files : LocalFiles) (b : Build) (allowExisting : Bool) : WString :=
  let fn := env.getFilename b.url
  env.localFileLoop files b allowExisting fn 99 1 (env.downloadDir ++ fn)

/-- `GetTempFile`. -/
def UpdaterEnv.getTempFile (b : Build) : WString :=
  if b.hash.isEmpty || env.tempDir.isEmpty then []
  else env.tempDir ++ "fzupdate_".toList ++ b.hash.take 16 ++ ".tmp".toList

/-! ## The machine -/

inductive UpdaterState where
  | idle
  | failed
  | checking
  | newversion
  | newversionDownloading
  | newversionReady
  | newversionStale
  | eol
deriving DecidableEq

inductive UpdaterCommand where
  | disconnect
  | connect
  | httpRequest
  | transfer (file : WString)
deriving DecidableEq

structure Updater where
  state : UpdaterState := .idle
  localFile : WString := []
  info : VersionInformation := {}
  rawInformation : WString := []
  outputBuffer : List UInt8 := []
  pending : List UpdaterCommand := []
  manual : Bool := false
  /-- `OPTION_UPDATECHECK_NEWVERSION`. -/
  storedInformation : WString := []
  files : LocalFiles

/-- What an event finds: options, the time, and what the engine and the system will answer. -/
structure Surroundings where
  /-- `OPTION_UPDATECHECK_CHECKBETA`. -/
  checkBeta : Int := 0
  /-- `OPTION_DEFAULT_DISABLEUPDATECHECK`. -/
  disableUpdateCheck : Bool := false
  /-- `OPTION_UPDATECHECK`. -/
  updateCheck : Bool := true
  /-- `LongTimeSinceLastCheck`, when data are loaded and when the need for a check is decided. -/
  longTimeAtLoad : Bool := false
  longTimeAtCheck : Bool := false
  /-- The build is older than six months. -/
  oldBuild : Bool := false
  /-- What `Execute` returns, each time it is called; the command is under way after that. -/
  replies : List Nat := []
  /-- Whether a file can be renamed. -/
  renames : Bool := true
deriving DecidableEq

def UpdaterState.isBusy (s : UpdaterState) : Bool := s = .checking || s = .newversionDownloading

/-- `SetState`. -/
def Updater.setState (u : Updater) (s : UpdaterState) : Updater :=
  if s = u.state then u
  else { u with state := s, pending := if s.isBusy then u.pending else [] }

/-- `ContinueDownload`, on the commands. -/
def continueDownload : List Nat → List UpdaterCommand → Nat × List UpdaterCommand
  | _, [] => (Reply.ok, [])
  | [], commands => (Reply.wouldBlock, commands)
  | reply :: replies, command :: commands =>
    if reply = Reply.ok then continueDownload replies commands else (reply, command :: commands)

/-- Start the commands, unless others are under way. -/
def Updater.execute (u : Updater) (replies : List Nat) (commands : List UpdaterCommand) :
    Nat × Updater :=
  if !u.pending.isEmpty then (Reply.error, u)
  else
    let r := continueDownload replies commands
    (r.1, { u with pending := r.2 })

/-- `Download`. -/
def UpdaterEnv.download (u : Updater) (replies : List Nat) (url temp : WString) : Nat × Updater :=
  if !env.usableUrl url || temp.isEmpty then (Reply.error, u)
  else u.execute replies [.disconnect, .connect, .transfer temp]

/-- `Request`. -/
def Updater.request (u : Updater) (replies : List Nat) : Nat × Updater :=
  u.execute replies [.disconnect, .connect, .httpRequest]

/-- `ProcessFinishedDownload`. -/
def UpdaterEnv.processFinishedDownload (u : Updater) (renames : Bool) : UpdaterState × Updater :=
  let b := u.info.available
  let temp := env.getTempFile b
  if temp.isEmpty then (.newversion, u)
  else if !env.verifyChecksum u.files temp b.size b.hash then
    (.newversion, { u with files := u.files.remove temp })
  else
    let localFile := env.getLocalFile u.files b false
    if localFile.isEmpty || !renames then
      (.newversion, { u with files := u.files.remove temp })
    else
      (.newversionReady, { u with
        localFile := localFile
        files := u.files.rename temp localFile })

/-- `ParseData`. -/
def UpdaterEnv.parseData (u : Updater) (checkBeta : Int) : Updater :=
  { u with
    info := env.parseInformation checkBeta u.rawInformation
    storedInformation := u.rawInformation }

/-- `ProcessFinishedData` when there is a build with a URL and no local file for it yet. -/
def UpdaterEnv.fetchBuild (u : Updater) (w : Surroundings) (canDownload : Bool)
    (temp localFile : WString) : UpdaterState × Updater :=
  let b := u.info.available
  if temp.isEmpty || localFile.isEmpty then (.newversion, u)
  else if 0 ≤ u.files.getSize temp && b.size ≤ u.files.getSize temp then
    env.processFinishedDownload u w.renames
  else if !canDownload then (.newversion, u)
  else
    let r := env.download u w.replies b.url temp
    (if r.1 = Reply.wouldBlock then .newversionDownloading else .newversion, r.2)

/-- `ProcessFinishedData`. -/
def UpdaterEnv.processFinishedData (u : Updater) (w : Surroundings) (canDownload : Bool) :
    UpdaterState × Updater :=
  let u := env.parseData u w.checkBeta
  let b := u.info.available
  if u.info.eol then (.eol, u)
  else if b.version.isEmpty then (.idle, u)
  else if b.url.isEmpty then (.newversion, u)
  else
    let temp := env.getTempFile b
    let localFile := env.getLocalFile u.files b true
    if !localFile.isEmpty && (u.files localFile).isSome then
      (.newversionReady, { u with localFile := localFile })
    else env.fetchBuild u w canDownload temp localFile

/-- `FilterOutput`. -/
def Updater.filterOutput (u : Updater) : Bool × Updater :=
  if u.state ≠ .checking then (false, u)
  else if u.outputBuffer.any fun b => b < 10 || 127 < b then
    (false, { u with rawInformation := [] })
  else (true, { u with rawInformation := u.outputBuffer.map fun b => Char.ofNat b.toNat })

/-- `LoadLocalData`. -/
def UpdaterEnv.loadLocalData (u : Updater) (w : Surroundings) : UpdaterState × Updater :=
  let raw := if !w.longTimeAtLoad || w.disableUpdateCheck then u.storedInformation else []
  env.processFinishedData { u with rawInformation := raw } w env.autoUpdateCheck

/-- `ShouldCheck`, with the state it leaves in its argument. `DownloadedFile` is empty, as the
updater is checking. -/
def UpdaterEnv.shouldCheck (u : Updater) (w : Surroundings) (s : UpdaterState) :
    Bool × UpdaterState × Updater :=
  if u.manual then
    let b := u.info.available
    let check := s = .idle || s = .failed || s = .newversionStale || s = .eol ||
      w.longTimeAtCheck || (s = .newversion && !b.url.isEmpty) ||
      (s = .newversionReady && !env.verifyChecksum u.files [] b.size b.hash)
    (check, s, u)
  else if env.autoUpdateCheck && (s = .failed || s = .idle || s = .newversionStale) then
    if !w.disableUpdateCheck && w.updateCheck then (w.longTimeAtCheck, s, u)
    else if w.oldBuild then (false, .newversionStale, { u with info := {} })
    else (false, s, u)
  else (false, s, u)

/-- `OnRun` when the server is to be asked. -/
def Updater.startCheck (u : Updater) (w : Surroundings) : Updater :=
  let r := { u with localFile := [] }.request w.replies
  let u := if r.1 = Reply.wouldBlock then r.2 else r.2.setState .failed
  { u with rawInformation := [] }

/-- `OnRun`. -/
def UpdaterEnv.onRun (u : Updater) (manual : Bool) (w : Surroundings) : Updater :=
  if u.state.isBusy || env.fileZillaVersion.isEmpty then u
  else
    let u := { u with manual := manual }.setState .checking
    let loaded := env.loadLocalData u w
    let checked := env.shouldCheck loaded.2 w loaded.1
    if checked.1 then checked.2.2.startCheck w else checked.2.2.setState checked.2.1

/-- `ProcessOperation` when all commands are through. -/
def UpdaterEnv.commandsDone (u : Updater) (w : Surroundings) : Updater :=
  if u.state = .checking then
    let r := u.filterOutput
    if !r.1 then r.2.setState .failed
    else
      let r := env.processFinishedData r.2 w true
      r.2.setState r.1
  else
    let r := env.processFinishedDownload u w.renames
    r.2.setState r.1

/-- `ProcessOperation`. -/
def UpdaterEnv.processOperation (u : Updater) (replyCode : Nat) (isDisconnect : Bool)
    (w : Surroundings) : Updater :=
  if !u.state.isBusy then u
  else if u.pending.isEmpty then u.setState .failed
  else
    let failedState := if u.state = .checking then UpdaterState.failed else .newversion
    if replyCode = Reply.ok || (isDisconnect && Reply.has replyCode Reply.disconnected) then
      let r := continueDownload w.replies u.pending.tail
      let u := { u with pending := r.2 }
      if r.1 = Reply.wouldBlock then u
      else if r.1 ≠ Reply.ok then u.setState failedState
      else env.commandsDone u w
    else u.setState failedState

/-- `Reset`. -/
def Updater.reset (u : Updater) : Updater :=
  if u.state.isBusy then u
  else
    { u with storedInformation := [], info := {}, rawInformation := [], localFile := [] }.setState
      .idle

inductive UpdaterEvent where
  | run (manual : Bool) (w : Surroundings)
  | operation (replyCode : Nat) (isDisconnect : Bool) (w : Surroundings)
  | reset
  /-- The engine has received data. -/
  | received (data : List UInt8)
  /-- The engine or others have changed files. -/
  | filesChanged (files : LocalFiles)

def UpdaterEnv.handle (u : Updater) : UpdaterEvent → Updater
  | .run manual w => env.onRun u manual w
  | .operation replyCode isDisconnect w => env.processOperation u replyCode isDisconnect w
  | .reset => u.reset
  | .received data => { u with outputBuffer := data }
  | .filesChanged files => { u with files := files }

/-- The updater starts with any stored information and any local files. -/
def updaterSystem : Lts Updater UpdaterEvent :=
  Lts.ofFun (fun u => u = { storedInformation := u.storedInformation, files := u.files })
    fun u e => some (env.handle u e)

end FlintZilla
