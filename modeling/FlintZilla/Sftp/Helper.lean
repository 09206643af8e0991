import FlintZilla.Lib.Search
import FlintZilla.Sftp.CommandLine

/-!
# The SFTP helper: output and requests

`fzsftp` writes events to its standard output (`putty/fzprintf.c`), asks the SFTP server for things
(`putty/sftp.c`) and makes absolute paths out of names (`canonify` of `putty/psftp.c`).

The server, the network and the local files are the `World`: for each kind of question the answers
that will come, in order, each as the `fxp_*_recv` function or the local call returns it. A program
that finds no further answer waits. Events of the network layer, which are of other types than those
below, and the connection options are left out.
-/

namespace FlintZilla.Psftp

open Lib.Search

/-! ## Events -/

/-- `sftpEventTypes`, those of the functions below. -/
inductive EventType where
  | unknown
  | reply
  | done
  | error
  | verbose
  | info
  | status
  | listentry
  | transfer
deriving DecidableEq

/-- A line with its event type in front, or text without one. -/
inductive Output where
  | event (type : EventType) (line : List UInt8)
  | raw (text : List UInt8)
deriving DecidableEq

/-- An event that ends a command for the engine. -/
def Output.isReply : Output → Bool
  | .event .reply _ => true
  | .event .done _ => true
  | _ => false

/-! ## The world -/

/-- What came back to a request. -/
inductive FxpReply (α : Type) where
  | ok (a : α)
  /-- The `fxp_*_recv` function fails; the message of `fxp_error`, and whether it is
  `SSH_FX_EOF`. -/
  | failed (message : List UInt8) (eof : Bool)
  /-- No packet, or not one for the request. -/
  | lost (message : List UInt8)
deriving DecidableEq

/-- `fxp_attrs`, a field as its flag allows. -/
structure FxpAttrs where
  permissions : Option Nat := none
  mtime : Option Nat := none
  size : Option Nat := none
deriving DecidableEq

/-- `fxp_name`. -/
structure FxpName where
  filename : List UInt8
  longname : List UInt8
  attrs : FxpAttrs
deriving DecidableEq

/-- A round of the loop in `sftp_get_file`. -/
inductive GetTurn where
  | done
  /-- `xfer_download_gotpkt`, each block with its length and what could be written of it, and
  `fz_timer_check`. -/
  | packet (retd : Int) (message : List UInt8) (blocks : List (Nat × Nat)) (timer : Bool)
deriving DecidableEq

/-- A round of the loop in `sftp_put_file`. -/
inductive PutTurn where
  | done
  /-- What `read_from_file` returned, as often as it was called, and `xfer_upload_gotpkt` if a
  packet was waited for. -/
  | round (reads : List Int) (packet : Option (Int × List UInt8))
deriving DecidableEq

/-- What `psftp_connect` came to. -/
inductive ConnectResult where
  | connected (realhost : List UInt8)
  | failed (message : List UInt8)
  /-- `backend_exitcode` is not negative while the connection is set up. -/
  | exited
  | noUsername
deriving DecidableEq

structure World where
  /-- To `fxp_realpath_send`. -/
  realpaths : List (FxpReply (List UInt8)) := []
  /-- To `fxp_open_send` and `fxp_opendir_send`. -/
  handles : List (FxpReply Unit) := []
  /-- To the requests that are answered by a status only. -/
  statuses : List (FxpReply Unit) := []
  /-- To `fxp_stat_send` and `fxp_fstat_send`. -/
  attrs : List (FxpReply FxpAttrs) := []
  /-- To `fxp_readdir_send`. -/
  names : List (FxpReply (List FxpName)) := []
  /-- Whether a local file can be opened. -/
  localOpens : List Bool := []
  /-- `finalize_wfile`. -/
  localFinals : List Bool := []
  getTurns : List GetTurn := []
  putTurns : List PutTurn := []
  connects : List ConnectResult := []
  /-- `fxp_init`. -/
  inits : List Bool := []
deriving DecidableEq

/-- `backend` is whether it is set, `pwd` is empty without it. -/
structure Helper where
  backend : Bool := false
  pwd : List UInt8 := []
  pendingReply : Bool := false
  /-- `fxp_error_message`, and whether `fxp_errtype` is `SSH_FX_EOF`. -/
  fxpError : List UInt8 := []
  fxpEof : Bool := false
  world : World := {}
  out : List Output := []
deriving DecidableEq

/-- Why a program does not return. -/
inductive Stop where
  /-- `cleanup_exit`. -/
  | exit
  | waits
deriving DecidableEq

abbrev HelperM := EStateM Stop Helper

/-! ## `fzprintf.c` -/

def answersCommand (type : EventType) : Bool := type = .done || type = .reply

/-- What `fzprintf` prints: every line of the text that is not empty, or one empty line. -/
def printed (type : EventType) (text : List UInt8) : List Output :=
  if text.isEmpty then [.event type []] else (fields isCrLf text).map (.event type)

/-- Print, and note the answer to the command. -/
def emit (type : EventType) (lines : List Output) : HelperM Unit :=
  modify fun h => { h with
    pendingReply := h.pendingReply && !answersCommand type
    out := h.out ++ lines }

def fzprintf (type : EventType) (text : List UInt8) : HelperM Unit := emit type (printed type text)

/-- The text as `fzprintf_raw_untrusted` prints it: without CR, and a blank for LF unless it is the
first character printed. -/
def untrusted : List UInt8 → List UInt8 → List UInt8
  | printed, [] => printed
  | printed, b :: rest =>
    if b = asciiChar '\r' then untrusted printed rest
    else if b = asciiChar '\n' then
      untrusted (if printed.isEmpty then printed else printed ++ [asciiChar ' ']) rest
    else untrusted (printed ++ [b]) rest

def fzprintfRawUntrusted (type : EventType) (text : List UInt8) : HelperM Unit :=
  emit type [if type = .unknown then .raw (untrusted [] text) else .event type (untrusted [] text)]

def decimal (n : Int) : List UInt8 := ascii (toString n)

def fznotify1 (type : EventType) (data : Int) : HelperM Unit :=
  emit type [.event type (decimal data)]

/-! ## Requests -/

/-- The next answer. -/
def take {β : Type} (stream : World → List β) (drop : World → List β → World) : HelperM β :=
  fun h =>
    match stream h.world with
    | [] => .error .waits h
    | b :: bs => .ok b { h with world := drop h.world bs }

/-- `sftp_wait_for_reply`: what the `fxp_*_recv` function will make of the packet, or the end of the
helper. -/
def waitForReply {β : Type} (stream : World → List (FxpReply β))
    (drop : World → List (FxpReply β) → World) : HelperM (Except (List UInt8 × Bool) β) := do
  let r ← take stream drop
  match r with
  | .ok b => pure (.ok b)
  | .failed message eof => pure (.error (message, eof))
  | .lost message => do
    fzprintf .error (ascii "FATAL ERROR: " ++ message)
    throw .exit

/-- `sftp_wait_for_reply`, and the `fxp_*_recv` function of the request. -/
def request {β : Type} (stream : World → List (FxpReply β))
    (drop : World → List (FxpReply β) → World) : HelperM (Option β) := do
  let r ← waitForReply stream drop
  match r with
  | .ok b => pure (some b)
  | .error (message, eof) => do
    modify fun h => { h with fxpError := message, fxpEof := eof }
    pure none

/-- `fxp_realpath_send` and `fxp_realpath_recv`. -/
def fxpRealpath (_path : List UInt8) : HelperM (Option (List UInt8)) := do
  let r ← request World.realpaths fun w l => { w with realpaths := l }
  pure (r.map cString)

/-- `fxp_open_*` and `fxp_opendir_*`. -/
def fxpOpen (_path : List UInt8) : HelperM (Option Unit) :=
  request World.handles fun w l => { w with handles := l }

/-- The requests that a status answers. -/
def fxpStatus (_paths : List (List UInt8)) : HelperM (Option Unit) :=
  request World.statuses fun w l => { w with statuses := l }

def fxpClose : HelperM (Option Unit) := fxpStatus []

/-- `fxp_stat_*` and `fxp_fstat_*`. -/
def fxpStat (_path : List UInt8) : HelperM (Option FxpAttrs) :=
  request World.attrs fun w l => { w with attrs := l }

def fxpReaddir : HelperM (Option (List FxpName)) :=
  request World.names fun w l => { w with names := l }

def fxpErrorText : HelperM (List UInt8) := do
  let h ← get
  pure h.fxpError

/-! ## `canonify` -/

def slash : List UInt8 := ascii "/"

def endsInSlash (s : List UInt8) : Bool := s.getLast? = some (asciiChar '/')

/-- The text before the last slash and the text behind it. -/
def splitLastSlash (s : List UInt8) : Option (List UInt8 × List UInt8) :=
  (rfind (· = asciiChar '/') s).map fun i => (s.take i, s.drop (i + 1))

/-- The name behind a path that may already end in a slash, as `canonify` puts the suffix back. -/
def withSuffix (path : List UInt8) : Option (List UInt8) → List UInt8
  | none => path
  | some suffix => (if endsInSlash path then path.dropLast else path) ++ slash ++ suffix

/-- The absolute name; for `parent_only` its directory, and the last component. -/
def fullName (pwd name : List UInt8) : List UInt8 :=
  if name.head? = some (asciiChar '/') then name
  else pwd ++ (if endsInSlash pwd then [] else slash) ++ name

/-- The second attempt: everything before the last slash. -/
def canonifyParent (fullname : List UInt8) (suffix : Option (List UInt8)) :
    HelperM (List UInt8) := do
  let stripped :=
    if 2 < fullname.length && endsInSlash fullname then fullname.dropLast else fullname
  match splitLastSlash stripped with
  | none => pure (withSuffix stripped suffix)
  | some (dir, last) =>
    if last = ascii "." ∨ last = ascii ".." ∨ stripped = slash then
      pure (withSuffix stripped suffix)
    else do
      let r ← fxpRealpath (if dir.isEmpty then slash else dir)
      match r with
      | none => pure (withSuffix stripped suffix)
      | some canonname =>
        let found := canonname ++ (if endsInSlash canonname then [] else slash) ++ last
        match suffix with
        | none => pure found
        | some suffix => pure (found ++ (if endsInSlash last then [] else slash) ++ suffix)

def canonifyFull (fullname : List UInt8) (suffix : Option (List UInt8)) :
    HelperM (Option (List UInt8)) := do
  let r ← fxpRealpath fullname
  match r with
  | some canonname => pure (some (withSuffix canonname suffix))
  | none => do
    let path ← canonifyParent fullname suffix
    pure (some path)

/-- `canonify`. -/
def canonify (name : List UInt8) (parentOnly : Bool) : HelperM (Option (List UInt8)) := do
  let h ← get
  let fullname := fullName h.pwd name
  if parentOnly then
    match splitLastSlash fullname with
    | none => pure none
    | some (dir, suffix) =>
      if dir.isEmpty then pure (some fullname) else canonifyFull dir (some suffix)
  else canonifyFull fullname none

end FlintZilla.Psftp
