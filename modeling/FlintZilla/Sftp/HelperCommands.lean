import FlintZilla.Sftp.Helper

/-!
# The commands of the SFTP helper

The functions of `sftp_lookup` in `putty/psftp.c`, and the loop `do_sftp` that calls them. Each
returns 1 for success, 0 for failure, 2 for a critical error and -1 to quit. A command that has not
printed a Reply or Done event itself is answered by the loop.
-/

namespace FlintZilla.Psftp

/-! ## Common parts -/

/-- `not_connected`. -/
def notConnected : HelperM Unit :=
  fzprintf .error (ascii "psftp: not connected to a host; use \"open host.name\"")

/-- Every command on the server's files starts with this test. -/
def ifConnected (command : HelperM Int) : HelperM Int := do
  let h ← get
  if h.backend then command
  else do
    notConnected
    pure 0

/-- Print an error and fail. -/
def fails (text : List UInt8) : HelperM Int := do
  fzprintf .error text
  pure 0

/-- Print an error with the server's message and fail. -/
def failsWith (text : List UInt8) : HelperM Int := do
  let message ← fxpErrorText
  fails (text ++ ascii ": " ++ message)

/-- The canonical name, or the error that there is none. -/
def canonified (name : List UInt8) (parentOnly : Bool) (action : List UInt8 → HelperM Int) :
    HelperM Int := do
  let r ← canonify name parentOnly
  match r with
  | none => failsWith (name ++ ascii ": canonify")
  | some cname => action cname

/-! ## Transfers -/

/-- A block of data in `sftp_get_file`: what is not written is an error, shown once. -/
def getBlock (len wpos : Nat) (shownErr : Bool) : HelperM Bool :=
  if wpos < len && !shownErr then do
    fzprintf .error (ascii "error while writing local file")
    pure true
  else pure shownErr

/-- The blocks of a packet; returns `shown_err`, whether one failed, and what was written. -/
def getBlocks : List (Nat × Nat) → Bool → HelperM (Bool × Bool × Nat)
  | [], shownErr => pure (shownErr, false, 0)
  | (len, wpos) :: blocks, shownErr => do
    let shownErr ← getBlock len wpos shownErr
    let r ← getBlocks blocks shownErr
    pure (r.1, r.2.1 || wpos < len, wpos + r.2.2)

def getPacketError (retd : Int) (message : List UInt8) (shownErr : Bool) : HelperM Bool :=
  if retd ≤ 0 && !shownErr then do
    fzprintf .error (ascii "error while reading: " ++ message)
    pure true
  else pure shownErr

/-- The loop of `sftp_get_file`, over the rounds to come; returns `ret` and the rounds left. -/
def getLoop : List GetTurn → Bool → Int → Nat → HelperM (Int × List GetTurn)
  | [], _, _, _ => throw .waits
  | .done :: turns, _, ret, _ => pure (ret, turns)
  | .packet retd message blocks timer :: turns, shownErr, ret, winterval => do
    let shownErr ← getPacketError retd message shownErr
    let r ← getBlocks blocks shownErr
    let ret := if retd ≤ 0 || r.2.1 then 0 else ret
    let winterval := winterval + r.2.2
    if timer then do
      fzprintf .transfer (decimal winterval)
      getLoop turns r.1 ret 0
    else getLoop turns r.1 ret winterval

/-- The transfer itself: the loop, and the local file is finalised if all went well. -/
def getTransfer : HelperM Int := do
  let h ← get
  let r ← getLoop h.world.getTurns false 1 0
  modify fun h => { h with world := { h.world with getTurns := r.2 } }
  if r.1 = 1 then do
    let ok ← take World.localFinals fun w l => { w with localFinals := l }
    if ok then pure 1
    else do
      fzprintf .error (ascii "error while writing local file")
      pure 0
  else pure r.1

/-- `sftp_get_file`. -/
def sftpGetFile (fname outfname : List UInt8) : HelperM Int := do
  let _ ← fxpStat fname
  let fh ← fxpOpen fname
  match fh with
  | none => failsWith (fname ++ ascii ": open for read")
  | some _ => do
    let file ← take World.localOpens fun w l => { w with localOpens := l }
    if !file then do
      fzprintf .error (ascii "local: unable to open " ++ outfname)
      let _ ← fxpClose
      pure 2
    else do
      fzprintf .info (ascii "remote:" ++ fname ++ ascii " => local:" ++ outfname)
      let ret ← getTransfer
      let _ ← fxpClose
      pure ret

/-- The reads of one round in `sftp_put_file`, while there is neither error nor end of file. -/
def putReads : List Int → Bool → Bool → HelperM (Bool × Bool)
  | [], err, eof => pure (err, eof)
  | len :: reads, err, eof =>
    if err || eof then pure (err, eof)
    else if len = -1 then do
      fzprintf .error (ascii "error while reading local file")
      putReads reads true eof
    else putReads reads err (len = 0)

def putPacketError (packet : Option (Int × List UInt8)) (err : Bool) : HelperM Bool :=
  match packet with
  | none => pure err
  | some (ret, message) =>
    if ret ≤ 0 && !err then do
      fzprintf .error (ascii "error while writing: " ++ message)
      pure true
    else pure err

/-- The loop of `sftp_put_file`; returns `err` and the rounds left. -/
def putLoop : List PutTurn → Bool → Bool → HelperM (Bool × List PutTurn)
  | [], _, _ => throw .waits
  | .done :: turns, err, _ => pure (err, turns)
  | .round reads packet :: turns, err, eof => do
    let r ← putReads reads err eof
    let err ← putPacketError packet r.1
    putLoop turns err r.2

/-- From the local file on; returns `err`. -/
def putTransfer (fname outfname : List UInt8) : HelperM Bool := do
  let file ← take World.localOpens fun w l => { w with localOpens := l }
  if !file then do
    fzprintf .error (ascii "local: unable to open " ++ fname)
    pure true
  else do
    fzprintf .info (ascii "local:" ++ fname ++ ascii " => remote:" ++ outfname ++ ascii "\n")
    let h ← get
    let r ← putLoop h.world.putTurns false false
    modify fun h => { h with world := { h.world with putTurns := r.2 } }
    pure r.1

/-- The size of the remote file, where the transfer is resumed; returns `err`. -/
def putRestart (fname outfname : List UInt8) : HelperM Bool := do
  let r ← fxpStat outfname
  match r with
  | none => do
    let _ ← failsWith (ascii "read size of " ++ outfname)
    pure true
  | some attrs =>
    match attrs.size with
    | none => do
      fzprintf .error (ascii "read size of " ++ outfname ++ ascii ": size was not given")
      pure true
    | some offset => do
      fzprintf .info (ascii "reput: restarting at file position " ++ decimal offset)
      putTransfer fname outfname

/-- What `sftp_put_file` does with the open file; returns `err`. -/
def putData (fname outfname : List UInt8) (restart : Bool) : HelperM Bool :=
  if restart then putRestart fname outfname else putTransfer fname outfname

/-- `sftp_put_file`. -/
def sftpPutFile (fname outfname : List UInt8) (restart : Bool) : HelperM Int := do
  let fh ← fxpOpen outfname
  match fh with
  | none => failsWith (outfname ++ ascii ": open for write")
  | some _ => do
    let err ← putData fname outfname restart
    let closed ← fxpClose
    match closed with
    | some _ => pure (if err then 0 else 1)
    | none => if err then pure 0 else failsWith (ascii "error while writing")

/-! ## Commands -/

/-- `sftp_cmd_keyfile`. -/
def sftpCmdKeyfile (words : List (List UInt8)) : HelperM Int :=
  if words.length ≠ 2 then fails (ascii "No keyfile given") else pure 1

/-- `atoi`. -/
def atoi (s : List UInt8) : Int :=
  let s := s.dropWhile fun b => b = asciiChar ' ' || (9 ≤ b && b ≤ 13)
  let negative := s.head? = some (asciiChar '-')
  let s := if negative || s.head? = some (asciiChar '+') then s.tail else s
  let digits := s.takeWhile fun b => asciiChar '0' ≤ b && b ≤ asciiChar '9'
  let n : Nat := digits.foldl (fun n b => 10 * n + (b.toNat - 48)) 0
  if negative then -n else n

/-- `sftp_cmd_proxy`. -/
def sftpCmdProxy (words : List (List UInt8)) : HelperM Int :=
  match words with
  | _ :: type :: rest =>
    if type = ascii "0" then pure 1
    else if type ≠ ascii "1" ∧ type ≠ ascii "2" then fails (ascii "Unknown proxy type")
    else
      match rest with
      | _ :: port :: _ =>
        if atoi port < 0 ∨ 65535 < atoi port then fails (ascii "Invalid port") else pure 1
      | _ => fails (ascii "Not enough arguments to proxy command")
  | _ => fails (ascii "Not enough arguments to proxy command")

/-- `do_sftp_cleanup`. -/
def doSftpCleanup : HelperM Unit := modify fun h => { h with backend := false, pwd := [] }

/-- `sftp_cmd_close`. -/
def sftpCmdClose : HelperM Int := ifConnected do
  doSftpCleanup
  pure 0

/-- The names of one reply in `sftp_cmd_ls`. -/
def listEntry (name : FxpName) : HelperM PUnit := do
  fzprintfRawUntrusted .listentry (cString name.longname)
  fzprintfRawUntrusted .unknown (decimal (name.attrs.mtime.getD 0))
  fzprintfRawUntrusted .unknown (cString name.filename)

/-- The loop of `sftp_cmd_ls`, over the replies to come. -/
def lsLoop (dir : List UInt8) : List (FxpReply (List FxpName)) → HelperM Unit
  | [] => throw .waits
  | _ :: replies => do
    let r ← fxpReaddir
    match r with
    | none => do
      let h ← get
      if h.fxpEof then pure ()
      else do
        let _ ← failsWith (ascii "Reading directory " ++ dir)
        pure ()
    | some [] => pure ()
    | some names => do
      names.forM listEntry
      lsLoop dir replies

/-- A request that is left over: its packet is waited for and freed. -/
def dropReaddir : HelperM Unit := do
  let _ ← waitForReply World.names fun w l => { w with names := l }
  pure ()

/-- `sftp_cmd_ls`. Four requests are under way at any time, so three are left at the end. -/
def sftpCmdLs (words : List (List UInt8)) : HelperM Int := ifConnected do
  let dir := words.getD 1 (ascii ".")
  canonified dir false fun cdir => do
    fzprintf .status (ascii "Listing directory " ++ cdir)
    let dirh ← fxpOpen cdir
    match dirh with
    | none => do
      -- `printf`, without an event type; the engine stops reading at the `U`
      let message ← fxpErrorText
      emit .unknown [.raw (ascii "Unable to open " ++ dir ++ ascii ": " ++ message)]
      pure 0
    | some _ => do
      let h ← get
      lsLoop dir h.world.names
      dropReaddir
      dropReaddir
      dropReaddir
      let _ ← fxpClose
      pure 1

/-- `sftp_cmd_cd`. -/
def sftpCmdCd (words : List (List UInt8)) : HelperM Int := ifConnected <|
  match words with
  | [_, name] => canonified name false fun dir => do
    let dirh ← fxpOpen dir
    match dirh with
    | none => failsWith (ascii "Directory " ++ dir)
    | some _ => do
      let _ ← fxpClose
      modify fun h => { h with pwd := dir }
      fzprintf .reply (ascii "New directory is: \"" ++ dir ++ ascii "\"")
      pure 1
  | _ => fails (ascii "Wrong number of arguments")

/-- `sftp_cmd_pwd`. -/
def sftpCmdPwd : HelperM Int := ifConnected do
  let h ← get
  fzprintf .reply (ascii "Current directory is: \"" ++ h.pwd ++ ascii "\"")
  pure 1

/-- `sftp_general_get`. -/
def sftpGeneralGet (words : List (List UInt8)) : HelperM Int := ifConnected <|
  match words with
  | [_, origfname, outfname] => canonified origfname false fun fname => sftpGetFile fname outfname
  | _ => fails (words.headD [] ++ ascii ": expects a filename")

/-- `sftp_general_put`. -/
def sftpGeneralPut (words : List (List UInt8)) (restart : Bool) : HelperM Int := ifConnected <|
  match words with
  | [_, fname, origoutfname] =>
    canonified origoutfname false fun outfname => sftpPutFile fname outfname restart
  | _ => fails (words.headD [] ++ ascii ": expects source and target filenames")

/-- `mkdir`, `rmdir` and `rm` ask the server, and reply with the name. -/
def actOn (action cname : List UInt8) : HelperM Int := do
  let result ← fxpStatus [cname]
  match result with
  | none => failsWith (action ++ ascii " " ++ cname)
  | some _ => do
    fzprintf .reply (action ++ ascii " " ++ cname ++ ascii ": OK")
    pure 1

/-- `sftp_cmd_mkdir`. -/
def sftpCmdMkdir (words : List (List UInt8)) : HelperM Int := ifConnected <|
  match words with
  | [_, name] => canonified name false (actOn (ascii "mkdir"))
  | _ :: _ :: _ => fails (ascii "mkdir: too many arguments")
  | _ => fails (ascii "mkdir: expects a directory")

/-- `sftp_cmd_rmdir`. -/
def sftpCmdRmdir (words : List (List UInt8)) : HelperM Int := ifConnected <|
  match words with
  | [_, name] => canonified name false (actOn (ascii "rmdir"))
  | _ => fails (ascii "rmdir: expects a directory")

/-- `sftp_cmd_rm`; the name itself may be a link and is not resolved. -/
def sftpCmdRm (words : List (List UInt8)) : HelperM Int := ifConnected <|
  match words with
  | _ :: name :: _ => canonified name true (actOn (ascii "rm"))
  | _ => fails (ascii "rm: expects a filename")

/-- `sftp_cmd_mv`. -/
def sftpCmdMv (words : List (List UInt8)) : HelperM Int := ifConnected <|
  match words with
  | [_, name, newName] =>
    canonified name true fun source => canonified newName true fun target => do
    let result ← fxpStatus [source, target]
    match result with
    | none => failsWith (ascii "mv " ++ source ++ ascii " " ++ target)
    | some _ => do
      fzprintf .status (source ++ ascii " -> " ++ target)
      pure 1
  | _ => fails (ascii "mv: expects two filenames")

/-! ## File modes -/

/-- What is wrong with a mode. -/
inductive ModeError where
  | notOctal
  | unknownUser (c : UInt8)
  | incomplete
  | setId
  | unknownPermission (c : UInt8)
  | noUser
deriving DecidableEq

/-- The text of the error; `clause` is the mode up to the next comma. -/
def ModeError.text (clause : List UInt8) : ModeError → List UInt8
  | .notOctal => ascii "chmod: numeric file modes should contain digits 0-7 only"
  | .unknownUser c => ascii "chmod: file mode '" ++ clause ++
      ascii "' contains unrecognised user/group/other specifier '" ++ [c] ++ ascii "'"
  | .incomplete => ascii "chmod: file mode '" ++ clause ++ ascii "' is incomplete"
  | .setId => ascii "chmod: file mode '" ++ clause ++
      ascii "': set[ug]id bit should be used with exactly one of u or g only"
  | .unknownPermission c => ascii "chmod: file mode '" ++ clause ++
      ascii "' contains unrecognised permission specifier '" ++ [c] ++ ascii "'"
  | .noUser => ascii "chmod: file mode '" ++ clause ++
      ascii "' contains no user/group/other specifier and permissions other than 't'"

/-- The specifiers in front of `+`, `-` and `=`. -/
def modeSubset : List UInt8 → Nat → Except ModeError (Nat × List UInt8)
  | [], subset => .ok (subset, [])
  | c :: mode, subset =>
    if c = asciiChar ',' ∨ c = asciiChar '+' ∨ c = asciiChar '-' ∨ c = asciiChar '=' then
      .ok (subset, c :: mode)
    else if c = asciiChar 'u' then modeSubset mode (subset ||| 0o4700)
    else if c = asciiChar 'g' then modeSubset mode (subset ||| 0o2070)
    else if c = asciiChar 'o' then modeSubset mode (subset ||| 0o0007)
    else if c = asciiChar 'a' then modeSubset mode (subset ||| 0o6777)
    else .error (.unknownUser c)

/-- The permissions behind them; `t` belongs to every user. -/
def modePerms : List UInt8 → Nat → Nat → Except ModeError (Nat × Nat × List UInt8)
  | [], subset, perms => .ok (subset, perms, [])
  | c :: mode, subset, perms =>
    if c = asciiChar ',' then .ok (subset, perms, mode)
    else if c = asciiChar 'r' then modePerms mode subset (perms ||| 0o444)
    else if c = asciiChar 'w' then modePerms mode subset (perms ||| 0o222)
    else if c = asciiChar 'x' then modePerms mode subset (perms ||| 0o111)
    else if c = asciiChar 't' then modePerms mode (subset ||| 0o1000) (perms ||| 0o1000)
    else if c = asciiChar 's' then
      if subset &&& 0o6777 = 0o4700 ∨ subset &&& 0o6777 = 0o2070 then
        modePerms mode subset (perms ||| 0o6000)
      else .error .setId
    else .error (.unknownPermission c)

/-- `~` of an `unsigned`. -/
def complement (n : Nat) : Nat := 0xFFFFFFFF ^^^ n

/-- One clause of a symbolic mode, on `attrs_clr` and `attrs_xor`. -/
def modeClause (mode : List UInt8) (clr xor : Nat) : Except ModeError (Nat × Nat × List UInt8) :=
  match modeSubset mode 0 with
  | .error e => .error e
  | .ok (subset, rest) =>
    match rest with
    | [] => .error .incomplete
    | action :: perms =>
      if action = asciiChar ',' ∨ perms.headD (asciiChar ',') = asciiChar ',' then
        .error .incomplete
      else
        match modePerms perms subset 0 with
        | .error e => .error e
        | .ok (subset, perms, rest) =>
          if subset &&& 0o6777 = 0 ∧ perms &&& complement subset ≠ 0 then .error .noUser
          else
            let perms := perms &&& subset
            if action = asciiChar '+' then .ok (clr ||| perms, xor ||| perms, rest)
            else if action = asciiChar '-' then
              .ok (clr ||| perms, xor &&& complement perms, rest)
            else .ok (clr ||| subset, xor ||| perms, rest)

/-- The loop over the clauses. -/
def modeClauses : Nat → List UInt8 → Nat → Nat → Except (List UInt8) (Nat × Nat)
  | 0, _, clr, xor => .ok (clr, xor)
  | _, [], clr, xor => .ok (clr, xor)
  | fuel + 1, mode, clr, xor =>
    match modeClause mode clr xor with
    | .error e => .error (e.text (mode.takeWhile (· ≠ asciiChar ',')))
    | .ok (clr, xor, rest) => modeClauses fuel rest clr xor

/-- The mode of `sftp_cmd_chmod`: `attrs_clr` and `attrs_xor`, or the error. -/
def parseMode (mode : List UInt8) : Except (List UInt8) (Nat × Nat) :=
  match mode with
  | c :: _ =>
    if asciiChar '0' ≤ c ∧ c ≤ asciiChar '9' then
      if mode.any fun b => b < asciiChar '0' || asciiChar '7' < b then
        .error (ModeError.text [] .notOctal)
      else
        .ok (0o7777, mode.foldl (fun n b => 8 * n + (b.toNat - 48)) 0 &&& 0o7777)
    else modeClauses mode.length mode 0 0
  | [] => .ok (0, 0)

/-- `%04o`. -/
def octal (n : Nat) : List UInt8 :=
  let digits := (Nat.toDigits 8 n).map asciiChar
  List.replicate (4 - digits.length) (asciiChar '0') ++ digits

/-- `sftp_action_chmod`. -/
def sftpActionChmod (clr xor : Nat) (fname : List UInt8) : HelperM Int := do
  let r ← fxpStat fname
  match r with
  | none => failsWith (ascii "get attrs for " ++ fname)
  | some attrs =>
    match attrs.permissions with
    | none =>
      fails (ascii "get attrs for " ++ fname ++ ascii ": file permissions not provided")
    | some permissions =>
      let oldperms := permissions &&& 0o7777
      let newperms := ((permissions &&& complement clr) ^^^ xor) &&& 0o7777
      if oldperms = newperms then pure 1
      else do
        let result ← fxpStatus [fname]
        match result with
        | none => failsWith (ascii "set attrs for " ++ fname)
        | some _ => do
          fzprintf .status
            (fname ++ ascii ": " ++ octal oldperms ++ ascii " -> " ++ octal newperms)
          pure 1

/-- `sftp_cmd_chmod`. It returns 0 whatever the server said. -/
def sftpCmdChmod (words : List (List UInt8)) : HelperM Int := ifConnected <|
  match words with
  | [_, mode, name] =>
    match parseMode mode with
    | .error text => fails text
    | .ok (clr, xor) => canonified name false fun cname => do
      let _ ← sftpActionChmod clr xor cname
      pure 0
  | _ => fails (ascii "chmod: expects a mode specifier and a filename")

/-- The digits of a time; `uint64_t` wraps. -/
def parseTime (s : List UInt8) : Option Nat :=
  if s.all fun b => asciiChar '0' ≤ b && b ≤ asciiChar '9' then
    some (s.foldl (fun n b => (10 * n + (b.toNat - 48)) % 2 ^ 64) 0)
  else none

/-- `sftp_cmd_chmtime`. -/
def sftpCmdChmtime (words : List (List UInt8)) : HelperM Int := ifConnected <|
  match words with
  | [_, time, name] => canonified name false fun cname =>
    match parseTime time with
    | none => fails (ascii "chmtime: not a valid time")
    | some mtime => do
      let r ← fxpStat cname
      match r with
      | none => failsWith (ascii "get attrs for " ++ cname)
      | some attrs =>
        match attrs.mtime with
        | none => fails (ascii "get attrs for " ++ cname ++ ascii ": times not provided")
        | some old =>
          if old = mtime then do
            fzprintf .verbose (ascii "Keeping existing mtime")
            pure 1
          else do
            let result ← fxpStatus [cname]
            match result with
            | none => failsWith (ascii "set attrs for " ++ cname)
            | some _ => pure 1
  | _ => fails (ascii "chmtime: expects the time and a filename")

/-- `sftp_cmd_mtime`. -/
def sftpCmdMtime (words : List (List UInt8)) : HelperM Int := ifConnected <|
  match words with
  | [_, filename] => canonified filename false fun cname => do
    let r ← fxpStat cname
    match r with
    | none => failsWith (ascii "get attrs for " ++ cname)
    | some attrs =>
      match attrs.mtime with
      | none => fails (ascii "get attrs for " ++ cname ++ ascii ": mtime not provided")
      | some mtime => do
        fzprintf .reply (decimal mtime)
        pure 1
  | _ => fails (ascii "mtime: expects exactly one filename as argument")

/-! ## `open` -/

/-- `psftp_connect`; true if it fails. -/
def psftpConnect : HelperM Bool := do
  let r ← take World.connects fun w l => { w with connects := l }
  match r with
  | .noUsername => do
    fzprintf .error (ascii "psftp: no username, aborting")
    throw .exit
  | .failed message => do
    fzprintf .error (ascii "ssh_init: " ++ message)
    pure true
  | .exited => pure true
  | .connected realhost => do
    fzprintf .status (ascii "Connected to " ++ realhost)
    modify fun h => { h with backend := true }
    pure false

/-- `do_sftp_init`; true if it fails. -/
def doSftpInit : HelperM Bool := do
  let ok ← take World.inits fun w l => { w with inits := l }
  if !ok then do
    let _ ← failsWith (ascii "Fatal: unable to initialise SFTP on server")
    pure true
  else do
    let r ← fxpRealpath (ascii ".")
    match r with
    | none => do
      let _ ← failsWith (ascii "Warning: failed to resolve home directory")
      modify fun h => { h with pwd := ascii "." }
      pure false
    | some homedir => do
      fzprintf .verbose (ascii "Remote working directory is " ++ homedir)
      modify fun h => { h with pwd := homedir }
      pure false

/-- `sftp_cmd_open` behind the test of its arguments. -/
def openHost : HelperM Int := do
  let failed ← psftpConnect
  if failed then do
    modify fun h => { h with backend := false }
    pure (-1)
  else do
    let failed ← doSftpInit
    if failed then throw .exit
    else do
      fznotify1 .done 1
      pure 1

/-- `sftp_cmd_open`. -/
def sftpCmdOpen (words : List (List UInt8)) : HelperM Int := do
  let h ← get
  if h.backend then fails (ascii "psftp: already connected")
  else
    match words with
    | _ :: _ :: port :: _ =>
      if atoi port = 0 then fails (ascii "open: invalid port number") else openHost
    | [_, _] => openHost
    | _ => fails (ascii "open: expects a host name")

/-! ## `do_sftp` -/

/-- `cmd->obey`. -/
def obey (cmd : SftpCommand) : HelperM Int :=
  match cmd.obey with
  | .null => pure 1
  | .unknown => fails (ascii "Unknown command: \"" ++ cmd.words.headD [] ++ ascii "\"\n")
  | .quit => pure (-1)
  | .keyfile => sftpCmdKeyfile cmd.words
  | .proxy => sftpCmdProxy cmd.words
  | .close => sftpCmdClose
  | .ls => sftpCmdLs cmd.words
  | .cd => sftpCmdCd cmd.words
  | .pwd => sftpCmdPwd
  | .get | .reget => sftpGeneralGet cmd.words
  | .put => sftpGeneralPut cmd.words false
  | .reput => sftpGeneralPut cmd.words true
  | .mkdir => sftpCmdMkdir cmd.words
  | .rmdir => sftpCmdRmdir cmd.words
  | .rm => sftpCmdRm cmd.words
  | .mv => sftpCmdMv cmd.words
  | .chmod => sftpCmdChmod cmd.words
  | .chmtime => sftpCmdChmtime cmd.words
  | .mtime => sftpCmdMtime cmd.words
  | .open_ => sftpCmdOpen cmd.words

/-- One round of `do_sftp`, from the line read to the test for the end. -/
def doSftpRound (line : Option (List UInt8)) : HelperM Int := do
  modify fun h => { h with pendingReply := true }
  let ret ← obey (sftpGetcmd line)
  let h ← get
  if h.pendingReply then do
    fznotify1 .done ret
    pure ret
  else pure ret

end FlintZilla.Psftp
