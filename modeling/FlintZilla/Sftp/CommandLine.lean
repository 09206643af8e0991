import Mathlib.Data.List.TakeWhile
import FlintZilla.Ascii
import FlintZilla.Lib.Quoting
import FlintZilla.Path.ServerPath

/-!
# Command lines of the SFTP helper

The engine drives `fzsftp` through lines of text: a command word and arguments that
`CSftpControlSocket::QuoteFilename` has quoted. `sftp_getcmd` of `putty/psftp.c` cuts the line into
words again and looks up the function for the first one.

The line is converted to the server's encoding on the way. `ServerEncoding` is an encoding in which
a byte below the digits stands for nothing but its own character, as in UTF-8, so that quotation
marks, blanks and line ends are where the engine put them.

Main results:

* `sftpGetcmd_commandLine`: the words that the helper reads.
* `sftpGetcmd_quoteFilename`: exactly when they are the arguments of the command.
-/

namespace FlintZilla

open Lib.Quoting List

/-- An encoding in which the bytes below `0` stand for themselves only. -/
structure ServerEncoding where
  encode : Char → List UInt8
  encode_ne_nil : ∀ c, encode c ≠ []
  encode_low : ∀ c, c.toNat < 0x30 → encode c = [asciiChar c]
  toNat_of_low : ∀ c, ∀ b ∈ encode c, b < 0x30 → c.toNat = b.toNat

namespace ServerEncoding

variable {conv : ServerEncoding} {s : WString}

/-- `CControlSocket::ConvToServer`, for a text the encoding can express. -/
def convToServer (conv : ServerEncoding) (s : WString) : List UInt8 := s.flatMap conv.encode

@[simp] theorem convToServer_append (s t : WString) :
    conv.convToServer (s ++ t) = conv.convToServer s ++ conv.convToServer t :=
  flatMap_append

@[simp] theorem convToServer_cons (c : Char) (s : WString) :
    conv.convToServer (c :: s) = conv.encode c ++ conv.convToServer s :=
  flatMap_cons

variable {c : Char}

theorem asciiChar_toNat (hc : c.toNat < 0x30) : (asciiChar c).toNat = c.toNat := by
  simp only [asciiChar, UInt8.toNat_ofNat']
  omega

theorem asciiChar_lt (hc : c.toNat < 0x30) : asciiChar c < 0x30 := by
  rw [UInt8.lt_iff_toNat_lt, asciiChar_toNat hc]
  exact hc

variable {k : Char}

/-- A character below the digits is in the encoded text only where it is in the text. -/
theorem asciiChar_notMem_encode (hk : k.toNat < 0x30) (hne : c ≠ k) :
    asciiChar k ∉ conv.encode c := by
  intro hmem
  have hcode := conv.toNat_of_low c _ hmem (asciiChar_lt hk)
  rw [asciiChar_toNat hk] at hcode
  exact hne (Char.ext (UInt32.toNat_inj.mp hcode))

/-- A character that is not in the text is not in its bytes. -/
theorem asciiChar_notMem (hk : k.toNat < 0x30) (hs : k ∉ s) :
    asciiChar k ∉ conv.convToServer s := by
  intro hmem
  obtain ⟨c, hc, hmem⟩ := mem_flatMap.mp hmem
  refine asciiChar_notMem_encode hk ?_ hmem
  rintro rfl
  exact hs hc

/-- UTF-8, the default. -/
def utf8 : ServerEncoding where
  encode := String.utf8EncodeChar
  encode_ne_nil := by
    intro c
    unfold String.utf8EncodeChar
    dsimp only
    split_ifs <;> simp
  encode_low := by
    intro c hc
    have hv : c.val.toNat ≤ 127 := by
      have : c.toNat = c.val.toNat := rfl
      omega
    simp only [String.utf8EncodeChar, if_pos hv]
    rfl
  toNat_of_low := by
    intro c b hb hlow
    have hcode : c.toNat = c.val.toNat := rfl
    rw [UInt8.lt_iff_toNat_lt] at hlow
    have h48 : (0x30 : UInt8).toNat = 48 := rfl
    unfold String.utf8EncodeChar at hb
    dsimp only at hb
    -- A byte of a longer encoding is at least 128.
    split_ifs at hb
    all_goals
      simp only [List.mem_cons, List.not_mem_nil, or_false] at hb
      rcases hb with rfl | rfl | rfl | rfl <;> simp only [UInt8.toNat_ofNat'] at hlow ⊢ <;> omega

end ServerEncoding

/-- `CSftpControlSocket::QuoteFilename`. -/
def quoteFilename (filename : WString) : WString := quoted '"' filename

theorem notMem_quoteFilename {name : WString} {k : Char} (hname : k ∉ name) (hmark : k ≠ '"') :
    k ∉ quoteFilename name := by
  have hdoubled : k ∉ doubled '"' name := by
    intro hmem
    obtain ⟨d, hd, hk⟩ := mem_flatMap.mp hmem
    split_ifs at hk
    · simp only [mem_cons, not_mem_nil, or_false, or_self] at hk
      exact hmark hk
    · rw [mem_singleton] at hk
      exact hname (hk ▸ hd)
  simp [quoteFilename, quoted, hmark, hdoubled]

/-- A command word and quoted names, separated by single blanks. -/
def commandLine (c : WString) (names : List WString) : WString :=
  c ++ names.flatMap fun name => ' ' :: quoteFilename name

namespace Psftp

/-! ## `sftp_getcmd` -/

/-- The functions of `sftp_lookup`, and the three that `sftp_getcmd` chooses itself. -/
inductive SftpObey where
  | null
  | unknown
  | quit
  | keyfile
  | proxy
  | close
  | ls
  | cd
  | pwd
  | get
  | reget
  | put
  | reput
  | mkdir
  | rmdir
  | rm
  | mv
  | chmod
  | chmtime
  | mtime
  | open_
deriving DecidableEq

structure SftpCommand where
  words : List (List UInt8)
  obey : SftpObey
deriving DecidableEq

/-- `sftp_lookup`, in the order of the source. -/
def sftpLookup : List (List UInt8 × SftpObey) := [
  (ascii "bye", .quit),
  (ascii "cd", .cd),
  (ascii "chmod", .chmod),
  (ascii "chmtime", .chmtime),
  (ascii "close", .close),
  (ascii "del", .rm),
  (ascii "delete", .rm),
  (ascii "exit", .quit),
  (ascii "get", .get),
  (ascii "keyfile", .keyfile),
  (ascii "ls", .ls),
  (ascii "mkdir", .mkdir),
  (ascii "mtime", .mtime),
  (ascii "mv", .mv),
  (ascii "open", .open_),
  (ascii "proxy", .proxy),
  (ascii "put", .put),
  (ascii "pwd", .pwd),
  (ascii "quit", .quit),
  (ascii "reget", .reget),
  (ascii "reput", .reput),
  (ascii "rm", .rm),
  (ascii "rmdir", .rmdir)]

def strcmp : List UInt8 → List UInt8 → Ordering
  | [], [] => .eq
  | [], _ :: _ => .lt
  | _ :: _, [] => .gt
  | a :: as, b :: bs => if a < b then .lt else if b < a then .gt else strcmp as bs

/-- The loop of `lookup_command`. The lower bound is kept one higher than the `i` of the source,
which starts at -1. -/
def lookupLoop (name : List UInt8) : Nat → Nat → Nat → Option SftpObey
  | 0, _, _ => none
  | fuel + 1, i, j =>
    if i < j then
      let k := (j + i - 1) / 2
      match sftpLookup[k]? with
      | none => none
      | some entry =>
        match strcmp name entry.1 with
        | .lt => lookupLoop name fuel i k
        | .gt => lookupLoop name fuel (k + 1) j
        | .eq => some entry.2
    else none

def lookupCommand (name : List UInt8) : Option SftpObey :=
  lookupLoop name sftpLookup.length 0 sftpLookup.length

/-- What a C string function sees of the bytes. -/
def cString (bytes : List UInt8) : List UInt8 := bytes.takeWhile (· ≠ 0)

def isCrLf (b : UInt8) : Bool := b = asciiChar '\r' || b = asciiChar '\n'

def isBlank (b : UInt8) : Bool := b = asciiChar ' ' || b = asciiChar '\t'

/-- The words of a line. `!` makes two words of it, and `#` none. -/
def commandWords (line : List UInt8) : List (List UInt8) :=
  match line.dropWhile isBlank with
  | [] => []
  | c :: p =>
    if c = asciiChar '!' then [ascii "!", p]
    else if c = asciiChar '#' then []
    else words (asciiChar '"') isBlank (c :: p).length (c :: p)

/-- `sftp_getcmd`, from the line `ssh_sftp_get_cmdline` returned. -/
def sftpGetcmd (line : Option (List UInt8)) : SftpCommand :=
  match line.map cString with
  | none | some [] => { words := [], obey := .quit }
  | some line =>
    let cmdWords := commandWords (line.takeWhile fun b => !isCrLf b)
    match cmdWords with
    | [] => { words := [], obey := .null }
    | name :: _ => { words := cmdWords, obey := (lookupCommand name).getD .unknown }

/-! ## What is read back -/

/-- A word that can start a command: not empty, in one line and one word, and not one of the two
characters that `sftp_getcmd` treats specially. -/
structure CommandWord (c : WString) : Prop where
  ne_nil : c ≠ []
  plain : ∀ k ∈ [' ', '\t', '"', '\x00', '\r', '\n'], k ∉ c
  special : c.head? ≠ some '!' ∧ c.head? ≠ some '#'

/-- A name in which no byte ends the line. -/
def InLine (name : WString) : Prop := ∀ k ∈ ['\x00', '\r', '\n'], k ∉ name

instance decidableInLine (name : WString) : Decidable (InLine name) :=
  inferInstanceAs (Decidable (∀ k ∈ ['\x00', '\r', '\n'], k ∉ name))

open ServerEncoding

variable (conv : ServerEncoding)

/-- Doubling the marks before or after the conversion is the same. -/
theorem convToServer_doubled (name : WString) :
    conv.convToServer (doubled '"' name) = doubled (asciiChar '"') (conv.convToServer name) := by
  induction name with
  | nil => rfl
  | cons c name ih =>
    rw [convToServer_cons, doubled_append, ← ih]
    by_cases hc : c = '"'
    · subst hc
      rw [doubled_mark, convToServer_cons, convToServer_cons,
        conv.encode_low '"' (by decide)]
      rfl
    · have hmark : asciiChar '"' ∉ conv.encode c :=
        asciiChar_notMem_encode (by decide) hc
      rw [doubled_cons hc, convToServer_cons, doubled_of_notMem hmark]

theorem convToServer_quoteFilename (name : WString) :
    conv.convToServer (quoteFilename name) = quoted (asciiChar '"') (conv.convToServer name) := by
  have hmark : conv.encode '"' = [asciiChar '"'] := conv.encode_low '"' (by decide)
  have hend : conv.convToServer ['"'] = [asciiChar '"'] := by
    rw [convToServer_cons, hmark]
    rfl
  rw [quoteFilename, quoted, convToServer_cons, convToServer_append,
    convToServer_doubled, hmark, hend]
  rfl

/-- The bytes of a command line. -/
theorem convToServer_commandLine (c : WString) (names : List WString) :
    conv.convToServer (commandLine c names) = conv.convToServer c ++
        quotedTail (asciiChar '"') (asciiChar ' ') (names.map conv.convToServer) := by
  rw [commandLine, convToServer_append]
  congr 1
  induction names with
  | nil => rfl
  | cons name names ih =>
    have hblank : conv.encode ' ' = [asciiChar ' '] := conv.encode_low ' ' (by decide)
    rw [flatMap_cons, convToServer_append, ih,
      convToServer_cons, hblank, convToServer_quoteFilename]
    simp [quotedTail]

variable {c : WString} {names : List WString} {k : Char}

theorem notMem_commandLine (hc : k ∉ c) (hnames : ∀ name ∈ names, k ∉ name) (hblank : k ≠ ' ')
    (hmark : k ≠ '"') : k ∉ commandLine c names := by
  intro hmem
  rcases mem_append.mp hmem with h | h
  · exact hc h
  · obtain ⟨name, hname, h⟩ := mem_flatMap.mp h
    rcases mem_cons.mp h with h | h
    · exact hblank h
    · exact notMem_quoteFilename (hnames name hname) hmark h

/-- The whole line reaches the word loop. -/
theorem sftpGetcmd_words {line : List UInt8} {b : UInt8} {rest : List UInt8}
    (hline : line = b :: rest) (hnul : (0 : UInt8) ∉ line) (hend : ∀ d ∈ line, isCrLf d = false)
    (hblank : isBlank b = false) (hb : b ≠ asciiChar '!' ∧ b ≠ asciiChar '#') :
    (sftpGetcmd (some line)).words = words (asciiChar '"') isBlank line.length line := by
  have hstr : cString line = line := by
    refine takeWhile_eq_self_iff.mpr ?_
    intro d hd
    simpa using fun h : d = 0 => hnul (h ▸ hd)
  have hcut : (line.takeWhile fun d => !isCrLf d) = line := by
    refine takeWhile_eq_self_iff.mpr ?_
    intro d hd
    rw [hend d hd, Bool.not_false]
  have hwords : commandWords line = words (asciiChar '"') isBlank line.length line := by
    rw [commandWords, hline, dropWhile_blank hblank]
    dsimp only
    rw [if_neg hb.1, if_neg hb.2]
  rw [sftpGetcmd, Option.map_some, hstr]
  subst hline
  dsimp only
  rw [hcut, hwords]
  split
  · next h => exact h.symm
  · rfl

variable {conv}

variable (conv) in
theorem CommandWord.bytes (hc : CommandWord c) :
    ∀ b ∈ conv.convToServer c, b ≠ asciiChar '"' ∧ isBlank b = false := by
  intro b hb
  have hne : ∀ k ∈ [' ', '\t', '"'], b ≠ asciiChar k := by
    rintro k hk rfl
    have hk' : k.toNat < 0x30 ∧ k ∈ [' ', '\t', '"', '\x00', '\r', '\n'] := by
      fin_cases hk <;> decide
    exact asciiChar_notMem hk'.1 (hc.plain k hk'.2) hb
  refine ⟨hne '"' (by simp), ?_⟩
  simp [isBlank, hne ' ' (by simp), hne '\t' (by simp)]

variable (conv) in
/-- A command is neither a comment nor one for the shell. -/
theorem CommandWord.exists_head (hc : CommandWord c) :
    ∃ b bs, conv.convToServer c = b :: bs ∧ b ≠ asciiChar '!' ∧ b ≠ asciiChar '#' := by
  obtain ⟨a, c, rfl⟩ := exists_cons_of_ne_nil hc.ne_nil
  obtain ⟨b, bs, hencode⟩ := exists_cons_of_ne_nil (conv.encode_ne_nil a)
  have hne : ∀ k : Char, k.toNat < 0x30 → a ≠ k → b ≠ asciiChar k := by
    rintro k hk hne rfl
    exact asciiChar_notMem_encode hk hne (hencode ▸ mem_cons_self)
  have hspecial : a ≠ '!' ∧ a ≠ '#' := by simpa using hc.special
  refine ⟨b, bs ++ conv.convToServer c, ?_, hne '!' (by decide) hspecial.1,
    hne '#' (by decide) hspecial.2⟩
  rw [ServerEncoding.convToServer_cons, hencode, cons_append]

/-- No byte of the line ends it. -/
theorem asciiChar_notMem_commandLine (hc : CommandWord c) (hnames : ∀ name ∈ names, InLine name)
    (hk : k ∈ ['\x00', '\r', '\n']) : asciiChar k ∉ conv.convToServer (commandLine c names) := by
  have hk' : k.toNat < 0x30 ∧ k ≠ ' ' ∧ k ≠ '"' ∧ k ∈ [' ', '\t', '"', '\x00', '\r', '\n'] := by
    fin_cases hk <;> decide
  obtain ⟨hlow, hblank, hmark, hmem⟩ := hk'
  refine asciiChar_notMem hlow (notMem_commandLine (hc.plain k hmem) ?_ hblank hmark)
  exact fun name hname => hnames name hname k hk

/-- What the helper makes of a line of the engine: the command word, and every name as `reread`
gives it. -/
theorem sftpGetcmd_commandLine (hc : CommandWord c) (hnames : ∀ name ∈ names, InLine name) :
    (sftpGetcmd (some (conv.convToServer (commandLine c names)))).words = conv.convToServer c ::
        names.map fun name => reread (asciiChar '"') (conv.convToServer name) := by
  obtain ⟨b, bs, hhead, hb⟩ := hc.exists_head conv
  have hbytes := hc.bytes conv
  have hblank : isBlank b = false := (hbytes b (hhead ▸ mem_cons_self)).2
  -- the line has no line end and no null byte, so all of it is read
  have hend : ∀ d ∈ conv.convToServer (commandLine c names), isCrLf d = false := by
    intro d hd
    have hcr : d ≠ asciiChar '\r' := by
      rintro rfl
      exact asciiChar_notMem_commandLine hc hnames (by simp) hd
    have hlf : d ≠ asciiChar '\n' := by
      rintro rfl
      exact asciiChar_notMem_commandLine hc hnames (by simp) hd
    simp [isCrLf, hcr, hlf]
  have hnul : (0 : UInt8) ∉ conv.convToServer (commandLine c names) :=
    asciiChar_notMem_commandLine hc hnames (k := '\x00') (by simp)
  rw [convToServer_commandLine] at hend hnul ⊢
  have hline : conv.convToServer c ++
      quotedTail (asciiChar '"') (asciiChar ' ') (names.map conv.convToServer) =
        b :: (bs ++ quotedTail (asciiChar '"') (asciiChar ' ') (names.map conv.convToServer)) := by
    rw [hhead, cons_append]
  have hfuel : (names.map conv.convToServer).length < (conv.convToServer c ++
      quotedTail (asciiChar '"') (asciiChar ' ') (names.map conv.convToServer)).length := by
    have hlen := length_quotedTail (asciiChar '"') (asciiChar ' ') (names.map conv.convToServer)
    rw [hline, length_cons, length_append]
    omega
  rw [sftpGetcmd_words hline hnul hend hblank hb,
    words_line rfl rfl (by simp [hhead]) hbytes _ _ hfuel, map_map]
  rfl

/-- A name is made of quotation marks only if its bytes are. -/
theorem exists_ne_mark_iff {name : WString} :
    (∃ b ∈ conv.convToServer name, b ≠ asciiChar '"') ↔ ∃ a ∈ name, a ≠ '"' := by
  constructor
  · rintro ⟨b, hb, hne⟩
    obtain ⟨a, ha, hb⟩ := mem_flatMap.mp hb
    refine ⟨a, ha, ?_⟩
    rintro rfl
    rw [conv.encode_low '"' (by decide), mem_singleton] at hb
    exact hne hb
  · rintro ⟨a, ha, hne⟩
    obtain ⟨b, bs, hencode⟩ := exists_cons_of_ne_nil (conv.encode_ne_nil a)
    have hb : b ∈ conv.encode a := hencode ▸ mem_cons_self
    refine ⟨b, mem_flatMap.mpr ⟨a, ha, hb⟩, ?_⟩
    rintro rfl
    exact asciiChar_notMem_encode (by decide) hne hb

/-- The helper reads the command word and the names that the engine quoted exactly if no name
consists of quotation marks only. -/
theorem sftpGetcmd_quoteFilename (conv : ServerEncoding) (c : WString) (names : List WString)
    (hc : CommandWord c) (hnames : ∀ name ∈ names, InLine name) :
    (sftpGetcmd (some (conv.convToServer (commandLine c names)))).words =
      conv.convToServer c :: names.map conv.convToServer ↔ ∀ name ∈ names, ∃ a ∈ name, a ≠ '"' := by
  rw [sftpGetcmd_commandLine hc hnames, cons.injEq, map_inj_left]
  simp only [true_and, reread_eq_self_iff, exists_ne_mark_iff]

/-- Renaming `a "b"` to `"c`. -/
theorem sftpGetcmd_quoteFilename_mv : (sftpGetcmd (some (ServerEncoding.utf8.convToServer
      (commandLine "mv".toList ["a \"b\"".toList, "\"c".toList])))).words =
        [ascii "mv", ascii "a \"b\"", ascii "\"c"] := by
  have hc : CommandWord "mv".toList := ⟨by decide, by decide, by decide⟩
  exact (sftpGetcmd_quoteFilename ServerEncoding.utf8 "mv".toList
    ["a \"b\"".toList, "\"c".toList] hc (by decide)).mpr (by simp)

/-- Deleting the file whose name is one quotation mark: the helper deletes the file whose name is
two. -/
theorem sftpGetcmd_single_mark :
    sftpGetcmd (some (ServerEncoding.utf8.convToServer (commandLine "rm".toList ["\"".toList]))) =
        { words := [ascii "rm", ascii "\"\""], obey := .rm } ∧
      ascii "\"\"" ≠ ServerEncoding.utf8.convToServer "\"".toList := by
  decide

end Psftp

end FlintZilla
