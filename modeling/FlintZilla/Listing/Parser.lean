import FlintZilla.Ascii
import FlintZilla.DirectoryListing
import FlintZilla.Lib.Chunks
import FlintZilla.Server

/-!
# The directory listing parser

`CDirectoryListingParser` of `engine/directorylistingparser.cpp`. Data arrives in chunks; `getLine`
cuts lines out of them, `parseLine` tries the listing formats on a line one after the other, and
`parseData` joins a line that no format accepts with the one before it.

The format parsers `ParseAs*`, the conversion of a line to a wide string and what they keep outside
of the parser (the encoding state of the control socket, the cache of strings, the clock) are an
environment with a state of its own. Log messages and the time of the listing are left out.
-/

namespace FlintZilla

open Lib.Search Lib.Chunks

/-! ## Lines -/

/-- `CLine`. The tokens are computed from these two fields; `trailingWhitespace` is `npos` until a
token up to the end of the line has been asked for. -/
structure CLine where
  line : WString
  trailingWhitespace : Option Nat := none
deriving DecidableEq

namespace CLine

def isBlank (c : Char) : Bool := c == ' ' || c == '\t'

/-- `CLine::Concat`. -/
def concat (l other : CLine) : CLine :=
  ⟨l.line ++ ' ' :: other.line, other.trailingWhitespace⟩

/-- `CLine::GetEndToken(0)`: the line from its first token on. The empty token stands for none. -/
def getEndToken (l : CLine) : WString × CLine :=
  let text := l.line.dropWhile isBlank
  if text = [] then ([], l)
  else
    let trailing := l.trailingWhitespace.getD (l.line.reverse.takeWhile isBlank).length
    (text.take (text.length - trailing), { l with trailingWhitespace := some trailing })

end CLine

/-! ## Formats -/

/-- The format parsers in the order in which `ParseLine` names them. -/
inductive ListFormat where
  | zvm
  | hpNonstop
  | mlsd
  | unix
  | dos
  | eplf
  | vms
  | other
  | ibm
  | wfFtp
  | ibmMvs
  | ibmMvsPds
  | os9
  | ibmMvsMigrated
  | ibmMvsPds2
  | ibmMvsTape
  | unixWithoutDate
deriving DecidableEq

/-- What a format parser returns. Only `ParseAsMlsd` can ask for an entry to be skipped. -/
inductive FormatResult where
  | rejected
  | accepted
  | skipped
deriving DecidableEq

/-- What is outside of the parser. -/
structure ListingEnv (σ : Type) where
  /-- `ConvToLocal`, or the conversions that stand in for it without a control socket. -/
  convToLocal : List UInt8 → σ → WString × σ
  /-- A format parser on a line, with `m_maybeMultilineVms` and the entry it fills in. -/
  parseAs : ListFormat → Bool → CLine → CDirentry → σ → FormatResult × CLine × CDirentry × σ

/-- The formats that are tried first, each for one server type only. -/
def leadingFormats (serverType : ServerType) : List ListFormat :=
  match serverType with
  | .zvm => [.zvm]
  | .hpNonstop => [.hpNonstop]
  | _ => []

def commonFormats : List ListFormat :=
  [.mlsd, .unix, .dos, .eplf, .vms, .other, .ibm, .wfFtp, .ibmMvs, .ibmMvsPds, .os9]

def mvsFormats (serverType : ServerType) : List ListFormat :=
  if serverType = .mvs then [.ibmMvsMigrated, .ibmMvsPds2, .ibmMvsTape] else []

/-- The formats that `ParseLine` tries for a server type. -/
def listFormats (serverType : ServerType) : List ListFormat :=
  leadingFormats serverType ++ commonFormats ++ mvsFormats serverType ++ [.unixWithoutDate]

/-! ## The parser of lines -/

/-- The members of `CDirectoryListingParser` that lines are parsed with, and the state of the
environment. -/
structure LineParser (σ : Type) where
  entries : List CDirentry := []
  prevLine : Option CLine := none
  fileListOnly : Bool := true
  fileList : List WString := []
  maybeMultilineVms : Bool := false
  outside : σ
deriving DecidableEq

namespace LineParser

variable {σ : Type}

/-- The formats in turn, on one line and one entry, until one does not reject the line. -/
def tryFormats (env : ListingEnv σ) (maybeMultilineVms : Bool) :
    List ListFormat → CLine → CDirentry → σ → FormatResult × CLine × CDirentry × σ
  | [], line, entry, outside => (.rejected, line, entry, outside)
  | f :: rest, line, entry, outside =>
    match env.parseAs f maybeMultilineVms line entry outside with
    | (.rejected, line, entry, outside) =>
      tryFormats env maybeMultilineVms rest line entry outside
    | answer => answer

def forgetFileList (s : LineParser σ) : LineParser σ :=
  { s with maybeMultilineVms := false, fileList := [], fileListOnly := false }

/-- A line that no format accepts may be a name of a raw file listing. -/
def noteFileName (s : LineParser σ) (line : CLine) : CLine × LineParser σ :=
  let (token, line) := line.getEndToken
  if token = [] ∨ token.contains ' ' then (line, s.forgetFileList)
  else
    (line, { s with
      maybeMultilineVms := token.contains ';'
      fileList := if s.fileListOnly then s.fileList ++ [token] else s.fileList })

/-- With SFTP the name and the time are known before the line is parsed. -/
def overrideEntry (override : Option CDirentry) (entry : CDirentry) : CDirentry :=
  match override with
  | none => entry
  | some o =>
    { entry with
      name := if o.name = [] then entry.name else o.name
      time := if o.time = none then entry.time else o.time }

/-- A directory of a VMS server loses its version. -/
def trimVersion (server : CServer) (entry : CDirentry) : CDirentry :=
  if server.type = .vms ∧ entry.isDir then
    match rfind (· == ';') entry.name with
    | some (pos + 1) => { entry with name := entry.name.take (pos + 1) }
    | _ => entry
  else entry

/-- The offset of the server is in minutes. -/
def shiftTime (server : CServer) (entry : CDirentry) : CDirentry :=
  if server.timezoneOffset = 0 then entry
  else { entry with time := entry.time.map (· + server.timezoneOffset * 60000) }

/-- The label `done` of `ParseLine`. -/
def addEntry (server : CServer) (override : Option CDirentry) (entry : CDirentry)
    (s : LineParser σ) : LineParser σ :=
  let entry := overrideEntry override entry
  let s := s.forgetFileList
  if entry.name = ".".toList ∨ entry.name = "..".toList then s
  else { s with entries := s.entries ++ [shiftTime server (trimVersion server entry)] }

/-- `CDirectoryListingParser::ParseLine`. -/
def parseLine (env : ListingEnv σ) (server : CServer) (line : CLine) (concatenated : Bool)
    (override : Option CDirentry) (s : LineParser σ) : Bool × CLine × LineParser σ :=
  let (answer, line, entry, outside) :=
    tryFormats env s.maybeMultilineVms (listFormats server.type) line {} s.outside
  let s := { s with outside := outside }
  match answer with
  | .accepted => (true, line, s.addEntry server override entry)
  | .skipped => (true, line, s.forgetFileList)
  | .rejected =>
    let (line, s) :=
      if concatenated then (line, { s with maybeMultilineVms := false }) else s.noteFileName line
    match override with
    | none => (false, line, s)
    | some o =>
      if o.name = [] then (false, line, s) else (true, line, s.addEntry server override entry)

/-- The body of the loop of `ParseData`. -/
def handleLine (env : ListingEnv σ) (server : CServer) (s : LineParser σ) (line : CLine) :
    LineParser σ :=
  let (res, line, s) := s.parseLine env server line false none
  if res then { s with prevLine := none }
  else
    match s.prevLine with
    | none => { s with prevLine := some line }
    | some prev =>
      let (res, _, s) := s.parseLine env server (prev.concat line) true none
      { s with prevLine := if res then none else some line }

end LineParser

/-! ## Encodings -/

/-- `listingEncoding::type`. -/
inductive ListingEncoding where
  | unknown
  | normal
  | ebcdic
deriving DecidableEq

/-- `ebcdic_table`, in rows of sixteen characters. -/
def ebcdicTable : List UInt8 :=
  List.flatten <| List.map ascii [
    "                ",
    "     \n         \n",
    "     \n          ",
    "                ",
    "           .<(+|",
    "&         !$*); ",
    "-/        |,%_>?",
    "         `:#@'=\"",
    " abcdefghi      ",
    " jklmnopqr      ",
    " ~stuvwxyz      ",
    "^         []    ",
    "\x7bABCDEFGHI      ",
    "\x7dJKLMNOPQR      ",
    "\\ STUVWXYZ      ",
    "0123456789      "]

/-- `ConvertEncoding`. -/
def ListingEncoding.convert (encoding : ListingEncoding) (data : List UInt8) : List UInt8 :=
  match encoding with
  | .ebcdic => data.map fun b => ebcdicTable.getD b.toNat 0
  | _ => data

example : ListingEncoding.ebcdic.convert [0xc1, 0x40, 0xf9, 0x25] = ascii "A 9\n" := by
  decide +kernel

/-- The comparison of `DeduceEncoding` on the data that has been received. -/
def appearsEbcdic (data : List UInt8) : Bool :=
  let count (b : UInt8) : Nat := data.count b
  let countBetween (lo hi : UInt8) : Nat := data.countP fun b => lo ≤ b ∧ b ≤ hi
  let countNormal := countBetween (asciiChar '0') (asciiChar '9') +
    countBetween (asciiChar 'a') (asciiChar 'z') + countBetween (asciiChar 'A') (asciiChar 'Z')
  let countEbcdic := countBetween 0x81 0x89 + countBetween 0x91 0x99 + countBetween 0xa2 0xa9 +
    countBetween 0xc1 0xc9 + countBetween 0xd1 0xd9 + countBetween 0xe2 0xe9 +
    countBetween 0xf0 0xf9
  (count 0x1f != 0 || count 0x15 != 0 || count 0x25 != 0) && count 0x0a == 0 &&
    count (asciiChar '@') != 0 && decide (count (asciiChar ' ') < count (asciiChar '@')) &&
    decide (countNormal < countEbcdic)

/-! ## The parser of data -/

structure ListingParser (σ : Type) where
  dataList : List (List UInt8) := []
  currentOffset : Nat := 0
  totalData : Nat := 0
  listingEncoding : ListingEncoding := .unknown
  server : CServer := {}
  lines : LineParser σ
deriving DecidableEq

/-- A character that ends a line. -/
def isLineEnd (b : UInt8) : Bool := b == asciiChar '\n' || b == asciiChar '\r' || b == 0

/-- A character that is trimmed in front of a line. -/
def isPadding (b : UInt8) : Bool := isLineEnd b || b == asciiChar ' ' || b == asciiChar '\t'

/-- The bytes of a line, or why there are none. -/
inductive RawLine where
  | line (bytes : List UInt8)
  | tooLong
  | none
deriving DecidableEq

/-- The first half of a round of `GetLine`, on the chunks and the offset. -/
def getRawLine (breakAtEnd : Bool) (chunks : List (List UInt8)) (offset : Nat) :
    RawLine × List (List UInt8) × Nat :=
  match skipWhile isPadding chunks offset with
  | ([], offset) => (.none, [], offset)
  | (c :: rest, startpos) =>
    let w := Lib.Chunks.walk isLineEnd (c :: rest) startpos
    if 10000 < w.count then (.tooLong, c :: rest, startpos)
    else if !w.found && breakAtEnd then (.none, c :: rest, startpos)
    else
      let res := cut w (c :: rest) startpos
      (.line res.1, res.2, w.offset)

/-- Strip the byte order mark. -/
def stripBom (buffer : WString) : WString :=
  match buffer with
  | c :: rest => if c = '\ufeff' then rest else c :: rest
  | [] => []

/-- What `GetLine` returns. -/
inductive GotLine where
  | line (l : CLine)
  | error
  | none
deriving DecidableEq

namespace ListingParser

variable {σ : Type}

/-- A parser that has been constructed with an encoding. -/
def new (server : CServer) (encoding : ListingEncoding) (outside : σ) : ListingParser σ :=
  { listingEncoding := encoding, server := server, lines := { outside := outside } }

/-- `GetLine`. A round uses up at least one byte. -/
def getLine (env : ListingEnv σ) (breakAtEnd : Bool) :
    Nat → ListingParser σ → GotLine × ListingParser σ
  | 0, p => (.none, p)
  | fuel + 1, p =>
    if p.dataList = [] then (.none, p)
    else
      match getRawLine breakAtEnd p.dataList p.currentOffset with
      | (.none, dataList, offset) => (.none, { p with dataList, currentOffset := offset })
      | (.tooLong, dataList, offset) => (.error, { p with dataList, currentOffset := offset })
      | (.line res, dataList, offset) =>
        let (buffer, outside) := env.convToLocal res p.lines.outside
        let p := { p with
          dataList, currentOffset := offset, lines := { p.lines with outside := outside } }
        if stripBom buffer = [] then getLine env breakAtEnd fuel p
        else (.line ⟨stripBom buffer, none⟩, p)

/-- The bytes that a loop can use up. -/
def size (p : ListingParser σ) : Nat := p.dataList.flatten.length

/-- The loop of `ParseData`. -/
def parseLoop (env : ListingEnv σ) (isPartial : Bool) :
    Nat → ListingParser σ → Bool × ListingParser σ
  | 0, p => (true, p)
  | fuel + 1, p =>
    match p.getLine env isPartial (p.size + 1) with
    | (.none, p) => (true, p)
    | (.error, p) => (false, p)
    | (.line l, p) =>
      parseLoop env isPartial fuel { p with lines := p.lines.handleLine env p.server l }

/-- `DeduceEncoding`. -/
def deduceEncoding (p : ListingParser σ) : ListingParser σ :=
  if p.listingEncoding ≠ .unknown then p
  else if appearsEbcdic p.dataList.flatten then
    { p with
      listingEncoding := .ebcdic, dataList := p.dataList.map ListingEncoding.ebcdic.convert }
  else { p with listingEncoding := .normal }

/-- `ParseData`. -/
def parseData (env : ListingEnv σ) (isPartial : Bool) (p : ListingParser σ) :
    Bool × ListingParser σ :=
  let p := p.deduceEncoding
  p.parseLoop env isPartial (p.size + 1)

/-- The first lines of `AddData`: the data is converted and put in the list. -/
def enqueue (data : List UInt8) (p : ListingParser σ) : ListingParser σ :=
  { p with
    dataList := p.dataList ++ [p.listingEncoding.convert data]
    totalData := p.totalData + data.length }

/-- `AddData`. -/
def addData (env : ListingEnv σ) (data : List UInt8) (p : ListingParser σ) :
    Bool × ListingParser σ :=
  let p := p.enqueue data
  if p.totalData < 512 then (true, p) else p.parseData env true

/-- The listing that `Parse` builds from the parsed lines. -/
def listing (path : CServerPath) (s : LineParser σ) : CDirectoryListing :=
  { path := path, entries := s.entries ++ s.fileList.map fun file => { name := file } }

/-- `Parse`. -/
def parse (env : ListingEnv σ) (path : CServerPath) (p : ListingParser σ) :
    CDirectoryListing × ListingParser σ :=
  match p.parseData env false with
  | (false, p) => ({ path := path, entries := [], failed := true }, p)
  | (true, p) => (listing path p.lines, { p with lines := { p.lines with entries := [] } })

/-- `Reset`. What is known of the encoding and the number of bytes received stay. -/
def reset (p : ListingParser σ) : ListingParser σ :=
  { p with dataList := [], currentOffset := 0, lines := { outside := p.lines.outside } }

end ListingParser

/-- A call of a function that the users of a parser alternate. -/
inductive ListingCall where
  | addData (data : List UInt8)
  | parse (path : CServerPath)
deriving DecidableEq

def ListingParser.call {σ : Type} (env : ListingEnv σ) (p : ListingParser σ) :
    ListingCall → ListingParser σ
  | .addData data => (p.addData env data).2
  | .parse path => (p.parse env path).2

end FlintZilla
