import FlintZilla.Lib.Search

/-!
# Remote paths

`CServerPath` of `engine/serverpath.cpp`: a server type with an optional body, the body being a
list of segments and an optional string kept in front of them (on MVS: behind them). Eleven path
grammars share one table, `traits`, and one segmenter; `doChangePath` is the switch over the
server types, one function to a branch.

A wide string is a list of characters. `false` results of the private helpers are `none`, since
`ChangePath` clears the path whenever `DoChangePath` fails.
-/

namespace FlintZilla

open Lib.Search

/-- `std::wstring`. -/
abbrev WString := List Char

/-- `ServerType` of `include/server.h`, in the order of the enumeration. -/
inductive ServerType where
  | default
  | unix
  | vms
  | dos
  | mvs
  | vxworks
  | zvm
  | hpNonstop
  | dosVirtual
  | cygwin
  | dosFwdSlashes
deriving DecidableEq

/-- One row of the table; a zero character is `none`. -/
structure CServerTypeTraits where
  separators : WString
  hasRoot : Bool
  leftEnclosure : Option Char
  rightEnclosure : Option Char
  filenameInsideEnclosure : Bool
  prefixmode : Nat
  separatorEscape : Option Char
  hasDots : Bool
  separatorAfterPrefix : Bool

def traits : ServerType → CServerTypeTraits
  | .default => ⟨['/'], true, none, none, false, 0, none, true, false⟩
  | .unix => ⟨['/'], true, none, none, false, 0, none, true, false⟩
  | .vms => ⟨['.'], false, some '[', some ']', false, 0, some '^', false, false⟩
  | .dos => ⟨['\\', '/'], false, none, none, false, 0, none, true, false⟩
  | .mvs => ⟨['.'], false, some '\'', some '\'', true, 1, none, false, false⟩
  | .vxworks => ⟨['/'], true, none, none, false, 0, none, true, false⟩
  | .zvm => ⟨['/'], true, none, none, false, 0, none, true, false⟩
  | .hpNonstop => ⟨['.'], false, none, none, false, 0, none, false, false⟩
  | .dosVirtual => ⟨['\\'], true, none, none, false, 0, none, true, false⟩
  | .cygwin => ⟨['/'], true, none, none, false, 0, none, true, true⟩
  | .dosFwdSlashes => ⟨['/', '\\'], false, none, none, false, 0, none, true, false⟩

/-- `traits[t].separators[0]`. -/
def separator (t : ServerType) : Char := (traits t).separators.headD '/'

/-- `CServerPath::IsSeparator`. -/
def isSeparator (t : ServerType) (c : Char) : Bool := (traits t).separators.contains c

/-- `FTP_MVS_DOUBLE_QUOTE`. -/
def mvsDoubleQuote : Char := Char.ofNat 0xDC

/-- `CServerPathData`: the segments and `m_prefix`. -/
structure CServerPathData where
  segments : List WString := []
  pfx : Option WString := none
deriving DecidableEq

/-- `CServerPath`; the body is absent exactly when the path is empty. -/
structure CServerPath where
  type : ServerType
  data : Option CServerPathData
deriving DecidableEq

namespace CServerPath

def empty (p : CServerPath) : Bool := p.data.isNone

def clear (p : CServerPath) : CServerPath := { p with data := none }

end CServerPath

/-! ## The segmenter -/

/-- `segments.back() += segment`. -/
def appendToBack (segments : List WString) (segment : WString) : List WString :=
  segments.dropLast ++ [segments.getLastD [] ++ segment]

/-- Continue the last segment if `append` is set, start a new one otherwise. -/
def pushSegment (st : List WString × Bool) (segment : WString) : List WString :=
  if st.2 then appendToBack st.1 segment else st.1 ++ [segment]

/-- `CServerPath::SegmentizeAddSegment`; the state is the list and the `append` flag. -/
def segmentizeAddSegment (t : ServerType) (st : List WString × Bool) (segment : WString) :
    List WString × Bool :=
  if (traits t).hasDots && segment == ['.'] then st
  else if (traits t).hasDots && segment == ['.', '.'] then (st.1.dropLast, st.2)
  else
    let appendNext := (traits t).separatorEscape.isSome &&
      segment.getLast? == (traits t).separatorEscape
    -- an escape at the end stands for the separator that ended the segment
    let segment := if appendNext then segment.dropLast ++ [separator t] else segment
    (pushSegment st segment, appendNext)

/-- `CServerPath::Segmentize`: the loop visits the maximal runs between separators. -/
def segmentize (t : ServerType) (str : WString) (segments : List WString) :
    Option (List WString) :=
  let st := (fields (isSeparator t) str).foldl (segmentizeAddSegment t) (segments, false)
  if st.2 then none else some st.1

/-- `CServerPath::ExtractFile`: the directory part and the file. -/
def extractFile (t : ServerType) (dir : WString) : Option (WString × WString) :=
  match rfind (isSeparator t) dir with
  | none => some ([], dir)
  | some pos =>
    if pos = dir.length - 1 then none else some (dir.take (pos + 1), dir.drop (pos + 1))

/-- `if (isFile && !ExtractFile(dir, file)) return false`. -/
def extractIfFile (t : ServerType) (dir : WString) (isFile : Bool) :
    Option (WString × WString) :=
  if isFile then extractFile t dir else some (dir, [])

/-! ## The branches of `DoChangePath`

Each takes the body before the call (a fresh one when the path was empty), `was_empty`, the
nonempty argument and `isFile`, and returns the new body and the file name. -/

/-- The end several branches share: segmentize behind `segments` and refuse to start a path
with nothing. -/
def finishSegments (t : ServerType) (dir file : WString) (segments : List WString)
    (pfx : Option WString) (refuseEmpty : Bool) : Option (CServerPathData × WString) :=
  match segmentize t dir segments with
  | none => none
  | some segs => if segs.isEmpty && refuseEmpty then none else some (⟨segs, pfx⟩, file)

def changeVms (data : CServerPathData) (wasEmpty : Bool) (dir : WString) (isFile : Bool) :
    Option (CServerPathData × WString) :=
  match find (· == '[') dir with
  | none =>
    if (rfind (· == ']') dir).isSome then none
    else if isFile then
      if wasEmpty then none else some (data, dir)
    else finishSegments .vms dir [] data.segments data.pfx wasEmpty
  | some pos1 =>
    match rfind (· == ']') dir with
    | none => none
    | some pos2 =>
      if pos2 ≤ pos1 + 1 then none
      else if isFile == (pos2 == dir.length - 1) then none
      else
        let file := if isFile then dir.drop (pos2 + 1) else []
        let pfx := if pos1 = 0 then data.pfx else some ((dir.take pos2).take pos1)
        finishSegments .vms ((dir.take pos2).drop (pos1 + 1)) file [] pfx wasEmpty

/-- `DOS` and `DOS_FWD_SLASHES`. -/
def changeDos (t : ServerType) (data : CServerPathData) (wasEmpty : Bool) (dir : WString)
    (isFile : Bool) : Option (CServerPathData × WString) :=
  let sep := (find (isSeparator t) dir).getD dir.length
  let isAbsolute := match find (· == ':') dir with
    | none => false
    | some colon => decide (0 < colon) && colon == sep - 1
  let start : Option (WString × List WString) :=
    if isAbsolute then some (dir, [])
    else if isSeparator t (dir.headD '\x00') then
      -- drive-relative path
      match data.segments with
      | [] => none
      | first :: _ => some (dir.drop 1, [first])
    else some (dir, data.segments)
  match start with
  | none => none
  | some (dir, segments) =>
    match extractIfFile t dir isFile with
    | none => none
    | some (dir, file) => finishSegments t dir file segments data.pfx wasEmpty

/-- Remove the double quotation some servers send in the PWD reply. -/
def stripMvsQuotes (dir : WString) : WString :=
  ((dir.dropWhile (· == mvsDoubleQuote)).reverse.dropWhile (· == mvsDoubleQuote)).reverse

/-- The enclosure part of the `MVS` branch: the remaining text and the segments to extend. -/
def mvsEnclosure (data : CServerPathData) (wasEmpty : Bool) (dir : WString) :
    Option (WString × List WString) :=
  if dir.head? = some '\'' then
    if dir.getLast? ≠ some '\'' then none
    else some ((dir.drop 1).take (dir.length - 2), [])
  else if dir.getLast? = some '\'' then none
  else if wasEmpty then none
  else some (dir, data.segments)

/-- The member and qualifier part of the `MVS` branch: directory, file and new suffix. -/
def mvsMember (data : CServerPathData) (wasEmpty : Bool) (dir : WString) (isFile : Bool) :
    Option (WString × WString × Option WString) :=
  if dir.getLast? = some ')' then
    -- partitioned dataset member
    if !isFile then none
    else match find (· == '(') dir with
      | none => none
      | some pos =>
        let inner := dir.dropLast
        if !wasEmpty && data.pfx.isNone && !(inner.take pos).isEmpty then none
        else some (inner.take pos, inner.drop (pos + 1), none)
  else if !wasEmpty && data.pfx.isNone && (dir.contains '.' || !isFile) then none
  else if isFile then
    match extractFile .mvs dir with
    | none => none
    | some (dir, file) => some (dir, file, some ['.'])
  else some (dir, [], if dir.getLast? = some '.' then some ['.'] else none)

def changeMvs (data : CServerPathData) (wasEmpty : Bool) (dir : WString) (isFile : Bool) :
    Option (CServerPathData × WString) :=
  let dir := stripMvsQuotes dir
  if dir.isEmpty then none
  else match mvsEnclosure data wasEmpty dir with
    | none => none
    | some (dir, segments) =>
      match mvsMember data wasEmpty dir isFile with
      | none => none
      | some (dir, file, pfx) => finishSegments .mvs dir file segments pfx false

def changeHpNonstop (data : CServerPathData) (wasEmpty : Bool) (dir : WString)
    (isFile : Bool) : Option (CServerPathData × WString) :=
  let segments := if dir.head? = some '\\' then [] else data.segments
  match extractIfFile .hpNonstop dir isFile with
  | none => none
  | some (dir, file) => finishSegments .hpNonstop dir file segments data.pfx wasEmpty

def changeVxworks (data : CServerPathData) (wasEmpty : Bool) (dir : WString)
    (isFile : Bool) : Option (CServerPathData × WString) :=
  let start : Option (WString × List WString × Option WString) :=
    if dir.head? ≠ some ':' then
      if wasEmpty then none else some (dir, data.segments, data.pfx)
    else match find (· == ':') (dir.drop 1) with
      | none => none
      | some 0 => none
      | some (k + 1) =>
        -- `colon2` is `k + 2`
        some (dir.drop (k + 3), [], some (dir.take (k + 3)))
  match start with
  | none => none
  | some (dir, segments, pfx) =>
    match extractIfFile .vxworks dir isFile with
    | none => none
    | some (dir, file) => finishSegments .vxworks dir file segments pfx false

def changeCygwin (data : CServerPathData) (wasEmpty : Bool) (dir : WString)
    (isFile : Bool) : Option (CServerPathData × WString) :=
  let start : Option (List WString × Option WString) :=
    if isSeparator .cygwin (dir.headD '\x00') then some ([], none)
    else if wasEmpty then none
    else some (data.segments, data.pfx)
  match start with
  | none => none
  | some (segments, pfx) =>
    let doubled := dir.head? = some '/' ∧ dir[1]? = some '/'
    let pfx := if doubled then some [separator .cygwin] else pfx
    let dir := if doubled then dir.drop 1 else dir
    match extractIfFile .cygwin dir isFile with
    | none => none
    | some (dir, file) => finishSegments .cygwin dir file segments pfx false

/-- The `default` label: `DEFAULT`, `UNIX`, `ZVM` and `DOS_VIRTUAL`. -/
def changeRooted (t : ServerType) (data : CServerPathData) (wasEmpty : Bool) (dir : WString)
    (isFile : Bool) : Option (CServerPathData × WString) :=
  let start : Option (List WString) :=
    if isSeparator t (dir.headD '\x00') then some []
    else if wasEmpty then none
    else some data.segments
  match start with
  | none => none
  | some segments =>
    match extractIfFile t dir isFile with
    | none => none
    | some (dir, file) => finishSegments t dir file segments data.pfx false

/-- The switch of `DoChangePath`. -/
def changeByType (t : ServerType) (data : CServerPathData) (wasEmpty : Bool) (dir : WString)
    (isFile : Bool) : Option (CServerPathData × WString) :=
  match t with
  | .vms => changeVms data wasEmpty dir isFile
  | .dos => changeDos .dos data wasEmpty dir isFile
  | .dosFwdSlashes => changeDos .dosFwdSlashes data wasEmpty dir isFile
  | .mvs => changeMvs data wasEmpty dir isFile
  | .hpNonstop => changeHpNonstop data wasEmpty dir isFile
  | .vxworks => changeVxworks data wasEmpty dir isFile
  | .cygwin => changeCygwin data wasEmpty dir isFile
  | .default => changeRooted .default data wasEmpty dir isFile
  | .unix => changeRooted .unix data wasEmpty dir isFile
  | .zvm => changeRooted .zvm data wasEmpty dir isFile
  | .dosVirtual => changeRooted .dosVirtual data wasEmpty dir isFile

namespace CServerPath

/-- `CServerPath::DoChangePath`: the path after the call and the value of `subdir`. -/
def doChangePath (p : CServerPath) (subdir : WString) (isFile : Bool) :
    Option (CServerPath × WString) :=
  if subdir.isEmpty then
    if p.empty || isFile then none else some (p, subdir)
  else match changeByType p.type (p.data.getD {}) p.empty subdir isFile with
    | none => none
    | some (data, file) =>
      if !(traits p.type).hasRoot && data.segments.isEmpty then none
      else if isFile then
        if (traits p.type).hasDots && (file == ['.', '.'] || file == ['.']) then none
        else some (⟨p.type, some data⟩, file)
      else some (⟨p.type, some data⟩, subdir)

/-- `CServerPath::ChangePath`: the result, the path and the value of `subdir` after the call. -/
def changePath (p : CServerPath) (subdir : WString) (isFile : Bool) :
    Bool × CServerPath × WString :=
  match p.doChangePath subdir isFile with
  | none => (false, p.clear, subdir)
  | some (p', subdir') => (true, p', subdir')

/-! ## `SetPath` -/

/-- Position of the first `:[`. -/
def findDeviceBracket (path : WString) : Option Nat :=
  path.tails.findIdx? fun s => List.isPrefixOf [':', '['] s

def isAsciiLetter (c : Char) : Bool :=
  (decide ('A' ≤ c) && decide (c ≤ 'Z')) || (decide ('a' ≤ c) && decide (c ≤ 'z'))

/-- The type `SetPath` deduces for a path of type `DEFAULT`. -/
def deduceType (path : WString) (isFile : Bool) : ServerType :=
  match findDeviceBracket path with
  | some pos1 =>
    match rfind (· == ']') path with
    | some pos2 =>
      if pos2 == path.length - 1 && !isFile then .vms
      else if isFile && decide (pos1 < pos2) then .vms
      else .unix
    | none => if isFile then .vms else .unix
  | none =>
    if decide (3 ≤ path.length) && isAsciiLetter (path.headD '\x00') &&
        path[1]? == some ':' && (path[2]? == some '\\' || path[2]? == some '/') then .dos
    else if path.head? == some mvsDoubleQuote && path.getLast? == some mvsDoubleQuote then .mvs
    else if path.head? == some ':' then
      match find (· == '/') path with
      | none => .vxworks
      | some slash => if 0 < slash then .vxworks else .unix
    else if path.head? == some '\\' then .dosVirtual
    else .unix

/-- `CServerPath::SetPath`: the result, the path and the value of `newPath` after the call. -/
def setPath (p : CServerPath) (newPath : WString) (isFile : Bool) :
    Bool × CServerPath × WString :=
  if newPath.isEmpty then (false, p, newPath)
  else
    let t := if p.type = .default then deduceType newPath isFile else p.type
    let r := changePath ⟨t, none⟩ newPath isFile
    (r.1, r.2.1, if r.1 && isFile then r.2.2 else newPath)

/-- The constructor from a text and a type. -/
def ofText (path : WString) (t : ServerType) : CServerPath := (setPath ⟨t, none⟩ path false).2.1

/-! ## Printing -/

end CServerPath

/-- `EscapeSeparators`. -/
def escapeSeparators (t : ServerType) (subdir : WString) : WString :=
  match (traits t).separatorEscape with
  | none => subdir
  | some e => (traits t).separators.foldl
      (fun s q => s.flatMap fun c => if c == q then [e, separator t] else [c]) subdir

/-- The loop of `GetPath` over the segments. -/
def printSegments (t : ServerType) (segments : List WString) : WString :=
  List.intercalate [separator t] (segments.map (escapeSeparators t))

namespace CServerPath

/-- `CServerPath::GetPath`. -/
def getPath (p : CServerPath) : WString :=
  match p.data with
  | none => []
  | some data =>
    let tr := traits p.type
    let leading := if tr.prefixmode = 0 then data.pfx.getD [] else []
    -- the root, or the separator in front of the first segment
    let root :=
      if data.segments.isEmpty then
        if !tr.hasRoot || data.pfx.isNone || tr.separatorAfterPrefix then [separator p.type] else []
      else if tr.hasRoot && (data.pfx.isNone || tr.separatorAfterPrefix) then [separator p.type]
      else []
    let trailing := if tr.prefixmode = 0 then [] else data.pfx.getD []
    -- C: is the current directory on drive C, C:\ the drive root
    let drive :=
      if (p.type = .dos ∨ p.type = .dosFwdSlashes) ∧ data.segments.length = 1 then
        [separator p.type]
      else []
    leading ++ tr.leftEnclosure.toList ++ root ++ printSegments p.type data.segments ++ trailing ++
      tr.rightEnclosure.toList ++ drive

/-! ## Parents -/

/-- `CServerPath::HasParent`. -/
def hasParent (p : CServerPath) : Bool :=
  match p.data with
  | none => false
  | some data =>
    if !(traits p.type).hasRoot then decide (1 < data.segments.length)
    else !data.segments.isEmpty

/-- `CServerPath::MakeParent`. -/
def makeParent (p : CServerPath) : CServerPath :=
  match p.data with
  | none => p.clear
  | some data =>
    if p.hasParent then
      ⟨p.type, some ⟨data.segments.dropLast, if p.type = .mvs then some ['.'] else data.pfx⟩⟩
    else p.clear

/-- `CServerPath::GetParent`. -/
def getParent (p : CServerPath) : CServerPath := p.makeParent

/-- `CServerPath::AddSegment`; the new segment is not checked. -/
def addSegment (p : CServerPath) (segment : WString) : Bool × CServerPath :=
  match p.data with
  | none => (false, p)
  | some data => (true, ⟨p.type, some ⟨data.segments ++ [segment], data.pfx⟩⟩)

end CServerPath

/-- A path on a Unix server, for examples. -/
def unixPath (segments : List String) : CServerPath :=
  ⟨.unix, some ⟨segments.map String.toList, none⟩⟩

end FlintZilla
