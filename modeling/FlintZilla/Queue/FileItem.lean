import FlintZilla.Path.LocalPath

/-!
# Queued files

Items of the transfer queue: `CFileItem` and `CFolderItem` of `interface/queue.h`, `QueueFile` of
`interface/QueueView.cpp`, and the functions that derive a local name from a remote one. Priorities,
edit types and the state of a transfer are left out.
-/

namespace FlintZilla

open Lib.Search

/-! ## Local names -/

/-- The platform and the options that local names depend on. -/
structure NameOptions where
  windows : Bool := false
  /-- `OPTION_INVALID_CHAR_REPLACE_ENABLE`. -/
  invalidCharReplaceEnable : Bool := true
  /-- `OPTION_INVALID_CHAR_REPLACE`. -/
  invalidCharReplace : WString := ['_']
  /-- `OPTION_STRIP_VMS_REVISION`. -/
  stripVmsRevision : Bool := false
deriving DecidableEq

/-- `IsInvalidChar`. -/
def isInvalidChar (windows : Bool) (c : Char) (includeQuotesAndBreaks : Bool) : Bool :=
  if c = '/' then true
  else if windows ∧ c ∈ ['\\', ':', '*', '?', '"', '<', '>', '|'] then true
  else if c = '\'' ∨ (!windows ∧ (c = '"' ∨ c = '\\')) then includeQuotesAndBreaks
  else if c.toNat < 0x20 then windows || includeQuotesAndBreaks
  else false

/-- `CQueueView::ReplaceInvalidCharacters`. The string that replaces has one character. -/
def replaceInvalidCharacters (o : NameOptions) (filename : WString)
    (includeQuotesAndBreaks : Bool := false) : WString :=
  if !o.invalidCharReplaceEnable then filename
  else filename.map fun c =>
    if isInvalidChar o.windows c includeQuotesAndBreaks then o.invalidCharReplace.headD '\x00'
    else c

/-- `StripVMSRevision`. -/
def stripVmsRevision (name : WString) : WString :=
  match rfind (· == ';') name with
  | none => name
  | some 0 => name
  | some pos =>
    let revision := name.drop (pos + 1)
    if revision = [] then name
    else if revision.all fun c => '0' ≤ c ∧ c ≤ '9' then name.take pos
    else name

/-! ## Items -/

/-- `CFileItem`; `folder` is set for a `CFolderItem`. -/
structure CFileItem where
  folder : Bool
  download : Bool
  queued : Bool
  ascii : Bool
  sourceFile : WString
  targetFile : Option WString
  localPath : CLocalPath
  remotePath : CServerPath
  size : Int
deriving DecidableEq

namespace CFileItem

/-- The constructor of `CFileItem`. -/
def new (download queued ascii : Bool) (sourceFile targetFile : WString) (localPath : CLocalPath)
    (remotePath : CServerPath) (size : Int) : CFileItem where
  folder := false
  download := download
  queued := queued
  ascii := ascii
  sourceFile := sourceFile
  targetFile := if targetFile = [] then none else some targetFile
  localPath := localPath
  remotePath := remotePath
  size := size

def getLocalFile (item : CFileItem) : WString :=
  if !item.download then item.sourceFile else item.targetFile.getD item.sourceFile

def getRemoteFile (item : CFileItem) : WString :=
  if item.download then item.sourceFile else item.targetFile.getD item.sourceFile

end CFileItem

/-- `CQueueView::QueueFile`. `asAscii` is whether the server knows data types and the options ask
for a transfer in ASCII mode. -/
def queueFile (asAscii : Bool → WString → ServerType → Bool) (queueOnly download : Bool)
    (sourceFile targetFile : WString) (localPath : CLocalPath) (remotePath : CServerPath)
    (size : Int) : CFileItem :=
  if sourceFile = [] then
    if download then
      { CFileItem.new true queueOnly false [] [] (localPath.addSegment targetFile)
          ⟨.default, none⟩ (-1) with folder := true }
    else
      { CFileItem.new false queueOnly false [] targetFile {} remotePath (-1) with folder := true }
  else
    CFileItem.new download queueOnly (asAscii download sourceFile remotePath.type) sourceFile
      targetFile localPath remotePath size

end FlintZilla
