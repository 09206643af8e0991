import FlintZilla.Lib.Files
import FlintZilla.Path.ServerPath

/-!
# Settings files

`CXmlFile` of `commonui/xml_file.cpp`: documents are saved over a backup copy of the file, which is
removed at the end, and a file that cannot be loaded is restored from the backup.

The two names are `redirectedName` and the one with `~` behind it; that the first is found through a
link is left out, as are times of modification. A write that does not fail writes all its data.
-/

namespace FlintZilla

open Lib.Crash Lib.Files

/-- `redirectedName` and its backup. -/
inductive XmlName where
  | file
  | backup
deriving DecidableEq

/-- What pugixml does, and the root element the file must have. -/
structure XmlFormat (Doc : Type) where
  /-- `load_file`; on failure the description and the offset. -/
  loadFile : List UInt8 → Except (WString × Nat) Doc
  /-- `child(m_rootName)`. -/
  hasRoot : Doc → Bool
  /-- `first_child()`. -/
  hasChild : Doc → Bool
  /-- `append_child(m_rootName)`. -/
  appendRoot : Doc → Doc
  /-- The document of `reset()`. -/
  emptyDoc : Doc
  /-- The document of `CreateEmpty`. -/
  createEmpty : Doc
  /-- `UpdateMetadata`. -/
  updateMetadata : Doc → Doc
  /-- `save`: the data of each call of the writer. -/
  save : Doc → List (List UInt8)

/-- `element` is whether `m_element` is set. -/
structure XmlFile (Doc : Type) where
  fileName : WString
  document : Doc
  element : Bool := false
  error : WString := []
deriving DecidableEq

variable {Doc : Type}

/-- The root element, as `Load` returns it. -/
def XmlFile.root (x : XmlFile Doc) : Option Doc := if x.element then some x.document else none

def XmlFile.close (fmt : XmlFormat Doc) (x : XmlFile Doc) : XmlFile Doc :=
  { x with element := false, document := fmt.emptyDoc }

/-- `buffer` of `copy_file`. -/
def copyBufferSize : Nat := 8192

/-- The loop of `copy_file`; returns `res`. It ends when there is nothing more to read, which is
before the fuel runs out if that exceeds the length. -/
def copyLoop (dest : XmlName) : Nat → List UInt8 → FileM XmlName Int
  | 0, _ => pure 0
  | fuel + 1, rest => do
    let block ← read rest copyBufferSize
    match block with
    | none => pure (-1)
    | some [] => pure 0
    | some block => do
      let written ← write dest block
      if written then copyLoop dest fuel (rest.drop copyBufferSize) else pure (-1)

/-- `copy_file` with `overwrite` and `fsync`. Both files are opened before either is checked. -/
def copyFile (src dest : XmlName) : FileM XmlName Bool := do
  let input ← openRead src
  let output ← openEmpty dest
  match input, output with
  | some data, true => do
    let res ← copyLoop dest (data.length + 1) data
    if res = 0 then do
      let _ ← fsync dest
      pure true
    else pure false
  | _, _ => pure false

/-- `GetXmlFile`. What a failed parse leaves of the document is left out. -/
def XmlFile.getXmlFile (fmt : XmlFormat Doc) (x : XmlFile Doc) (name : XmlName) :
    FileM XmlName (XmlFile Doc) := do
  let x := x.close fmt
  let size ← getSize name
  if size ≤ 0 then pure x
  else do
    let data ← openRead name
    match data with
    | none => pure { x with error := x.error ++ "File was not found at offset 0.".toList }
    | some data =>
      match fmt.loadFile data with
      | .error (description, offset) =>
        pure { x with error :=
          x.error ++ description ++ " at offset ".toList ++ (toString offset).toList ++ ".".toList }
      | .ok doc =>
        if fmt.hasRoot doc then pure { x with document := doc, element := true }
        else if fmt.hasChild doc then
          pure { x with error :=
            "Unknown root element, the file does not appear to be generated by FileZilla.".toList }
        else pure { x with document := fmt.appendRoot doc, element := true }

/-- The message of `Load` for a file that cannot be used. -/
def XmlFile.loadError (x : XmlFile Doc) : WString :=
  "The file '".toList ++ x.fileName ++ "' could not be loaded.\n".toList ++
    if x.error.isEmpty then
      "Make sure the file can be accessed and is a well-formed XML document.".toList
    else x.error

/-- `Load` after neither file could be loaded. -/
def XmlFile.loadNeither (fmt : XmlFormat Doc) (x : XmlFile Doc) (overwriteInvalid : Bool)
    (err : WString) : FileM XmlName (XmlFile Doc) := do
  let size ← getSize .file
  let backupSize ← getSize .backup
  if overwriteInvalid || (size ≤ 0 && backupSize ≤ 0) then
    pure { x with error := [], document := fmt.createEmpty, element := true }
  else pure { x with error := err }

/-- `Load` after the backup was loaded: the file is restored. -/
def XmlFile.restore (fmt : XmlFormat Doc) (x : XmlFile Doc) (err : WString) :
    FileM XmlName (XmlFile Doc) := do
  let copied ← copyFile .backup .file
  if !copied then
    pure { x.close fmt with error := err ++ "\nThe valid backup file ".toList ++ x.fileName ++
      "~ could not be restored".toList }
  else do
    let _ ← remove .backup
    pure { x with error := [] }

/-- `Load`. -/
def XmlFile.load (fmt : XmlFormat Doc) (x : XmlFile Doc) (overwriteInvalid : Bool) :
    FileM XmlName (XmlFile Doc) := do
  let x := { x.close fmt with error := [] }
  if x.fileName.isEmpty then pure x
  else do
    let x ← x.getXmlFile fmt .file
    if x.element then pure x
    else do
      let err := x.loadError
      let x ← x.getXmlFile fmt .backup
      if x.element then x.restore fmt err else x.loadNeither fmt overwriteInvalid err

/-- The calls of `flushing_xml_writer::write`; returns whether the file is still open. -/
def writeBlocks (name : XmlName) : List (List UInt8) → FileM XmlName Bool
  | [] => pure true
  | block :: blocks => do
    let written ← write name block
    if written then writeBlocks name blocks else pure false

/-- `flushing_xml_writer::save`. -/
def flushingXmlWriterSave (blocks : List (List UInt8)) (name : XmlName) : FileM XmlName Bool := do
  let opened ← openEmpty name
  if !opened then pure false
  else do
    let opened ← writeBlocks name blocks
    if opened then fsync name else pure false

/-- `SaveXmlFile` behind the backup. -/
def XmlFile.saveOver (fmt : XmlFormat Doc) (x : XmlFile Doc) (hadFile : Bool) :
    FileM XmlName (Bool × XmlFile Doc) := do
  let success ← flushingXmlWriterSave (fmt.save x.document) .file
  if !success then do
    let _ ← remove .file
    let _ ← (if hadFile then rename .backup .file else pure true)
    pure (false, { x with error := "Failed to write xml file".toList })
  else do
    let _ ← (if hadFile then remove .backup else pure true)
    pure (true, x)

/-- `SaveXmlFile`. -/
def XmlFile.saveXmlFile (fmt : XmlFormat Doc) (x : XmlFile Doc) :
    FileM XmlName (Bool × XmlFile Doc) := do
  let hadFile ← isFile .file
  let copied ← (if hadFile then copyFile .file .backup else pure true)
  if !copied then
    pure (false, { x with error := "Failed to create backup copy of xml file".toList })
  else x.saveOver fmt hadFile

/-- The document `Save` writes. -/
def XmlFile.saved (fmt : XmlFormat Doc) (x : XmlFile Doc) (updateMetadata : Bool) : Doc :=
  if updateMetadata && x.element then fmt.updateMetadata x.document else x.document

/-- `Save`. -/
def XmlFile.save (fmt : XmlFormat Doc) (x : XmlFile Doc) (updateMetadata : Bool) :
    FileM XmlName (Bool × XmlFile Doc) :=
  let x := { x with error := [] }
  if x.fileName.isEmpty then pure (false, x)
  else { x with document := x.saved fmt updateMetadata }.saveXmlFile fmt

end FlintZilla
