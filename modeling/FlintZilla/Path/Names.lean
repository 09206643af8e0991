import FlintZilla.Path.Ancestor

/-!
# Names below a path

The functions of `engine/serverpath.cpp` with which an operation forms the texts of its commands:
a file name with its directory, the last segment, and the last directory two paths have in common.
-/

namespace FlintZilla.CServerPath

/-- The path and what stands between it and a file name. -/
def filenameStem (p : CServerPath) (data : CServerPathData) : WString :=
  let tr := traits p.type
  let path :=
    if tr.leftEnclosure.isSome && tr.filenameInsideEnclosure then p.getPath.dropLast else p.getPath
  let separated := path.isEmpty || path.getLast?.any (isSeparator p.type)
  match p.type with
  | .vxworks =>
    if !separated && !data.segments.isEmpty then path ++ [separator p.type] else path
  | .vms | .mvs => path
  | _ => if !separated then path ++ [separator p.type] else path

/-- `CServerPath::FormatFilename`. -/
def formatFilename (p : CServerPath) (filename : WString) (omitPath : Bool) : WString :=
  match p.data with
  | none => filename
  | some data =>
    let tr := traits p.type
    if filename.isEmpty then filename
    else if omitPath && (tr.prefixmode = 0 || data.pfx = some ['.']) then filename
    else
      let named :=
        if tr.prefixmode = 1 && data.pfx.isNone then ['('] ++ filename ++ [')'] else filename
      let closing :=
        if tr.leftEnclosure.isSome && tr.filenameInsideEnclosure then tr.rightEnclosure.toList
        else []
      p.filenameStem data ++ named ++ closing

/-- `CServerPath::GetLastSegment`. -/
def getLastSegment (p : CServerPath) : WString :=
  match p.data with
  | none => []
  | some data => if p.hasParent then data.segments.getLastD [] else []

/-- `CServerPath::SetType`. -/
def setType (p : CServerPath) (type : ServerType) : CServerPath :=
  if !p.empty && p.type != .default && p.type != type then p else { p with type }

/-- The loop of `GetCommonParent`; `none` for the empty path it may return. -/
def commonSegments (hasRoot : Bool) :
    List WString → List WString → List WString → Option (List WString)
  | common, x :: xs, y :: ys =>
    if x = y then commonSegments hasRoot (common ++ [x]) xs ys
    else if !hasRoot && common.isEmpty then none
    else some common
  | common, _, _ => some common

/-- `CServerPath::GetCommonParent`. -/
def getCommonParent (p path : CServerPath) : CServerPath :=
  if p = path then p
  else
    match p.data, path.data with
    | some ld, some rd =>
      let tr := traits p.type
      if p.type != path.type || (tr.prefixmode = 0 && ld.pfx != rd.pfx) then ⟨.default, none⟩
      else if !p.hasParent then if path.isSubdirOf p (· == ·) false then p else ⟨.default, none⟩
      else if !path.hasParent then
        if p.isSubdirOf path (· == ·) false then path else ⟨.default, none⟩
      else
        let members := tr.prefixmode = 1
        let ls := if members && ld.pfx.isNone then ld.segments.dropLast else ld.segments
        let rs := if members && rd.pfx.isNone then rd.segments.dropLast else rd.segments
        let pfx := if members then p.getParent.data.bind (·.pfx) else ld.pfx
        match commonSegments tr.hasRoot [] ls rs with
        | none => ⟨.default, none⟩
        | some segments => ⟨p.type, some ⟨segments, pfx⟩⟩
    | _, _ => ⟨.default, none⟩

end FlintZilla.CServerPath
