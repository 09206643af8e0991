import FlintZilla.Path.ServerPath

/-!
# Local paths

`CLocalPath` of `engine/local_path.cpp` on systems other than Windows: a text that is empty or ends
in a separator.
-/

namespace FlintZilla

open Lib.Search

structure CLocalPath where
  path : WString := []
deriving DecidableEq

namespace CLocalPath

/-- `path_separator`. -/
def pathSeparator : Char := '/'

/-- `CLocalPath::AddSegment`. -/
def addSegment (p : CLocalPath) (segment : WString) : CLocalPath :=
  if segment = [] then p else ⟨p.path ++ segment ++ [pathSeparator]⟩

/-- `CLocalPath::MakeParent`: cut behind the last separator that is not at the end. -/
def makeParent (p : CLocalPath) : Bool × CLocalPath :=
  match rfind (· == pathSeparator) p.path.dropLast with
  | some i => (true, ⟨p.path.take (i + 1)⟩)
  | none => (false, p)

end CLocalPath

end FlintZilla
