import FlintZilla.Path.SafePath

/-!
# The order of remote paths

`CServerPath::operator<`, the order of `std::set<CServerPath>`.
-/

namespace FlintZilla

/-- `std::wcscmp(a.c_str(), b.c_str())`: the strings end at their first zero. -/
def wcscmp (a b : WString) : Ordering :=
  compare ((a.takeWhile (· != nul)).map Char.toNat) ((b.takeWhile (· != nul)).map Char.toNat)

/-- The loop of `operator<` over both segment lists. -/
def segmentsLess : List WString → List WString → Bool
  | [], [] => false
  | [], _ :: _ => true
  | _ :: _, [] => false
  | x :: xs, y :: ys =>
    match wcscmp x y with
    | .lt => true
    | .gt => false
    | .eq => segmentsLess xs ys

/-- `fz::sparse_optional<std::wstring>::operator<`. -/
def prefixLess : Option WString → Option WString → Bool
  | none, some _ => true
  | some x, some y => compare (x.map Char.toNat) (y.map Char.toNat) == .lt
  | _, none => false

/-- `CServerPath::operator<`. -/
def CServerPath.less (p op : CServerPath) : Bool :=
  match p.data, op.data with
  | none, _ => !op.empty
  | some _, none => false
  | some ld, some rd =>
    if prefixLess ld.pfx rd.pfx then true
    else if prefixLess rd.pfx ld.pfx then false
    else if op.type.index < p.type.index then false
    else if p.type.index < op.type.index then true
    else segmentsLess ld.segments rd.segments

/-- `CServerPath::operator==`. -/
def CServerPath.equals (p op : CServerPath) : Bool :=
  if p.empty != op.empty then false
  else if p.type != op.type then false
  else p.data == op.data

/-- The paths that a `std::set<CServerPath>` takes for the same. -/
def CServerPath.equivalent (p op : CServerPath) : Bool := !p.less op && !op.less p

end FlintZilla
