import FlintZilla.Path.Comparison

/-!
# The path cache

`CPathCache` remembers where a path leads: the directory a server has changed to for a source path,
or for a subdirectory relative to it. One server's part is a `std::map`, in which keys that are
equivalent under `operator<` are the same key.
-/

namespace FlintZilla

open Char

/-- `CPathCache::CSourcePath`. -/
structure CSourcePath where
  source : CServerPath
  subdir : WString
deriving DecidableEq

namespace CSourcePath

/-- `CSourcePath::operator<`: the order of `std::tie(subdir, source)`. -/
def less (p op : CSourcePath) : Bool :=
  match compare (p.subdir.map Char.toNat) (op.subdir.map Char.toNat) with
  | .lt => true
  | .gt => false
  | .eq => p.source.less op.source

def equivalent (p op : CSourcePath) : Bool := !p.less op && !op.less p

/-- Two keys are the same if the subdirectory is and the source paths are equivalent. -/
theorem equivalent_iff (p q : CSourcePath) :
    p.equivalent q = true ↔ p.subdir = q.subdir ∧ p.source.equivalent q.source = true := by
  have hswap : compare (q.subdir.map toNat) (p.subdir.map toNat) =
      (compare (p.subdir.map toNat) (q.subdir.map toNat)).swap := Std.OrientedCmp.eq_swap
  have hsubdir : compare (p.subdir.map toNat) (q.subdir.map toNat) = .eq ↔ p.subdir = q.subdir := by
    rw [Std.LawfulEqCmp.compare_eq_iff_eq]
    exact (List.map_injective_iff.mpr fun _ _ => toNat_inj.mp).eq_iff
  rw [equivalent, less, less, hswap, ← hsubdir]
  cases compare (p.subdir.map toNat) (q.subdir.map toNat) <;>
    simp [CServerPath.equivalent]

/-- Keys with plain paths are the same key only if they are equal. -/
theorem eq_of_equivalent {p q : CSourcePath} (hp : p.source.Plain) (hq : q.source.Plain)
    (h : p.equivalent q) : p = q := by
  obtain ⟨hsubdir, hsource⟩ := (equivalent_iff p q).mp h
  obtain ⟨source, subdir⟩ := p
  obtain rfl : subdir = q.subdir := hsubdir
  obtain rfl : source = q.source := hp.eq_of_equivalent hq hsource
  rfl

end CSourcePath

/-- `CPathCache::tServerCache`. -/
abbrev ServerPathCache := List (CSourcePath × CServerPath)

namespace ServerPathCache

/-- `CPathCache::Lookup`: the target, or an empty path. -/
def lookup (cache : ServerPathCache) (source : CServerPath) (subdir : WString) : CServerPath :=
  ((cache.find? fun entry => entry.1.equivalent ⟨source, subdir⟩).map Prod.snd).getD
    ⟨.default, none⟩

/-- `CPathCache::Store`; an entry that exists keeps its key. -/
def store (cache : ServerPathCache) (target source : CServerPath) (subdir : WString) :
    ServerPathCache :=
  if cache.any fun entry => entry.1.equivalent ⟨source, subdir⟩ then
    cache.map fun entry =>
      if entry.1.equivalent ⟨source, subdir⟩ then (entry.1, target) else entry
  else cache ++ [(⟨source, subdir⟩, target)]

variable {cache : ServerPathCache} {target source : CServerPath} {subdir : WString}
  {entry : CSourcePath × CServerPath}

/-- What is found under a plain path was stored under it. -/
theorem mem_of_lookup (hcache : ∀ entry ∈ cache, entry.1.source.Plain) (hsource : source.Plain)
    (h : (cache.lookup source subdir).empty = false) :
    (⟨source, subdir⟩, cache.lookup source subdir) ∈ cache := by
  unfold lookup at h ⊢
  cases hfind : cache.find? fun entry => entry.1.equivalent ⟨source, subdir⟩ with
  | none => simp [hfind, CServerPath.empty] at h
  | some entry =>
    have hmem := List.mem_of_find?_eq_some hfind
    have hequiv : entry.1.equivalent ⟨source, subdir⟩ = true := by simpa using List.find?_some hfind
    have hkey : entry.1 = ⟨source, subdir⟩ :=
      CSourcePath.eq_of_equivalent (hcache entry hmem) hsource hequiv
    rw [← hkey]
    exact hmem

/-- The entries after a `Store`: those that were there, and the new one. -/
theorem mem_store (hcache : ∀ entry ∈ cache, entry.1.source.Plain) (hsource : source.Plain)
    (h : entry ∈ cache.store target source subdir) :
    entry ∈ cache ∨ entry = (⟨source, subdir⟩, target) := by
  unfold store at h
  split_ifs at h with hany
  · rcases List.mem_map.mp h with ⟨old, hold, rfl⟩
    split_ifs with hequiv
    · right
      rw [CSourcePath.eq_of_equivalent (hcache old hold) hsource hequiv]
    · exact .inl hold
  · rw [List.mem_append, List.mem_singleton] at h
    exact h

end ServerPathCache

end FlintZilla
