import FlintZilla.Cache.Consistency

/-!
# The counter and the names of the directory cache

Every public function keeps the links, and every function but `Store` changes the counter exactly as
it changes the sizes of the cached listings. `Store` adds the size of the listing before it looks
for the path. Where the set already has an equivalent but different path, nothing is inserted and
the counter stays too high.

What a function does to the names of a listing is one of: nothing, a name that is not there is
added, a name is removed, or a name is put in the place of another one after it was removed.

Main results:

* `apply_spec`: what a public function does to the links, the counter and the names.
* `reach_booked`: the counter is the number of cached entries as long as no stored path is
  equivalent to another one.
* `reach_names_nodup`: no listing names a file twice if none of the stored ones does.
* `invalidateFile_marks`: when `InvalidateFile` marks what its comment says.
-/

namespace FlintZilla

open Lib DirectoryListing List

namespace DirectoryListing

def names (l : DirectoryListing) : List WString := l.entries.map (·.name)

end DirectoryListing

/-- A property of a path and of names that the changes of a listing keep. -/
structure NamesClosed (Q : CServerPath → List WString → Prop) : Prop where
  append : ∀ {path names name}, Q path names → name ∉ names → Q path (names ++ [name])
  erase : ∀ {path names} (name), Q path names → Q path (names.erase name)
  set : ∀ {path names} (i name), Q path names → Q path ((names.erase name).set i name)

/-- A change of a listing that adds `delta` entries. -/
structure Keeps (l l' : DirectoryListing) (delta : Int) : Prop where
  path : l'.path = l.path
  size : (l'.size : Int) = l.size + delta
  names : ∀ Q, NamesClosed Q → Q l.path l.names → Q l'.path l'.names

namespace DirectoryListing

variable {l l' : DirectoryListing}

/-- A change that leaves path and names alone counts for nothing. -/
theorem keeps_of_names (hpath : l'.path = l.path) (hnames : l'.names = l.names) : Keeps l l' 0 := by
  have hsize : l'.size = l.size := by
    have := congrArg length hnames
    rwa [names, names, length_map, length_map] at this
  refine ⟨hpath, by simp [hsize], ?_⟩
  intro Q _ h
  rw [hpath, hnames]
  exact h

theorem names_markUnsure (l : DirectoryListing) (test : CDirentry → Bool) :
    (l.markUnsure test).names = l.names := by
  unfold names markUnsure
  rw [map_map]
  refine map_congr_left ?_
  intro e _
  dsimp only [Function.comp_apply]
  split_ifs <;> rfl

theorem keeps_invalidateFile (same : WString → WString → Bool) (filename : WString)
    (l : DirectoryListing) : Keeps l (l.invalidateFile same filename) 0 :=
  keeps_of_names rfl (names_markUnsure l _)

/-- The loop changes no name, and it stops at the name if it is there. -/
theorem markUntil_names (f : CaseFolding) (filename : WString) (entries : List CDirentry) :
    (markUntil f filename entries).1.map (·.name) = entries.map (·.name) ∧
      ((markUntil f filename entries).2 = none → filename ∉ entries.map (·.name)) := by
  induction entries with
  | nil => exact ⟨rfl, fun _ => not_mem_nil⟩
  | cons e es ih =>
    unfold markUntil
    dsimp only
    split_ifs with hsame hname
    · exact ⟨rfl, by simp⟩
    all_goals
      refine ⟨by simp [ih.1], ?_⟩
      intro hnone
      rw [map_cons, mem_cons, not_or]
      refine ⟨?_, ih.2 hnone⟩
    · exact Ne.symm hname
    · -- a name is the same as itself
      rintro rfl
      exact hsame (f.same_self _)

/-- `UpdateFile` marks the entries of the name, or adds one. -/
theorem keeps_updateFile (f : CaseFolding) (filename : WString) (mayCreate : Bool)
    (type : Filetype) (size : Int) (ownerGroup : WString) (l : DirectoryListing) :
    Keeps l (l.updateFile f filename mayCreate type size ownerGroup).1
      (l.updateFile f filename mayCreate type size ownerGroup).2 := by
  obtain ⟨hnames, hnew⟩ := markUntil_names f filename l.entries
  unfold updateFile
  dsimp only
  split
  · split_ifs <;> exact keeps_of_names rfl hnames
  · next hnone =>
    split_ifs
    · have hlength : (markUntil f filename l.entries).1.length = l.entries.length := by
        have := congrArg length hnames
        simpa using this
      refine ⟨rfl, ?_, ?_⟩
      · simp [DirectoryListing.size, append, addFlags, hlength]
      · intro Q hQ h
        have happend := hQ.append h (hnew hnone)
        simpa [names, append, addFlags, newEntry, hnames] using happend
    · exact keeps_of_names rfl hnames

theorem idxOf?_names (l : DirectoryListing) (name : WString) :
    l.names.idxOf? name = l.indexOf name := by
  rw [names, idxOf?, findIdx?_map]
  rfl

/-- `RemoveFile` removes the first entry with the name. -/
theorem names_removeFile (f : CaseFolding) (filename : WString) (l : DirectoryListing) :
    (l.removeFile f filename).1.path = l.path ∧
      (l.removeFile f filename).1.names = l.names.erase filename ∧
      ((l.removeFile f filename).1.size : Int) = l.size + (l.removeFile f filename).2 := by
  have herase := erase_eq_eraseIdx l.names filename
  rw [idxOf?_names] at herase
  unfold removeFile
  cases hindex : l.indexOf filename with
  | none =>
    -- another case of the name may be there: the entries are marked, none is removed
    rw [hindex] at herase
    have hnames := names_markUnsure l fun e => f.same filename e.name
    have hkeeps : Keeps l (l.markUnsure fun e => f.same filename e.name) 0 :=
      keeps_of_names rfl hnames
    exact ⟨rfl, hnames.trans herase.symm, hkeeps.size⟩
  | some i =>
    rw [hindex] at herase
    obtain ⟨hlt, -⟩ := findIdx?_eq_some_iff_getElem.mp hindex
    have hremove : (l.removeEntry i).2.path = l.path ∧
        (l.removeEntry i).2.entries = l.entries.eraseIdx i := by
      rw [removeEntry, getElem?_eq_getElem hlt]
      exact ⟨rfl, rfl⟩
    refine ⟨hremove.1, ?_, ?_⟩
    · rw [herase]
      dsimp only
      rw [names, hremove.2, names, eraseIdx_map]
    · dsimp only
      rw [size, size, hremove.2, length_eraseIdx_of_lt hlt]
      omega

/-- `RemoveFile` removes the entries of the name and counts them. -/
theorem keeps_removeFile (f : CaseFolding) (filename : WString) (l : DirectoryListing) :
    Keeps l (l.removeFile f filename).1 (l.removeFile f filename).2 := by
  obtain ⟨hpath, hnames, hsize⟩ := names_removeFile f filename l
  refine ⟨hpath, hsize, ?_⟩
  intro Q hQ h
  rw [hpath, hnames]
  exact hQ.erase filename h

/-- A search fills the maps only. -/
theorem findFile_entries (f : CaseFolding) (l : DirectoryListing) (filename : WString)
    (noCase : Bool) (choice : Nat → Nat) :
    (l.findFile f filename noCase choice).2.path = l.path ∧
      (l.findFile f filename noCase choice).2.entries = l.entries := by
  unfold findFile
  dsimp only
  split
  · exact ⟨rfl, rfl⟩
  · split_ifs <;> exact ⟨rfl, rfl⟩

/-- A search changes the maps only. -/
theorem findFiles_entries (f : CaseFolding) (noCase : Bool) (filenames : List WString) :
    ∀ (l : DirectoryListing) (choice : Nat → Nat),
      (findFiles f noCase l filenames choice).2.path = l.path ∧
        (findFiles f noCase l filenames choice).2.entries = l.entries := by
  induction filenames with
  | nil =>
    intro l choice
    exact ⟨rfl, rfl⟩
  | cons filename filenames ih =>
    intro l choice
    obtain ⟨hpath, hentries⟩ := findFile_entries f l filename noCase choice
    obtain ⟨hpath', hentries'⟩ := ih (l.findFile f filename noCase choice).2 fun i => choice (i + 2)
    exact ⟨hpath'.trans hpath, hentries'.trans hentries⟩

theorem clearFindMap_entries (l : DirectoryListing) :
    l.clearFindMap.path = l.path ∧ l.clearFindMap.entries = l.entries := by
  unfold clearFindMap
  split_ifs <;> exact ⟨rfl, rfl⟩

variable {g : CDirentry → CDirentry}

theorem map_name_modify (i : Nat) (entries : List CDirentry)
    {name : WString} (hg : ∀ e, (g e).name = name) :
    (entries.modify i g).map (·.name) = (entries.map (·.name)).set i name := by
  have : Inhabited CDirentry := ⟨{}⟩
  rw [modify_eq_set, map_set, hg]

theorem map_name_modify_self (i : Nat) (entries : List CDirentry) (hg : ∀ e, (g e).name = e.name) :
    (entries.modify i g).map (·.name) = entries.map (·.name) := by
  induction entries generalizing i with
  | nil => simp
  | cons e es ih =>
    cases i with
    | zero => simp [hg]
    | succ i => simp [ih]

/-- A new owner is no new name. -/
theorem keeps_ownerGroup (l : DirectoryListing) (i : Nat) (ownerGroup : WString) :
    Keeps l (l.modifyEntry i fun e => { e with ownerGroup := ownerGroup }).clearFindMap 0 := by
  obtain ⟨hpath, hentries⟩ :=
    clearFindMap_entries (l.modifyEntry i fun e => { e with ownerGroup := ownerGroup })
  refine keeps_of_names hpath ?_
  rw [names, hentries]
  exact map_name_modify_self i l.entries fun _ => rfl

/-- A rename puts the new name in the place of the old one. -/
theorem renameAt_names (l : DirectoryListing) (i : Nat) (fileTo : WString) :
    (l.renameAt i fileTo).path = l.path ∧ (l.renameAt i fileTo).names = l.names.set i fileTo := by
  unfold renameAt
  obtain ⟨hpath, hentries⟩ := clearFindMap_entries ((l.modifyEntry i fun e =>
    { e with name := fileTo, isUnsure := true }).addFlags unsureUnknown)
  refine ⟨hpath, ?_⟩
  rw [names, hentries]
  exact map_name_modify i l.entries fun _ => rfl

end DirectoryListing

/-! ## The public functions keep the links -/

theorem sameSegments_self (f : CaseFolding) (xs : List WString) :
    sameSegments f.same xs xs = true := by
  induction xs with
  | nil => rfl
  | cons x xs ih => rw [sameSegments, f.same_self, ih, Bool.and_true]

theorem CServerPath.sameNoCase_self (f : CaseFolding) (p : CServerPath) :
    p.sameNoCase f p = true := by
  unfold sameNoCase
  cases p.data with
  | none => rfl
  | some d => simp [sameSegments_self]

namespace CDirectoryCache

/-- The property of listings that is given by their path and names. -/
def Holds (Q : CServerPath → List WString → Prop) (l : DirectoryListing) : Prop := Q l.path l.names

/-- The links stay, and the counter follows the sizes. -/
def Kept (Q : CServerPath → List WString → Prop) (c c' : CDirectoryCache) : Prop :=
  c'.Linked (Holds Q) ∧ c'.excess = c.excess

section

variable {f : CaseFolding} {Q : CServerPath → List WString → Prop} {c c' : CDirectoryCache}
  {se : CServerEntry} {e : CCacheEntry} {server : CServer} {path pathTo : CServerPath}
  {filename fileTo ownerGroup : WString} {mayCreate allowUnsureEntries : Bool} {type : Filetype}
  {size now : Int} {choice : Nat → Nat} {flags : LookupFlags} {c₁ c₂ c₃ : CDirectoryCache}

theorem Kept.trans (h : Kept Q c₁ c₂) (h' : Kept Q c₂ c₃) : Kept Q c₁ c₃ := ⟨h'.1, h'.2.trans h.2⟩

/-- Calls one after the other. -/
theorem Kept.seq (h : Kept Q c₁ c₂)
    (h' : c₂.Linked (Holds Q) → Kept Q c₂ c₃) : Kept Q c₁ c₃ := h.trans (h' h.1)

/-- Using an entry moves its node and changes nothing else. -/
theorem Used.kept (hu : Used c c') (h : c.Linked (Holds Q)) : Kept Q c c' :=
  ⟨hu.linked h, hu.excess⟩

variable {listing : DirectoryListing}

/-- A listing in the place of one of the same path and size. -/
theorem putListing_kept (h : c.Linked (Holds Q)) (hse : se ∈ c.serverList) (he : e ∈ se.cacheList)
    (hpath : listing.path = e.listing.path) (hsize : (listing.size : Int) = e.listing.size)
    (hQ : Holds Q listing) : Kept Q c (c.putListing se.id e.id listing) := by
  have hone : (c.putListing se.id e.id listing).Linked (Holds Q) ∧ _ :=
    h.changeOne hse he (g := fun e => { e with listing := listing }) rfl rfl hpath (fun _ => hQ)
      rfl rfl rfl
  refine ⟨hone.1, ?_⟩
  have htotal : (c.putListing se.id e.id listing).totalFileCount = c.totalFileCount := rfl
  rw [excess, excess, hone.2, htotal]
  rw [hsize]
  ring

/-- What the loops do to an entry. -/
def changed (test : CServerPath → Bool) (change : DirectoryListing → DirectoryListing × Int)
    (now : Int) (e : CCacheEntry) : CCacheEntry :=
  if test e.listing.path then { e with listing := (change e.listing).1, modificationTime := now }
  else e

/-- All the entries that match are used. -/
theorem changeMatching_used {P : DirectoryListing → Prop} (h : c.Linked P)
    (hse : se ∈ c.serverList) (test : CServerPath → Bool) :
    Used c ((se.cacheList.filter fun e => test e.listing.path).foldl
      (fun c e => c.updateLru se.id e) c) := by
  refine used_foldl h fun e he => ?_
  exact mem_allEntries hse (mem_of_mem_filter he)

/-- The loop over the entries of a server changes each one that matches. -/
theorem changeMatching_serverList {P : DirectoryListing → Prop} (h : c.Linked P)
    (hse : se ∈ c.serverList) (test : CServerPath → Bool)
    (change : DirectoryListing → DirectoryListing × Int) (now : Int) :
    (c.changeMatching se test change now).serverList =
      (c.modifySet se.id fun l => l.map (changed test change now)).serverList := by
  have := (changeMatching_used h hse test).serverList
  unfold changeMatching modifySet
  dsimp only
  rw [this]
  rfl

section

variable (hQ : NamesClosed Q) (h : c.Linked (Holds Q)) (hse : se ∈ c.serverList)
  {test : CServerPath → Bool} (change : DirectoryListing → DirectoryListing × Int)
  (hkeeps : ∀ l, Keeps l (change l).1 (change l).2)
include hQ h hse hkeeps

/-- The change of each listing is counted as the change says. -/
theorem changed_spec
    (hlist : c'.serverList =
      (c.modifySet se.id fun l => l.map (changed test change now)).serverList)
    (hlru : c'.leastRecentlyUsedList = c.leastRecentlyUsedList) (hnext : c'.nextId = c.nextId) :
    c'.Linked (Holds Q) ∧ c'.sizes = c.sizes +
      (se.cacheList.map fun e => if test e.listing.path then (change e.listing).2 else 0).sum := by
  refine h.change hse (changed test change now) _ ?_ ?_ ?_ ?_ ?_ hlist hlru hnext
  all_goals
    intro e _
    unfold changed
    split_ifs
  · rfl
  · rfl
  · rfl
  · rfl
  · exact (hkeeps e.listing).path
  · rfl
  · exact (hkeeps e.listing).names Q hQ
  · exact id
  · exact (hkeeps e.listing).size
  · rw [add_zero]

/-- The loop of the functions that change listings: it keeps the links, and the counter follows. -/
theorem changeMatching_spec : Kept Q c (c.changeMatching se test change now) ∧
    { se with cacheList := se.cacheList.map (changed test change now) } ∈
      (c.changeMatching se test change now).serverList := by
  have hu := changeMatching_used h hse test
  have hlist := changeMatching_serverList h hse test change now
  have hstep : (c.changeMatching se test change now).Linked (Holds Q) ∧ _ :=
    changed_spec hQ (hu.linked h) (hu.serverList ▸ hse) change hkeeps rfl rfl rfl
  obtain ⟨pre, post, -, hmodify⟩ := exists_split h.servers hse
  refine ⟨⟨hstep.1, ?_⟩, by rw [hlist, hmodify]; simp⟩
  have hsum := sum_map_ite (fun e : CCacheEntry => test e.listing.path = true)
    (fun e => (change e.listing).2) (fun _ => 0) se.cacheList
  rw [excess, hstep.2, hsum, ← hu.excess, excess]
  unfold changeMatching
  simp [modifySet]

end

/-- The second loop of `InvalidateFile`. -/
theorem flagMatching_kept (hQ : NamesClosed Q) (h : c.Linked (Holds Q)) (hse : se ∈ c.serverList)
    (test : CServerPath → Bool) (flags : BitVec 32) : Kept Q c (c.modifySet se.id fun l => l.map
      (changed test (fun l => (l.addFlags flags, 0)) now)) := by
  have hkeeps : ∀ l : DirectoryListing, Keeps l (l.addFlags flags) 0 := by
    intro l
    exact keeps_of_names rfl rfl
  have hstep : (c.modifySet se.id fun l => l.map
      (changed test (fun l => (l.addFlags flags, 0)) now)).Linked (Holds Q) ∧ _ :=
    changed_spec hQ h hse _ (fun l => hkeeps l) rfl rfl rfl
  refine ⟨hstep.1, ?_⟩
  rw [excess, excess, hstep.2]
  simp [modifySet]

/-- The loops of `RemoveDir` and `InvalidateServer`. -/
theorem eraseMatching_kept (h : c.Linked (Holds Q)) (hse : se ∈ c.serverList)
    (test : CServerPath → Bool) : Kept Q c (c.eraseMatching se test) := by
  have hnode : ∀ n ∈ c.leastRecentlyUsedList,
      (!(se.cacheList.filter fun e => test e.listing.path).any fun e => e.lruIt == some n.id) =
        true ↔ ∀ e ∈ se.cacheList, e.lruIt = some n.id → (!test e.listing.path) = true := by
    intro n _
    simp only [Bool.not_eq_true', any_eq_false, mem_filter, beq_iff_eq, and_imp]
    constructor
    · intro hall e he hlru
      by_contra htest
      exact hall e he (by simpa using htest) hlru
    · intro hall e he htest hlru
      rw [hall e he hlru] at htest
      cases htest
  have hstep : (c.eraseMatching se test).Linked (Holds Q) ∧ _ :=
    h.erase hse (fun e => !test e.listing.path) _ hnode rfl rfl rfl
  refine ⟨hstep.1, ?_⟩
  have htotal : (c.eraseMatching se test).totalFileCount = c.totalFileCount -
      ((se.cacheList.filter fun e => test e.listing.path).map
        fun e => (e.listing.size : Int)).sum := rfl
  simp only [Bool.not_not] at hstep
  rw [excess, excess, hstep.2, htotal]
  ring

/-- The entries of the server are erased with their nodes. -/
theorem invalidateServer_kept (h : c.Linked (Holds Q)) : Kept Q c (c.invalidateServer server) := by
  unfold invalidateServer
  split
  · exact ⟨h, rfl⟩
  · next se hfound =>
    have hse := getServerEntry_mem hfound
    have herase := eraseMatching_kept h hse fun _ => true
    refine herase.trans ?_
    obtain ⟨pre, post, hsplit, hmodify⟩ := exists_split h.servers hse
    have hempty : ∀ s ∈ (c.eraseMatching se fun _ => true).serverList, (s.id != se.id) = false →
        s.cacheList = [] := by
      intro s hs hid
      have hid' : s.id = se.id := by simpa using hid
      have hmem : { se with cacheList := [] } ∈ (c.eraseMatching se fun _ => true).serverList := by
        have hlist := hmodify fun l => l.filter fun _ => false
        have : (c.eraseMatching se fun _ => true).serverList =
            (c.modifySet se.id fun l => l.filter fun _ => false).serverList := rfl
        rw [this, hlist]
        simp
      rw [herase.1.server_unique hs hmem hid']
    let dropped : CDirectoryCache := { c.eraseMatching se fun _ => true with
      serverList := (c.eraseMatching se fun _ => true).serverList.filter fun s => s.id != se.id }
    have hdrop : dropped.Linked (Holds Q) ∧ _ :=
      herase.1.dropServers (fun s => s.id != se.id) hempty rfl rfl rfl
    refine ⟨hdrop.1, ?_⟩
    rw [excess, excess, sizes, sizes, hdrop.2]

section

variable (hQ : NamesClosed Q) (h : c.Linked (Holds Q))
include hQ h

theorem removeFile_kept : Kept Q c (c.removeFile f server path filename now).2 := by
  unfold removeFile
  split
  · exact ⟨h, rfl⟩
  · next se hfound =>
    exact (changeMatching_spec hQ h (getServerEntry_mem hfound) _
      (keeps_removeFile f filename)).1

theorem updateFile_kept :
    Kept Q c (c.updateFile f server path filename mayCreate type size ownerGroup now).2 := by
  unfold updateFile
  split
  · exact ⟨h, rfl⟩
  · next se hfound =>
    exact (changeMatching_spec hQ h (getServerEntry_mem hfound) _
      (keeps_updateFile f filename mayCreate type size ownerGroup)).1

theorem removeDir_kept : Kept Q c (c.removeDir f server path filename now) := by
  unfold removeDir
  split
  · exact ⟨h, rfl⟩
  · next se hfound =>
    have herase := eraseMatching_kept h (getServerEntry_mem hfound)
    exact (herase _).seq (removeFile_kept hQ)

theorem invalidateFile_kept : Kept Q c (c.invalidateFile f server path filename now).2 := by
  unfold invalidateFile
  split
  · exact ⟨h, rfl⟩
  · next se hfound =>
    generalize (server.getCaseSensitivity == .yes) = cmpCase
    obtain ⟨hkept, hmem⟩ := changeMatching_spec hQ h (getServerEntry_mem hfound)
      (fun l => (l.invalidateFile (f.sameName cmpCase) filename, 0))
      (keeps_invalidateFile (f.sameName cmpCase) filename)
    dsimp only
    split_ifs
    · exact hkept.trans (flagMatching_kept hQ hkept.1 hmem
        (fun p => p.isSubdirOf path (f.sameName cmpCase) true) unsureUnknown)
    · exact hkept

end

/-- A lookup uses the entry it finds, which is one of the cache. -/
theorem lookupEntry_spec (h : c.Linked (Holds Q)) :
    Used c (c.lookupEntry server path allowUnsureEntries now).2 ∧
      ∀ se e outdated,
        (c.lookupEntry server path allowUnsureEntries now).1 = some (se, e, outdated) →
        se ∈ c.serverList ∧ e ∈ se.cacheList := by
  unfold lookupEntry
  split
  · exact ⟨Used.refl c, by simp⟩
  · next se hfound =>
    have hse := getServerEntry_mem hfound
    obtain ⟨hu, hspec⟩ := lookupIn_spec h hse path allowUnsureEntries now
    refine ⟨hu, ?_⟩
    intro se' e outdated heq
    obtain ⟨p, hp, hpair⟩ := Option.map_eq_some_iff.mp heq
    obtain ⟨rfl, rfl⟩ := Prod.mk.inj hpair
    exact ⟨hse, (hspec e outdated hp).1⟩

variable (h : c.Linked (Holds Q))

include h

/-- A search in the listing that was found. -/
theorem search_kept {outdated : Bool}
    (hfound : c.lookupEntry server path true now = (some (se, e, outdated), c'))
    (hpath : listing.path = e.listing.path) (hentries : listing.entries = e.listing.entries) :
    Kept Q c (c'.putListing se.id e.id listing) := by
  obtain ⟨hu, hspec⟩ := lookupEntry_spec h
  rw [hfound] at hu hspec
  obtain ⟨hse, he⟩ := hspec se e outdated rfl
  have hlisting : Holds Q e.listing := h.listings _ (mem_allEntries hse he)
  refine (hu.kept h).trans (putListing_kept (hu.linked h) (hu.serverList ▸ hse) he hpath ?_ ?_)
  · rw [size, hentries]
    rfl
  · unfold Holds names
    rw [hpath, hentries]
    exact hlisting

theorem lookupEntry_kept : Kept Q c (c.lookupEntry server path allowUnsureEntries now).2 :=
  (lookupEntry_spec h).1.kept h

theorem lookupEntry_found {r : Option (CServerEntry × CCacheEntry × Bool)}
    (hfound : c.lookupEntry server path allowUnsureEntries now = (r, c')) : Kept Q c c' := by
  have hkept : Kept Q c (c.lookupEntry server path allowUnsureEntries now).2 := lookupEntry_kept h
  rwa [hfound] at hkept

theorem lookupFile_kept : Kept Q c (c.lookupFile f server path filename flags now choice).2 := by
  unfold lookupFile
  split
  · next hfound => exact lookupEntry_found h hfound
  · next hfound =>
    split_ifs
    · exact lookupEntry_found h hfound
    · obtain ⟨hpath, hentries⟩ := findFile_entries f _ filename _ choice
      exact search_kept h hfound hpath hentries

theorem lookupFiles_kept {filenames : List WString} :
    Kept Q c (c.lookupFiles f server path filenames flags now choice).2 := by
  unfold lookupFiles
  split
  · next hfound => exact lookupEntry_found h hfound
  · next hfound =>
    split_ifs
    · exact lookupEntry_found h hfound
    · obtain ⟨hpath, hentries⟩ := findFiles_entries f _ filenames _ choice
      exact search_kept h hfound hpath hentries

theorem lookupFileAnyCase_kept :
    Kept Q c (c.lookupFileAnyCase f server path filename now choice).2 := by
  unfold lookupFileAnyCase
  split
  · next hfound => exact lookupEntry_found h hfound
  · next hfound =>
    obtain ⟨hpath, hentries⟩ := findFile_entries f _ filename true choice
    exact search_kept h hfound hpath hentries

/-- Each listing that has the file gets the new owner. -/
theorem updateOwnerGroup_kept (hQ : NamesClosed Q) :
    Kept Q c (c.updateOwnerGroup server path filename ownerGroup now) := by
  unfold updateOwnerGroup
  split
  · exact ⟨h, rfl⟩
  · next se hfound =>
    have hse := getServerEntry_mem hfound
    obtain ⟨hu, hspec⟩ := lookupIn_spec h hse path true now
    split
    · next c' hlookup =>
      rw [hlookup] at hu
      exact (hu.kept h).seq invalidateServer_kept
    · next e outdated c' hlookup =>
      rw [hlookup] at hu hspec
      obtain ⟨he, -⟩ := hspec e outdated rfl
      have hlinked := hu.linked h
      split
      · exact (hu.kept h).seq invalidateServer_kept
      · next i _ =>
        split_ifs
        · exact hu.kept h
        · have hkeeps := keeps_ownerGroup e.listing i ownerGroup
          refine (hu.kept h).trans
            (putListing_kept hlinked (hu.serverList ▸ hse) he hkeeps.path ?_ ?_)
          · rw [hkeeps.size, add_zero]
          · exact hkeeps.names Q hQ (h.listings _ (mem_allEntries hse he))

omit h

/-- `RemoveFile` reaches a listing with the path, and the name is gone from it. -/
theorem removeFile_listing (hQ : NamesClosed Q) (h : c.Linked (Holds Q))
    (hfound : c.getServerEntry server = some se) (he : e ∈ se.cacheList) (filename : WString)
    (now : Int) :
    ∃ se' ∈ (c.removeFile f server e.listing.path filename now).2.serverList,
      ∃ e' ∈ se'.cacheList, se'.id = se.id ∧ e'.id = e.id ∧
        e'.listing.path = e.listing.path ∧ e'.listing.names = e.listing.names.erase filename := by
  obtain ⟨-, hmem⟩ := changeMatching_spec hQ h (getServerEntry_mem hfound) _
    (DirectoryListing.keeps_removeFile f filename)
  obtain ⟨hpath, hnames, -⟩ := DirectoryListing.names_removeFile f filename e.listing
  have hchanged : changed (e.listing.path.sameNoCase f) (DirectoryListing.removeFile f filename)
      now e = { e with listing := (e.listing.removeFile f filename).1, modificationTime := now } :=
    if_pos (CServerPath.sameNoCase_self f _)
  have he' := mem_map_of_mem (f := changed (e.listing.path.sameNoCase f)
    (DirectoryListing.removeFile f filename) now) he
  rw [hchanged] at he'
  unfold removeFile
  rw [hfound]
  exact ⟨_, hmem, _, he', rfl, rfl, hpath, hnames⟩

/-- Within a directory the entry takes the new name after the file of that name was removed. Between
two directories it is removed from the one and put in the other. -/
theorem rename_kept (hQ : NamesClosed Q) (h : c.Linked (Holds Q)) :
    Kept Q c (c.rename f server path filename pathTo fileTo now) := by
  unfold rename
  split
  · exact ⟨h, rfl⟩
  next se hfound =>
  have hse := getServerEntry_mem hfound
  obtain ⟨hu, hspec⟩ := lookupIn_spec h hse path true now
  split
  · -- nothing is known of the directory: all of the server is forgotten
    next c' hlookup =>
    rw [hlookup] at hu
    exact (hu.kept h).seq invalidateServer_kept
  next e outdated c' hlookup =>
  rw [hlookup] at hu hspec
  obtain ⟨he, rfl⟩ := hspec e outdated rfl
  have hlinked := hu.linked h
  have hlisting : Holds Q e.listing := h.listings _ (mem_allEntries hse he)
  split_ifs with hsame
  · -- within one directory
    have hfound' : c'.getServerEntry server = some se := by
      rw [getServerEntry, hu.serverList]
      exact hfound
    obtain ⟨se', hse', e', he', hsid, heid, hpath, hnames⟩ :=
      removeFile_listing (f := f) hQ hlinked hfound' he fileTo now
    -- the target is removed first, which changes the entry but not its place
    have hremove : Kept Q c' (c'.removeFile f server e.listing.path fileTo now).2 :=
      removeFile_kept hQ hlinked
    have hentry := hremove.1.entryAt_eq hse' he'
    rw [hsid, heid] at hentry
    dsimp only
    rw [hentry]
    dsimp only
    refine ((hu.kept h).trans hremove).trans ?_
    split
    · exact ⟨hremove.1, rfl⟩
    · next i _ =>
      split_ifs
      · exact ((removeDir_kept hQ hremove.1).seq (removeDir_kept hQ)).seq (updateFile_kept hQ)
      · obtain ⟨hrpath, hrnames⟩ := renameAt_names e'.listing i fileTo
        rw [← hsid]
        refine putListing_kept hremove.1 hse' he' hrpath ?_ ?_
        · have hlength := congrArg length hrnames
          rw [length_set, names, names, length_map, length_map] at hlength
          exact congrArg Nat.cast hlength
        · unfold Holds
          rw [hrpath, hrnames, hpath, hnames]
          exact hQ.set i fileTo hlisting
  · -- a directory moves
    split
    · exact hu.kept h
    · split_ifs
      · exact ((hu.kept h).seq (removeDir_kept hQ)).seq (updateFile_kept hQ)
      · exact ((hu.kept h).seq (removeFile_kept hQ)).seq (updateFile_kept hQ)

theorem Linked.setTotal {P : DirectoryListing → Prop} (h : c.Linked P) (n : Int) :
    { c with totalFileCount := n }.Linked P :=
  { h with }

/-- The time to live is no link. -/
theorem setTtl_kept (h : c.Linked (Holds Q)) {ttl : Int} : Kept Q c (c.setTtl ttl) := by
  have hany : ∀ t : Int, Kept Q c { c with ttl := t } := by
    intro t
    exact ⟨{ h with }, rfl⟩
  unfold setTtl
  split_ifs <;> exact hany _

end

/-! ## `Store` -/

/-- The entry is cached for a server and a path. -/
def Cached (c : CDirectoryCache) (server : CServer) (path : CServerPath) (e : CCacheEntry) : Prop :=
  ∃ se ∈ c.serverList, se.server.sameContent server = true ∧ e ∈ se.cacheList ∧
    e.listing.path = path

/-- No two different paths are the same for a set. -/
def Separated (Q : CServerPath → List WString → Prop) : Prop :=
  ∀ {p q : CServerPath} {ns ms : List WString}, Q p ns → Q q ms → p.equivalent q = true → p = q

section

variable {Q : CServerPath → List WString → Prop} {c : CDirectoryCache} {se : CServerEntry}
  {e : CCacheEntry} {listing : DirectoryListing} {server : CServer} {path : CServerPath}

/-- The links stay, and the counter gets too high at most. It follows the sizes if different paths
are told apart. -/
def Counted (Q : CServerPath → List WString → Prop) (c c' : CDirectoryCache) : Prop :=
  c'.Linked (Holds Q) ∧ c.excess ≤ c'.excess ∧ (Separated Q → c'.excess = c.excess)

theorem Kept.counted {c' : CDirectoryCache} (h : Kept Q c c') : Counted Q c c' :=
  ⟨h.1, h.2.ge, fun _ => h.2⟩

/-- With an equivalent path in the set only the order of the list changes. -/
theorem emplace_linked (h : c.Linked (Holds Q)) (hse : se ∈ c.serverList) (hQ : Holds Q listing)
    (now : Int) : (c.emplace se listing now).Linked (Holds Q) ∧
      c.excess - listing.size ≤ (c.emplace se listing now).excess := by
  cases hfind : se.cacheList.find? (fun e => e.listing.path.equivalent listing.path) with
  | some e =>
    have hu := used_updateLru h (mem_allEntries hse (mem_of_find?_eq_some hfind))
    unfold emplace
    rw [hfind]
    exact ⟨hu.linked h, by rw [hu.excess]; omega⟩
  | none =>
    have hnew : ∀ e ∈ se.cacheList, e.listing.path.equivalent listing.path = false := by
      intro e he
      simpa using find?_eq_none.mp hfind e he
    obtain ⟨hlinked, hsizes⟩ := h.emplace hse hnew now hQ
    obtain ⟨-, -, -, -, -, -, -, -, hcount, -⟩ := h.emplace_eq hse hnew now
    refine ⟨hlinked, ?_⟩
    rw [excess, excess]
    omega

/-- A path that a lookup does not find is new to the set. -/
theorem new_of_lookup_none (hseparated : Separated Q) (h : c.Linked (Holds Q))
    (hse : se ∈ c.serverList) (hQ : Holds Q listing) {now : Int}
    (hnone : (c.lookupIn se listing.path true now).1 = none) :
    ∀ e ∈ se.cacheList, e.listing.path.equivalent listing.path = false := by
  intro e he
  rw [← Bool.not_eq_true]
  intro hequiv
  have hpath := hseparated (h.listings _ (mem_allEntries hse he)) hQ hequiv
  obtain ⟨outdated, hfound⟩ := lookupIn_of_mem h hse he (.inl rfl) now
  rw [hpath, hnone] at hfound
  cases hfound

/-- A lookup that finds nothing changes nothing. -/
theorem lookupIn_none {now : Int} (h : (c.lookupIn se path true now).1 = none) :
    (c.lookupIn se path true now).2 = c := by
  unfold lookupIn at h ⊢
  split at h
  · rfl
  · next entry _ =>
    by_cases hpath : entry.listing.path = path
    · rw [if_pos hpath] at h
      cases h
    · rw [if_neg hpath]

/-- A new server entry has no listings. -/
theorem createServerEntry_cached (c : CDirectoryCache) (s : CServer) :
    (c.createServerEntry s).2.Cached server path e ↔ c.Cached server path e := by
  unfold createServerEntry
  split
  · exact Iff.rfl
  · constructor
    · rintro ⟨se, hse, hserver, he, hpath⟩
      rcases mem_append.mp hse with hse | hse
      · exact ⟨se, hse, hserver, he, hpath⟩
      · rw [mem_singleton.mp hse] at he
        cases he
    · rintro ⟨se, hse, hserver, he, hpath⟩
      exact ⟨se, mem_append_left _ hse, hserver, he, hpath⟩

/-- What `Store` does: the new listing is counted, and it takes the place of the one that a lookup
finds, or joins the set before the cache is pruned. -/
theorem store_cases {P : DirectoryListing → Prop} (h : c.Linked P) (listing : DirectoryListing)
    (server : CServer) (now : Int) :
    ∃ se c₁, Linked P c₁ ∧ se ∈ c₁.serverList ∧ se.server.sameContent server = true ∧
      c₁.excess = c.excess + listing.size ∧
      c₁.leastRecentlyUsedList = c.leastRecentlyUsedList ∧
      (∀ {s p e}, c₁.Cached s p e ↔ c.Cached s p e) ∧
      ((∃ e c₂, Linked P c₂ ∧ c₂.serverList = c₁.serverList ∧
        c₂.excess = c₁.excess - e.listing.size ∧ e ∈ se.cacheList ∧ e.listing.path = listing.path ∧
        c.store listing server now = c₂.modifyEntry se.id e.id
          fun e => { e with listing := listing, modificationTime := now }) ∨
        (c₁.lookupIn se listing.path true now).1 = none ∧
          c.store listing server now = (c₁.emplace se listing now).prune) := by
  obtain ⟨hcreate, hse, hserver, hentries, htotal, hlru⟩ := Linked.createServerEntry_spec h server
  have hlinked := hcreate.setTotal ((c.createServerEntry server).2.totalFileCount + listing.size)
  obtain ⟨hu, hspec⟩ := lookupIn_spec hlinked hse listing.path true now
  refine ⟨_, _, hlinked, hse, hserver, ?_, hlru, createServerEntry_cached c server, ?_⟩
  · rw [excess, excess, sizes, sizes, ← hentries, ← htotal]
    exact add_sub_right_comm ..
  · unfold store
    dsimp only
    split
    · -- the listing replaces one of the same path
      next e outdated c₂ hlookup =>
      rw [hlookup] at hu hspec
      obtain ⟨he, hpath⟩ := hspec e outdated rfl
      refine .inl ⟨e, _, (hu.linked hlinked).setTotal (_ - _), hu.serverList, ?_, he, hpath, rfl⟩
      rw [← hu.excess]
      exact sub_right_comm ..
    · -- the listing is new to the cache
      next c₂ hlookup =>
      have hnone := congrArg Prod.fst hlookup
      obtain rfl := (lookupIn_none hnone).symm.trans (congrArg Prod.snd hlookup)
      exact .inr ⟨hnone, rfl⟩

/-- The counter is never too low after `Store`. -/
theorem store_spec (h : c.Linked (Holds Q)) (hQ : Holds Q listing) (server : CServer) (now : Int) :
    Counted Q c (c.store listing server now) := by
  obtain ⟨se, c₁, hlinked, hse, -, hmore, -, -, hcase⟩ := store_cases h listing server now
  rcases hcase with ⟨e, c₂, hlinked₂, hlist, hless, he, hpath, hstore⟩ | ⟨hnone, hstore⟩
  · -- the listing takes the place of the one with its path
    obtain ⟨hstored, hsizes⟩ := hlinked₂.changeOne (hlist ▸ hse) he
      (g := fun e => { e with listing := listing, modificationTime := now }) rfl rfl hpath.symm
      (fun _ => hQ) rfl rfl rfl
    dsimp only at hsizes
    have hequal : (c.store listing server now).excess = c.excess := by
      rw [hstore, excess, hsizes]
      rw [excess] at hless
      change c₂.totalFileCount - _ = _
      omega
    exact ⟨hstore ▸ hstored, hequal.ge, fun _ => hequal⟩
  · obtain ⟨hemplace, hmost⟩ := emplace_linked hlinked hse hQ now
    obtain ⟨hprune, hpruned⟩ := hemplace.pruneLoop
      (c₁.emplace se listing now).leastRecentlyUsedList.length
    rw [hstore]
    refine ⟨hprune, ?_, ?_⟩
    · rw [prune, hpruned]
      omega
    -- without two listings of one path the count is exact
    intro hseparated
    have hnew := new_of_lookup_none hseparated hlinked hse hQ hnone
    obtain ⟨-, hsizes⟩ := hlinked.emplace hse hnew now hQ
    obtain ⟨-, -, -, -, -, -, -, -, hcount, -⟩ := hlinked.emplace_eq hse hnew now
    rw [prune, hpruned, excess]
    rw [excess] at hmore
    omega

end

/-! ## Whole runs -/

/-- The condition on the calls: what is stored has the property. -/
def Stores (Q : CServerPath → List WString → Prop) : CacheOp → Prop
  | .store listing _ _ => Holds Q listing
  | _ => True

variable {c : CDirectoryCache} {Q : CServerPath → List WString → Prop}

/-- One step of the cache. -/
theorem apply_spec (f : CaseFolding) (hQ : NamesClosed Q)
    (h : c.Linked (Holds Q)) (op : CacheOp) (hop : Stores Q op) : Counted Q c (c.apply f op) := by
  cases op with
  | store listing server now => exact store_spec h hop server now
  | lookup | doesExist | getChangeTime => exact (lookupEntry_kept h).counted
  | lookupFile => exact (lookupFile_kept h).counted
  | lookupFiles => exact (lookupFiles_kept h).counted
  | lookupFileAnyCase => exact (lookupFileAnyCase_kept h).counted
  | invalidateFile => exact (invalidateFile_kept hQ h).counted
  | updateFile => exact (updateFile_kept hQ h).counted
  | removeFile => exact (removeFile_kept hQ h).counted
  | removeDir => exact (removeDir_kept hQ h).counted
  | rename => exact (rename_kept hQ h).counted
  | updateOwnerGroup => exact (updateOwnerGroup_kept h hQ).counted
  | invalidateServer => exact (invalidateServer_kept h).counted
  | setTtl => exact (setTtl_kept h).counted

/-- Nothing is linked in an empty cache. -/
theorem linked_empty (P : DirectoryListing → Prop) : ({} : CDirectoryCache).Linked P where
  servers := nodup_nil
  contents := List.Pairwise.nil
  sorted := by simp
  ids := nodup_nil
  nodes := nodup_nil
  linked := List.Perm.nil
  freshServers := by simp
  freshEntries := by simp [allEntries, entriesOf]
  freshNodes := by simp
  listings := by simp [allEntries, entriesOf]

/-- Every sequence of calls that store listings with the property. -/
theorem reach_spec (f : CaseFolding) (hQ : NamesClosed Q)
    (h : ((cacheSystem f).restrict fun _ op => Stores Q op).Reach c) :
    Counted Q {} c := by
  refine Lts.Reach.invariant (Counted Q {}) ?_ ?_ h
  · rintro _ rfl
    exact ⟨linked_empty _, le_rfl, fun _ => rfl⟩
  · rintro c op _ ⟨hstep, hop⟩ ⟨hlinked, hleast, hexcess⟩
    obtain rfl := Option.some.inj hstep
    obtain ⟨hlinked', hleast', hexcess'⟩ := apply_spec f hQ hlinked op hop
    exact ⟨hlinked', hleast.trans hleast', fun h => (hexcess' h).trans (hexcess h)⟩

/-- Every sequence of calls at all. -/
theorem reach_counted {f : CaseFolding} (h : (cacheSystem f).Reach c) :
    Counted (fun _ _ => True) {} c := by
  refine reach_spec f ⟨fun h _ => h, fun _ h => h, fun _ _ h => h⟩
    (Lts.Reach.invariant _ (fun _ hc => .init hc) ?_ h)
  intro c op c' hstep hc
  exact hc.step ⟨hstep, by cases op <;> trivial⟩

/-- The counter is right, and the list has one node for each cached entry, which is the node that
the iterator of the entry points to. -/
structure Booked (c : CDirectoryCache) : Prop where
  counted : c.totalFileCount = c.sizes
  node : ∀ p ∈ c.allEntries, ∃ n ∈ c.leastRecentlyUsedList,
    (p.2.lruIt = some n.id ∧ n.server = p.1 ∧ n.entry = p.2.id) ∧
      ∀ n' ∈ c.leastRecentlyUsedList, n'.server = p.1 ∧ n'.entry = p.2.id → n' = n
  entry : ∀ n ∈ c.leastRecentlyUsedList, ∃ p ∈ c.allEntries, n.server = p.1 ∧ n.entry = p.2.id
  length : c.leastRecentlyUsedList.length = c.allEntries.length
  distinct : (c.leastRecentlyUsedList.map (·.id)).Nodup

/-- With no excess the counter is the sum of the sizes. -/
theorem Linked.booked {P : DirectoryListing → Prop} (h : c.Linked P) (hexcess : c.excess = 0) :
    c.Booked where
  counted := by
    rw [excess] at hexcess
    omega
  node := by
    intro p hp
    obtain ⟨n, hlru, hmem⟩ := h.node_mem hp
    refine ⟨_, hmem, ⟨hlru, rfl, rfl⟩, ?_⟩
    rintro n' hn' ⟨-, hentry⟩
    -- the node of the same entry has the same number
    obtain ⟨se, hse, e, he, -, hid, hit⟩ := h.exists_node_entry hn'
    obtain rfl := h.entry_unique hp (mem_allEntries hse he) (hentry.symm.trans hid.symm)
    refine inj_on_of_nodup_map h.nodes hn' hmem ?_
    exact Option.some.inj (hit.symm.trans hlru)
  entry := by
    intro n hn
    obtain ⟨se, hse, e, he, hserver, hentry, -⟩ := h.exists_node_entry hn
    exact ⟨_, mem_allEntries hse he, hserver.symm, hentry.symm⟩
  length := by
    have := h.linked.length_eq
    rwa [length_map, length_map] at this
  distinct := h.nodes

/-- What is asked of the paths only is closed under all changes of names. -/
theorem namesClosed_path (good : CServerPath → Prop) : NamesClosed fun path _ => good path :=
  ⟨fun h _ => h, fun _ h => h, fun _ _ h => h⟩

/-- After every sequence of calls, the counter is the sum of the sizes of the cached listings and
the list of least recently used entries has exactly the nodes of the cached entries, if `operator<`
tells apart the paths of the stored listings. -/
theorem reach_booked (f : CaseFolding) (good : CServerPath → Prop)
    (hgood : ∀ {p q : CServerPath}, good p → good q → p.equivalent q = true → p = q)
    {c : CDirectoryCache}
    (h : ((cacheSystem f).restrict fun _ op => Stores (fun path _ => good path) op).Reach c) :
    c.Booked := by
  obtain ⟨hlinked, -, hexcess⟩ := reach_spec f (namesClosed_path good) h
  exact hlinked.booked (hexcess hgood)

end CDirectoryCache

/-! ### Small caches -/

/-- Comparison of names up to the case of the characters. -/
def asciiFolding : CaseFolding where
  lower s := s.map Char.toLower
  same a b := a.map Char.toLower == b.map Char.toLower
  same_self s := by simp

/-- A directory below the root. -/
def rootDirectory (name : String) : CServerPath := ⟨.unix, some ⟨[name.toList], none⟩⟩

/-- A listing with files. -/
def filesOf (path : CServerPath) (names : List String) : DirectoryListing :=
  { path := path, entries := names.map fun n => { name := n.toList } }

theorem plain_rootDirectory {name : String} (h : nul ∉ name.toList) :
    (rootDirectory name).Plain where
  nonempty := by simp [rootDirectory]
  nulFree := by
    rintro d ⟨⟩ s hs
    rw [mem_singleton.mp hs]
    exact h

namespace CDirectoryCache

/-- Two directories, a rename between them and a removed server. -/
theorem reach_booked_two : ∃ c : CDirectoryCache, c.Booked ∧ c.totalFileCount = 3 := by
  have hrun : ((cacheSystem asciiFolding).restrict fun _ op =>
      Stores (fun path _ => path.Plain) op).Run {}
      [.store (filesOf (rootDirectory "a") ["x", "y"]) {} 0,
        .store (filesOf (rootDirectory "b") ["z"]) {} 1,
        .rename {} (rootDirectory "a") ['x'] (rootDirectory "b") ['w'] 2] _ :=
    .cons ⟨rfl, plain_rootDirectory (by decide)⟩ <|
    .cons ⟨rfl, plain_rootDirectory (by decide)⟩ <| .cons ⟨rfl, trivial⟩ <| .nil _
  have hbooked := reach_booked asciiFolding CServerPath.Plain
    (fun hp hq => hp.eq_of_equivalent hq) (Lts.Reach.run (.init rfl) hrun)
  exact ⟨_, hbooked, by decide +kernel⟩

/-- Paths that differ behind a zero: the second listing is counted and not stored. -/
theorem store_counts_twice : ∃ c, (cacheSystem asciiFolding).Reach c ∧
    c.totalFileCount = 2 ∧ c.sizes = 1 := by
  have hreach : (cacheSystem asciiFolding).Reach _ := Lts.reach_ofFun
      [.store (filesOf (rootDirectory "a\x00b") ["x"]) {} 0,
        .store (filesOf (rootDirectory "a\x00c") ["x"]) {} 1] rfl rfl
  exact ⟨_, hreach, by decide +kernel⟩

/-! ## Names -/

/-- No change of the names makes one of them occur twice. -/
theorem namesClosed_nodup : NamesClosed fun _ names => names.Nodup where
  append := by
    intro _ names name h hnew
    rw [nodup_append]
    refine ⟨h, by simp, ?_⟩
    rintro a ha b hb rfl
    rw [mem_singleton.mp hb] at ha
    exact hnew ha
  erase name h := h.erase name
  set i name h := (h.erase name).set h.not_mem_erase

/-- If the names in every stored listing are pairwise distinct, they are so in every cached listing
after every sequence of calls. -/
theorem reach_names_nodup (f : CaseFolding) {c : CDirectoryCache}
    (h : ((cacheSystem f).restrict fun _ op => Stores (fun _ names => names.Nodup) op).Reach c) :
    ∀ p ∈ c.allEntries, p.2.listing.names.Nodup :=
  (reach_spec f namesClosed_nodup h).1.listings

/-- A file is renamed to the name of another one, and one is added under its old name. -/
theorem reach_names_nodup_renamed : ∃ c : CDirectoryCache,
    c.allEntries.map (fun p => p.2.listing.names) = [[['y'], ['x']]] ∧
      ∀ p ∈ c.allEntries, p.2.listing.names.Nodup := by
  have hstored : Holds (fun _ names => names.Nodup) (filesOf (rootDirectory "a") ["x", "y"]) := by
    unfold Holds
    decide
  have hrun : ((cacheSystem asciiFolding).restrict fun _ op =>
      Stores (fun _ names => names.Nodup) op).Run {}
      [.store (filesOf (rootDirectory "a") ["x", "y"]) {} 0,
        .rename {} (rootDirectory "a") ['x'] (rootDirectory "a") ['y'] 1,
        .updateFile {} (rootDirectory "a") ['x'] true .file 5 [] 2] _ :=
    .cons ⟨rfl, hstored⟩ <| .cons ⟨rfl, trivial⟩ <| .cons ⟨rfl, trivial⟩ <| .nil _
  have hnodup := reach_names_nodup asciiFolding (Lts.Reach.run (.init rfl) hrun)
  exact ⟨_, by decide +kernel, hnodup⟩

/-! ## What `InvalidateFile` marks -/

/-- The entries after those of one server were changed. -/
theorem allEntries_modifySet {c c' : CDirectoryCache} {sit : Nat} {g : CCacheEntry → CCacheEntry}
    (h : c'.serverList = (c.modifySet sit fun l => l.map g).serverList) :
    c'.allEntries = c.allEntries.map fun p => (p.1, if p.1 = sit then g p.2 else p.2) := by
  unfold allEntries entriesOf
  rw [h, modifySet, flatMap_map, map_flatMap]
  refine flatMap_congr fun se _ => ?_
  by_cases hid : se.id = sit <;> simp [hid]

def cmpCase (server : CServer) : Bool := server.getCaseSensitivity == .yes

/-- A cached listing of the path has a directory with the name. -/
def hasDirectory (f : CaseFolding) (cmpCase : Bool) (path : CServerPath) (filename : WString)
    (se : CServerEntry) : Bool :=
  se.cacheList.any fun e => path.samePath f cmpCase e.listing.path &&
    e.listing.entries.any fun d => f.sameName cmpCase filename d.name && d.isDir

/-- What `InvalidateFile` is to mark as unsure: the listings of the path, and those at or below a
directory with the name. -/
def invalidates (f : CaseFolding) (cmpCase : Bool) (path : CServerPath) (filename : WString)
    (se : CServerEntry) (p : CServerPath) : Bool :=
  let child := path.changePath filename false
  path.samePath f cmpCase p || (hasDirectory f cmpCase path filename se && child.1 &&
    p.isSubdirOf child.2.1 (f.sameName cmpCase) true)

/-- The second loop of `InvalidateFile` is entered: a matching entry is a directory and there is a
path for it. -/
def descends (f : CaseFolding) (cmpCase : Bool) (path : CServerPath) (filename : WString)
    (se : CServerEntry) : Bool :=
  hasDirectory f cmpCase path filename se && (path.changePath filename false).1

/-- What `InvalidateFile` marks: the second loop asks for the listings below the path itself. -/
def visits (f : CaseFolding) (cmpCase : Bool) (path : CServerPath) (filename : WString)
    (se : CServerEntry) (p : CServerPath) : Bool :=
  path.samePath f cmpCase p ||
    (descends f cmpCase path filename se && p.isSubdirOf path (f.sameName cmpCase) true)

/-- The flags of a listing after a call that is to mark the listings at the paths in `marked` of the
server's set. -/
def marking (c : CDirectoryCache) (server : CServer)
    (marked : CServerEntry → CServerPath → Bool) (p : Nat × CCacheEntry) : Nat × Nat × BitVec 32 :=
  (p.1, p.2.id, p.2.listing.flags |||
    if (c.getServerEntry server).any fun se => p.1 == se.id && marked se p.2.listing.path
    then unsureUnknown else 0)

/-- The flags after `InvalidateFile`: the loop marks what it visits, and nothing else. -/
theorem invalidateFile_flags (f : CaseFolding) {c : CDirectoryCache} (h : (cacheSystem f).Reach c)
    (server : CServer) (path : CServerPath) (filename : WString) (now : Int) :
    (c.invalidateFile f server path filename now).2.allEntries.map
      (fun p => (p.1, p.2.id, p.2.listing.flags)) =
    c.allEntries.map (c.marking server (visits f (cmpCase server) path filename)) := by
  have hlinked := (reach_counted h).1
  cases hfound : c.getServerEntry server with
  | none => simp [invalidateFile, hfound, marking]
  | some se =>
    have hse := getServerEntry_mem hfound
    generalize hcase : cmpCase server = sensitive
    let below : CServerPath → Bool := fun p => p.isSubdirOf path (f.sameName sensitive) true
    let marked := c.changeMatching se (path.samePath f sensitive)
      (fun l => (l.invalidateFile (f.sameName sensitive) filename, 0)) now
    have hresult : (c.invalidateFile f server path filename now).2 =
        if descends f sensitive path filename se then
          marked.modifySet se.id fun l => l.map
            (changed below (fun l => (l.addFlags unsureUnknown, 0)) now)
        else marked := by
      subst hcase
      unfold invalidateFile
      rw [hfound, apply_ite Prod.snd]
      rfl
    -- the listings of the path are marked first
    have hfirst : marked.allEntries = _ :=
      allEntries_modifySet (changeMatching_serverList hlinked hse ..)
    rw [hresult]
    split_ifs with hdir
    · rw [allEntries_modifySet rfl, hfirst, map_map, map_map]
      refine map_congr_left fun p hp => ?_
      by_cases hid : p.1 = se.id
      · -- a listing of the path may be marked twice
        by_cases hsame : path.samePath f sensitive p.2.listing.path <;>
          by_cases hmark : below p.2.listing.path <;>
          simp_all [changed, visits, marking, DirectoryListing.invalidateFile, markUnsure,
            addFlags, BitVec.or_assoc, below]
      · simp [hid, marking, hfound]
    · rw [hfirst, map_map]
      refine map_congr_left fun p hp => ?_
      by_cases hid : p.1 = se.id
      · by_cases hsame : path.samePath f sensitive p.2.listing.path <;>
          simp [hid, hfound, changed, hsame, visits, marking, hdir,
            DirectoryListing.invalidateFile, markUnsure, addFlags]
      · simp [hid, marking, hfound]

/-- Whether a mark is set makes a difference unless it was set before. -/
theorem or_ite_inj {w : Nat} {flags mark : BitVec w} {a b : Bool} :
    ((flags ||| if a then mark else 0) = flags ||| if b then mark else 0) ↔
      (flags ||| mark = flags ∨ a = b) := by
  cases a <;> cases b <;> simp [eq_comm]

/-- After every sequence of calls, `InvalidateFile` marks what it is to mark and leaves the flags of
all other listings exactly if its second loop is not entered, or the listings of the server that are
not marked yet and are not of the path are below the path exactly if they are at or below the
name. -/
theorem invalidateFile_marks (f : CaseFolding) {c : CDirectoryCache} (h : (cacheSystem f).Reach c)
    (server : CServer) (path : CServerPath) (filename : WString) (now : Int) :
    (c.invalidateFile f server path filename now).2.allEntries.map
        (fun p => (p.1, p.2.id, p.2.listing.flags)) =
      c.allEntries.map (c.marking server (invalidates f (cmpCase server) path filename)) ↔
    ∀ se ∈ c.getServerEntry server, descends f (cmpCase server) path filename se →
      ∀ e ∈ se.cacheList, e.listing.flags ||| unsureUnknown ≠ e.listing.flags →
        path.samePath f (cmpCase server) e.listing.path = false →
          e.listing.path.isSubdirOf path (f.sameName (cmpCase server)) true =
            e.listing.path.isSubdirOf (path.changePath filename false).2.1
              (f.sameName (cmpCase server)) true := by
  have hlinked := (reach_counted h).1
  rw [invalidateFile_flags f h, map_inj_left]
  cases hfound : c.getServerEntry server with
  | none => simp [marking, hfound]
  | some se =>
    have hse := getServerEntry_mem hfound
    generalize cmpCase server = sensitive
    -- for one entry: its mark is right, or the loop and the comment agree on it
    have hentry (p : Nat × CCacheEntry) :
        c.marking server (visits f sensitive path filename) p =
          c.marking server (invalidates f sensitive path filename) p ↔
        (p.1 = se.id → p.2.listing.flags ||| unsureUnknown = p.2.listing.flags ∨
          visits f sensitive path filename se p.2.listing.path =
            invalidates f sensitive path filename se p.2.listing.path) := by
      simp only [marking, hfound, Option.any_some, Prod.mk.injEq, true_and, or_ite_inj]
      by_cases hid : p.1 = se.id <;> simp [hid, beq_eq_false_iff_ne.mpr]
    simp only [hentry, Option.mem_some_iff, forall_eq']
    constructor
    · intro hmarks hdir e he hunmarked hsame
      have hp := hmarks (se.id, e) (mem_allEntries hse he) rfl
      have hdir' : hasDirectory f sensitive path filename se = true ∧
          (path.changePath filename false).1 = true := by simpa [descends] using hdir
      simpa [hunmarked, visits, invalidates, hsame, hdir, hdir'] using hp
    · intro hbelow p hp hid
      have he : p.2 ∈ se.cacheList := hlinked.mem_cacheList hse (by rwa [← hid])
      by_cases hunmarked : p.2.listing.flags ||| unsureUnknown = p.2.listing.flags
      · exact .inl hunmarked
      refine .inr ?_
      cases hsame : path.samePath f sensitive p.2.listing.path with
      | true => simp [visits, invalidates, hsame]
      | false =>
        cases hdir : descends f sensitive path filename se with
        | true =>
          have hdir' : hasDirectory f sensitive path filename se = true ∧
              (path.changePath filename false).1 = true := by simpa [descends] using hdir
          simp [visits, invalidates, hsame, hdir, hdir', hbelow hdir p.2 he hunmarked hsame]
        | false =>
          rw [visits, invalidates, hsame, hdir]
          unfold descends at hdir
          simp [hdir]

/-- `/a` with the directory `d` and the listing of another directory of `/a`. -/
def besideDirectory (name : String) : List CacheOp :=
  [.store { path := rootDirectory "a", entries := [{ name := ['d'], isDir := true }] } {} 0,
    .store { path := ⟨.unix, some ⟨[['a'], name.toList], none⟩⟩ } {} 1]

theorem invalidateFile_marks_child : ∃ c : CDirectoryCache,
    (c.invalidateFile asciiFolding {} (rootDirectory "a") ['d'] 2).2.allEntries.map
      (fun p => (p.1, p.2.id, p.2.listing.flags)) =
    [(0, 1, unsureUnknown), (0, 3, unsureUnknown)] :=
  ⟨_, ((invalidateFile_marks asciiFolding (Lts.reach_ofFun (besideDirectory "d") rfl rfl) {}
    (rootDirectory "a") ['d'] 2).mpr (by decide +kernel)).trans (by decide +kernel)⟩

/-- The listing of `/a/e` is marked together with that of `/a`. -/
theorem invalidateFile_marks_beside : ∃ c : CDirectoryCache, (cacheSystem asciiFolding).Reach c ∧
    (∀ se ∈ c.getServerEntry {}, se.cacheList.map (fun e => (e.listing.flags,
      invalidates asciiFolding (cmpCase {}) (rootDirectory "a") ['d'] se e.listing.path)) =
        [(0, true), (0, false)]) ∧
    (c.invalidateFile asciiFolding {} (rootDirectory "a") ['d'] 2).2.allEntries.map
      (·.2.listing.flags) = [unsureUnknown, unsureUnknown] :=
  ⟨_, Lts.reach_ofFun (besideDirectory "e") rfl rfl, by decide +kernel⟩

end CDirectoryCache

end FlintZilla
