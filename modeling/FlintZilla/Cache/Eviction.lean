import FlintZilla.Cache.Bookkeeping

/-!
# What `Store` leaves in the cache

`Store` adds an entry or gives an entry a new listing, and every other entry stays as it is unless
`Prune` evicts it. `Prune` takes nodes from the front of the list of least recently used entries,
where the new entry is last, and stops long before it gets there.

Main results:

* `store_stored`: all that `Store` does to what is cached.
* `store_lookup`: a listing that was stored is found as it was stored.
* `store_limited`: the limits hold after `Store` in every reachable state.
-/

namespace FlintZilla

open Lib List CServer

namespace CDirectoryCache

section

variable {P : DirectoryListing → Prop} {Q : CServerPath → List WString → Prop}
  {c c' : CDirectoryCache} {se : CServerEntry} {e : CCacheEntry} {listing : DirectoryListing}
  {server : CServer} {path : CServerPath}

/-! ## Lookups find what is cached -/

/-- There is one server entry for a content. -/
theorem Linked.content_unique (h : c.Linked P) {a b : CServerEntry} (ha : a ∈ c.serverList)
    (hb : b ∈ c.serverList) (has : a.server.sameContent server)
    (hbs : b.server.sameContent server) : a = b := by
  have hcontents := pairwise_map.mp h.contents
  have hsymm : Std.Symm fun x y : CServerEntry => x.server.sameContent y.server = false := by
    constructor
    intro x y hxy
    rw [← Bool.not_eq_true] at hxy ⊢
    exact fun hyx => hxy (sameContent_symm hyx)
  by_contra hne
  have hfalse := hcontents.forall ha hb hne
  rw [sameContent_trans has (sameContent_symm hbs)] at hfalse
  cases hfalse

/-- A lookup finds what is cached, unless it is unsure and that is not allowed. -/
theorem lookup_of_cached (h : c.Linked P) (hcached : c.Cached server path e)
    {allowUnsureEntries : Bool} (hsure : allowUnsureEntries = true ∨ e.listing.getUnsureFlags = 0)
    (now : Int) : (c.lookup server path allowUnsureEntries now).1.map (·.1) = some e.listing := by
  obtain ⟨se, hse, hserver, he, rfl⟩ := hcached
  have hfound : c.getServerEntry server = some se := by
    cases hget : c.getServerEntry server with
    | none =>
      have := find?_eq_none.mp hget se hse
      exact absurd hserver this
    | some s =>
      rw [h.content_unique (getServerEntry_mem hget) hse (getServerEntry_same hget) hserver]
  obtain ⟨outdated, hlookup⟩ := lookupIn_of_mem h hse he hsure now
  unfold lookup lookupEntry
  rw [hfound]
  dsimp only
  rw [hlookup]
  rfl

/-! ## Other entries stay -/

/-- A set is exchanged, and the sets differ only in entries for one path. -/
theorem cached_replaceSet {pre post : List CServerEntry} {l : List CCacheEntry}
    (hsplit : c.serverList = pre ++ se :: post)
    (hsplit' : c'.serverList = pre ++ { se with cacheList := l } :: post)
    (hsame : se.server.sameContent server = true → e.listing.path = path →
      (e ∈ l ↔ e ∈ se.cacheList)) :
    c'.Cached server path e ↔ c.Cached server path e := by
  unfold Cached
  rw [hsplit, hsplit']
  simp only [mem_append, mem_cons, or_and_right, exists_or, exists_eq_left]
  refine or_congr Iff.rfl (or_congr ?_ Iff.rfl)
  constructor
  · rintro ⟨hserver, he, hpath⟩
    exact ⟨hserver, (hsame hserver hpath).mp he, hpath⟩
  · rintro ⟨hserver, he, hpath⟩
    exact ⟨hserver, (hsame hserver hpath).mpr he, hpath⟩

/-- Everything but the entry of the first node stays cached. -/
theorem evictFront_cached (h : c.Linked P) {pos : LruNode} {rest : List LruNode}
    (hlru : c.leastRecentlyUsedList = pos :: rest) :
    c.evictFront.Cached server path e ↔ c.Cached server path e ∧ pos.entry ≠ e.id := by
  obtain ⟨se, hse, e₀, he₀, hserver₀, hentry₀, -⟩ :=
    h.exists_node_entry (n := pos) (by rw [hlru]; simp)
  have hlist : c.evictFront.serverList = (c.serverList.map fun s => if s.id = pos.server then
        { s with cacheList := s.cacheList.filter fun e => e.id != pos.entry } else s).filter
        fun s => !(s.id == pos.server && s.cacheList.isEmpty) := by
    unfold evictFront
    rw [hlru]
    rfl
  -- the entry of the node is in the set of the server of the node
  have hwhere : ∀ s ∈ c.serverList, ∀ a ∈ s.cacheList, a.id = pos.entry → s.id = pos.server := by
    intro s hs a ha hid
    have heq := h.entry_unique (mem_allEntries hs ha) (mem_allEntries hse he₀)
      (hid.trans hentry₀.symm)
    exact (Prod.mk.inj heq).1.trans hserver₀
  unfold Cached
  rw [hlist]
  simp only [mem_filter, mem_map]
  constructor
  · rintro ⟨_, ⟨⟨s, hs, rfl⟩, -⟩, hserver, he, hpath⟩
    by_cases hid : s.id = pos.server
    · rw [if_pos hid] at hserver he
      obtain ⟨he, hne⟩ := mem_filter.mp he
      exact ⟨⟨s, hs, hserver, he, hpath⟩, Ne.symm (bne_iff_ne.mp hne)⟩
    · rw [if_neg hid] at hserver he
      exact ⟨⟨s, hs, hserver, he, hpath⟩, fun heq => hid (hwhere s hs e he heq.symm)⟩
  · rintro ⟨⟨s, hs, hserver, he, hpath⟩, hne⟩
    have hmem : e ∈ (if s.id = pos.server then
        { s with cacheList := s.cacheList.filter fun e => e.id != pos.entry }
        else s).cacheList := by
      split_ifs
      · exact mem_filter.mpr ⟨he, bne_iff_ne.mpr (Ne.symm hne)⟩
      · exact he
    refine ⟨_, ⟨⟨s, hs, rfl⟩, ?_⟩, ?_, hmem, hpath⟩
    · rw [Bool.not_eq_true', Bool.and_eq_false_iff]
      right
      rw [← Bool.not_eq_true, List.isEmpty_iff]
      exact ne_nil_of_mem hmem
    · split_ifs <;> exact hserver

/-- The cache is pruned only if it has more than a hundred nodes. -/
theorem length_of_overfull (h : c.overfull) : 100 < c.leastRecentlyUsedList.length := by
  simp only [overfull, Bool.or_eq_true, Bool.and_eq_true, decide_eq_true_eq] at h
  omega

/-- The loop evicts the entries of the first nodes and keeps at least the last one; by induction on
its iterations. -/
theorem pruneLoop_cached (n : Nat) (h : c.Linked P) (hne : c.leastRecentlyUsedList ≠ []) :
    ∃ evicted kept, c.leastRecentlyUsedList = evicted ++ kept ∧ kept ≠ [] ∧
      ∀ server path e, (pruneLoop n c).Cached server path e ↔
        c.Cached server path e ∧ ∀ node ∈ evicted, node.entry ≠ e.id := by
  induction n generalizing c with
  | zero => exact ⟨[], _, rfl, hne, by simp [pruneLoop]⟩
  | succ n ih =>
    rw [pruneLoop]
    split_ifs with hfull
    · obtain ⟨pos, rest, hlru⟩ := exists_cons_of_ne_nil hne
      have hlru' : c.evictFront.leastRecentlyUsedList = rest := by
        rw [evictFront_lru, hlru, tail_cons]
      have hrest : rest ≠ [] := by
        have hlength := length_of_overfull hfull
        rw [hlru, length_cons] at hlength
        rintro rfl
        simp at hlength
      obtain ⟨evicted, kept, hsplit, hkept, hcached⟩ := ih h.evictFront.1 (hlru' ▸ hrest)
      refine ⟨pos :: evicted, kept, ?_, hkept, ?_⟩
      · rw [hlru, ← hlru', hsplit]
        rfl
      · intro server path e
        rw [hcached, evictFront_cached h hlru, and_assoc, forall_mem_cons]
    · exact ⟨[], _, rfl, hne, by simp⟩

/-! ## `Store` -/

/-- The listing takes the place of the one with its path. -/
theorem replace_cached (h : c.Linked P) (hse : se ∈ c.serverList) (he : e ∈ se.cacheList)
    (hserver : se.server.sameContent server) (hpath : e.listing.path = listing.path) (now : Int) :
    (∃ e', (c.modifyEntry se.id e.id fun e =>
        { e with listing := listing, modificationTime := now }).Cached server listing.path e' ∧
        e'.listing = listing) ∧
      ∀ server' path' a, ¬ (server.sameContent server' = true ∧ path' = listing.path) →
        ((c.modifyEntry se.id e.id fun e =>
          { e with listing := listing, modificationTime := now }).Cached server' path' a ↔
          c.Cached server' path' a) := by
  obtain ⟨pre, post, hsplit, hmodify⟩ := exists_split h.servers hse
  have hsplit' := hmodify fun l => l.map fun a =>
    if a.id = e.id then { a with listing := listing, modificationTime := now } else a
  let se' : CServerEntry := { se with cacheList := se.cacheList.map fun a =>
    if a.id = e.id then { a with listing := listing, modificationTime := now } else a }
  have hmem : se' ∈ pre ++ se' :: post := mem_append_right pre mem_cons_self
  rw [← hsplit'] at hmem
  refine ⟨⟨{ e with listing := listing, modificationTime := now }, ⟨se', hmem, hserver, ?_, rfl⟩,
    rfl⟩, ?_⟩
  · exact mem_map.mpr ⟨e, he, if_pos rfl⟩
  · -- the other entries of the set stay, since no two of them share an identifier
    intro server' path' a hother
    refine cached_replaceSet hsplit hsplit' ?_
    rintro hserver' rfl
    have hne : a.listing.path ≠ listing.path := fun hp =>
      hother ⟨sameContent_trans (sameContent_symm hserver) hserver', hp⟩
    rw [mem_map]
    constructor
    · rintro ⟨b, hb, rfl⟩
      split_ifs at hne ⊢ with hid
      · exact absurd rfl hne
      · exact hb
    · intro ha
      refine ⟨a, ha, if_neg ?_⟩
      intro hid
      rw [inj_on_of_nodup_map (h.cacheList_ids hse) ha he hid] at hne
      exact hne hpath

/-- The listing joins the set of its server. -/
theorem emplace_cached (h : c.Linked P) (hse : se ∈ c.serverList)
    (hserver : se.server.sameContent server)
    (hnew : ∀ e ∈ se.cacheList, e.listing.path.equivalent listing.path = false) (now : Int) :
    (∃ e', (c.emplace se listing now).Cached server listing.path e' ∧ e'.listing = listing ∧
        e'.id = c.nextId) ∧
      ∀ server' path' a, ¬ (server.sameContent server' = true ∧ path' = listing.path) →
        ((c.emplace se listing now).Cached server' path' a ↔ c.Cached server' path' a) := by
  obtain ⟨pre, post, l, hsplit, hsplit', hperm, -⟩ := h.emplace_eq hse hnew now
  refine ⟨⟨⟨c.nextId, listing, now, some (c.nextId + 1)⟩,
    ⟨{ se with cacheList := l }, ?_, hserver, ?_, rfl⟩, rfl, rfl⟩, ?_⟩
  · exact hsplit' ▸ mem_append_right _ mem_cons_self
  · exact hperm.symm.subset mem_cons_self
  · intro server' path' a hother
    refine cached_replaceSet hsplit hsplit' ?_
    rintro hserver' rfl
    rw [hperm.mem_iff, mem_cons]
    constructor
    · rintro (rfl | ha)
      · exact absurd
          ⟨sameContent_trans (sameContent_symm hserver) hserver', rfl⟩ hother
      · exact ha
    · exact .inr

/-- What `Store` does to what is cached. The second part says which other entries stay. -/
structure Stored (c c' : CDirectoryCache) (listing : DirectoryListing) (server : CServer)
    (evicted : List LruNode) : Prop where
  /-- The evicted entries are the least recently used ones. -/
  front : ∃ kept, c.leastRecentlyUsedList = evicted ++ kept
  /-- The listing is there, and not in an evicted entry. -/
  stored : ∃ e, c'.Cached server listing.path e ∧ e.listing = listing ∧
    ∀ n ∈ evicted, n.entry ≠ e.id
  /-- Another entry is unchanged or evicted. -/
  other : ∀ server' path' e, ¬ (server.sameContent server' = true ∧ path' = listing.path) →
    (c'.Cached server' path' e ↔ c.Cached server' path' e ∧ ∀ n ∈ evicted, n.entry ≠ e.id)

/-- The new listing is there, and what else changes is evicted. -/
theorem store_stored (hseparated : Separated Q) (h : c.Linked (Holds Q)) (hQ : Holds Q listing)
    (server : CServer) (now : Int) :
    ∃ evicted, Stored c (c.store listing server now) listing server evicted := by
  obtain ⟨se, c₁, hlinked, hse, hserver, -, hlru, hcreated, hcase⟩ :=
    store_cases h listing server now
  rcases hcase with ⟨e, c₂, hlinked₂, hlist, -, he, hpath, hstore⟩ | ⟨hnone, hstore⟩
  · obtain ⟨⟨e', hcached, hlisting⟩, hother⟩ :=
      replace_cached hlinked₂ (hlist ▸ hse) he hserver hpath now
    rw [hstore]
    refine ⟨[], ⟨_, rfl⟩, ⟨e', hcached, hlisting, by simp⟩, ?_⟩
    intro server' path' a hne
    rw [hother server' path' a hne, ← hcreated, Cached, hlist]
    simp [Cached]
  · have hnew := new_of_lookup_none hseparated hlinked hse hQ hnone
    obtain ⟨⟨e', hcached, hlisting, hid⟩, hother⟩ := emplace_cached hlinked hse hserver hnew now
    obtain ⟨-, -, -, -, -, -, -, hlast, -⟩ := hlinked.emplace_eq hse hnew now
    have hemplace := (emplace_linked hlinked hse hQ now).1
    obtain ⟨evicted, kept, hsplit, hkept, hpruned⟩ := pruneLoop_cached
      (emplace _ se listing now).leastRecentlyUsedList.length hemplace (by simp [hlast])
    -- the new node is the last one, and the last one is kept
    have hfront : c₁.leastRecentlyUsedList = evicted ++ kept.dropLast := by
      have hdrop := congrArg dropLast (hlast.symm.trans hsplit)
      rwa [dropLast_concat, dropLast_append_of_ne_nil hkept] at hdrop
    have hold : ∀ n ∈ evicted, n.entry ≠ e'.id := by
      intro n hn
      obtain ⟨se', hse', e, he, -, hentry, -⟩ :=
        hlinked.exists_node_entry (hfront ▸ mem_append_left _ hn)
      have hfresh : e.id < c₁.nextId := hlinked.freshEntries _ (mem_allEntries hse' he)
      omega
    rw [hstore]
    refine ⟨evicted, ⟨_, hlru ▸ hfront⟩, ⟨e', ?_, hlisting, hold⟩, ?_⟩
    · exact (hpruned _ _ _).mpr ⟨hcached, hold⟩
    · intro server' path' a hne
      refine (hpruned server' path' a).trans (and_congr_left fun _ => ?_)
      exact (hother server' path' a hne).trans hcreated

end

/-- After every sequence of calls that store listings whose paths `operator<` tells apart, the
listing that `Store` gets is what a lookup of its path returns, for every server with the same
content. The entries that go are those of the first nodes of the list of least recently used
entries, the new entry is not among them, and all other entries are unchanged. -/
theorem store_lookup (f : CaseFolding) (good : CServerPath → Prop)
    (hgood : ∀ {p q : CServerPath}, good p → good q → p.equivalent q = true → p = q)
    {c : CDirectoryCache}
    (h : ((cacheSystem f).restrict fun _ op => Stores (fun path _ => good path) op).Reach c)
    (listing : DirectoryListing) (hpath : good listing.path) (server : CServer) (now : Int) :
    (∀ server' allowUnsureEntries now', server.sameContent server' = true →
      (allowUnsureEntries = true ∨ listing.getUnsureFlags = 0) →
      ((c.store listing server now).lookup server' listing.path allowUnsureEntries now').1.map
        (·.1) = some listing) ∧
      ∃ evicted, Stored c (c.store listing server now) listing server evicted := by
  obtain ⟨hlinked, -⟩ := reach_spec f (namesClosed_path good) h
  obtain ⟨hafter, -⟩ := store_spec hlinked hpath server now
  obtain ⟨evicted, hstored⟩ := store_stored hgood hlinked hpath server now
  refine ⟨?_, evicted, hstored⟩
  intro server' allowUnsureEntries now' hserver hsure
  obtain ⟨e, ⟨se, hse, hsame, he, hp⟩, rfl, -⟩ := hstored.stored
  have hsame' := CServer.sameContent_trans hsame hserver
  exact lookup_of_cached hafter ⟨se, hse, hsame', he, hp⟩ hsure now'

/-- A second directory is stored, and found for a server with another type. -/
theorem store_lookup_second : ∃ c : CDirectoryCache, c.leastRecentlyUsedList.length = 1 ∧
    ((c.store (filesOf (rootDirectory "b") ["x"]) {} 1).lookup { type := .unix } (rootDirectory "b")
      false 2).1.map (·.1) = some (filesOf (rootDirectory "b") ["x"]) := by
  have hreach : ((cacheSystem asciiFolding).restrict fun _ op =>
      Stores (fun path _ => path.Plain) op).Reach
      (store {} (filesOf (rootDirectory "a") ["x", "y"]) {} 0) :=
    .step (e := .store _ _ _) (.init rfl) ⟨rfl, plain_rootDirectory (by decide)⟩
  have hlookup := store_lookup asciiFolding CServerPath.Plain (fun hp hq => hp.eq_of_equivalent hq)
    hreach (filesOf (rootDirectory "b") ["x"]) (plain_rootDirectory (by decide)) {} 1
  exact ⟨_, by decide +kernel, hlookup.1 { type := .unix } false 2 (by decide) (.inr (by decide))⟩

/-- Paths that differ behind a zero: the listing that was stored last is not found. -/
theorem store_loses : ∃ c, (cacheSystem asciiFolding).Reach c ∧
    ((c.store (filesOf (rootDirectory "a\x00c") ["y"]) {} 1).lookup {} (rootDirectory "a\x00c")
      true 2).1 = none := by
  have hreach : (cacheSystem asciiFolding).Reach _ :=
    Lts.reach_ofFun [.store (filesOf (rootDirectory "a\x00b") ["x"]) {} 0] rfl rfl
  exact ⟨_, hreach, by decide +kernel⟩

/-! ## The limits -/

/-- What `Prune` enforces, for the files and directories that are cached. -/
structure Limited (c : CDirectoryCache) : Prop where
  directories : c.allEntries.length ≤ 50000
  files : c.sizes ≤ 1000000 ∨ c.allEntries.length ≤ 1000
  manyFiles : c.sizes ≤ 5000000 ∨ c.allEntries.length ≤ 100

/-- The limits on directories and files, from the counter. -/
theorem Linked.limited {P : DirectoryListing → Prop} {c : CDirectoryCache} (h : c.Linked P)
    (hexcess : 0 ≤ c.excess) (hfull : c.overfull = false) : c.Limited := by
  have hlength := h.linked.length_eq
  rw [length_map, length_map] at hlength
  unfold excess at hexcess
  simp only [overfull, Bool.or_eq_false_iff, Bool.and_eq_false_iff, decide_eq_false_iff_not]
    at hfull
  constructor <;> omega

/-- After every sequence of calls, a `Store` of a listing whose path is not cached leaves the cache
within the limits. -/
theorem store_limited (f : CaseFolding) {c : CDirectoryCache} (h : (cacheSystem f).Reach c)
    (listing : DirectoryListing) (server : CServer) (now : Int)
    (hnew : ∀ e, ¬ c.Cached server listing.path e) : (c.store listing server now).Limited := by
  -- the counter is never too low
  obtain ⟨hlinked, hexcess, -⟩ := reach_counted h
  obtain ⟨hafter, hleast, -⟩ : Counted _ c (c.store listing server now) :=
    store_spec hlinked trivial server now
  refine hafter.limited (hexcess.trans hleast) ?_
  obtain ⟨se, c₁, -, hse, hserver, -, -, hcreated, hcase⟩ := store_cases hlinked listing server now
  rcases hcase with ⟨e, -, -, -, -, he, hpath, -⟩ | ⟨-, hstore⟩
  · exact absurd (hcreated.mp ⟨se, hse, hserver, he, hpath⟩) (hnew e)
  · rw [hstore]
    exact overfull_prune _

/-- The first directory. -/
theorem store_limited_first : (store {} (filesOf (rootDirectory "a") ["x"]) {} 0).Limited :=
  store_limited asciiFolding (.init rfl) _ _ _ (by simp [Cached])

/-- A directory whose name is one character. -/
def letterDirectory (i : Nat) : CServerPath := ⟨.unix, some ⟨[[Char.ofNat (65 + i)]], none⟩⟩

/-- A cache with as many directories as are allowed for many files, and one more. -/
def filled : CDirectoryCache :=
  (range 101).foldl (fun c i => c.store { path := letterDirectory i } {} 0) {}

set_option maxRecDepth 10000 in
theorem store_filled (entries : List CDirentry) :
    (filled.store { path := letterDirectory 0, entries := entries } {} 0).allEntries.map
      (·.2.listing.entries) = entries :: replicate 100 [] := by
  rfl

/-- A new listing for a path that is cached: nothing is evicted. -/
theorem store_over_limits : ∃ c listing, (cacheSystem asciiFolding).Reach c ∧
    ¬ (c.store listing {} 0).Limited := by
  refine ⟨filled, ⟨letterDirectory 0, 0, 0, replicate 5000001 {}, none, none⟩, ?_, ?_⟩
  · exact foldlRecOn _ _ (.init rfl) fun c hc i _ => hc.step (e := .store _ _ _) rfl
  · intro h
    have hentries := store_filled (replicate 5000001 {})
    generalize filled.store _ _ _ = c at h hentries
    have hlength := congrArg length hentries
    have hsizes : c.sizes = ((c.allEntries.map (·.2.listing.entries)).map fun l =>
        (l.length : Int)).sum := by
      rw [map_map]
      rfl
    rw [hentries, map_cons, length_replicate] at hsizes
    rw [length_map, length_cons, length_replicate] at hlength
    have := h.manyFiles
    simp at hsizes
    omega

end CDirectoryCache

end FlintZilla
