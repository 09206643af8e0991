import FlintZilla.Cache.DirectoryCache
import FlintZilla.Lib.Keyed
import FlintZilla.Path.Comparison

/-!
# The links of the directory cache

What holds between two calls: the sets are sorted, no two server entries have the same content, no
number is used twice, and the nodes of the list of least recently used entries name the cached
entries one to one, each node being the one that its entry names. Whatever the callers guarantee of
the listings they store (`P`) holds of all cached listings.

The functions of the cache are made of a few changes: a listing is used, the listings of one server
are changed or erased, an entry is added, server entries come and go. There is one lemma for each.

Main results:

* `Linked`: what holds between two calls, and the lemmas of its namespace: each kind of change keeps
  it.
* `Linked.evictFront`, `Linked.pruneLoop`: eviction keeps the links and what the counter is off by.
* `overfull_prune`: after `Prune` the limits hold.
-/

namespace FlintZilla

open Lib OrderedSet List CCacheEntry

/-- The order of a set of cache entries. -/
def CCacheEntry.pathKey (e : CCacheEntry) : Option (List (List Nat)) := e.listing.path.key

/-- The cached entries, each with the number of its server entry. -/
def entriesOf (l : List CServerEntry) : List (Nat × CCacheEntry) :=
  l.flatMap fun se => se.cacheList.map fun e => (se.id, e)

/-- What the node of an entry must be. -/
def linkOf (p : Nat × CCacheEntry) : Option Nat × Nat × Nat := (p.2.lruIt, p.1, p.2.id)

/-- The node as the iterator that points to it and the iterators it holds. -/
def LruNode.link (n : LruNode) : Option Nat × Nat × Nat := (some n.id, n.server, n.entry)

namespace CDirectoryCache

def allEntries (c : CDirectoryCache) : List (Nat × CCacheEntry) := entriesOf c.serverList

/-- The sum of the sizes of all cached listings. -/
def sizes (c : CDirectoryCache) : Int := (c.allEntries.map fun p => (p.2.listing.size : Int)).sum

/-- By how much the counter is too high. -/
def excess (c : CDirectoryCache) : Int := c.totalFileCount - c.sizes

/-- The invariant without the counter. -/
structure Linked (P : DirectoryListing → Prop) (c : CDirectoryCache) : Prop where
  servers : (c.serverList.map (·.id)).Nodup
  contents : (c.serverList.map (·.server)).Pairwise fun a b => a.sameContent b = false
  sorted : ∀ se ∈ c.serverList, OrderedSet.Sorted CCacheEntry.pathKey se.cacheList
  ids : (c.allEntries.map fun p => p.2.id).Nodup
  nodes : (c.leastRecentlyUsedList.map (·.id)).Nodup
  linked : (c.leastRecentlyUsedList.map LruNode.link).Perm (c.allEntries.map linkOf)
  freshServers : ∀ se ∈ c.serverList, se.id < c.nextId
  freshEntries : ∀ p ∈ c.allEntries, p.2.id < c.nextId
  freshNodes : ∀ n ∈ c.leastRecentlyUsedList, n.id < c.nextId
  listings : ∀ p ∈ c.allEntries, P p.2.listing

end CDirectoryCache

section

variable {P : DirectoryListing → Prop} {c c' : CDirectoryCache} {se : CServerEntry}
  {e e' : CCacheEntry} {pre post : List CServerEntry}

theorem entriesOf_append (xs ys : List CServerEntry) :
    entriesOf (xs ++ ys) = entriesOf xs ++ entriesOf ys := flatMap_append

theorem entriesOf_cons (se : CServerEntry) (l : List CServerEntry) :
    entriesOf (se :: l) = (se.cacheList.map fun e => (se.id, e)) ++ entriesOf l := flatMap_cons

/-- The entries around those of one server. -/
theorem entriesOf_split (pre post : List CServerEntry) (se : CServerEntry) :
    entriesOf (pre ++ se :: post) =
      entriesOf pre ++ ((se.cacheList.map fun e => (se.id, e)) ++ entriesOf post) := by
  rw [entriesOf_append, entriesOf_cons]

/-- A test on the entries of one server. -/
theorem entriesOf_filter (l : List CServerEntry) (sit : Nat) (keep : CCacheEntry → Bool) :
    entriesOf (l.map fun se =>
      if se.id = sit then { se with cacheList := se.cacheList.filter keep } else se) =
      (entriesOf l).filter fun p => p.1 != sit || keep p.2 := by
  induction l with
  | nil => rfl
  | cons se l ih =>
    rw [map_cons, entriesOf_cons, entriesOf_cons, filter_append, ih, filter_map]
    by_cases hid : se.id = sit
    · simp [hid, Function.comp_def]
    · have hall : ∀ e, ((fun p : Nat × CCacheEntry => p.1 != sit || keep p.2) ∘ fun e => (se.id, e))
          e = true := by simp [hid]
      rw [if_neg hid, filter_eq_self.mpr fun e _ => hall e]

/-- An entry with the number of its server. -/
theorem mem_entriesOf {l : List CServerEntry} {p : Nat × CCacheEntry} :
    p ∈ entriesOf l ↔ ∃ se ∈ l, se.id = p.1 ∧ p.2 ∈ se.cacheList := by
  simp only [entriesOf, mem_flatMap, mem_map, Prod.ext_iff]
  constructor
  · rintro ⟨se, hse, e, he, hid, rfl⟩
    exact ⟨se, hse, hid, he⟩
  · rintro ⟨se, hse, hid, he⟩
    exact ⟨se, hse, p.2, he, hid, rfl⟩

namespace CDirectoryCache

theorem mem_allEntries (hse : se ∈ c.serverList) (he : e ∈ se.cacheList) :
    (se.id, e) ∈ c.allEntries := mem_entriesOf.mpr ⟨se, hse, rfl, he⟩

/-- Only the server entry with the number changes. -/
theorem exists_split (hservers : (c.serverList.map (·.id)).Nodup) (hse : se ∈ c.serverList) :
    ∃ pre post, c.serverList = pre ++ se :: post ∧ ∀ change,
      (c.modifySet se.id change).serverList =
        pre ++ { se with cacheList := change se.cacheList } :: post := by
  obtain ⟨pre, post, hsplit, hupdate⟩ := Keyed.map_update hservers hse
  refine ⟨pre, post, hsplit, ?_⟩
  intro change
  exact hupdate fun s => { s with cacheList := change s.cacheList }

/-- Two changes of one set are one change. -/
theorem modifySet_modifySet (c : CDirectoryCache) (sit : Nat)
    (f g : List CCacheEntry → List CCacheEntry) :
    (c.modifySet sit f).modifySet sit g = c.modifySet sit fun l => g (f l) := by
  unfold modifySet
  congr 1
  rw [map_map]
  refine map_congr_left ?_
  intro se _
  by_cases hid : se.id = sit <;> simp [hid]

namespace Linked

variable (h : c.Linked P)

include h

/-- Server entries with one number are the same. -/
theorem server_unique {a b : CServerEntry} (ha : a ∈ c.serverList) (hb : b ∈ c.serverList)
    (hid : a.id = b.id) : a = b :=
  inj_on_of_nodup_map h.servers ha hb hid

variable {p : Nat × CCacheEntry}

/-- The number of an entry is its own. -/
theorem entry_unique {q : Nat × CCacheEntry} (hp : p ∈ c.allEntries) (hq : q ∈ c.allEntries)
    (hid : p.2.id = q.2.id) : p = q :=
  inj_on_of_nodup_map h.ids hp hq hid

/-- An entry behind the iterator of its server is in the set of this server. -/
theorem mem_cacheList (hse : se ∈ c.serverList) (he : (se.id, e) ∈ c.allEntries) :
    e ∈ se.cacheList := by
  obtain ⟨s, hs, hid, hmem⟩ := mem_entriesOf.mp he
  rwa [h.server_unique hs hse hid] at hmem

theorem cacheList_ids (hse : se ∈ c.serverList) : (se.cacheList.map (·.id)).Nodup := by
  obtain ⟨pre, post, hsplit⟩ := append_of_mem hse
  have hids := h.ids
  rw [allEntries, hsplit, entriesOf_split, map_append, map_append, map_map] at hids
  exact (nodup_append.mp (nodup_append.mp hids).2.1).1

/-- Every cached entry has its node. -/
theorem exists_node (hp : p ∈ c.allEntries) : ∃ n ∈ c.leastRecentlyUsedList, n.link = linkOf p := by
  have hmem := h.linked.symm.subset (mem_map_of_mem (f := linkOf) hp)
  exact mem_map.mp hmem

/-- Every node has its entry. -/
theorem exists_entry {n : LruNode} (hn : n ∈ c.leastRecentlyUsedList) :
    ∃ p ∈ c.allEntries, linkOf p = n.link := by
  have hmem := h.linked.subset (mem_map_of_mem (f := LruNode.link) hn)
  exact mem_map.mp hmem

/-- No two entries name one node. -/
theorem lruIt_nodup : (c.allEntries.map fun p => p.2.lruIt).Nodup := by
  have hperm := h.linked.map Prod.fst
  rw [map_map, map_map] at hperm
  refine hperm.nodup ?_
  have hsome : (c.leastRecentlyUsedList.map (Prod.fst ∘ LruNode.link)) =
      (c.leastRecentlyUsedList.map (·.id)).map some := by
    rw [map_map]
    rfl
  rw [hsome]
  exact h.nodes.map (Option.some_injective Nat)

/-- The iterator of an entry points to one node, and it is this. -/
theorem node_mem (hp : p ∈ c.allEntries) :
    ∃ n, p.2.lruIt = some n ∧ ⟨n, p.1, p.2.id⟩ ∈ c.leastRecentlyUsedList := by
  obtain ⟨n, hn, hlink⟩ := h.exists_node hp
  obtain ⟨hid, hserver, hentry⟩ : some n.id = p.2.lruIt ∧ n.server = p.1 ∧ n.entry = p.2.id := by
    simpa [LruNode.link, linkOf] using hlink
  refine ⟨n.id, hid.symm, ?_⟩
  rw [← hserver, ← hentry]
  exact hn

omit h

end Linked

/-! ## A listing is used -/

/-- What `UpdateLru` leaves: everything but the order of the list. -/
structure Used (c c' : CDirectoryCache) : Prop where
  serverList : c'.serverList = c.serverList
  lru : c'.leastRecentlyUsedList.Perm c.leastRecentlyUsedList
  totalFileCount : c'.totalFileCount = c.totalFileCount
  ttl : c'.ttl = c.ttl
  nextId : c'.nextId = c.nextId

theorem Used.refl (c : CDirectoryCache) : Used c c := ⟨rfl, List.Perm.refl _, rfl, rfl, rfl⟩

theorem Used.trans {c₁ c₂ c₃ : CDirectoryCache} (h : Used c₁ c₂) (h' : Used c₂ c₃) : Used c₁ c₃ :=
  ⟨h'.serverList.trans h.serverList, h'.lru.trans h.lru,
    h'.totalFileCount.trans h.totalFileCount, h'.ttl.trans h.ttl, h'.nextId.trans h.nextId⟩

theorem Used.allEntries (h : Used c c') : c'.allEntries = c.allEntries := by
  rw [CDirectoryCache.allEntries, h.serverList]
  rfl

theorem Used.excess (h : Used c c') : c'.excess = c.excess := by
  rw [CDirectoryCache.excess, sizes, h.allEntries, h.totalFileCount]
  rfl

/-- What was used is still linked: the nodes are the same ones in another order. -/
theorem Used.linked (hu : Used c c') (h : c.Linked P) : c'.Linked P where
  servers := hu.serverList ▸ h.servers
  contents := hu.serverList ▸ h.contents
  sorted := hu.serverList ▸ h.sorted
  ids := hu.allEntries ▸ h.ids
  nodes := (hu.lru.map _).nodup_iff.mpr h.nodes
  linked := (hu.lru.map _).trans (hu.allEntries ▸ h.linked)
  freshServers := by
    rw [hu.serverList, hu.nextId]
    exact h.freshServers
  freshEntries := by
    rw [hu.allEntries, hu.nextId]
    exact h.freshEntries
  freshNodes := by
    intro n hn
    rw [hu.nextId]
    exact h.freshNodes n (hu.lru.subset hn)
  listings := hu.allEntries ▸ h.listings

variable {sit : Nat}

/-- A node that is moved to the end. -/
theorem used_updateLru (h : c.Linked P) (he : (sit, e) ∈ c.allEntries) :
    Used c (c.updateLru sit e) := by
  obtain ⟨n, hlru, hmem⟩ := h.node_mem he
  have hlru' : e.lruIt = some n := hlru
  unfold updateLru
  rw [hlru']
  exact ⟨rfl, Keyed.splice_perm h.nodes hmem, rfl, rfl, rfl⟩

/-- The `UpdateLru` of a whole loop. -/
theorem used_foldl {es : List CCacheEntry} (h : c.Linked P)
    (hes : ∀ e ∈ es, (sit, e) ∈ c.allEntries) :
    Used c (es.foldl (fun c e => c.updateLru sit e) c) := by
  induction es generalizing c with
  | nil => exact Used.refl c
  | cons e es ih =>
    have hu := used_updateLru h (hes e (by simp))
    refine hu.trans (ih (hu.linked h) ?_)
    intro e' he'
    rw [hu.allEntries]
    exact hes e' (mem_cons_of_mem _ he')

variable {server : CServer}

theorem getServerEntry_mem (h : c.getServerEntry server = some se) :
    se ∈ c.serverList := mem_of_find?_eq_some h

theorem getServerEntry_same (h : c.getServerEntry server = some se) :
    se.server.sameContent server = true :=
  find?_some (p := fun se : CServerEntry => se.server.sameContent server) h

/-- What a lookup finds, and that it changes the order of the list at most. -/
theorem lookupIn_spec (h : c.Linked P) (hse : se ∈ c.serverList) (path : CServerPath)
    (allowUnsureEntries : Bool) (now : Int) :
    Used c (c.lookupIn se path allowUnsureEntries now).2 ∧
      ∀ e outdated, (c.lookupIn se path allowUnsureEntries now).1 = some (e, outdated) →
        e ∈ se.cacheList ∧ e.listing.path = path := by
  unfold lookupIn
  split
  · exact ⟨Used.refl c, by simp⟩
  · next entry hfound =>
    have hmem := mem_of_lowerBound hfound
    split_ifs with hpath hunsure
    · exact ⟨used_updateLru h (mem_allEntries hse hmem), by simp⟩
    · refine ⟨used_updateLru h (mem_allEntries hse hmem), ?_⟩
      rintro e outdated ⟨⟩
      exact ⟨hmem, hpath⟩
    · exact ⟨Used.refl c, by simp⟩

/-- A listing in the set is found. -/
theorem lookupIn_of_mem (h : c.Linked P) (hse : se ∈ c.serverList) (he : e ∈ se.cacheList)
    {allowUnsureEntries : Bool} (hsure : allowUnsureEntries = true ∨ e.listing.getUnsureFlags = 0)
    (now : Int) :
    ∃ outdated, (c.lookupIn se e.listing.path allowUnsureEntries now).1 = some (e, outdated) := by
  have hbelow : OrderedSet.IsBelow pathKey
      (fun a => a.listing.path.less e.listing.path) e.pathKey := by
    intro a
    dsimp only
    rw [CServerPath.less_eq, beq_iff_eq]
    rfl
  have hfound := lowerBound_eq_some (h.sorted se hse) hbelow he
    Std.ReflCmp.compare_self
  unfold lookupIn
  rw [hfound]
  dsimp only
  rw [if_pos rfl, if_neg]
  · exact ⟨_, rfl⟩
  · rcases hsure with hsure | hsure <;> simp [hsure]

/-! ## The listings of one server are changed -/

namespace Linked

variable (h : c.Linked P)

include h

/-- A set is exchanged. -/
theorem replaceSet {l : List CCacheEntry} (hsplit : c.serverList = pre ++ se :: post)
    (hsplit' : c'.serverList = pre ++ { se with cacheList := l } :: post)
    (hnext : c.nextId ≤ c'.nextId) (hsorted : OrderedSet.Sorted pathKey l)
    (hids : (c'.allEntries.map fun p => p.2.id).Nodup)
    (hnodes : (c'.leastRecentlyUsedList.map (·.id)).Nodup)
    (hlinked : (c'.leastRecentlyUsedList.map LruNode.link).Perm (c'.allEntries.map linkOf))
    (hentries : ∀ e ∈ l, e.id < c'.nextId)
    (hfresh : ∀ n ∈ c'.leastRecentlyUsedList, n.id < c'.nextId) (hlistings : ∀ e ∈ l, P e.listing) :
    c'.Linked P := by
  -- what is in another set stays
  have hold : ∀ p ∈ c'.allEntries, p ∈ c.allEntries ∨ p.2 ∈ l := by
    intro p hp
    rw [allEntries, hsplit', entriesOf_split] at hp
    rw [allEntries, hsplit, entriesOf_split]
    simp only [mem_append, mem_map] at hp ⊢
    rcases hp with hp | ⟨e, he, rfl⟩ | hp
    · exact .inl (.inl hp)
    · exact .inr he
    · exact .inl (.inr (.inr hp))
  have hserver : ∀ s ∈ c'.serverList, s ∈ c.serverList ∨ s = { se with cacheList := l } := by
    simp only [hsplit, hsplit', mem_append, mem_cons]
    tauto
  refine ⟨?_, ?_, ?_, hids, hnodes, hlinked, ?_, ?_, hfresh, ?_⟩
  · have hservers := h.servers
    rw [hsplit] at hservers
    rw [hsplit']
    simpa using hservers
  · have hcontents := h.contents
    rw [hsplit] at hcontents
    rw [hsplit']
    simpa using hcontents
  · intro s hs
    rcases hserver s hs with hs | rfl
    · exact h.sorted s hs
    · exact hsorted
  · intro s hs
    refine Nat.lt_of_lt_of_le ?_ hnext
    rcases hserver s hs with hs | rfl
    · exact h.freshServers s hs
    · exact h.freshServers se (by simp [hsplit])
  · intro p hp
    rcases hold p hp with hp | hp
    · exact Nat.lt_of_lt_of_le (h.freshEntries p hp) hnext
    · exact hentries p.2 hp
  · intro p hp
    rcases hold p hp with hp | hp
    · exact h.listings p hp
    · exact hlistings p.2 hp

/-- Listings of one server are changed in place. -/
theorem change (hse : se ∈ c.serverList) (g : CCacheEntry → CCacheEntry) (delta : CCacheEntry → Int)
    (hid : ∀ e ∈ se.cacheList, (g e).id = e.id) (hlru : ∀ e ∈ se.cacheList, (g e).lruIt = e.lruIt)
    (hpath : ∀ e ∈ se.cacheList, (g e).listing.path = e.listing.path)
    (hP : ∀ e ∈ se.cacheList, P e.listing → P (g e).listing)
    (hsize : ∀ e ∈ se.cacheList, ((g e).listing.size : Int) = e.listing.size + delta e)
    (hlist : c'.serverList = (c.modifySet se.id fun l => l.map g).serverList)
    (hlrulist : c'.leastRecentlyUsedList = c.leastRecentlyUsedList) (hnext : c'.nextId = c.nextId) :
    c'.Linked P ∧ c'.sizes = c.sizes + (se.cacheList.map delta).sum := by
  obtain ⟨pre, post, hsplit, hmodify⟩ := exists_split h.servers hse
  have hsplit' := hlist.trans (hmodify _)
  -- neither the numbers nor the links change
  have hmap : ∀ {β : Type} (k : Nat × CCacheEntry → β),
      (∀ e ∈ se.cacheList, k (se.id, g e) = k (se.id, e)) →
      c'.allEntries.map k = c.allEntries.map k := by
    intro β k hk
    rw [allEntries, allEntries, hsplit, hsplit', entriesOf_split, entriesOf_split]
    simp only [map_append, map_map, append_cancel_left_eq, append_cancel_right_eq]
    refine map_congr_left ?_
    intro e he
    exact hk e he
  refine ⟨?_, ?_⟩
  · refine h.replaceSet hsplit hsplit' hnext.ge ?_ ?_ ?_ ?_ ?_ ?_ ?_
    · have hsorted := h.sorted se hse
      unfold OrderedSet.Sorted at hsorted ⊢
      rw [pairwise_map]
      refine hsorted.imp_of_mem ?_
      intro a b ha hb hab
      rw [pathKey, pathKey, hpath a ha, hpath b hb]
      exact hab
    · rw [hmap (fun p => p.2.id) (fun e he => hid e he)]
      exact h.ids
    · rw [hlrulist]
      exact h.nodes
    · have hlink : ∀ e ∈ se.cacheList, linkOf (se.id, g e) = linkOf (se.id, e) := by
        intro e he
        rw [linkOf, linkOf]
        rw [hid e he, hlru e he]
      rw [hlrulist, hmap linkOf hlink]
      exact h.linked
    · intro e he
      obtain ⟨a, ha, rfl⟩ := mem_map.mp he
      rw [hid a ha, hnext]
      exact h.freshEntries _ (mem_allEntries hse ha)
    · rw [hlrulist, hnext]
      exact h.freshNodes
    · intro e he
      obtain ⟨a, ha, rfl⟩ := mem_map.mp he
      exact hP a ha (h.listings _ (mem_allEntries hse ha))
  · have hsum : (se.cacheList.map fun e => ((g e).listing.size : Int)).sum =
        (se.cacheList.map fun e => (e.listing.size : Int)).sum + (se.cacheList.map delta).sum := by
      rw [← sum_map_add, map_congr_left hsize]
    rw [sizes, sizes, allEntries, allEntries, hsplit, hsplit', entriesOf_split, entriesOf_split]
    simp only [map_append, map_map, sum_append, Function.comp_def, hsum]
    ring

/-- One listing is changed through an iterator. -/
theorem changeOne (hse : se ∈ c.serverList) (he : e ∈ se.cacheList) {g : CCacheEntry → CCacheEntry}
    (hid : (g e).id = e.id) (hlru : (g e).lruIt = e.lruIt)
    (hpath : (g e).listing.path = e.listing.path) (hP : P e.listing → P (g e).listing)
    (hlist : c'.serverList = (c.modifyEntry se.id e.id g).serverList)
    (hlrulist : c'.leastRecentlyUsedList = c.leastRecentlyUsedList) (hnext : c'.nextId = c.nextId) :
    c'.Linked P ∧ c'.sizes = c.sizes + ((g e).listing.size - e.listing.size) := by
  -- the number finds this entry and no other
  have honly : ∀ a ∈ se.cacheList, a.id = e.id → a = e := by
    intro a ha hid
    have heq := h.entry_unique (mem_allEntries hse ha) (mem_allEntries hse he) hid
    exact (Prod.ext_iff.mp heq).2
  have hchange := h.change hse (fun a => if a.id = e.id then g a else a)
    (fun a => if a.id = e.id then ((g e).listing.size : Int) - e.listing.size else 0)
    ?_ ?_ ?_ ?_ ?_ hlist hlrulist hnext
  · obtain ⟨hlinked, hsizes⟩ := hchange
    refine ⟨hlinked, ?_⟩
    have hnodup : se.cacheList.Nodup := List.Nodup.of_map _ (h.cacheList_ids hse)
    rw [hsizes, sum_map_eq_nsmul_single e, count_eq_one_of_mem hnodup he]
    · rw [if_pos rfl, one_nsmul]
    · intro a hne ha
      exact if_neg fun hid => hne (honly a ha hid)
  all_goals
    intro a ha
    by_cases hae : a.id = e.id
    · obtain rfl := honly a ha hae
      simp only [if_true]
      first | assumption | omega
    · simp [hae]

/-! ## Listings leave -/

/-- Entries of one server leave with their nodes. -/
theorem erase (hse : se ∈ c.serverList) (keep : CCacheEntry → Bool) (keepNode : LruNode → Bool)
    (hnode : ∀ n ∈ c.leastRecentlyUsedList,
      keepNode n = true ↔ ∀ e ∈ se.cacheList, e.lruIt = some n.id → keep e = true)
    (hlist : c'.serverList = (c.modifySet se.id fun l => l.filter keep).serverList)
    (hlrulist : c'.leastRecentlyUsedList = c.leastRecentlyUsedList.filter keepNode)
    (hnext : c'.nextId = c.nextId) :
    c'.Linked P ∧ c'.sizes = c.sizes -
      ((se.cacheList.filter fun e => !keep e).map fun e => (e.listing.size : Int)).sum := by
  obtain ⟨pre, post, hsplit, hmodify⟩ := exists_split h.servers hse
  have hsplit' := hlist.trans (hmodify _)
  have hentries : c'.allEntries = c.allEntries.filter fun p => p.1 != se.id || keep p.2 := by
    rw [allEntries, hlist]
    exact entriesOf_filter c.serverList se.id keep
  have hmem : ∀ e ∈ se.cacheList.filter keep, (se.id, e) ∈ c.allEntries := by
    intro e he
    exact mem_allEntries hse (mem_of_mem_filter he)
  -- a node goes exactly if its entry does, since no two entries share one
  have hpair : ∀ n ∈ c.leastRecentlyUsedList, ∀ p ∈ c.allEntries, n.link = linkOf p →
      keepNode n = (p.1 != se.id || keep p.2) := by
    rintro n hn ⟨sit, e⟩ hp hlink
    have hlru : e.lruIt = some n.id := (congrArg Prod.fst hlink).symm
    rw [Bool.eq_iff_iff, hnode n hn, Bool.or_eq_true, bne_iff_ne]
    constructor
    · intro hkeep
      by_cases hsit : sit = se.id
      · subst hsit
        exact .inr (hkeep e (h.mem_cacheList hse hp) hlru)
      · exact .inl hsit
    · intro hkeep a ha halru
      have heq : (se.id, a) = (sit, e) := inj_on_of_nodup_map h.lruIt_nodup
        (mem_allEntries hse ha) hp (halru.trans hlru.symm)
      obtain ⟨hsit, rfl⟩ := Prod.mk.inj heq
      rcases hkeep with hkeep | hkeep
      · exact absurd hsit.symm hkeep
      · exact hkeep
  refine ⟨?_, ?_⟩
  · refine h.replaceSet hsplit hsplit' hnext.ge ?_ ?_ ?_ ?_ ?_ ?_ ?_
    · exact (h.sorted se hse).sublist filter_sublist
    · rw [hentries]
      exact h.ids.sublist (filter_sublist.map _)
    · rw [hlrulist]
      exact h.nodes.sublist (filter_sublist.map _)
    · rw [hlrulist, hentries]
      exact Keyed.perm_filter h.linked hpair
    · intro e he
      rw [hnext]
      exact h.freshEntries _ (hmem e he)
    · intro n hn
      rw [hlrulist] at hn
      rw [hnext]
      exact h.freshNodes n (mem_of_mem_filter hn)
    · intro e he
      exact h.listings _ (hmem e he)
  · -- what was filtered out is subtracted
    have hsum := ((filter_append_perm keep se.cacheList).map
      fun e => (e.listing.size : Int)).sum_eq
    rw [map_append, sum_append] at hsum
    rw [sizes, sizes, allEntries, allEntries, hsplit, hsplit', entriesOf_split, entriesOf_split]
    simp only [map_append, map_map, sum_append, Function.comp_def]
    rw [← hsum]
    ring

/-- Server entries without listings leave. -/
theorem dropServers (keep : CServerEntry → Bool)
    (hempty : ∀ se ∈ c.serverList, keep se = false → se.cacheList = [])
    (hlist : c'.serverList = c.serverList.filter keep)
    (hlrulist : c'.leastRecentlyUsedList = c.leastRecentlyUsedList) (hnext : c'.nextId = c.nextId) :
    c'.Linked P ∧ c'.allEntries = c.allEntries := by
  -- an entry of the list that goes had no listings
  have hentries : c'.allEntries = c.allEntries := by
    rw [allEntries, allEntries, hlist]
    generalize c.serverList = l at hempty
    induction l with
    | nil => rfl
    | cons se l ih =>
      have hl := ih fun s hs => hempty s (mem_cons_of_mem _ hs)
      by_cases hkeep : keep se = true
      · rw [filter_cons_of_pos hkeep, entriesOf_cons, entriesOf_cons, hl]
      · rw [filter_cons_of_neg hkeep, entriesOf_cons, hl,
          hempty se (by simp) (by simpa using hkeep)]
        rfl
  have hsub : c'.serverList.Sublist c.serverList := hlist ▸ filter_sublist
  refine ⟨⟨h.servers.sublist (hsub.map _), h.contents.sublist (hsub.map _), ?_, ?_, ?_, ?_, ?_, ?_,
    ?_, ?_⟩, hentries⟩
  · intro se hse
    exact h.sorted se (hsub.subset hse)
  · rw [hentries]
    exact h.ids
  · rw [hlrulist]
    exact h.nodes
  · rw [hlrulist, hentries]
    exact h.linked
  · intro se hse
    rw [hnext]
    exact h.freshServers se (hsub.subset hse)
  · rw [hentries, hnext]
    exact h.freshEntries
  · rw [hlrulist, hnext]
    exact h.freshNodes
  · rw [hentries]
    exact h.listings

/-! ## Server entries and listings come -/

/-- The server entry of a server is found or made; no listing changes. -/
theorem createServerEntry_spec (server : CServer) :
    (c.createServerEntry server).2.Linked P ∧
      (c.createServerEntry server).1 ∈ (c.createServerEntry server).2.serverList ∧
      (c.createServerEntry server).1.server.sameContent server = true ∧
      (c.createServerEntry server).2.allEntries = c.allEntries ∧
      (c.createServerEntry server).2.totalFileCount = c.totalFileCount ∧
      (c.createServerEntry server).2.leastRecentlyUsedList = c.leastRecentlyUsedList := by
  unfold createServerEntry
  split
  · next se hfound =>
    exact ⟨h, getServerEntry_mem hfound, getServerEntry_same hfound, rfl, rfl, rfl⟩
  · next hnone =>
    -- a server entry without listings adds none
    have hentries : ∀ l : List CServerEntry, entriesOf (l ++ [⟨c.nextId, server, []⟩]) =
        entriesOf l := by
      intro l
      rw [entriesOf_append]
      exact append_nil _
    have hother : ∀ se ∈ c.serverList, se.server.sameContent server = false := by
      intro se hse
      have := find?_eq_none.mp hnone se hse
      simpa using this
    refine ⟨⟨?_, ?_, ?_, ?_, h.nodes, ?_, ?_, ?_, ?_, ?_⟩, by simp, server.sameContent_self,
      hentries c.serverList, rfl, rfl⟩
    · rw [map_append, nodup_append]
      refine ⟨h.servers, by simp, ?_⟩
      intro a ha b hb
      obtain ⟨se, hse, rfl⟩ := mem_map.mp ha
      have hfresh := h.freshServers se hse
      simp only [map_cons, map_nil, mem_singleton] at hb
      omega
    · rw [map_append, pairwise_append]
      refine ⟨h.contents, by simp, ?_⟩
      intro a ha b hb
      obtain ⟨se, hse, rfl⟩ := mem_map.mp ha
      simp only [map_cons, map_nil, mem_singleton] at hb
      rw [hb]
      exact hother se hse
    · exact forall_mem_append.mpr ⟨h.sorted, forall_mem_singleton.mpr List.Pairwise.nil⟩
    · rw [allEntries, hentries]
      exact h.ids
    · rw [allEntries, hentries]
      exact h.linked
    · exact forall_mem_append.mpr ⟨fun se hse => Nat.lt_succ_of_lt (h.freshServers se hse),
        forall_mem_singleton.mpr (Nat.lt_succ_self c.nextId)⟩
    · intro p hp
      rw [allEntries, hentries] at hp
      exact Nat.lt_succ_of_lt (h.freshEntries p hp)
    · intro n hn
      exact Nat.lt_succ_of_lt (h.freshNodes n hn)
    · intro p hp
      rw [allEntries, hentries] at hp
      exact h.listings p hp

variable {listing : DirectoryListing}

section

variable (hse : se ∈ c.serverList)
  (hnew : ∀ e ∈ se.cacheList, e.listing.path.equivalent listing.path = false) (now : Int)

include hse hnew

/-- What `emplace_hint` and `UpdateLru` do with a listing whose path is new to the set. -/
theorem emplace_eq :
    ∃ pre post l, c.serverList = pre ++ se :: post ∧
      (c.emplace se listing now).serverList = pre ++ { se with cacheList := l } :: post ∧
      l.Perm (⟨c.nextId, listing, now, some (c.nextId + 1)⟩ :: se.cacheList) ∧
      OrderedSet.Sorted pathKey l ∧
      (c.emplace se listing now).leastRecentlyUsedList =
        c.leastRecentlyUsedList ++ [⟨c.nextId + 1, se.id, c.nextId⟩] ∧
      (c.emplace se listing now).totalFileCount = c.totalFileCount ∧
      (c.emplace se listing now).nextId = c.nextId + 2 := by
  have hnone : se.cacheList.find? (fun e => e.listing.path.equivalent listing.path) = none := by
    rw [find?_eq_none]
    intro e he
    simp [hnew e he]
  obtain ⟨pre, post, hsplit, hmodify⟩ := exists_split h.servers hse
  -- the entry is inserted first and gets the number of its node afterwards
  let entry : CCacheEntry := { id := c.nextId, listing := listing, modificationTime := now }
  let below : CCacheEntry → Bool := fun e => e.listing.path.less listing.path
  let link : CCacheEntry → CCacheEntry := fun e =>
    if e.id = c.nextId then { e with lruIt := some (c.nextId + 1) } else e
  have hemplace : c.emplace se listing now =
      { (c.modifySet se.id (insertBehind below entry)).modifySet se.id
          (fun l => l.map link) with
        leastRecentlyUsedList := c.leastRecentlyUsedList ++ [⟨c.nextId + 1, se.id, c.nextId⟩]
        nextId := c.nextId + 2 } := by
    unfold emplace
    rw [hnone]
    rfl
  rw [hemplace]
  refine ⟨pre, post, (insertBehind below entry se.cacheList).map link, hsplit, ?_, ?_,
    ?_, rfl, rfl, rfl⟩
  · rw [modifySet_modifySet]
    exact hmodify fun l => (insertBehind below entry l).map link
  · -- the numbers in the set were given out before
    have hold : se.cacheList.map link = se.cacheList := by
      conv_rhs => rw [← map_id se.cacheList]
      refine map_congr_left ?_
      intro e he
      have hfresh : e.id < c.nextId := h.freshEntries _ (mem_allEntries hse he)
      exact if_neg (Nat.ne_of_lt hfresh)
    have hperm := (insertBehind_perm below entry se.cacheList).map link
    rw [map_cons, hold] at hperm
    have hentry : link entry = ⟨c.nextId, listing, now, some (c.nextId + 1)⟩ := if_pos rfl
    rwa [hentry] at hperm
  · have hkey : ∀ e, (link e).pathKey = e.pathKey := by
      intro e
      dsimp only [link]
      split_ifs <;> rfl
    -- the set is searched with `operator<`, which compares the keys
    have hbelow : OrderedSet.IsBelow pathKey below entry.pathKey := by
      intro a
      dsimp only [below]
      rw [CServerPath.less_eq, beq_iff_eq]
      rfl
    have hsorted := sorted_insertBehind (h.sorted se hse) hbelow ?_
    · unfold OrderedSet.Sorted at hsorted ⊢
      rw [pairwise_map]
      simpa only [hkey] using hsorted
    · intro e he heq
      have hequiv : e.listing.path.equivalent listing.path = true := by
        rw [CServerPath.equivalent_iff]
        exact Std.LawfulEqCmp.compare_eq_iff_eq.mp heq
      rw [hnew e he] at hequiv
      cases hequiv

/-- A listing with a new path joins its server. -/
theorem emplace (hP : P listing) :
    (c.emplace se listing now).Linked P ∧
      (c.emplace se listing now).sizes = c.sizes + listing.size := by
  obtain ⟨pre, post, l, hsplit, hsplit', hperm, hsorted, hlru, -, hnext⟩ :=
    h.emplace_eq hse hnew now
  -- order within the set does not matter to the links
  have hentries : (c.emplace se listing now).allEntries.Perm
      ((se.id, ⟨c.nextId, listing, now, some (c.nextId + 1)⟩) :: c.allEntries) := by
    rw [allEntries, allEntries, hsplit, hsplit', entriesOf_split, entriesOf_split]
    refine List.Perm.trans ?_ perm_middle
    exact ((hperm.map _).append_right _).append_left _
  have hfresh : ∀ e ∈ l, e.id < c.nextId + 2 := by
    intro e he
    rcases mem_cons.mp (hperm.subset he) with rfl | he
    · exact Nat.lt_add_of_pos_right (by decide)
    · have := h.freshEntries _ (mem_allEntries hse he)
      dsimp only at this
      omega
  refine ⟨?_, ?_⟩
  · refine h.replaceSet hsplit hsplit' (by omega) hsorted ?_ ?_ ?_ ?_ ?_ ?_
    · rw [(hentries.map _).nodup_iff, map_cons, nodup_cons]
      refine ⟨?_, h.ids⟩
      intro hmem
      obtain ⟨p, hp, hid⟩ := mem_map.mp hmem
      have := h.freshEntries p hp
      dsimp only at hid
      omega
    · rw [hlru, map_append, nodup_append]
      refine ⟨h.nodes, by simp, ?_⟩
      intro a ha b hb
      obtain ⟨n, hn, rfl⟩ := mem_map.mp ha
      have := h.freshNodes n hn
      simp only [map_cons, map_nil, mem_singleton] at hb
      omega
    · rw [hlru, map_append]
      refine List.Perm.trans ?_ (hentries.map linkOf).symm
      exact (perm_append_singleton _ _).trans (h.linked.cons _)
    · rw [hnext]
      exact hfresh
    · intro n hn
      rw [hnext]
      rw [hlru, mem_append] at hn
      rcases hn with hn | hn
      · have := h.freshNodes n hn
        omega
      · rw [mem_singleton.mp hn]
        exact Nat.lt_succ_self _
    · intro e he
      rcases mem_cons.mp (hperm.subset he) with rfl | he
      · exact hP
      · exact h.listings _ (mem_allEntries hse he)
  · rw [sizes, (hentries.map _).sum_eq, map_cons, sum_cons, sizes]
    ring

end

/-! ## Pruning -/

/-- An iterator leads to its entry. -/
theorem entryAt_eq (hse : se ∈ c.serverList) (he : e ∈ se.cacheList) :
    c.entryAt se.id e.id = some e := by
  unfold entryAt
  rw [Keyed.find?_key h.servers hse, Option.bind_some, Keyed.find?_key (h.cacheList_ids hse) he]

/-- The entry of a node, and where it is. -/
theorem exists_node_entry {n : LruNode} (hn : n ∈ c.leastRecentlyUsedList) :
    ∃ se ∈ c.serverList, ∃ e ∈ se.cacheList, se.id = n.server ∧ e.id = n.entry ∧
      e.lruIt = some n.id := by
  obtain ⟨p, hp, hlink⟩ := h.exists_entry hn
  obtain ⟨hlru, hserver, hentry⟩ : p.2.lruIt = some n.id ∧ p.1 = n.server ∧ p.2.id = n.entry := by
    simpa [LruNode.link, linkOf] using hlink
  obtain ⟨se, hse, hid, he⟩ := mem_entriesOf.mp hp
  exact ⟨se, hse, p.2, he, hid.trans hserver, hentry, hlru⟩

/-- The entry of the first node is erased, with the server entry if it was the last one. -/
theorem evictFront : c.evictFront.Linked P ∧ c.evictFront.excess = c.excess := by
  unfold CDirectoryCache.evictFront
  split
  · exact ⟨h, rfl⟩
  · next pos rest hlru =>
    obtain ⟨se, hse, e, he, hserver, hentry, hit⟩ :=
      h.exists_node_entry (n := pos) (by rw [hlru]; simp)
    have hnodes := h.nodes
    rw [hlru, map_cons, nodup_cons] at hnodes
    -- the first node is the only one with its number
    have hrest : rest = c.leastRecentlyUsedList.filter fun n => n.id != pos.id := by
      rw [hlru, filter_cons_of_neg (by simp), eq_comm, filter_eq_self]
      intro n hn
      rw [bne_iff_ne]
      intro heq
      exact hnodes.1 (heq ▸ mem_map_of_mem hn)
    have hnode : ∀ n ∈ c.leastRecentlyUsedList, (n.id != pos.id) = true ↔
        ∀ a ∈ se.cacheList, a.lruIt = some n.id → (a.id != e.id) = true := by
      intro n _
      simp only [bne_iff_ne]
      constructor
      · intro hne a ha hlruIt hid
        obtain rfl := inj_on_of_nodup_map (h.cacheList_ids hse) ha he hid
        exact hne (Option.some.inj (hlruIt.symm.trans hit))
      · intro hall heq
        exact hall e he (heq ▸ hit) rfl
    have hgone : se.cacheList.filter (fun a => !(a.id != e.id)) = [e] := by
      rw [← Keyed.filter_key (h.cacheList_ids hse) he]
      refine filter_congr ?_
      intro a _
      rw [bne, Bool.not_not]
    rw [← hserver, ← hentry, h.entryAt_eq hse he]
    let erased : CDirectoryCache :=
      { c.modifySet se.id (fun l => l.filter fun a => a.id != e.id) with
        leastRecentlyUsedList := rest
        totalFileCount := c.totalFileCount - e.listing.size }
    have herase : erased.Linked P ∧ _ := h.erase hse (fun a => a.id != e.id)
      (fun n => n.id != pos.id) hnode rfl hrest rfl
    rw [hgone] at herase
    obtain ⟨hlinked, hsizes⟩ := herase
    have hempty : ∀ s ∈ erased.serverList, (!(s.id == se.id && s.cacheList.isEmpty)) = false →
        s.cacheList = [] := by
      intro s _ hs
      rw [Bool.not_eq_false', Bool.and_eq_true, List.isEmpty_iff] at hs
      exact hs.2
    let dropped : CDirectoryCache := { erased with
      serverList := erased.serverList.filter fun s => !(s.id == se.id && s.cacheList.isEmpty) }
    have hdrop : dropped.Linked P ∧ dropped.allEntries = erased.allEntries :=
      hlinked.dropServers (fun s => !(s.id == se.id && s.cacheList.isEmpty)) hempty rfl rfl rfl
    refine ⟨hdrop.1, ?_⟩
    have hdropped : dropped.sizes = c.sizes - e.listing.size := by
      rw [sizes, hdrop.2]
      exact hsizes.trans (by simp)
    have htotal : dropped.totalFileCount = c.totalFileCount - e.listing.size := rfl
    change dropped.totalFileCount - dropped.sizes = c.totalFileCount - c.sizes
    rw [hdropped, htotal]
    ring

omit h

/-- By induction on the number of rounds. -/
theorem pruneLoop (n : Nat) (h : c.Linked P) :
    (pruneLoop n c).Linked P ∧ (pruneLoop n c).excess = c.excess := by
  induction n generalizing c with
  | zero => exact ⟨h, rfl⟩
  | succ n ih =>
    rw [pruneLoop]
    split_ifs with hfull
    · obtain ⟨hlinked, hexcess⟩ := h.evictFront
      rw [← hexcess]
      exact ih hlinked
    · exact ⟨h, rfl⟩

end Linked

/-- The first node goes. -/
theorem evictFront_lru (c : CDirectoryCache) :
    c.evictFront.leastRecentlyUsedList = c.leastRecentlyUsedList.tail := by
  unfold evictFront
  split
  · next hnil => rw [hnil, tail_nil]
  · next hcons => rw [hcons, tail_cons]

/-- The loop of `Prune` runs until its condition fails. -/
theorem overfull_prune (c : CDirectoryCache) : c.prune.overfull = false := by
  have hloop : ∀ (n : Nat) (c : CDirectoryCache), c.leastRecentlyUsedList.length ≤ n →
      (pruneLoop n c).overfull = false := by
    intro n
    induction n with
    | zero =>
      intro c hlength
      rw [pruneLoop]
      simp only [overfull, Bool.or_eq_false_iff, Bool.and_eq_false_iff, decide_eq_false_iff_not]
      omega
    | succ n ih =>
      intro c hlength
      rw [pruneLoop]
      split_ifs with hfull
      · refine ih _ ?_
        rw [evictFront_lru, length_tail]
        omega
      · simpa using hfull
  exact hloop _ c (Nat.le_refl _)

end CDirectoryCache

end

end FlintZilla
