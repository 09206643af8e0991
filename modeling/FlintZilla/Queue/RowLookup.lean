import FlintZilla.Lib.Blocks
import FlintZilla.Queue.Offspring

/-!
# Looking up rows

`CServerItem::GetChild` finds a row through a cache that it extends while it searches. The rows are
blocks, one for each child, and the cache is a table of the positions of the first blocks
(`Lib.Blocks`). `Cached` is what the cache keeps between two calls: it covers whole blocks, and it
has room for all rows once an entry was written.

`GetItemIndex` goes the other way. It finds the row of every file item, and never that of a status
item, because a status item does not know its parent.

Main results:

* `getChild_spec`: `GetChild` finds the row, and leaves the cache as it should be.
* `Indexed.step`, `indexed_run`: the cache is right in every reachable state.
* `serverItem_rows`: `GetChild` and `GetItemIndex` agree with the rows.
-/

namespace FlintZilla

open Lib CQueueItem CServerItem List Nat Option
open Lib.Blocks (start At Table)

/-- `GetChild` of a file item is a lookup in its children. -/
theorem FileObject.getChild_eq (o : FileObject) (item : Nat) :
    o.getChild item = o.children.live[item]?.map .status := by
  unfold FileObject.getChild
  induction o.children.live generalizing item with
  | nil => rfl
  | cons p ps ih =>
    cases item with
    | zero => rfl
    | succ item =>
      rw [CQueueItem.getChild, ih]
      rfl

namespace CServerItem

variable {s t : CServerItem} {x : ItemPtr} {n : Nat} {item : UInt32}

/-! ## Rows -/

/-- The rows of a child. -/
def block (heap : ItemPtr → FileObject) (x : ItemPtr) : List ItemRef :=
  .file x :: (heap x).children.live.map .status

def blocks (s : CServerItem) : List (List ItemRef) := s.live.map (block s.heap)

theorem preorder_eq (s : CServerItem) : s.preorder = s.blocks.flatten := rfl

theorem length_blocks (s : CServerItem) : s.blocks.length = s.live.length := length_map _

theorem block_ne_nil (heap : ItemPtr → FileObject) (x : ItemPtr) : block heap x ≠ [] :=
  cons_ne_nil _ _

theorem length_block (s : CServerItem) (x : ItemPtr) : (block s.heap x).length = s.count x + 1 := by
  rw [block, length_cons, length_map, count_eq]

theorem blocks_getElem? (h : s.live[n]? = some x) : s.blocks[n]? = some (block s.heap x) := by
  rw [blocks, getElem?_map, h]
  rfl

/-- What `GetChild` returns once it has the child: the child, or a row below it. -/
theorem block_getElem? (heap : ItemPtr → FileObject) (x : ItemPtr) (r : Nat) :
    (block heap x)[r]? = if r = 0 then some (.file x) else (heap x).getChild (r - 1) := by
  cases r with
  | zero => rfl
  | succ r =>
    rw [FileObject.getChild_eq, block, getElem?_cons_succ, getElem?_map]
    rfl

variable {m : Nat}

/-- A row, found through its child. -/
theorem preorder_getElem? {k : Nat} (hat : At s.blocks k m) (hx : s.live[m]? = some x) :
    s.preorder[k]? = if k - start s.blocks m = 0 then some (.file x)
      else (s.heap x).getChild (k - start s.blocks m - 1) := by
  rw [preorder_eq, hat.getElem?_flatten (blocks_getElem? hx), block_getElem?]

/-! ## The cache -/

/-- The cache knows the rows of the first `n` children. -/
structure Cached (s : CServerItem) (n : Nat) : Prop where
  le : n ≤ s.live.length
  max : s.maxCachedIndex + 1 = start s.blocks n
  room : n ≠ 0 → s.preorder.length ≤ s.lookupCache.length
  table : Table CacheItem.mk s.blocks n s.lookupCache

/-- An empty cache. -/
theorem cached_zero (h : s.maxCachedIndex = -1) : Cached s 0 where
  le := zero_le _
  max := by rw [h]; rfl
  room := fun h0 => absurd rfl h0
  table := Table.zero _ _ _

/-- A child starts behind the rows of the children before it, and each has at least one. -/
theorem start_pos (hn : n < s.live.length) : start s.blocks n < start s.blocks (n + 1) := by
  have hb := blocks_getElem? (getElem?_eq_getElem hn)
  rw [Blocks.start_succ hb, length_block]
  omega

/-- The cache is empty if it covers no block. -/
theorem Cached.eq_zero_iff (h : Cached s n) : s.maxCachedIndex = -1 ↔ n = 0 := by
  have hmax := h.max
  constructor
  · intro hnone
    by_contra hne
    obtain ⟨m, rfl⟩ := exists_eq_succ_of_ne_zero hne
    have hle := h.le
    have hpos := start_pos (s := s) (n := m) (by omega)
    rw [succ_eq_add_one] at hmax
    omega
  · rintro rfl
    rw [Blocks.start_zero] at hmax
    omega

/-- The entries of one block. -/
theorem fillCache_spec (e : CacheItem) (k m : Nat) (cache : List CacheItem)
    (h : k + m ≤ cache.length) :
    ∃ cache', fillCache e k m cache = some cache' ∧ cache'.length = cache.length ∧
      (∀ j < k, cache'[j]? = cache[j]?) ∧ ∀ j, k ≤ j → j < k + m → cache'[j]? = some e := by
  induction m generalizing k cache with
  | zero => exact ⟨cache, rfl, rfl, fun _ _ => rfl, fun j hj hlt => by omega⟩
  | succ m ih =>
    obtain ⟨cache', hfill, hlen, hbefore, hinside⟩ :=
      ih (k + 1) (cache.set k e) (by rw [length_set]; omega)
    rw [length_set] at hlen
    refine ⟨cache', ?_, hlen, ?_, ?_⟩
    · rw [fillCache, if_pos (by omega), hfill]
    · intro j hj
      rw [hbefore j (by omega), getElem?_set_ne (by omega)]
    · intro j hj hlt
      rcases eq_or_lt_of_le hj with rfl | hj
      · rw [hbefore k (by omega), getElem?_set_self (by omega)]
      · exact hinside j hj (by omega)

/-- The cache has room for all rows when the loop writes to it, and no entry is lost. -/
theorem resizedCache_spec (hc : Counted s) (h : Cached s n) :
    s.preorder.length ≤ s.resizedCache.length ∧
      ∀ k < start s.blocks n, s.resizedCache[k]? = s.lookupCache[k]? := by
  have hrows : s.visibleOffspring.toNat = s.preorder.length := by
    rw [hc.visible, length_preorder, Int.toNat_natCast]
  unfold resizedCache
  rw [hrows]
  by_cases hn : n = 0
  · have hnone := h.eq_zero_iff.mpr hn
    subst hn
    refine ⟨?_, fun k hk => absurd hk (not_lt_zero k)⟩
    split_ifs with hsmall
    · rw [length_append, length_replicate]
      omega
    · rw [not_and, not_lt] at hsmall
      exact hsmall hnone
  · have hsome : s.maxCachedIndex ≠ -1 := fun hnone => hn (h.eq_zero_iff.mp hnone)
    rw [if_neg fun hsmall => hsome hsmall.1]
    exact ⟨h.room hn, fun _ _ => rfl⟩

/-- The assignments for the next child. -/
theorem Cached.extend (hc : Counted s) (h : Cached s n) (hx : s.live[n]? = some x) :
    ∃ cache, fillCache ⟨start s.blocks n, n⟩ (start s.blocks n) (s.count x + 1) s.resizedCache =
        some cache ∧
      Cached { s with
        lookupCache := cache
        maxCachedIndex := (start s.blocks n : Nat) + (s.count x : Nat) } (n + 1) := by
  have hlt : n < s.live.length := (List.getElem?_eq_some_iff.mp hx).1
  have hnext : start s.blocks (n + 1) = start s.blocks n + (s.count x + 1) := by
    rw [Blocks.start_succ (blocks_getElem? hx), length_block]
  have hlast : start s.blocks (n + 1) ≤ s.preorder.length := by
    rw [preorder_eq, ← Blocks.start_length]
    exact Blocks.start_mono _ (by rw [length_blocks]; omega)
  -- the cache is resized first, which keeps the rows it has
  obtain ⟨hroom, hkept⟩ := resizedCache_spec hc h
  obtain ⟨cache, hfill, hlen, hbefore, hinside⟩ :=
    fillCache_spec ⟨start s.blocks n, n⟩ (start s.blocks n) (s.count x + 1) s.resizedCache
      (by omega)
  refine ⟨cache, hfill, hlt, ?_, ?_, ?_⟩
  · show ((start s.blocks n : Nat) : Int) + (s.count x : Nat) + 1 = (start s.blocks (n + 1) : Nat)
    omega
  · intro _
    show s.preorder.length ≤ cache.length
    omega
  · show Table CacheItem.mk s.blocks (n + 1) cache
    refine h.table.extend ?_ ?_
    · intro k hk
      rw [hbefore k hk, hkept k hk]
    · intro k hat
      have hupper := hat.upper
      exact hinside k hat.lower (by omega)

/-- A lookup changes nothing but the cache. -/
structure Recached (s t : CServerItem) : Prop where
  heap : t.heap = s.heap
  children : t.children = s.children
  fileList : t.fileList = s.fileList
  visibleOffspring : t.visibleOffspring = s.visibleOffspring

theorem Recached.refl (s : CServerItem) : Recached s s := ⟨rfl, rfl, rfl, rfl⟩

theorem Recached.live (h : Recached s t) : t.live = s.live := by
  unfold CServerItem.live
  rw [h.children]

theorem Recached.counted (h : Recached s t) (hc : Counted s) : Counted t where
  nodup := by
    rw [h.live]
    exact hc.nodup
  visible := by rw [h.visibleOffspring, h.heap, h.live, hc.visible]

/-- The loop, started behind the children that are cached, finds the row and extends the cache by
the children it passes. -/
theorem getChildLoop_spec (xs : List ItemPtr) (item : Nat) (hc : Counted s) (h : Cached s n)
    (hxs : s.live.drop n = xs) :
    ∃ t m, getChildLoop xs item n (start s.blocks n) s =
        some (s.preorder[start s.blocks n + item]?, t) ∧ Recached s t ∧ Cached t m := by
  induction xs generalizing s n item with
  | nil =>
    have hn : n = s.live.length := Nat.le_antisymm h.le (drop_eq_nil_iff.mp hxs)
    have hend : s.preorder[start s.blocks n + item]? = none := by
      rw [getElem?_eq_none_iff, preorder_eq, ← Blocks.start_length, length_blocks, ← hn]
      exact Nat.le_add_right _ _
    rw [hend]
    exact ⟨s, n, rfl, Recached.refl s, h⟩
  | cons x xs ih =>
    have hlt : n < s.live.length := by
      by_contra hge
      rw [drop_of_length_le (Nat.le_of_not_lt hge)] at hxs
      cases hxs
    rw [drop_eq_getElem_cons hlt] at hxs
    obtain ⟨hhead, hrest⟩ := cons.inj hxs
    have hx : s.live[n]? = some x := by rw [getElem?_eq_getElem hlt, hhead]
    have hnext : start s.blocks (n + 1) = start s.blocks n + (s.count x + 1) := by
      rw [Blocks.start_succ (blocks_getElem? hx), length_block]
    by_cases hpast : s.count x < item
    · -- the rows of this child are before the row: write its entries and go on
      obtain ⟨cache, hfill, hcached⟩ := h.extend hc hx
      obtain ⟨t, m, hloop, hsame, hm⟩ :=
        ih (item - (s.count x + 1)) (s := { s with
          lookupCache := cache
          maxCachedIndex := (start s.blocks n : Nat) + (s.count x : Nat) })
          ⟨hc.nodup, hc.visible⟩ hcached hrest
      refine ⟨t, m, ?_, { hsame with }, hm⟩
      have hrow : start s.blocks n + item =
          start s.blocks (n + 1) + (item - (s.count x + 1)) := by omega
      rw [getChildLoop, if_neg (by omega), if_pos hpast, hfill, hrow]
      refine Eq.trans ?_ hloop
      show getChildLoop xs _ (n + 1) (start s.blocks n + s.count x + 1) _ =
        getChildLoop xs _ (n + 1) (start s.blocks (n + 1)) _
      rw [hnext]
      rfl
    · -- the row is one of this child's
      have hat : At s.blocks (start s.blocks n + item) n :=
        ⟨Nat.le_add_right _ _, by rw [hnext]; omega⟩
      refine ⟨s, n, ?_, Recached.refl s, h⟩
      rw [preorder_getElem? hat hx, Nat.add_sub_cancel_left, getChildLoop]
      by_cases hzero : item = 0
      · rw [if_pos hzero, if_pos hzero]
      · rw [if_neg hzero, if_neg hzero, if_neg hpast]

/-! ## `GetChild` -/

/-- `(int)item`. -/
theorem toInt_item (item : UInt32) :
    item.toInt32.toInt =
      if item.toNat < 2 ^ 31 then (item.toNat : Int) else item.toNat - 2 ^ 32 := by
  show item.toBitVec.toInt = _
  rw [BitVec.toInt_eq_toNat_cond]
  have hsame : item.toBitVec.toNat = item.toNat := rfl
  split_ifs <;> omega

/-- The row is in the cache, or the search goes on from where the cache ends. -/
theorem getChild_spec (hc : Counted s) (h : Cached s n) (hitem : item.toNat < 2 ^ 31) :
    ∃ t m, s.getChild item = some (s.preorder[item.toNat]?, t) ∧ Recached s t ∧ Cached t m := by
  have hmax := h.max
  unfold getChild
  rw [toInt_item, if_pos hitem]
  by_cases hhit : (item.toNat : Int) ≤ s.maxCachedIndex
  · -- the row is cached
    rw [if_pos hhit]
    obtain ⟨m, hat, hentry⟩ := h.table item.toNat (by omega)
    have hm : m < s.live.length := by
      rw [← length_blocks]
      exact hat.lt_length
    have hx : s.live[m]? = some s.live[m] := getElem?_eq_getElem hm
    refine ⟨s, n, ?_, Recached.refl s, h⟩
    rw [hentry, preorder_getElem? hat hx]
    simp only [Option.bind_eq_bind, Option.bind_some, hx]
    split_ifs <;> rfl
  · rw [if_neg hhit]
    by_cases hnone : s.maxCachedIndex = -1
    · -- nothing is cached
      rw [if_pos hnone]
      have hn := h.eq_zero_iff.mp hnone
      subst hn
      have hloop := getChildLoop_spec s.live item.toNat hc h rfl
      rwa [Blocks.start_zero, Nat.zero_add] at hloop
    · -- the last entry of the cache is for the child before the first one that is not cached
      rw [if_neg hnone]
      have hn : n ≠ 0 := fun hn => hnone (h.eq_zero_iff.mpr hn)
      obtain ⟨m, rfl⟩ := Nat.exists_eq_succ_of_ne_zero hn
      have hle := h.le
      have hx : s.live[m]? = some s.live[m] := getElem?_eq_getElem (by omega)
      obtain ⟨m', hat, hentry⟩ := h.table s.maxCachedIndex.toNat (by omega)
      have hlast : m' = m :=
        hat.pred (by rw [Nat.succ_eq_add_one] at hmax; omega) (blocks_getElem? hx)
          (block_ne_nil _ _)
      subst hlast
      have hindex : s.maxCachedIndex.toNat + 1 = start s.blocks (m' + 1) := by
        rw [Nat.succ_eq_add_one] at hmax
        omega
      have hloop := getChildLoop_spec (s.live.drop (m' + 1)) (item.toNat - start s.blocks (m' + 1))
        hc h rfl
      rw [Nat.succ_eq_add_one, Nat.add_sub_cancel' (by omega)] at hloop
      simp only [hentry, Option.bind_eq_bind, Option.bind_some, hindex]
      exact hloop

/-- A row number that is negative as an `int` passes for a cached one. -/
theorem getChild_negative (h : Cached s n) (hitem : 2 ^ 31 ≤ item.toNat) {r : Option ItemRef}
    (hget : s.getChild item = some (r, t)) : t = s := by
  have hmax := h.max
  have hlt := item.toNat_lt
  have hhit : item.toInt32.toInt ≤ s.maxCachedIndex := by
    rw [toInt_item]
    omega
  unfold getChild at hget
  rw [if_pos hhit] at hget
  simp only [bind_eq_bind, bind_eq_some_iff] at hget
  obtain ⟨cached, -, x, -, hret⟩ := hget
  split_ifs at hret
  · cases hret
    rfl
  · cases hret
    rfl

/-! ## Runs -/

/-- The number of rows and the cache are right. -/
def Indexed (s : CServerItem) : Prop := Counted s ∧ ∃ n, Cached s n

/-- A call that leaves the rows alone leaves the cache right. -/
theorem Cached.sameRows (h : Cached s n) (hsame : SameRows s t) : Cached t n := by
  have hblocks : t.blocks = s.blocks := by
    unfold blocks
    rw [hsame.live]
    refine map_congr_left ?_
    intro x _
    rw [block, block, hsame.items x]
  constructor
  · rw [hsame.live]
    exact h.le
  · rw [hsame.maxCachedIndex, hblocks]
    exact h.max
  · rw [preorder_eq, hblocks, hsame.lookupCache]
    exact h.room
  · rw [hblocks, hsame.lookupCache]
    exact h.table

variable {translate : WString → WString}

/-- Each call. -/
theorem Indexed.step {e : ServerItemCall} (h : Indexed s)
    (hstep : s.step translate e = some t) : Indexed t := by
  obtain ⟨hc, n, hn⟩ := h
  by_cases he : ∃ item, e = .getChild item
  · obtain ⟨item, rfl⟩ := he
    obtain ⟨⟨r, t'⟩, hget, rfl⟩ := Option.map_eq_some_iff.mp hstep
    by_cases hitem : item.toNat < 2 ^ 31
    · obtain ⟨u, m, hspec, hsame, hm⟩ := getChild_spec hc hn hitem
      rw [hspec] at hget
      cases hget
      exact ⟨hsame.counted hc, m, hm⟩
    · rw [getChild_negative hn (Nat.le_of_not_lt hitem) hget]
      exact ⟨hc, n, hn⟩
  · obtain ⟨hcounted, hrows⟩ := rows_step hc hstep fun item heq => he ⟨item, heq⟩
    rcases hrows with hsame | hempty
    · exact ⟨hcounted, n, hn.sameRows hsame⟩
    · exact ⟨hcounted, 0, cached_zero hempty⟩

theorem indexed_new (heap : ItemPtr → FileObject) : Indexed (new heap) :=
  ⟨⟨nodup_nil, rfl⟩, 0, cached_zero rfl⟩

theorem indexed_run {heap : ItemPtr → FileObject} {calls : List ServerItemCall}
    (h : (serverItemSystem translate).Run (new heap) calls s) : Indexed s := by
  refine h.invariant Indexed ?_ (indexed_new heap)
  intro u e v hstep hu
  exact hu.step hstep

/-! ## `GetItemIndex` -/

/-- The loop over the siblings adds up the rows before the child. -/
theorem indexAmong_eq (s : CServerItem) (xs : List ItemPtr) (m index : Nat)
    (hx : xs[m]? = some x) (hfirst : x ∉ xs.take m) :
    indexAmong s.count x xs index = index + start (xs.map (block s.heap)) m := by
  induction xs generalizing m index with
  | nil => cases hx
  | cons y ys ih =>
    cases m with
    | zero =>
      cases hx
      rw [indexAmong, if_pos rfl]
      rfl
    | succ m =>
      rw [take_succ_cons, mem_cons, not_or] at hfirst
      rw [indexAmong, if_neg (Ne.symm hfirst.1), ih m _ hx hfirst.2, map_cons,
        Blocks.start_cons, length_block]
      omega

/-- The rows before a file item are those of the children before it. -/
theorem getItemIndex_file (h : Counted s) (hx : s.live[m]? = some x) :
    s.getItemIndex (.file x) = start s.blocks m + 1 := by
  have hfirst : x ∉ s.live.take m := by
    intro hmem
    have hdrop : x ∈ s.live.drop m := by
      rw [drop_eq_getElem?_toList_append, hx]
      exact mem_cons_self
    exact disjoint_take_drop h.nodup (le_refl m) hmem hdrop
  show indexAmong s.count x s.live 1 + 0 = _
  rw [indexAmong_eq s s.live m 1 hx hfirst]
  show 1 + start s.blocks m + 0 = _
  omega

/-- The row of a file item is the first of its block. -/
theorem preorder_file {i : Nat} (h : s.preorder[i]? = some (.file x)) :
    ∃ m, s.live[m]? = some x ∧ i = start s.blocks m := by
  have hlt : i < s.blocks.flatten.length := (List.getElem?_eq_some_iff.mp h).1
  obtain ⟨m, hat⟩ := Blocks.exists_at hlt
  have hm : m < s.live.length := by
    rw [← length_blocks]
    exact hat.lt_length
  have hx : s.live[m]? = some s.live[m] := List.getElem?_eq_getElem hm
  rw [preorder_getElem? hat hx, FileObject.getChild_eq] at h
  have hlower := hat.lower
  split_ifs at h with hfirst
  · cases h
    exact ⟨m, hx, by omega⟩
  · obtain ⟨p, -, hp⟩ := map_eq_some_iff.mp h
    cases hp

end CServerItem

/-- In every state that a server item can be in: `GetChild` returns the row with the given number,
and null behind the last row, for every number that an `int` can hold; and `GetItemIndex`, which
counts the server item as row 0, is its inverse on the rows that are not status items. -/
theorem serverItem_rows (translate : WString → WString) {heap : ItemPtr → FileObject}
    {calls : List ServerItemCall} {s : CServerItem}
    (h : (serverItemSystem translate).Run (CServerItem.new heap) calls s) :
    (∀ i : UInt32, i.toNat < 2 ^ 31 → ∃ t, s.getChild i = some (s.preorder[i.toNat]?, t)) ∧
    (∀ i r, s.preorder[i]? = some r →
      (s.getItemIndex r = i + 1 ↔ ∀ p, r ≠ .status p)) ∧
    ∀ x ∈ s.live, s.preorder[s.getItemIndex (.file x) - 1]? = some (.file x) := by
  obtain ⟨hc, n, hn⟩ := CServerItem.indexed_run h
  refine ⟨?_, ?_, ?_⟩
  · intro i hi
    obtain ⟨t, -, hget, -⟩ := CServerItem.getChild_spec hc hn hi
    exact ⟨t, hget⟩
  · intro i r hr
    cases r with
    | file x =>
      obtain ⟨m, hx, rfl⟩ := CServerItem.preorder_file hr
      rw [CServerItem.getItemIndex_file hc hx]
      exact ⟨fun _ p => ItemRef.noConfusion, fun _ => rfl⟩
    | status p =>
      constructor
      · intro hzero
        cases hzero
      · intro hfile
        exact absurd rfl (hfile p)
  · intro x hx
    obtain ⟨m, hm⟩ := List.mem_iff_getElem?.mp hx
    have hat := Blocks.at_start (CServerItem.blocks_getElem? hm) (CServerItem.block_ne_nil _ _)
    rw [CServerItem.getItemIndex_file hc hm, Nat.add_sub_cancel,
      CServerItem.preorder_getElem? hat hm, Nat.sub_self, if_pos rfl]

/-- A file item that waits in the queue. -/
def waitingFile : FileObject where
  toCFileItem := CFileItem.new true true false ['a'] [] ⟨['/']⟩ ⟨.default, none⟩ 1
  active := false
  pendingRemove := false
  priority := .normal
  status := .none
  children := .empty

/-- Three files are added, the second one becomes active, a row is looked up, the first file is
removed. -/
def lookupCalls : List ServerItemCall :=
  [.addChild 1 waitingFile, .addChild 2 waitingFile, .addChild 3 waitingFile, .setActive 2 true 7,
    .getChild 3, .removeChild (some (.file 1)) true]

theorem serverItem_rows_removed : ∃ s : CServerItem,
    (serverItemSystem id).Run (CServerItem.new fun _ => waitingFile) lookupCalls s ∧
    s.preorder = [.file 2, .status 7, .file 3] ∧
    (∃ t, s.getChild 2 = some (some (.file 3), t)) ∧ s.getItemIndex (.file 3) = 3 := by
  have hrun : (serverItemSystem id).Run (new fun _ => waitingFile) lookupCalls _ :=
    Lts.run_ofFun rfl
  obtain ⟨hget, hindex, -⟩ := serverItem_rows id hrun
  exact ⟨_, hrun, rfl, hget 2 (by decide),
    (hindex 2 (.file 3) rfl).mpr fun _ => ItemRef.noConfusion⟩

/-- The status item of an active file is in row 1, below row 0, but its index is 0 and not 2; and
`GetChild` reads outside the cache for a row number from `2 ^ 31` on. -/
theorem serverItem_rows_orphan : ∃ s : CServerItem,
    (serverItemSystem id).Run (CServerItem.new fun _ => waitingFile)
      [.addChild 1 waitingFile, .setActive 1 true 7] s ∧
    (∃ t, s.getChild 1 = some (some (.status 7), t)) ∧
    s.getItemIndex (.status 7) = 0 ∧
    s.preorder[2147483648]? = none ∧ s.getChild 2147483648 = none := by
  exact ⟨_, Lts.run_ofFun rfl, ⟨_, rfl⟩, rfl, rfl, rfl⟩

end FlintZilla
