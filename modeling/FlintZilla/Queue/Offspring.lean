import FlintZilla.Queue.ServerItem

/-!
# What the calls do to the rows

`CServerItem` keeps the number of its rows in `m_visibleOffspring`, and each function updates it for
itself. Here every call is described once: which children there are afterwards, which of their
objects have changed, and that the number is right (`Counted`). `RemoveChild` has the most cases,
and `Removed` lists them.

A call that does not touch the rows leaves the lookup cache alone (`SameRows`), and every other one
empties it: `rows_step`.

Main results:

* `removeChild_cases`: everything that `RemoveChild` may do.
* `Counted.removed`, `Counted.setActive`, `Counted.tryRemoveAll`, `Counted.sort`: the number stays
  right.
* `rows_step`: so it does in each call, and the cache is emptied where it has to be.
-/

namespace FlintZilla

open Lib CQueueItem FileObject List Option Function FrontVector

/-! ## File items -/

namespace FileObject

variable {o o' : FileObject}

theorem getChildrenCount_eq (o : FileObject) : o.getChildrenCount = o.children.live.length := by
  unfold getChildrenCount CQueueItem.getChildrenCount
  simp

end FileObject

namespace CQueueItem

variable {f : ItemPtr → Option Removal} {forward : Bool} {xs : List ItemPtr} {x : ItemPtr}

/-- The search ends at a child that can remove the item. -/
theorem findRemoval_some {i : Nat} {r : Removal}
    (h : findRemoval f forward xs = some (i, x, r)) : xs[i]? = some x ∧ f x = some r := by
  obtain ⟨⟨y, j⟩, hmem, hy⟩ := exists_of_findSome?_eq_some h
  have hget : xs[j]? = some y := by
    apply mk_mem_zipIdx_iff_getElem?.mp
    cases forward
    · simpa using hmem
    · simpa using hmem
  rcases map_eq_some_iff.mp hy with ⟨r', hr', heq⟩
  cases heq
  exact ⟨hget, hr'⟩

theorem findRemoval_none (h : findRemoval f forward xs = none) (hx : x ∈ xs) : f x = none := by
  obtain ⟨i, hi⟩ := mem_iff_getElem?.mp hx
  have hmem := mk_mem_zipIdx_iff_getElem?.mpr hi
  have hall := findSome?_eq_none_iff.mp h (x, i) (by cases forward <;> simpa using hmem)
  exact map_eq_none_iff.mp hall

end CQueueItem

/-- A file item loses a status item or nothing. -/
theorem FileObject.removeChild_spec {o o' : FileObject} {pItem : Option ItemRef}
    {visibleOffspring : Int} (h : o.removeChild pItem = some (o', visibleOffspring)) :
    ∃ p children, pItem = some (.status p) ∧ p ∈ o.children.live ∧
      o' = { o with children := children } ∧
      children.live.length + 1 = o.children.live.length ∧
      visibleOffspring = children.live.length := by
  obtain ⟨⟨i, p, r⟩, hfind, heq⟩ := map_eq_some_iff.mp h
  obtain ⟨hget, hr⟩ := findRemoval_some hfind
  have hlt : i < o.children.live.length := (List.getElem?_eq_some_iff.mp hget).1
  have hlen : ((o.children.removeAt 10 i).live.length) + 1 = o.children.live.length := by
    rw [live_removeAt, List.length_eraseIdx_of_lt hlt]
    omega
  unfold doRemove at hr
  split_ifs at hr with hp
  cases hr
  cases heq
  refine ⟨p, o.children.removeAt 10 i, hp.symm, List.mem_of_getElem? hget, rfl, hlen, ?_⟩
  rw [getChildrenCount_eq]
  push_cast
  omega

/-! ## Counting rows -/

namespace CServerItem

variable {s t u : CServerItem} {x y : ItemPtr} {i : Nat}

/-- The number of rows of the items `xs`. -/
def offspring (heap : ItemPtr → FileObject) (xs : List ItemPtr) : Nat :=
  (xs.map fun x => 1 + (heap x).children.live.length).sum

/-- The children are different objects, and their rows are counted right. -/
structure Counted (s : CServerItem) : Prop where
  nodup : s.live.Nodup
  visible : s.visibleOffspring = offspring s.heap s.live

/-- The rows are the children with their own. -/
theorem length_preorder (s : CServerItem) : s.preorder.length = offspring s.heap s.live := by
  unfold preorder
  rw [length_flatMap]
  refine congrArg sum (map_congr_left ?_)
  intro x _
  rw [length_cons, length_map, Nat.add_comm]

variable {heap heap' : ItemPtr → FileObject} {xs ys : List ItemPtr}

theorem offspring_congr (h : ∀ x ∈ xs, (heap' x).children = (heap x).children) :
    offspring heap' xs = offspring heap xs := by
  refine congrArg sum (map_congr_left ?_)
  intro x hx
  rw [h x hx]

theorem not_mem_eraseIdx (hnodup : xs.Nodup) (h : xs[i]? = some x) : x ∉ xs.eraseIdx i := by
  obtain ⟨hlt, rfl⟩ := List.getElem?_eq_some_iff.mp h
  have hperm := (List.getElem_cons_eraseIdx_perm hlt).nodup_iff.mpr hnodup
  exact (List.nodup_cons.mp hperm).1

/-- Items other than `x` do not see a write to it. -/
theorem offspring_update_of_not_mem (o : FileObject) (h : x ∉ xs) :
    offspring (update heap x o) xs = offspring heap xs := by
  apply offspring_congr
  intro y hy
  rw [update_of_ne (by rintro rfl; exact h hy)]

variable (heap)

theorem offspring_perm (h : xs.Perm ys) : offspring heap xs = offspring heap ys := (h.map _).sum_eq

theorem offspring_append (xs ys : List ItemPtr) :
    offspring heap (xs ++ ys) = offspring heap xs + offspring heap ys := by
  unfold offspring
  rw [map_append, sum_append]

theorem offspring_singleton (x : ItemPtr) :
    offspring heap [x] = 1 + (heap x).children.live.length := by
  simp [offspring]

/-- An item and the others. -/
theorem offspring_eraseIdx (h : xs[i]? = some x) :
    offspring heap xs = 1 + (heap x).children.live.length + offspring heap (xs.eraseIdx i) := by
  obtain ⟨hlt, rfl⟩ := List.getElem?_eq_some_iff.mp h
  rw [← offspring_perm heap (List.getElem_cons_eraseIdx_perm hlt)]
  simp [offspring]

/-- An item whose own children change. -/
theorem offspring_update (hnodup : xs.Nodup) (h : xs[i]? = some x) (o : FileObject) :
    offspring (update heap x o) xs + (heap x).children.live.length =
      offspring heap xs + o.children.live.length := by
  rw [offspring_eraseIdx _ h, offspring_eraseIdx heap h, update_self,
    offspring_update_of_not_mem o (not_mem_eraseIdx hnodup h)]
  omega

/-- A write to a child, with the number of rows corrected by what the child has gained or lost. -/
theorem Counted.write (h : Counted s) (hx : x ∈ s.live) (f : FileObject → FileObject)
    {visibleOffspring maxCachedIndex : Int}
    (hrows : visibleOffspring = s.visibleOffspring +
      ((f (s.heap x)).children.live.length - (s.heap x).children.live.length)) :
    Counted { s.modify x f with
      visibleOffspring := visibleOffspring
      maxCachedIndex := maxCachedIndex } := by
  refine ⟨h.nodup, ?_⟩
  obtain ⟨i, hi⟩ := mem_iff_getElem?.mp hx
  have hupdate := offspring_update s.heap h.nodup hi (f (s.heap x))
  show visibleOffspring = offspring (update s.heap x (f (s.heap x))) s.live
  rw [hrows, h.visible]
  omega

variable {heap}

theorem count_eq (s : CServerItem) (x : ItemPtr) : s.count x = (s.heap x).children.live.length :=
  (s.heap x).getChildrenCount_eq

@[simp] theorem heap_modify_self (s : CServerItem) (x : ItemPtr) (f : FileObject → FileObject) :
    (s.modify x f).heap x = f (s.heap x) := update_self ..

theorem heap_modify_of_ne (s : CServerItem) (f : FileObject → FileObject) (h : y ≠ x) :
    (s.modify x f).heap y = s.heap y := update_of_ne h ..

/-! ## Calls that leave the rows alone -/

/-- Nothing has changed that a row or its lookup depends on. -/
structure SameRows (s t : CServerItem) : Prop where
  children : t.children = s.children
  items : ∀ x, (t.heap x).children = (s.heap x).children
  visibleOffspring : t.visibleOffspring = s.visibleOffspring
  maxCachedIndex : t.maxCachedIndex = s.maxCachedIndex
  lookupCache : t.lookupCache = s.lookupCache

theorem SameRows.refl (s : CServerItem) : SameRows s s := ⟨rfl, fun _ => rfl, rfl, rfl, rfl⟩

theorem SameRows.trans (h : SameRows s t) (h' : SameRows t u) : SameRows s u where
  children := h'.children.trans h.children
  items x := (h'.items x).trans (h.items x)
  visibleOffspring := h'.visibleOffspring.trans h.visibleOffspring
  maxCachedIndex := h'.maxCachedIndex.trans h.maxCachedIndex
  lookupCache := h'.lookupCache.trans h.lookupCache

theorem SameRows.live (h : SameRows s t) : t.live = s.live := by
  unfold CServerItem.live
  rw [h.children]

theorem SameRows.fileList (s : CServerItem) (fileList : Bool → QueuePriority → List ItemPtr) :
    SameRows s { s with fileList := fileList } :=
  ⟨rfl, fun _ => rfl, rfl, rfl, rfl⟩

/-- A child that keeps its own children keeps its rows. -/
theorem SameRows.modify (s : CServerItem) (x : ItemPtr) (f : FileObject → FileObject)
    (hf : ∀ o, (f o).children = o.children) : SameRows s (s.modify x f) where
  children := rfl
  items y := by
    by_cases hy : y = x
    · subst hy
      rw [heap_modify_self, hf]
    · rw [heap_modify_of_ne _ _ hy]
  visibleOffspring := rfl
  maxCachedIndex := rfl
  lookupCache := rfl

theorem SameRows.foldl {α : Type} {f : CServerItem → α → CServerItem}
    (hf : ∀ s a, SameRows s (f s a)) (as : List α) (s : CServerItem) :
    SameRows s (as.foldl f s) := by
  induction as generalizing s with
  | nil => exact .refl s
  | cons a as ih => exact (hf s a).trans (ih (f s a))

/-- The number is right if the rows are the same. -/
theorem SameRows.counted (h : SameRows s t) (hs : Counted s) : Counted t where
  nodup := by
    rw [h.live]
    exact hs.nodup
  visible := by rw [h.visibleOffspring, h.live, hs.visible, offspring_congr fun x _ => h.items x]

variable (s x)

theorem sameRows_setChildPriority (oldPriority newPriority : QueuePriority) :
    SameRows s (s.setChildPriority x oldPriority newPriority) := by
  unfold setChildPriority
  dsimp only
  split_ifs
  · exact .fileList s _
  · exact .refl s

theorem sameRows_setItemPriority (priority : QueuePriority) :
    SameRows s (s.setItemPriority x priority) := by
  unfold setItemPriority
  split_ifs
  · exact .refl s
  · exact (sameRows_setChildPriority s x _ _).trans (SameRows.modify _ x _ fun _ => rfl)

/-- Priorities move items between the lists, not between the rows. -/
theorem sameRows_setPriority (priority : QueuePriority) : SameRows s (s.setPriority priority) := by
  refine SameRows.trans (SameRows.foldl ?_ s.live s) (SameRows.fileList _ _)
  intro s x
  unfold setPriorityStep
  split_ifs
  · exact sameRows_setItemPriority s x priority
  · exact .modify s x _ fun _ => rfl

theorem sameRows_queueImmediateStep (i : QueuePriority) (x : ItemPtr)
    (acc : CServerItem × List ItemPtr) : SameRows acc.1 (queueImmediateStep i x acc).1 := by
  unfold queueImmediateStep
  dsimp only
  split_ifs
  · exact .refl _
  · exact SameRows.trans (SameRows.modify acc.1 x setQueued fun _ => rfl) (SameRows.fileList _ _)

theorem sameRows_queueImmediateAt (i : QueuePriority) : SameRows s (s.queueImmediateAt i) := by
  refine SameRows.trans ?_ (SameRows.fileList _ _)
  induction s.fileList false i with
  | nil => exact .refl s
  | cons x xs ih => exact ih.trans (sameRows_queueImmediateStep i x _)

theorem sameRows_queueImmediateFile : SameRows s (s.queueImmediateFile x) := by
  unfold queueImmediateFile
  dsimp only
  split_ifs
  · exact .refl s
  · exact (SameRows.modify s x setQueued fun _ => rfl).trans (SameRows.fileList _ _)
  · exact .refl s

theorem sameRows_addFileItemToList : SameRows s (s.addFileItemToList x) := .fileList s _

theorem sameRows_removeFileItemFromList (forward : Bool) :
    SameRows s (s.removeFileItemFromList x forward) := .fileList s _

variable {s x}

/-! ## Calls that change the rows -/

/-- A new child brings its own rows. -/
theorem Counted.addChild (h : Counted s) (hx : x ∉ s.live) (o : FileObject) :
    Counted (s.addChild x o) := by
  refine (sameRows_addFileItemToList _ x).counted ⟨?_, ?_⟩
  · show (s.live ++ [x]).Nodup
    rw [← concat_eq_append]
    exact h.nodup.concat hx
  · show s.visibleOffspring + (1 + o.getChildrenCount) =
      offspring (update s.heap x o) (s.live ++ [x])
    rw [offspring_append, offspring_singleton, update_self,
      offspring_update_of_not_mem o hx, h.visible, o.getChildrenCount_eq]
    rfl

/-- What `RemoveChild` may do: nothing (`nothing`, and `missed` after a search in the lists), take
out a child, take a status item from a file item that has others (`below`), or take out a file item
together with its only status item (`emptied`). -/
inductive Removed (s : CServerItem) (forward : Bool) : Option ItemRef → CServerItem → Prop where
  | nothing {pItem : Option ItemRef} (h : ∀ x, pItem ≠ some (.file x)) : Removed s forward pItem s
  | missed {x : ItemPtr} (h : x ∉ s.live) :
      Removed s forward (some (.file x)) (s.removeFileItemFromList x forward)
  | child {x : ItemPtr} {i : Nat} (hi : s.live[i]? = some x) :
      Removed s forward (some (.file x))
        { s.removeFileItemFromList x forward with
          children := s.children.removeAt 10 i
          visibleOffspring := s.visibleOffspring - 1 - s.count x
          maxCachedIndex := -1 }
  | below {p y : ItemPtr} {i : Nat} {children : FrontVector ItemPtr} (hi : s.live[i]? = some y)
      (hlen : children.live.length + 1 = (s.heap y).children.live.length)
      (hne : children.live ≠ []) :
      Removed s forward (some (.status p))
        { s.modify y fun o => { o with children := children } with
          visibleOffspring := s.visibleOffspring - 1
          maxCachedIndex := -1 }
  | emptied {p y : ItemPtr} {i : Nat} {children : FrontVector ItemPtr} (hi : s.live[i]? = some y)
      (hp : (s.heap y).children.live = [p]) :
      Removed s forward (some (.status p))
        { s.modify y fun o => { o with children := children } with
          children := s.children.removeAt 10 i
          visibleOffspring := s.visibleOffspring - 2
          maxCachedIndex := -1 }

/-- A file item: found among the children, or not at all. -/
theorem removeChild_file (s : CServerItem) (x : ItemPtr) (forward : Bool) :
    Removed s forward (some (.file x)) (s.removeChild (some (.file x)) forward).2 := by
  unfold removeChild
  dsimp only
  split
  next hnone =>
    refine Removed.missed ?_
    intro hx
    have hsome := findRemoval_none hnone hx
    rw [doRemove, if_pos rfl] at hsome
    cases hsome
  next i y r hfind =>
    obtain ⟨hi, hr⟩ := findRemoval_some hfind
    unfold doRemove at hr
    split_ifs at hr with hy
    · cases hy
      cases hr
      exact Removed.child hi
    · -- a file item has no file item below it
      split at hr
      next => cases hr
      next o ho =>
        obtain ⟨⟨o', visibleOffspring⟩, hspec, -⟩ := map_eq_some_iff.mp ho
        obtain ⟨p, -, hstatus, -⟩ := removeChild_spec hspec
        cases hstatus

/-- A status item: the child that has it removes it. -/
theorem removeChild_status (s : CServerItem) (p : ItemPtr) (forward : Bool) :
    Removed s forward (some (.status p)) (s.removeChild (some (.status p)) forward).2 := by
  unfold removeChild
  dsimp only
  split
  next => exact Removed.nothing (by rintro x ⟨⟩)
  next i y r hfind =>
    obtain ⟨hi, hr⟩ := findRemoval_some hfind
    unfold doRemove at hr
    rw [if_neg (by rintro ⟨⟩)] at hr
    split at hr
    next => cases hr
    next o ho =>
      obtain ⟨⟨o', visibleOffspring⟩, hspec, rfl⟩ := map_eq_some_iff.mp ho
      obtain ⟨p', children, hp', hmem, rfl, hlen, -⟩ := removeChild_spec hspec
      cases hp'
      -- the file item has lost one row
      have hone : s.visibleOffspring - ((s.count y : Int) -
          ({ s.heap y with children := children } : FileObject).getChildrenCount) =
            s.visibleOffspring - 1 := by
        rw [count_eq, getChildrenCount_eq]
        dsimp only
        omega
      rw [hone] at hr
      split_ifs at hr with hempty
      · cases hr
        have hp : (s.heap y).children.live = [p] := by
          rw [hempty] at hlen
          obtain ⟨q, hq⟩ := length_eq_one_iff.mp hlen.symm
          rw [hq] at hmem ⊢
          rw [mem_singleton.mp hmem]
        have htwo : s.visibleOffspring - 1 - 1 = s.visibleOffspring - 2 := by omega
        rw [htwo]
        exact Removed.emptied hi hp
      · cases hr
        exact Removed.below hi hlen hempty

/-- Every call of `RemoveChild` is one of the cases. -/
theorem removeChild_cases (s : CServerItem) (pItem : Option ItemRef) (forward : Bool) :
    Removed s forward pItem (s.removeChild pItem forward).2 := by
  rcases pItem with _ | x | p
  · exact Removed.nothing (by rintro x ⟨⟩)
  · exact removeChild_file s x forward
  · exact removeChild_status s p forward

variable {forward : Bool} {pItem : Option ItemRef}

/-- Whatever was removed, its rows are subtracted. -/
theorem Counted.removed (h : Counted s) (hr : Removed s forward pItem t) : Counted t := by
  cases hr with
  | nothing => exact h
  | missed => exact (sameRows_removeFileItemFromList s _ forward).counted h
  | @child x i hi =>
    constructor
    · show (s.children.removeAt 10 i).live.Nodup
      rw [live_removeAt]
      exact h.nodup.eraseIdx i
    · show s.visibleOffspring - 1 - s.count x = offspring s.heap (s.children.removeAt 10 i).live
      have hrows := offspring_eraseIdx s.heap hi
      rw [live_removeAt, h.visible, count_eq]
      show _ = (offspring s.heap (s.live.eraseIdx i) : Int)
      omega
  | @below p y i children hi hlen =>
    refine h.write (mem_of_getElem? hi) _ ?_
    dsimp only
    omega
  | @emptied p y i children hi hp =>
    constructor
    · show (s.children.removeAt 10 i).live.Nodup
      rw [live_removeAt]
      exact h.nodup.eraseIdx i
    · show s.visibleOffspring - 2 = offspring (update s.heap y _) (s.children.removeAt 10 i).live
      have hrows := offspring_eraseIdx s.heap hi
      rw [hp, length_singleton] at hrows
      rw [live_removeAt, h.visible]
      show _ = (offspring (update s.heap y _) (s.live.eraseIdx i) : Int)
      rw [offspring_update_of_not_mem _ (not_mem_eraseIdx h.nodup hi)]
      omega

theorem Removed.rows (h : Removed s forward pItem t) : SameRows s t ∨ t.maxCachedIndex = -1 := by
  cases h with
  | nothing => exact .inl (SameRows.refl s)
  | missed => exact .inl (sameRows_removeFileItemFromList s _ forward)
  | child | below | emptied => exact .inr rfl

/-! ### `SetActive` -/

/-- An active item shows its status in a row of its own. -/
theorem Counted.setActive (h : Counted s) (hx : x ∈ s.live) (active : Bool) (status : ItemPtr) :
    Counted (s.setActive x active status) ∧
      (SameRows s (s.setActive x active status) ∨
        (s.setActive x active status).maxCachedIndex = -1) := by
  unfold CServerItem.setActive
  dsimp only
  split_ifs
  · have hsame := SameRows.modify s x (setActiveFlag active) fun _ => rfl
    exact ⟨hsame.counted h, .inl hsame⟩
  · refine ⟨h.write hx (fun _ => _) ?_, .inr rfl⟩
    simp only [setActiveFlag, live_push, length_append, length_singleton]
    omega
  · split
    next =>
      have hsame := SameRows.modify s x (setActiveFlag false) fun _ => rfl
      exact ⟨hsame.counted h, .inl hsame⟩
    next o' visibleOffspring hremove =>
      obtain ⟨p, children, -, -, rfl, hlen, hvisible⟩ := removeChild_spec hremove
      refine ⟨h.write hx (fun _ => _) ?_, .inr rfl⟩
      rw [getChildrenCount_eq]
      simp only [setActiveFlag]
      omega
  · exact ⟨h, .inl (SameRows.refl s)⟩

/-! ### `TryRemoveAll` -/

/-- The objects differ at most in the mark for removal. -/
def Alike (heap heap' : ItemPtr → FileObject) : Prop :=
  ∀ y, ∃ pendingRemove, heap' y = { heap y with pendingRemove := pendingRemove }

theorem Alike.refl (heap : ItemPtr → FileObject) : Alike heap heap := fun _ => ⟨_, rfl⟩

theorem Alike.modify (h : Alike heap s.heap) (x : ItemPtr) :
    Alike heap (s.modify x setPendingRemove).heap := by
  intro y
  obtain ⟨b, hb⟩ := h y
  by_cases hy : y = x
  · subst hy
    rw [heap_modify_self, hb]
    exact ⟨true, rfl⟩
  · rw [heap_modify_of_ne _ _ hy]
    exact ⟨b, hb⟩

theorem Alike.active (h : Alike heap heap') (x : ItemPtr) : (heap' x).active = (heap x).active := by
  obtain ⟨b, hb⟩ := h x
  rw [hb]

theorem Alike.children (h : Alike heap heap') (x : ItemPtr) :
    (heap' x).children = (heap x).children := by
  obtain ⟨b, hb⟩ := h x
  rw [hb]

theorem tryRemoveStep_inactive (s : CServerItem) (keepChildren : List ItemPtr)
    (h : (s.heap x).active = false) :
    tryRemoveStep (s, keepChildren) x = (s.removeFileItemFromList x true, keepChildren) := by
  have hsame : (s.modify x fun _ => s.heap x) = s := by
    unfold modify
    rw [update_eq_self]
  unfold tryRemoveStep tryRemoveItem
  dsimp only
  rw [h]
  show ((s.modify x fun _ => s.heap x).removeFileItemFromList x true, keepChildren) = _
  rw [hsame]

/-- A child that is active is kept, and marked. -/
theorem tryRemoveStep_active (s : CServerItem) (keepChildren : List ItemPtr)
    (h : (s.heap x).active) :
    tryRemoveStep (s, keepChildren) x =
      ({ s.modify x setPendingRemove with
          visibleOffspring := s.visibleOffspring + 1 + (s.heap x).getChildrenCount },
        keepChildren ++ [x]) := by
  unfold tryRemoveStep tryRemoveItem
  dsimp only
  rw [h]
  rfl

/-- The loop keeps the active children, marks them, and counts their rows anew. -/
theorem foldl_tryRemoveStep (xs : List ItemPtr) (s : CServerItem) (keepChildren : List ItemPtr)
    (h : Alike heap s.heap) :
    ∃ t, xs.foldl tryRemoveStep (s, keepChildren) =
        (t, keepChildren ++ xs.filter fun x => (heap x).active) ∧
      Alike heap t.heap ∧
      t.visibleOffspring =
        s.visibleOffspring + offspring heap (xs.filter fun x => (heap x).active) := by
  induction xs generalizing s keepChildren with
  | nil => exact ⟨s, by simp, h, (Int.add_zero _).symm⟩
  | cons x xs ih =>
    rw [foldl_cons]
    cases hx : (heap x).active with
    | false =>
      have hinactive : (s.heap x).active = false := (h.active x).trans hx
      rw [tryRemoveStep_inactive s keepChildren hinactive, filter_cons_of_neg (by simp [hx])]
      exact ih _ _ h
    | true =>
      have hactive : (s.heap x).active = true := (h.active x).trans hx
      rw [tryRemoveStep_active s keepChildren hactive,
        filter_cons_of_pos (p := fun x => (heap x).active) hx]
      obtain ⟨t, hfold, halike, hvisible⟩ :=
        ih { s.modify x setPendingRemove with
          visibleOffspring := s.visibleOffspring + 1 + (s.heap x).getChildrenCount }
          (keepChildren ++ [x]) (h.modify x)
      refine ⟨t, ?_, halike, ?_⟩
      · rw [hfold, append_assoc, singleton_append]
      · rw [hvisible, ← singleton_append, offspring_append, offspring_singleton,
          getChildrenCount_eq, h.children x]
        push_cast
        omega

/-- The loop over the children. -/
theorem tryRemoveAll_spec (s : CServerItem) :
    ∃ t, s.live.foldl tryRemoveStep ({ s with visibleOffspring := 0 }, []) =
        (t, s.live.filter fun x => (s.heap x).active) ∧
      s.tryRemoveAll.2 =
        { t with
          children := .ofList (s.live.filter fun x => (s.heap x).active)
          maxCachedIndex := -1 } ∧
      Alike s.heap t.heap ∧
      t.visibleOffspring = offspring s.heap (s.live.filter fun x => (s.heap x).active) := by
  obtain ⟨t, hfold, halike, hvisible⟩ :=
    foldl_tryRemoveStep s.live { s with visibleOffspring := 0 } [] (Alike.refl s.heap)
  rw [nil_append] at hfold
  refine ⟨t, hfold, ?_, halike, hvisible.trans (Int.zero_add _)⟩
  unfold tryRemoveAll
  rw [hfold]

theorem Counted.tryRemoveAll (h : Counted s) : Counted s.tryRemoveAll.2 := by
  obtain ⟨t, -, heq, halike, hvisible⟩ := s.tryRemoveAll_spec
  rw [heq]
  refine ⟨h.nodup.filter _, ?_⟩
  show t.visibleOffspring = offspring t.heap (s.live.filter fun x => (s.heap x).active)
  rw [hvisible, offspring_congr fun x _ => halike.children x]

/-! ### The other calls -/

/-- `Sort` either returns at once or puts the children in another order. -/
theorem sort_spec (translate : WString → WString) (s : CServerItem) (col : Int) (reverse : Bool) :
    s.sort translate col reverse = s ∨
      ∃ sorted : List ItemPtr, sorted.Perm s.live ∧
        s.sort translate col reverse = sorted.foldl addFileItemToList
          { s with
            children := s.children.setLive sorted
            lookupCache := []
            maxCachedIndex := -1
            fileList := fun _ _ => [] } := by
  unfold sort
  split
  · exact .inl rfl
  · exact .inr ⟨_, perm_insertionSort _ _, rfl⟩

/-- Sorting permutes the children. -/
theorem Counted.sort (translate : WString → WString) (h : Counted s) (col : Int) (reverse : Bool) :
    Counted (s.sort translate col reverse) ∧
      (SameRows s (s.sort translate col reverse) ∨
        (s.sort translate col reverse).maxCachedIndex = -1) := by
  rcases s.sort_spec translate col reverse with heq | ⟨sorted, hperm, heq⟩
  · rw [heq]
    exact ⟨h, .inl (SameRows.refl s)⟩
  · rw [heq]
    have hlists := SameRows.foldl sameRows_addFileItemToList sorted
      { s with
        children := s.children.setLive sorted
        lookupCache := []
        maxCachedIndex := -1
        fileList := fun _ _ => [] }
    refine ⟨hlists.counted ⟨?_, ?_⟩, .inr hlists.maxCachedIndex⟩
    · show (s.children.setLive sorted).live.Nodup
      rw [live_setLive]
      exact hperm.nodup_iff.mpr h.nodup
    · show s.visibleOffspring = offspring s.heap (s.children.setLive sorted).live
      rw [live_setLive, h.visible, offspring_perm s.heap hperm]

theorem SameRows.step (hsame : SameRows s t) (h : Counted s) :
    Counted t ∧ (SameRows s t ∨ t.maxCachedIndex = -1) :=
  ⟨hsame.counted h, .inl hsame⟩

/-- Every call but a lookup keeps the count right, and it leaves the rows alone or empties the
lookup cache. -/
theorem rows_step {translate : WString → WString} {e : ServerItemCall} (h : Counted s)
    (hstep : s.step translate e = some t) (he : ∀ item, e ≠ .getChild item) :
    Counted t ∧ (SameRows s t ∨ t.maxCachedIndex = -1) := by
  cases e with
  | addChild x o =>
    simp only [step, ite_none_left_eq_some, some.injEq] at hstep
    obtain ⟨hx, rfl⟩ := hstep
    exact ⟨h.addChild hx o, .inr rfl⟩
  | removeChild pItem forward =>
    cases hstep
    have hcases := s.removeChild_cases pItem forward
    exact ⟨h.removed hcases, hcases.rows⟩
  | setActive x active status =>
    simp only [step, ite_none_right_eq_some, some.injEq] at hstep
    obtain ⟨hx, rfl⟩ := hstep
    exact h.setActive hx active status
  | setItemPriority x priority =>
    simp only [step, ite_none_right_eq_some, some.injEq] at hstep
    obtain ⟨-, rfl⟩ := hstep
    exact (sameRows_setItemPriority s x priority).step h
  | setPriority priority =>
    cases hstep
    exact (sameRows_setPriority s priority).step h
  | queueImmediateFiles =>
    cases hstep
    exact (SameRows.foldl sameRows_queueImmediateAt _ s).step h
  | queueImmediateFile x =>
    simp only [step, ite_none_right_eq_some, some.injEq] at hstep
    obtain ⟨-, rfl⟩ := hstep
    exact (sameRows_queueImmediateFile s x).step h
  | sort col reverse =>
    cases hstep
    exact h.sort translate col reverse
  | tryRemoveAll =>
    cases hstep
    exact ⟨h.tryRemoveAll, .inr rfl⟩
  | detachChildren =>
    cases hstep
    exact ⟨⟨nodup_nil, rfl⟩, .inr rfl⟩
  | getChild item => exact absurd rfl (he item)

end CServerItem

end FlintZilla
