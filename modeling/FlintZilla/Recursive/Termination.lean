import FlintZilla.Path.Comparison
import FlintZilla.Recursive.Steps

/-!
# Recursive operations come to an end

The results of list commands may report the same directories again and again, under other names and
through links that lead back. A recursion root remembers the paths whose entries it has processed,
so only finitely many listings put directories on the stack; a directory leaves the stack after at
most two list commands, or turns into one that is only to be removed.

The argument is an account. Every directory on the stack has a price, an upper bound for the
commands that it alone can still cause, and every path that the root has not processed yet a reserve
for the entries of its listing. Each step pays for its commands out of this.

Main results:

* `Ledger.effect`, `ledger_run`: the account is kept in each step, and over a run.
* `Once.effect`, `once_run`: no path is processed twice for one root.
* `recursiveOperation_terminates`: the number of commands is bounded, so that the operation ends.
-/

namespace FlintZilla

open Lib RecursiveOperation RecursionRoot List Nat

/-! ## Prices -/

/-- What the commands cost: with ones, they are counted; with a one and zeros, the list commands. -/
structure Tariff where
  list : Nat
  removal : Nat
  other : Nat

namespace Tariff

variable (T : Tariff)

def price : RecursiveAction → Nat
  | .list .. => T.list
  | .removeDir .. => T.removal
  | .delete .. | .chmod .. => T.other
  | .handleFile .. | .handleEmptyDirectory .. | .handleInvalidDirLink .. | .processed .. => 0

def total (log : List LogEntry) : Nat := (log.map fun entry => T.price entry.action).sum

/-- A directory that is only to be removed, or else is listed once or twice. -/
def dir (mode : OperationMode) (d : NewDir) : Nat :=
  if mode = .delete ∧ d.doVisit = false then T.removal
  else (if d.secondTry then T.list else 2 * T.list) + max T.removal T.other

def dirs (mode : OperationMode) (ds : List NewDir) : Nat := (ds.map (T.dir mode)).sum

/-- What an entry of a listing can cost. -/
def entry : Nat := 2 * T.list + max T.removal T.other + T.other

variable {T}

@[simp] theorem total_append (l m : List LogEntry) : T.total (l ++ m) = T.total l + T.total m := by
  simp [total]

@[simp] theorem total_singleton (e : LogEntry) : T.total [e] = T.price e.action := by simp [total]

@[simp] theorem dirs_cons (mode : OperationMode) (d : NewDir) (ds : List NewDir) :
    T.dirs mode (d :: ds) = T.dir mode d + T.dirs mode ds := by
  simp [dirs]

theorem dirs_append (mode : OperationMode) (ds es : List NewDir) :
    T.dirs mode (ds ++ es) = T.dirs mode ds + T.dirs mode es := by
  simp [dirs]

theorem total_le {new : List LogEntry} {price : Nat}
    (h : ∀ e ∈ new, T.price e.action ≤ price) : T.total new ≤ new.length * price := by
  have hsum := sum_le_card_nsmul (new.map fun e => T.price e.action) price (by simpa using h)
  simpa [total] using hsum

/-- What one directory can cost at most. -/
theorem dir_le (mode : OperationMode) (d : NewDir) :
    T.dir mode d ≤ 2 * T.list + max T.removal T.other := by
  unfold dir
  split_ifs <;> omega

theorem dirs_le (mode : OperationMode) (ds : List NewDir) :
    T.dirs mode ds ≤ ds.length * (2 * T.list + max T.removal T.other) := by
  induction ds with
  | nil => exact zero_le _
  | cons d ds ih =>
    have hd := T.dir_le mode d
    rw [dirs_cons, length_cons, succ_mul]
    omega

end Tariff

/-- `NextOperation` would list the directory. -/
def NewDir.Listable (mode : OperationMode) (d : NewDir) : Prop :=
  ¬(mode = .delete ∧ d.doVisit = false)

/-- The list command, and a command after it, are still to be paid for. -/
theorem NewDir.Listable.le_dir {mode : OperationMode} {d : NewDir} (h : d.Listable mode)
    (T : Tariff) : T.list + max T.removal T.other ≤ T.dir mode d := by
  rw [Tariff.dir, if_neg h]
  split_ifs <;> omega

/-! ## The entries of a listing -/

/-- No listing is noted as processed. -/
def Quiet (new : List LogEntry) : Prop :=
  ∀ e ∈ new, ∀ listing entries, e.action ≠ .processed listing entries

/-- The operation has spent at most `cost`, and has not finished a listing. -/
structure Spends (T : Tariff) (s t : RecursiveOperation) (cost : Nat) : Prop where
  mode : t.mode = s.mode
  log : ∃ new, t.log = s.log ++ new ∧ T.total new ≤ cost ∧ Quiet new

/-- The operation has spent at most `cost` and then finished the listing. -/
structure Visits (T : Tariff) (listing : CDirectoryListing) (s t : RecursiveOperation)
    (cost : Nat) : Prop where
  mode : t.mode = s.mode
  log : ∃ new last entries, t.log = s.log ++ new ++ [last] ∧
    last.action = .processed listing entries ∧ T.total new ≤ cost ∧ Quiet new

section Spends

variable {T : Tariff} {s t : RecursiveOperation}

theorem Spends.of_eq (hmode : t.mode = s.mode) (hlog : t.log = s.log) : Spends T s t 0 :=
  ⟨hmode, [], by simpa using hlog, le_refl _, by simp [Quiet]⟩

theorem Spends.record (s : RecursiveOperation) {action : RecursiveAction}
    (haction : ∀ listing entries, action ≠ .processed listing entries) (root : RecursionRoot)
    (dir : NewDir) : Spends T s (s.record action root dir) (T.price action) :=
  ⟨rfl, _, rfl, by simp, by simpa [Quiet] using haction⟩

end Spends

namespace RecursiveOperation

/-- The entries of a listing whose path is new: each costs a command at once, or a name in the list
of files to delete. -/
theorem visits_visitListing (T : Tariff) (sanitize : WString → WString) (s : RecursiveOperation)
    (root : RecursionRoot) (listing : CDirectoryListing) (dir : NewDir) :
    ∃ t root' pushed, visitListing sanitize s root listing dir = (t, root') ∧
      Visits T listing s t (listing.entries.length * T.other) ∧
      root'.visitedDirs = listing.path :: root.visitedDirs ∧
      root'.dirsToVisit = pushed ++ root.dirsToVisit ∧ pushed.length ≤ listing.entries.length := by
  obtain ⟨t, root', new, heq, ⟨n, rfl⟩, hroot, hcount, hcalls, hdeletes, -⟩ :=
    visited_visitListing sanitize s root listing dir
  -- in transfers the calls for single entries send no command
  have hprice : ∀ e ∈ new, T.price e.action ≤ (if s.mode = .transfer then 0 else T.other) ∧
      ∀ listing entries, e.action ≠ .processed listing entries := by
    intro e he
    by_cases hdelete : s.mode = .delete
    · rw [hdeletes hdelete] at he
      split_ifs at he
      · cases he
      · cases mem_singleton.mp he
        simp [hdelete, Tariff.price]
    · have hcall := hcalls hdelete e he
      generalize e.action = action at hcall ⊢
      rcases hcall with (⟨_, hmode⟩ | ⟨_, hmode, _⟩) | ⟨hmode, rfl⟩
      · exact ⟨zero_le _, by simp⟩
      · simp [hmode, Tariff.price]
      · exact ⟨zero_le _, by simp⟩
  refine ⟨_, root', _, heq, ⟨rfl, new, _, _, rfl, rfl, ?_, fun e he => (hprice e he).2⟩,
    by rw [hroot], by rw [hroot], ?_⟩
  · refine (T.total_le fun e he => (hprice e he).1).trans ?_
    split_ifs with hmode
    · exact zero_le _
    · exact mul_le_mul_right _ (hcount.resolve_left hmode)
  · have hselected : (s.selected dir listing).length ≤ listing.entries.length :=
      length_filter_le _ _
    unfold subDirs
    split_ifs
    · rw [length_map]
      exact (length_filter_le _ _).trans hselected
    · exact zero_le _

/-! ## What a step does -/

/-- While a result is awaited, the directory in front has been listed. -/
def Awaiting (s : RecursiveOperation) : Prop :=
  s.next = false → s.mode ≠ .none → ∃ f, s.At f ∧ f.dir.Listable s.mode

variable {s : RecursiveOperation}

theorem Awaiting.listable {f : Front} (h : s.Awaiting)
    (hnext : s.next = false) (hat : s.At f) : f.dir.Listable s.mode := by
  obtain ⟨g, hg, hlistable⟩ := h hnext hat.active
  have hroot : g.root = f.root := (cons.inj (hg.roots.symm.trans hat.roots)).1
  have hdir := hg.dirs
  rw [hroot, hat.dirs] at hdir
  rw [(cons.inj hdir).1]
  exact hlistable

/-- The price of the list command whose result is awaited. -/
def pending (T : Tariff) (s : RecursiveOperation) : Nat :=
  if s.next = false ∧ s.mode ≠ .none then T.list else 0

theorem pending_le (T : Tariff) (s : RecursiveOperation) : s.pending T ≤ T.list := by
  unfold pending
  split_ifs <;> omega

theorem pending_eq_zero {T : Tariff} (h : s.next) : s.pending T = 0 := by simp [pending, h]

/-- The effect of a step on the roots and the log, with the commands and the stack of the front root
in the prices of the tariff. `Reported` says which listings may come. -/
inductive Effect (T : Tariff) (Reported : CDirectoryListing → Prop) (s t : RecursiveOperation) :
    Prop where
  /-- A result that is ignored, or a loop that ends without an operation. -/
  | idle (hroots : t.roots = s.roots) (hlog : t.log = s.log) (hmode : t.mode = s.mode)
      (hnext : t.next = s.next ∨ t.mode = .none)
  | stopped (hroots : t.roots = []) (hmode : t.mode = .none) (hlog : t.log = s.log)
  | popped {root : RecursionRoot} (hnext : s.next = true ∧ t.next = true) (hmode : t.mode = s.mode)
      (hroots : s.roots = root :: t.roots) (hlog : t.log = s.log)
  /-- `NextOperation` lists the directory in front. -/
  | listed (hnext : s.next = true ∧ t.next = false) (hactive : s.mode ≠ .none)
      (hroots : t.roots = s.roots) (hspends : Spends T s t T.list) (hawaiting : Awaiting t)
  /-- The directory in front is removed, or its result is dealt with and no entry processed. -/
  | settled {root root' : RecursionRoot} {roots : List RecursionRoot} {cost : Nat}
      (hnext : t.next = true) (hroots : s.roots = root :: roots)
      (hroots' : t.roots = root' :: roots)
      (hspends : Spends T s t cost) (hvisited : root'.visitedDirs = root.visitedDirs)
      (hcost : cost + T.dirs s.mode root'.dirsToVisit + s.pending T ≤
        T.dirs s.mode root.dirsToVisit)
  /-- The entries of a listing are processed. -/
  | visited {root root' : RecursionRoot} {roots : List RecursionRoot} {cost : Nat}
      {listing : CDirectoryListing} (hnext : t.next = true) (hroots : s.roots = root :: roots)
      (hroots' : t.roots = root' :: roots) (hvisits : Visits T listing s t cost)
      (hreported : Reported listing) (hfresh : root.visited listing.path = false)
      (hvisited : root'.visitedDirs = listing.path :: root.visitedDirs)
      (hcost : cost + T.dirs s.mode root'.dirsToVisit + s.pending T ≤
        T.dirs s.mode root.dirsToVisit + listing.entries.length * T.entry)

section Effects

variable {T : Tariff} {Reported : CDirectoryListing → Prop} {s t : RecursiveOperation} {f : Front}

theorem At.dirs_eq (hat : s.At f) :
    T.dirs s.mode f.root.dirsToVisit = T.dir s.mode f.dir + T.dirs s.mode f.rest.dirsToVisit := by
  rw [hat.dirs]
  rfl

/-- The result for the directory in front is paid for by the directory. -/
theorem At.settle (hat : s.At f) {root' : RecursionRoot} {cost : Nat} (hspends : Spends T s t cost)
    (hvisited : root'.visitedDirs = f.root.visitedDirs)
    (hcost : cost + T.dirs s.mode root'.dirsToVisit + T.list ≤
      T.dir s.mode f.dir + T.dirs s.mode f.rest.dirsToVisit) :
    Effect T Reported s (t.withFront root' f.roots) := by
  refine .settled rfl hat.roots rfl ⟨hspends.mode, hspends.log⟩ hvisited ?_
  have hpending := pending_le T s
  rw [hat.dirs_eq]
  omega

variable {dir : NewDir}

/-- A directory is taken from the stack, and one that is only to be removed may take its place. -/
theorem dirs_pushRemoval {mode : OperationMode} (root : RecursionRoot) (hdir : dir.Listable mode) :
    T.dirs mode (pushRemoval mode root dir).dirsToVisit + T.list ≤
      T.dir mode dir + T.dirs mode root.dirsToVisit := by
  have hle := hdir.le_dir T
  unfold pushRemoval
  split_ifs with hremove
  · rw [pushFront, Tariff.dirs_cons, Tariff.dir, if_pos ⟨hremove.1, rfl⟩]
    omega
  · omega

theorem visitedDirs_pushRemoval (mode : OperationMode) (root : RecursionRoot) (dir : NewDir) :
    (pushRemoval mode root dir).visitedDirs = root.visitedDirs := by
  unfold pushRemoval
  split_ifs <;> rfl

/-- What `BelowRecursionRoot` changes does not change the price. -/
theorem dir_belowRecursionRoot (mode : OperationMode) (root : RecursionRoot) (path : CServerPath)
    (dir : NewDir) (number : Option Nat) :
    T.dir mode { (belowRecursionRoot root path dir).2 with listing := number } = T.dir mode dir ∧
      (({ (belowRecursionRoot root path dir).2 with listing := number } : NewDir).Listable mode ↔
        dir.Listable mode) := by
  unfold belowRecursionRoot
  split_ifs <;> exact ⟨rfl, Iff.rfl⟩

variable (sanitize : WString → WString)

/-- A listing for a directory that was taken from the stack: no entry is processed, or the path is
new and its reserve pays for them. -/
theorem processListing_cost (root : RecursionRoot) (listing : CDirectoryListing)
    (hdir : dir.Listable s.mode) {r : RecursiveOperation × RecursionRoot}
    (hr : s.processListing sanitize root listing dir = r) :
    (Spends T s r.1 0 ∧ r.2.visitedDirs = root.visitedDirs ∧
        T.dirs s.mode r.2.dirsToVisit + T.list ≤
          T.dir s.mode dir + T.dirs s.mode root.dirsToVisit) ∨
      ∃ cost, Visits T listing s r.1 cost ∧ root.visited listing.path = false ∧
        r.2.visitedDirs = listing.path :: root.visitedDirs ∧
        cost + T.dirs s.mode r.2.dirsToVisit + T.list ≤
          T.dir s.mode dir + T.dirs s.mode root.dirsToVisit + listing.entries.length * T.entry := by
  have hle := hdir.le_dir T
  unfold processListing at hr
  dsimp only at hr
  obtain ⟨hprice, hlistable⟩ := dir_belowRecursionRoot (T := T) s.mode root listing.path dir
    (some s.nextListing)
  have hremoval := dirs_pushRemoval (T := T) root (hlistable.mpr hdir)
  have hkeeps := visitedDirs_pushRemoval s.mode root
    { (belowRecursionRoot root listing.path dir).2 with listing := some s.nextListing }
  rw [hprice] at hremoval
  -- outside the root; a link; processed before; processed now
  split_ifs at hr with hbelow hlink hseen
  · subst hr
    exact .inl ⟨.of_eq rfl rfl, rfl, by dsimp only; omega⟩
  · subst hr
    exact .inl ⟨.of_eq rfl rfl, hkeeps, hremoval⟩
  · subst hr
    exact .inl ⟨.of_eq rfl rfl, hkeeps, hremoval⟩
  · obtain ⟨t, root', pushed, heq, hvisits, hvisited, hpushed, hcount⟩ :=
      visits_visitListing T sanitize
      { s with nextListing := s.nextListing + 1 } (pushRemoval s.mode root
        { (belowRecursionRoot root listing.path dir).2 with listing := some s.nextListing })
      listing { (belowRecursionRoot root listing.path dir).2 with listing := some s.nextListing }
    rw [heq] at hr
    subst hr
    have hfresh : root.visited listing.path = false := by
      rw [Bool.not_eq_true, visited, hkeeps] at hseen
      exact hseen
    refine .inr ⟨_, ⟨hvisits.mode, hvisits.log⟩, hfresh, ?_, ?_⟩
    · rw [hvisited, hkeeps]
    · have hdirs := T.dirs_le s.mode pushed
      have hpushes := mul_le_mul_right (2 * T.list + max T.removal T.other) hcount
      have hentry : listing.entries.length * T.entry =
          listing.entries.length * (2 * T.list + max T.removal T.other) +
            listing.entries.length * T.other := by
        rw [Tariff.entry, mul_add]
      rw [hpushed, Tariff.dirs_append]
      omega

end Effects

end RecursiveOperation

/-! ## The account -/

section Account

variable (T : Tariff) (P : Finset CServerPath) (size : CServerPath → Nat)

/-- The entries that may still be processed: those of the paths that are new to the root. -/
def RecursionRoot.reserve (root : RecursionRoot) : Nat :=
  ∑ path ∈ P with root.visited path = false, size path

/-- What a root can still cost. -/
def RecursionRoot.cost (mode : OperationMode) (root : RecursionRoot) : Nat :=
  T.dirs mode root.dirsToVisit + root.reserve P size * T.entry

def RecursiveOperation.cost (s : RecursiveOperation) : Nat :=
  (s.roots.map (RecursionRoot.cost T P size s.mode)).sum

variable {T P size} {root root' : RecursionRoot} {path : CServerPath}

theorem RecursionRoot.visited_self (root : RecursionRoot) {rest : List CServerPath}
    (h : root.visitedDirs = path :: rest) : root.visited path = true := by
  rw [visited, h, any_cons, (CServerPath.equivalent_iff path path).mpr rfl]
  rfl

theorem RecursionRoot.visited_congr (h : root'.visitedDirs = root.visitedDirs)
    (path : CServerPath) : root'.visited path = root.visited path := by
  rw [visited, visited, h]

theorem RecursionRoot.visited_mono {new : CServerPath}
    (h : root'.visitedDirs = new :: root.visitedDirs) (hpath : root.visited path) :
    root'.visited path = true := by
  rw [visited, h, any_cons]
  rw [visited] at hpath
  rw [hpath, Bool.or_true]

theorem RecursionRoot.reserve_congr (h : root'.visitedDirs = root.visitedDirs) :
    root'.reserve P size = root.reserve P size := by
  unfold reserve
  simp only [visited_congr h]

/-- The reserve of a path that becomes visited is set free. -/
theorem RecursionRoot.reserve_visit (h : root'.visitedDirs = path :: root.visitedDirs)
    (hP : path ∈ P) (hfresh : root.visited path = false) :
    root'.reserve P size + size path ≤ root.reserve P size := by
  have hnew : path ∉ P.filter fun path => root'.visited path = false := by
    simp [root'.visited_self h]
  unfold reserve
  rw [add_comm, ← Finset.sum_insert hnew]
  refine Finset.sum_le_sum_of_subset ?_
  intro other hother
  rcases Finset.mem_insert.mp hother with rfl | hother
  · exact Finset.mem_filter.mpr ⟨hP, hfresh⟩
  · obtain ⟨hmem, hvisited⟩ := Finset.mem_filter.mp hother
    refine Finset.mem_filter.mpr ⟨hmem, ?_⟩
    rw [← Bool.not_eq_true]
    intro hseen
    rw [visited_mono h hseen] at hvisited
    cases hvisited

/-- The listings of these paths have at most that many entries. -/
def ReportedIn (P : Finset CServerPath) (size : CServerPath → Nat) (listing : CDirectoryListing) :
    Prop :=
  listing.path ∈ P ∧ listing.entries.length ≤ size listing.path

namespace RecursiveOperation

variable {s t : RecursiveOperation} {budget : Nat}

/-- The root in front, and the others. -/
theorem cost_front {root : RecursionRoot} {roots : List RecursionRoot}
    (h : s.roots = root :: roots) :
    s.cost T P size = root.cost T P size s.mode +
      (roots.map (RecursionRoot.cost T P size s.mode)).sum := by
  rw [cost, h, map_cons, sum_cons]

/-- What has been spent and what may still be spent stay within the budget; the command whose result
is awaited is in both. -/
structure Ledger (T : Tariff) (P : Finset CServerPath) (size : CServerPath → Nat) (budget : Nat)
    (s : RecursiveOperation) : Prop where
  bound : T.total s.log + s.cost T P size ≤ budget + s.pending T
  awaiting : s.Awaiting

/-- The pending command is part of the price of the directory in front. -/
theorem Awaiting.pending_le (h : s.Awaiting) : s.pending T ≤ s.cost T P size := by
  unfold pending
  split_ifs with hpending
  · obtain ⟨f, hat, hlistable⟩ := h hpending.1 hpending.2
    have hle := hlistable.le_dir T
    rw [cost_front hat.roots, RecursionRoot.cost, hat.dirs, Tariff.dirs_cons]
    omega
  · exact zero_le _

theorem awaiting_of_next (h : s.next) : s.Awaiting := fun hwait => absurd hwait (by simp [h])

theorem Ledger.total_le (h : Ledger T P size budget s) : T.total s.log ≤ budget := by
  have hbound := h.bound
  have hpending : s.pending T ≤ s.cost T P size := h.awaiting.pending_le
  omega

/-- Each step pays out of what its directory or its path has in reserve. -/
theorem Ledger.effect (h : Ledger T P size budget s) (heffect : Effect T (ReportedIn P size) s t) :
    Ledger T P size budget t := by
  have hbound := h.bound
  cases heffect with
  | idle hroots hlog hmode hnext =>
    -- nothing is spent; a pending list command stays pending
    rcases hnext with hnext | hnone
    · refine ⟨?_, ?_⟩
      · rw [hlog, cost, hroots, pending, hnext, hmode]
        exact hbound
      · intro hwait hactive
        obtain ⟨f, hat, hlistable⟩ := h.awaiting (hnext.symm.trans hwait) (hmode ▸ hactive)
        exact ⟨f, ⟨hactive, hroots.trans hat.roots, hat.dirs⟩, hmode ▸ hlistable⟩
    · have hnone' : s.mode = .none := hmode.symm.trans hnone
      refine ⟨?_, fun _ hactive => absurd hnone hactive⟩
      rw [pending, if_neg (by simp [hnone'])] at hbound
      rw [hlog, cost, hroots, hmode]
      exact hbound.trans (Nat.le_add_right _ _)
  | stopped hroots hmode hlog =>
    refine ⟨?_, fun _ hactive => absurd hmode hactive⟩
    have hcost : t.cost T P size = 0 := by rw [cost, hroots]; rfl
    rw [hlog, hcost]
    exact h.total_le.trans (Nat.le_add_right _ _)
  | popped hnext hmode hroots hlog =>
    -- what the root still had is lost
    refine ⟨?_, awaiting_of_next hnext.2⟩
    rw [cost_front hroots, pending_eq_zero hnext.1] at hbound
    rw [hlog, cost, hmode]
    omega
  | listed hnext hactive hroots hspends hawaiting =>
    -- the list command was paid for, and its result is to come
    refine ⟨?_, hawaiting⟩
    obtain ⟨new, hlog, htotal, -⟩ := hspends.log
    rw [cost, pending_eq_zero hnext.1] at hbound
    rw [hlog, Tariff.total_append, cost, hroots, hspends.mode, pending,
      if_pos ⟨hnext.2, hspends.mode ▸ hactive⟩]
    omega
  | settled hnext hroots hroots' hspends hvisited hcost =>
    refine ⟨?_, awaiting_of_next hnext⟩
    obtain ⟨new, hlog, htotal, -⟩ := hspends.log
    rw [cost_front hroots, RecursionRoot.cost] at hbound
    rw [hlog, Tariff.total_append, cost_front hroots', RecursionRoot.cost, hspends.mode,
      RecursionRoot.reserve_congr hvisited]
    omega
  | visited hnext hroots hroots' hvisits hreported hfresh hvisited hcost =>
    -- the path had not been processed, so its entries are paid for out of the reserve
    refine ⟨?_, awaiting_of_next hnext⟩
    obtain ⟨new, last, entries, hlog, hlast, htotal, -⟩ := hvisits.log
    have hfree := @RecursionRoot.reserve_visit P size _ _ _ hvisited hreported.1 hfresh
    have hentries := Nat.mul_le_mul_right T.entry
      ((Nat.add_le_add_left hreported.2 _).trans hfree)
    rw [Nat.add_mul] at hentries
    rw [cost_front hroots, RecursionRoot.cost] at hbound
    rw [hlog, Tariff.total_append, Tariff.total_append, Tariff.total_singleton, hlast,
      cost_front hroots', RecursionRoot.cost, hvisits.mode, Tariff.price]
    omega

/-! ## At most once for a root -/

/-- How often the entries of a path were processed. -/
def processedCount (path : CServerPath) (s : RecursiveOperation) : Nat :=
  s.log.countP fun e => match e.action with
    | .processed listing _ => listing.path = path
    | _ => false

variable {path : CServerPath}

theorem countP_quiet {new : List LogEntry} (h : Quiet new) :
    (new.countP fun e => match e.action with
      | .processed listing _ => decide (listing.path = path)
      | _ => false) = 0 := by
  rw [countP_eq_zero]
  intro e he
  split
  case _ listing entries haction => exact absurd haction (h e he listing entries)
  case _ => simp

variable {cost : Nat}

theorem processedCount_spends (h : Spends T s t cost) (path : CServerPath) :
    t.processedCount path = s.processedCount path := by
  obtain ⟨new, hlog, -, hquiet⟩ := h.log
  rw [processedCount, hlog, countP_append, countP_quiet hquiet]
  rfl

theorem processedCount_visits {listing : CDirectoryListing} (h : Visits T listing s t cost)
    (path : CServerPath) :
    t.processedCount path = s.processedCount path + if listing.path = path then 1 else 0 := by
  obtain ⟨new, last, entries, hlog, hlast, -, hquiet⟩ := h.log
  rw [processedCount, hlog, countP_append, countP_append, countP_quiet hquiet,
    countP_singleton, hlast]
  simp [processedCount]

/-- The root in front may still process the path. -/
def mayProcess (path : CServerPath) (s : RecursiveOperation) : Nat :=
  match s.roots with
  | [] => 0
  | root :: _ => if root.visited path then 0 else 1

/-- Since a state, the root in front has been given up, or has processed the path at most once. -/
def Once (path : CServerPath) (start s : RecursiveOperation) : Prop :=
  s.roots.length < start.roots.length ∨ s.roots.length = start.roots.length ∧
    s.processedCount path + s.mayProcess path ≤ start.processedCount path + 1

theorem Once.start (path : CServerPath) (s : RecursiveOperation) : Once path s s := by
  refine .inr ⟨rfl, ?_⟩
  unfold mayProcess
  split
  · omega
  · split_ifs <;> omega

/-- A path that is processed is remembered. -/
theorem Once.effect {start : RecursiveOperation} (h : Once path start s)
    (heffect : Effect T (ReportedIn P size) s t) : Once path start t := by
  cases heffect with
  | idle hroots hlog hmode hnext =>
    rw [Once, processedCount, hlog, mayProcess, hroots]
    exact h
  | stopped hroots hmode hlog =>
    have hempty : t.roots.length = 0 := by rw [hroots]; rfl
    rcases Nat.eq_zero_or_pos start.roots.length with hnone | hsome
    · rcases h with h | ⟨hlength, hcount⟩
      · omega
      · refine .inr ⟨hempty.trans hnone.symm, ?_⟩
        rw [processedCount, hlog, mayProcess, hroots]
        exact le_trans (Nat.le_add_right _ _) hcount
    · exact .inl (by omega)
  | popped hnext hmode hroots hlog =>
    -- a popped root never comes back
    left
    have hlength : s.roots.length = t.roots.length + 1 := by rw [hroots]; rfl
    rcases h with h | ⟨h, -⟩ <;> omega
  | listed hnext hactive hroots hspends hawaiting =>
    rw [Once, processedCount_spends hspends, mayProcess, hroots]
    exact h
  | settled hnext hroots hroots' hspends hvisited hcost =>
    have hlength : t.roots.length = s.roots.length := by rw [hroots, hroots']; rfl
    have hmay : t.mayProcess path = s.mayProcess path := by
      rw [mayProcess, mayProcess, hroots, hroots']
      simp only [visited_congr hvisited]
    rwa [Once, hlength, processedCount_spends hspends, hmay]
  | @visited root root' roots cost listing hnext hroots hroots' hvisits hreported hfresh hvisited =>
    have hlength : t.roots.length = s.roots.length := by rw [hroots, hroots']; rfl
    have hcount := processedCount_visits hvisits path
    -- the listing counts once, and its path is visited from now on
    have hmay : t.mayProcess path + (if listing.path = path then 1 else 0) ≤ s.mayProcess path := by
      rw [mayProcess, mayProcess, hroots, hroots']
      dsimp only
      by_cases hpath : listing.path = path
      · subst hpath
        simp [root'.visited_self hvisited, hfresh]
      · rw [if_neg hpath]
        cases hold : root.visited path with
        | true => simp [visited_mono hvisited hold]
        | false => split_ifs <;> simp_all
    rcases h with h | ⟨hsame, hsum⟩
    · exact .inl (hlength ▸ h)
    · refine .inr ⟨hlength.trans hsame, ?_⟩
      omega

end RecursiveOperation

end Account

/-! ## The bound -/

/-- The results of list commands, and what the operation does by itself. -/
def RecursiveEvent.Result (P : Finset CServerPath) (size : CServerPath → Nat) :
    RecursiveEvent → Prop
  | .processDirectoryListing (some listing) => ReportedIn P size listing
  | .processDirectoryListing .none | .next | .listingFailed _ | .linkIsNotDir _ | .stop => True
  | .addRecursionRoot .. | .setChmodData _ | .start .. => False

def RecursiveAction.isList : RecursiveAction → Bool
  | .list .. => true
  | _ => false

def RecursiveAction.isCommand : RecursiveAction → Bool
  | .list .. | .removeDir .. | .delete .. | .chmod .. => true
  | _ => false

/-- The directories on the stacks of all roots. -/
def RecursiveOperation.work (s : RecursiveOperation) : Nat :=
  (s.roots.map fun root => root.dirsToVisit.length).sum

section Bound

variable {T : Tariff} {P : Finset CServerPath} {size : CServerPath → Nat}
  {s t : RecursiveOperation} {sanitize : WString → WString}

/-- With a price of one, the total counts. -/
theorem total_eq_countP (p : RecursiveAction → Bool)
    (h : ∀ action, T.price action = if p action then 1 else 0) (log : List LogEntry) :
    T.total log = log.countP fun e => p e.action := by
  induction log with
  | nil => rfl
  | cons e log ih =>
    have hcons : T.total (e :: log) = T.price e.action + T.total log := by simp [Tariff.total]
    rw [hcons, countP_cons, ih, h, add_comm]

/-- An upper bound in terms of what is on the stack and of what can be reported. -/
theorem RecursionRoot.cost_le (mode : OperationMode) (root : RecursionRoot) :
    root.cost T P size mode ≤ root.dirsToVisit.length * (2 * T.list + max T.removal T.other) +
        (∑ path ∈ P, size path) * T.entry := by
  have hreserve : root.reserve P size ≤ ∑ path ∈ P, size path :=
    Finset.sum_le_sum_of_subset (Finset.filter_subset _ _)
  exact Nat.add_le_add (T.dirs_le mode _) (Nat.mul_le_mul_right _ hreserve)

theorem RecursiveOperation.cost_le (s : RecursiveOperation) :
    s.cost T P size ≤ s.work * (2 * T.list + max T.removal T.other) +
      s.roots.length * (∑ path ∈ P, size path) * T.entry := by
  unfold cost work
  induction s.roots with
  | nil => exact zero_le _
  | cons root roots ih =>
    have hroot : root.cost T P size s.mode ≤ _ := root.cost_le s.mode
    rw [map_cons, sum_cons, map_cons, sum_cons, length_cons, add_mul, add_mul, one_mul, add_mul]
    omega

/-- Every result is one of the effects. -/
theorem effect_step (hawaiting : s.Awaiting) {e : RecursiveEvent} (he : e.Result P size)
    (hstep : s.step sanitize e = some t) : Effect T (ReportedIn P size) s t := by
  obtain ⟨hcase, hloop⟩ := step_case hstep
  -- the directory in front pays for its result
  have hlistable : ∀ {f : Front}, e ≠ .next → s.At f → f.dir.Listable s.mode := by
    intro f hresult hat
    exact hawaiting.listable (by simpa [hresult] using hloop) hat
  cases hcase with
  | ignored => exact .idle rfl rfl rfl (.inl rfl)
  | stopped => exact .stopped rfl rfl rfl
  | rootAdded | chmodData | started => exact he.elim
  | paused hmode => exact .idle rfl rfl rfl (.inr hmode)
  | popped hroots =>
    have hnext : s.next = true := hloop.mpr rfl
    exact .popped ⟨hnext, hnext⟩ rfl hroots rfl
  | @removed f hat hmode hvisit =>
    have hnext : s.next = true := hloop.mpr rfl
    have hspends : Spends T s (s.record (.removeDir f.dir.parent f.dir.subdir) f.root f.dir) _ :=
      .record s (by simp) _ _
    refine .settled hnext hat.roots rfl ⟨rfl, hspends.log⟩ rfl ?_
    rw [hat.dirs_eq, Tariff.dir, if_pos ⟨hmode, hvisit⟩, pending_eq_zero hnext]
    exact le_refl _
  | @listed f hat hlist =>
    have hspends : Spends T s
        (s.record (.list f.dir.parent f.dir.subdir (f.dir.link != .no)) f.root f.dir) _ :=
      .record s (by simp) _ _
    refine .listed ⟨hloop.mpr rfl, rfl⟩ hat.active rfl ⟨rfl, hspends.log⟩ ?_
    intro _ _
    exact ⟨_, ⟨hat.active, hat.roots, hat.dirs⟩, hlist⟩
  | processed hat listing hr =>
    rcases processListing_cost (T := T) sanitize _ listing
      (hlistable (by simp) hat) hr with ⟨hspends, hvisited, hcost⟩ | ⟨cost, hvisits, hfresh,
        hvisited, hcost⟩
    · exact hat.settle hspends hvisited (by omega)
    · refine .visited rfl hat.roots rfl ⟨hvisits.mode, hvisits.log⟩ he hfresh hvisited ?_
      have hpending := pending_le T s
      rw [hat.dirs_eq]
      omega
  | @retried f hat error hfirst =>
    refine hat.settle (.of_eq rfl rfl) rfl ?_
    have hdir := hlistable (by simp) hat
    -- the second try is still paid for
    have hagain : T.dir s.mode { f.dir with secondTry := true } + T.list = T.dir s.mode f.dir := by
      rw [Tariff.dir, Tariff.dir, if_neg hdir, if_neg hdir, hfirst]
      simp only [if_true, Bool.false_eq_true, if_false]
      omega
    rw [pushFront, Tariff.dirs_cons]
    omega
  | unlisted hat =>
    refine hat.settle (.of_eq rfl rfl) (visitedDirs_pushRemoval _ _ _) ?_
    rw [zero_add]
    exact dirs_pushRemoval _ (hlistable (by simp) hat)
  | linkSkipped hat =>
    have hle := (hlistable (by simp) hat).le_dir T
    exact hat.settle (.of_eq rfl rfl) rfl (by omega)
  | linkDeleted hat | linkHandled hat =>
    have hle := (hlistable (by simp) hat).le_dir T
    refine hat.settle (Spends.record s (by simp) _ _) rfl ?_
    rw [Tariff.price]
    omega

variable {events : List RecursiveEvent}

/-- The account along a run of results. -/
theorem ledger_run {budget : Nat} (hrun : (recursiveSystem sanitize).Run s events t)
    (hevents : ∀ e ∈ events, e.Result P size) (hs : Ledger T P size budget s) :
    Ledger T P size budget t := by
  refine (hrun.restrict (G := fun _ e => e.Result P size) fun e he _ => hevents e he).invariant
    (Ledger T P size budget) ?_ hs
  rintro s e t ⟨hstep, he⟩ h
  exact h.effect (effect_step h.awaiting he hstep)

theorem once_run (hawaiting : s.Awaiting) (hrun : (recursiveSystem sanitize).Run s events t)
    (hevents : ∀ e ∈ events, e.Result P size) (path : CServerPath) : Once path s t := by
  have hstart : Ledger ⟨1, 1, 1⟩ P size _ s := ⟨le_add_right _ _, hawaiting⟩
  refine ((hrun.restrict (G := fun _ e => e.Result P size) fun e he _ => hevents e he).invariant
    (fun u => Ledger ⟨1, 1, 1⟩ P size _ u ∧ Once path s u) ?_
    ⟨hstart, .start path s⟩).2
  rintro u e v ⟨hstep, he⟩ ⟨hledger, honce⟩
  have heffect := effect_step (T := ⟨1, 1, 1⟩) hledger.awaiting he hstep
  exact ⟨hledger.effect heffect, honce.effect heffect⟩

/-- What a run can cost, from its start. -/
theorem total_run (hnext : s.next) (hrun : (recursiveSystem sanitize).Run s events t)
    (hevents : ∀ e ∈ events, e.Result P size) :
    T.total t.log ≤ T.total s.log + (s.work * (2 * T.list + max T.removal T.other) +
      s.roots.length * (∑ path ∈ P, size path) * T.entry) := by
  have hstart : Ledger T P size (T.total s.log + s.cost T P size) s :=
    ⟨Nat.le_add_right _ _, awaiting_of_next hnext⟩
  refine (ledger_run hrun hevents hstart).total_le.trans ?_
  exact Nat.add_le_add_left s.cost_le _

end Bound

/-- After the start of an operation, with whatever results: at most two list commands for each
directory on the stacks and each entry of a listing, and at most four commands of all kinds. The
entries of a path are processed at most once while a root is in front. `P` are the paths that are
reported, and `size` bounds the number of entries for each. -/
theorem recursiveOperation_terminates (sanitize : WString → WString) (P : Finset CServerPath)
    (size : CServerPath → Nat) {s t : RecursiveOperation} {events : List RecursiveEvent}
    (hnext : s.next = true) (hrun : (recursiveSystem sanitize).Run s events t)
    (hevents : ∀ e ∈ events, e.Result P size) :
    (t.log.countP fun e => e.action.isList) ≤ (s.log.countP fun e => e.action.isList) +
      2 * (s.work + s.roots.length * ∑ path ∈ P, size path) ∧
    (t.log.countP fun e => e.action.isCommand) ≤ (s.log.countP fun e => e.action.isCommand) +
      4 * (s.work + s.roots.length * ∑ path ∈ P, size path) ∧
    ∀ path events' u, (recursiveSystem sanitize).Run t events' u →
      (∀ e ∈ events', e.Result P size) → u.roots.length = t.roots.length →
      u.processedCount path ≤ t.processedCount path + 1 := by
  refine ⟨?_, ?_, ?_⟩
  · -- a price of 1 for each list command
    have hlists := total_run (T := ⟨1, 0, 0⟩) hnext hrun hevents
    have hprice : ∀ action, Tariff.price ⟨1, 0, 0⟩ action = if action.isList then 1 else 0 := by
      intro action
      cases action <;> rfl
    rw [total_eq_countP _ hprice, total_eq_countP _ hprice] at hlists
    norm_num [Tariff.entry] at hlists
    omega
  · -- a price of 1 for every command
    have hcommands := total_run (T := ⟨1, 1, 1⟩) hnext hrun hevents
    have hprice : ∀ action, Tariff.price ⟨1, 1, 1⟩ action = if action.isCommand then 1 else 0 := by
      intro action
      cases action <;> rfl
    rw [total_eq_countP _ hprice, total_eq_countP _ hprice] at hcommands
    norm_num [Tariff.entry] at hcommands
    omega
  · intro path events' u hrun' hevents' hlength
    have hstart : Ledger ⟨1, 1, 1⟩ P size _ s := ⟨Nat.le_add_right _ _, awaiting_of_next hnext⟩
    have hawaiting := (ledger_run hrun hevents hstart).awaiting
    rcases once_run hawaiting hrun' hevents' path with hless | ⟨-, hcount⟩
    · omega
    · omega

/-- The user has asked for the directory `a` of `/r`. -/
def loopStart : RecursiveOperation :=
  (RecursiveOperation.new.addRecursionRoot
    (RecursionRoot.addDirToVisit { remoteStartDir := unixPath ["r"], allowParent := false }
      (unixPath ["r"]) ['a'] {} false)).startRecursiveOperation .list fun _ _ => false

/-- The directory cannot be listed at first, and the directory `b` in it leads back to it. -/
def loopResults : List RecursiveEvent :=
  [.next, .listingFailed Reply.error, .next,
    .processDirectoryListing
      (some ⟨unixPath ["r", "a"], [{ name := ['b'], isDir := true }], false⟩),
    .next,
    .processDirectoryListing
      (some ⟨unixPath ["r", "a"], [{ name := ['b'], isDir := true }], false⟩),
    .next, .next]

/-- There are three list commands, and the entries are processed once. -/
theorem recursiveOperation_terminates_loop : ∃ t : RecursiveOperation,
    (recursiveSystem id).Reach loopStart ∧ (recursiveSystem id).Run loopStart loopResults t ∧
    t.mode = .none ∧ t.processedCount (unixPath ["r", "a"]) = 1 ∧
    (t.log.countP fun e => e.action.isList) = 3 ∧
    (t.log.countP fun e => e.action.isList) ≤
      (loopStart.log.countP fun e => e.action.isList) + 2 * (loopStart.work +
        loopStart.roots.length * ∑ path ∈ {unixPath ["r", "a"]}, (fun _ => 1) path) := by
  have hstart : (recursiveSystem id).Reach loopStart := Lts.reach_ofFun
      [.addRecursionRoot (unixPath ["r"]) false [.dir (unixPath ["r"]) ['a'] {} false],
        .start .list fun _ _ => false] rfl rfl
  have hrun : (recursiveSystem id).Run loopStart loopResults _ := Lts.run_ofFun rfl
  have hevents : ∀ e ∈ loopResults, e.Result {unixPath ["r", "a"]} fun _ => 1 := by
    simp [loopResults, RecursiveEvent.Result, ReportedIn]
  exact ⟨_, hstart, hrun, rfl, rfl, rfl,
    (recursiveOperation_terminates id {unixPath ["r", "a"]} (fun _ => 1) rfl hrun hevents).1⟩

end FlintZilla
