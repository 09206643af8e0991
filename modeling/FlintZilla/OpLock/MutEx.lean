import FlintZilla.OpLock.Manager

/-!
# Mutual exclusion of operation locks

Both conflict checks grant a lock only when no granted lock of another row excludes it. `GrantStep`
says what a call can do to the rows; that it keeps the invariant is proved once, and each call is
shown to be a `GrantStep`.

Main results:

* `LockInv.grantStep`: a `GrantStep` keeps exclusion.
* `unlock_rows`, `obtainAt_cases`, `lock_cases`: what the calls do to the rows.
* `opLock_mutex`: two granted locks of one server never conflict.
-/

namespace FlintZilla

open Lib CServerPath List

/-- Neither waiting nor released. -/
def LockInfo.Granted (l : LockInfo) : Prop := l.waiting = false ∧ l.released = false

/-- Equal paths, or one lock inclusive and its path a proper ancestor of the other path. -/
def LockInfo.Conflict (l m : LockInfo) : Prop :=
  l.path = m.path ∨ (l.inclusive = true ∧ ProperAncestor l.path m.path) ∨
    (m.inclusive = true ∧ ProperAncestor m.path l.path)

variable {m : LockInfo}

theorem LockInfo.Conflict.symm {l : LockInfo} (h : l.Conflict m) : m.Conflict l := by
  rcases h with h | h | h
  · exact .inl h.symm
  · exact .inr (.inr h)
  · exact .inr (.inl h)

/-- The inner test of the conflict checks finds every conflict. -/
theorem LockInfo.excludes_of_conflict {l : LockInfo} (hm : m.Granted)
    (hreason : l.reason = m.reason) (h : l.Conflict m) :
    m.excludes l.reason l.path l.inclusive = true := by
  have hguard : (l.reason != m.reason || m.waiting || m.released) = false := by
    simp [hreason, hm.1, hm.2]
  simp only [LockInfo.excludes, hguard]
  rcases h with h | ⟨hincl, h⟩ | ⟨hincl, h⟩
  · simp [h]
  · simp [hincl, h.isParentOf]
  · simp [hincl, h.isParentOf]

/-- Only granted locks exclude others. -/
theorem LockInfo.granted_of_excludes {reason : LockingReason} {path : CServerPath}
    {inclusive : Bool} (h : m.excludes reason path inclusive) : m.Granted := by
  unfold LockInfo.excludes at h
  split_ifs at h with hguard
  · simp only [Bool.or_eq_true, not_or, Bool.not_eq_true] at hguard
    exact ⟨hguard.1.2, hguard.2⟩
  · simp only [Bool.or_eq_true, not_or, Bool.not_eq_true] at hguard
    exact ⟨hguard.1.2, hguard.2⟩

variable {Socket : Type}

/-! ## The invariant -/

structure LockInv (table : LockTable Socket) : Prop where
  /-- A socket has one row. -/
  unique : ∀ (i j : Nat) (a b : SocketLockInfo Socket) (s : Socket), table[i]? = some a →
    table[j]? = some b →
    a.controlSocket = some s → b.controlSocket = some s → i = j
  mutex : ∀ (i j : Nat) (a b : SocketLockInfo Socket), table[i]? = some a → table[j]? = some b →
    i ≠ j → a.server.equals b.server = true → ∀ l ∈ a.locks, ∀ m ∈ b.locks, l.Granted → m.Granted →
    l.reason = m.reason → ¬ l.Conflict m

/-- What a call may do to the rows: forget sockets and granted locks, and grant the locks `new` in
row `i`, none of which conflicts with a lock another row of the same server holds. -/
structure GrantStep (table table' : LockTable Socket) (i : Nat) (new : List LockInfo) : Prop where
  row : ∀ (k : Nat) (b : SocketLockInfo Socket), table'[k]? = some b →
    ∃ a, table[k]? = some a ∧ b.server = a.server ∧
    (b.controlSocket = a.controlSocket ∨ b.controlSocket = none) ∧
    ∀ l ∈ b.locks, l.Granted → l ∈ a.locks ∨ k = i ∧ l ∈ new
  free : ∀ (sli : SocketLockInfo Socket) (k : Nat) (other : SocketLockInfo Socket),
    table[i]? = some sli →
    table[k]? = some other → k ≠ i → other.server.equals sli.server = true → ∀ l ∈ new, l.Granted →
    ∀ m ∈ other.locks, m.Granted → l.reason = m.reason → ¬ l.Conflict m

variable {table table' : LockTable Socket} {i : Nat} {α : Type}

/-- What is new conflicts with nothing, and what was there before is no more than it was. -/
theorem LockInv.grantStep {new : List LockInfo} (hinv : LockInv table)
    (hstep : GrantStep table table' i new) : LockInv table' := by
  constructor
  · intro j k b c s hb hc hbs hcs
    obtain ⟨a, ha, -, hsock, -⟩ := hstep.row j b hb
    obtain ⟨a', ha', -, hsock', -⟩ := hstep.row k c hc
    -- no row changes its socket, except that it may lose it
    have hkept : ∀ {a b : SocketLockInfo Socket}, b.controlSocket = a.controlSocket ∨
        b.controlSocket = none → b.controlSocket = some s → a.controlSocket = some s := by
      rintro a b (h | h) hs
      · exact h.symm.trans hs
      · cases h.symm.trans hs
    exact hinv.unique j k a a' s ha ha' (hkept hsock hbs) (hkept hsock' hcs)
  · intro j k b c hb hc hjk hserver l hl m hm hgl hgm hreason
    obtain ⟨a, ha, hbserver, -, hlocks⟩ := hstep.row j b hb
    obtain ⟨a', ha', hcserver, -, hlocks'⟩ := hstep.row k c hc
    rw [hbserver, hcserver] at hserver
    rcases hlocks l hl hgl with hold | ⟨hji, hnew⟩
    · rcases hlocks' m hm hgm with hold' | ⟨hki, hnew'⟩
      · exact hinv.mutex j k a a' ha ha' hjk hserver l hold m hold' hgl hgm hreason
      · -- the new lock is in the second row
        subst hki
        intro hconf
        exact hstep.free a' j a ha' ha hjk hserver m hnew' hgm l hold hgl hreason.symm hconf.symm
    · -- the new lock is in the first row, so the second row did not change
      subst hji
      rcases hlocks' m hm hgm with hold' | ⟨hki, -⟩
      · exact hstep.free a k a' ha ha' (Ne.symm hjk) (CServer.equals_symm hserver) l hnew hgl m
          hold' hgm hreason
      · exact absurd hki.symm hjk

/-- A step that grants nothing. -/
theorem GrantStep.of_rows
    (h : ∀ (k : Nat) (b : SocketLockInfo Socket), table'[k]? = some b → ∃ a, table[k]? = some a ∧
      b.server = a.server ∧ (b.controlSocket = a.controlSocket ∨ b.controlSocket = none) ∧
      ∀ l ∈ b.locks, l.Granted → l ∈ a.locks) : GrantStep table table' 0 [] := by
  constructor
  · intro k b hb
    obtain ⟨a, ha, hserver, hsock, hlocks⟩ := h k b hb
    exact ⟨a, ha, hserver, hsock, fun l hl hg => .inl (hlocks l hl hg)⟩
  · intro _ _ _ _ _ _ _ l hl
    simp at hl

variable {table : LockTable Socket}

/-- Replacing row `i`: the other rows are as before. -/
theorem GrantStep.of_set {sli sli' : SocketLockInfo Socket}
    (new : List LockInfo) (hi : table[i]? = some sli) (hserver : sli'.server = sli.server)
    (hsock : sli'.controlSocket = sli.controlSocket ∨ sli'.controlSocket = none)
    (hlocks : ∀ l ∈ sli'.locks, l.Granted → l ∈ sli.locks ∨ l ∈ new)
    (hfree : ∀ (k : Nat) (other : SocketLockInfo Socket), table[k]? = some other → k ≠ i →
      other.server.equals sli.server = true → ∀ l ∈ new, l.Granted → ∀ m ∈ other.locks,
      m.Granted → l.reason = m.reason → ¬ l.Conflict m) :
    GrantStep table (table.set i sli') i new := by
  constructor
  · intro k b hb
    by_cases hk : i = k
    · subst hk
      rw [getElem?_set_self' , hi] at hb
      cases hb
      refine ⟨sli, hi, hserver, hsock, ?_⟩
      intro l hl hg
      rcases hlocks l hl hg with h | h
      · exact .inl h
      · exact .inr ⟨rfl, h⟩
    · rw [getElem?_set_ne hk] at hb
      exact ⟨b, hb, rfl, .inl rfl, fun l hl _ => .inl hl⟩
  · intro sli₀ k other hsli hother hk heq
    rw [hi] at hsli
    cases hsli
    exact hfree k other hother hk heq

/-! ## The calls -/

variable {l : List α}

theorem getElem?_set_of_some {a : α} (h : l[i]? = some a) (b : α) : (l.set i b)[i]? = some b :=
  List.getElem?_set_self (List.getElem?_eq_some_iff.mp h).1

/-- What is popped has the property. -/
theorem popBackWhile_append (p : α → Bool) (l : List α) :
    ∃ popped, l = popBackWhile p l ++ popped ∧ ∀ x ∈ popped, p x = true := by
  refine ⟨(l.reverse.takeWhile p).reverse, ?_, ?_⟩
  · have hsplit := congrArg reverse (takeWhile_append_dropWhile (p := p) (l := l.reverse))
    rw [reverse_append, reverse_reverse] at hsplit
    exact hsplit.symm
  · intro x hx
    exact mem_takeWhile_imp (mem_reverse.mp hx)

theorem length_popBackWhile_le (p : α → Bool) (l : List α) :
    (popBackWhile p l).length ≤ l.length := by
  obtain ⟨popped, hl, -⟩ := popBackWhile_append p l
  have hlen := congrArg length hl
  rw [length_append] at hlen
  omega

theorem popBackWhile_getElem? {p : α → Bool} {x : α} {k : Nat}
    (h : (popBackWhile p l)[k]? = some x) : l[k]? = some x := by
  obtain ⟨popped, hl, -⟩ := popBackWhile_append p l
  obtain ⟨hlt, -⟩ := List.getElem?_eq_some_iff.mp h
  rw [hl, getElem?_append_left hlt]
  exact h

variable {handle : OpLock} {wasWaiting : Bool}

/-- `b` is what `Unlock` may leave of the row `a`: a row that loses its socket is empty, and a
record was there before, at the same place, if it is not a tombstone. -/
structure RowLeft (a b : SocketLockInfo Socket) : Prop where
  server : b.server = a.server
  socket : b.controlSocket = a.controlSocket ∨ b.controlSocket = none ∧ b.locks = []
  length_le : b.locks.length ≤ a.locks.length
  locks : ∀ (j : Nat) (l : LockInfo), b.locks[j]? = some l →
    a.locks[j]? = some l ∨ l.waiting = false ∧ l.released = true

theorem RowLeft.refl (a : SocketLockInfo Socket) : RowLeft a a :=
  ⟨rfl, .inl rfl, le_rfl, fun _ _ hl => .inl hl⟩

variable {i k : Nat} {sli sli' b : SocketLockInfo Socket}

theorem RowLeft.of_set (hi : table[i]? = some sli) (hb : (table.set i sli')[k]? = some b)
    (hrow : RowLeft sli sli') : ∃ a, table[k]? = some a ∧ RowLeft a b := by
  by_cases hk : i = k
  · subst hk
    rw [getElem?_set_self', hi] at hb
    cases hb
    exact ⟨sli, hi, hrow⟩
  · rw [getElem?_set_ne hk] at hb
    exact ⟨b, hb, RowLeft.refl b⟩

variable {table table' : LockTable Socket}

/-- By the cases of `Unlock`: the record becomes a tombstone, or records and rows are popped. -/
theorem unlock_rows (h : unlock table handle = some (table', wasWaiting))
    (hb : table'[k]? = some b) :
    ∃ a, table[k]? = some a ∧ RowLeft a b := by
  unfold unlock at h
  split at h
  · cases h
  · next sli hsli =>
    split at h
    · cases h
    · next info hinfo =>
      simp only [Option.some.injEq, Prod.mk.injEq] at h
      rcases h with ⟨rfl, -⟩
      split_ifs at hb with hlast hempty hrow
      · -- the rows that remain are as they were
        have hb' := popBackWhile_getElem? hb
        rw [getElem?_dropLast] at hb'
        split_ifs at hb'
        exact ⟨b, hb', RowLeft.refl b⟩
      · refine RowLeft.of_set hsli hb ⟨rfl, .inr ⟨rfl, rfl⟩, Nat.zero_le _, ?_⟩
        intro j l hl
        cases hl
      · refine RowLeft.of_set hsli hb ⟨rfl, .inl rfl, ?_, ?_⟩
        · have hle := length_popBackWhile_le (·.released) sli.locks.dropLast
          rw [length_dropLast] at hle
          exact hle.trans (Nat.sub_le _ _)
        intro j l hl
        have hl' := popBackWhile_getElem? hl
        rw [getElem?_dropLast] at hl'
        split_ifs at hl'
        exact .inl hl'
      · refine RowLeft.of_set hsli hb ⟨rfl, .inl rfl, (length_set).le, ?_⟩
        intro j l hl
        by_cases hj : handle.lock = j
        · subst hj
          rw [getElem?_set_self', hinfo] at hl
          cases hl
          exact .inr ⟨rfl, rfl⟩
        · rw [getElem?_set_ne hj] at hl
          exact .inl hl

theorem LockInv.unlock (hinv : LockInv table)
    (h : unlock table handle = some (table', wasWaiting)) : LockInv table' := by
  refine hinv.grantStep (GrantStep.of_rows ?_)
  intro k b hb
  obtain ⟨a, ha, hrow⟩ := unlock_rows h hb
  refine ⟨a, ha, hrow.server, hrow.socket.imp_right And.left, ?_⟩
  intro l hl hgranted
  obtain ⟨j, hj⟩ := mem_iff_getElem?.mp hl
  rcases hrow.locks j l hj with hold | ⟨-, hreleased⟩
  · exact mem_of_getElem? hold
  · -- a tombstone is not granted
    rw [hgranted.2] at hreleased
    cases hreleased

/-- A lock of another row, of whatever server, keeps the lock `info` of row `i` from being
obtained. -/
def Blocked (table : LockTable Socket) (i : Nat) (info : LockInfo) : Prop :=
  ∃ (k : Nat) (other : SocketLockInfo Socket), k ≠ i ∧ table[k]? = some other ∧
    ∃ m ∈ other.locks, m.excludes info.reason info.path info.inclusive = true

/-- The check that `ObtainWaiting` makes. -/
theorem any_rows_eq_true_iff {info : LockInfo} :
    ((List.range table.length).any fun k => k != i && (table[k]?).any fun other =>
      other.locks.any fun lock => lock.excludes info.reason info.path info.inclusive) = true ↔
      Blocked table i info := by
  constructor
  · intro h
    obtain ⟨k, hk, hrow⟩ := any_eq_true.mp h
    rw [mem_range] at hk
    rw [Bool.and_eq_true, bne_iff_ne, getElem?_eq_getElem hk, Option.any_some,
      any_eq_true] at hrow
    exact ⟨k, table[k], hrow.1, getElem?_eq_getElem hk, hrow.2⟩
  · rintro ⟨k, other, hk, hother, hm⟩
    obtain ⟨hlt, -⟩ := List.getElem?_eq_some_iff.mp hother
    refine any_eq_true.mpr ⟨k, mem_range.mpr hlt, ?_⟩
    rw [Bool.and_eq_true, bne_iff_ne, hother, Option.any_some, any_eq_true]
    exact ⟨hk, hm⟩

/-- The private `ObtainWaiting` grants a waiting lock that is not blocked, and nothing else. -/
theorem obtainAt_cases (i : Nat) (st : LockTable Socket × Bool) (j : Nat) :
    (obtainAt i st j).1 = st.1 ∧ (∀ sli info, st.1[i]? = some sli → sli.locks[j]? = some info →
        info.waiting = true → Blocked st.1 i info) ∨
      ∃ sli info, st.1[i]? = some sli ∧ sli.locks[j]? = some info ∧ info.waiting = true ∧
        ¬ Blocked st.1 i info ∧ (obtainAt i st j).1 =
          st.1.set i { sli with locks := sli.locks.set j { info with waiting := false } } := by
  unfold obtainAt
  split
  · next hnone =>
    refine .inl ⟨rfl, ?_⟩
    intro sli info hsli
    rw [hnone] at hsli
    cases hsli
  · next sli hsli =>
    split
    · next hnone =>
      refine .inl ⟨rfl, ?_⟩
      intro sli' info hsli' hinfo
      rw [hsli] at hsli'
      cases hsli'
      rw [hnone] at hinfo
      cases hinfo
    · next info hinfo =>
      dsimp only
      split_ifs with hstop
      · refine .inl ⟨rfl, ?_⟩
        intro sli' info' hsli' hinfo' hwaiting
        rw [hsli] at hsli'
        cases hsli'
        rw [hinfo] at hinfo'
        cases hinfo'
        rw [Bool.or_eq_true, hwaiting, any_rows_eq_true_iff] at hstop
        rcases hstop with hstop | hstop
        · cases hstop
        · exact hstop
      · -- the lock waits and nothing is in its way
        rw [Bool.or_eq_true, not_or, any_rows_eq_true_iff] at hstop
        exact .inr ⟨sli, info, hsli, hinfo, by simpa using hstop.1, hstop.2, rfl⟩

/-- A lock that is granted is not blocked. -/
theorem LockInv.obtainAt {st : LockTable Socket × Bool} (hinv : LockInv st.1) (i j : Nat) :
    LockInv (obtainAt i st j).1 := by
  rcases obtainAt_cases i st j with ⟨hsame, -⟩ | ⟨sli, info, hsli, -, -, hfree, hset⟩
  · rw [hsame]
    exact hinv
  · rw [hset]
    refine hinv.grantStep (GrantStep.of_set [{ info with waiting := false }] hsli rfl
      (.inl rfl) ?_ ?_)
    · intro l hl _
      rcases mem_or_eq_of_mem_set hl with hl | rfl
      · exact .inl hl
      · exact .inr (by simp)
    · -- the check looks at every other row, of whatever server
      intro k other hother hk _ l hl _ m hm hgm hreason hconf
      rw [mem_singleton.mp hl] at hreason hconf
      exact hfree ⟨k, other, hk, hother, m, hm, LockInfo.excludes_of_conflict hgm hreason hconf⟩

section Calls

variable [DecidableEq Socket]

/-- The row of the socket. -/
theorem getOrCreate_spec (table : LockTable Socket) (socket : Socket) (server : CServer) :
    ∃ sli, (getOrCreate table socket server).1[(getOrCreate table socket server).2]? = some sli ∧
      sli.controlSocket = some socket := by
  unfold getOrCreate
  split
  · next i hfind =>
    rw [findIdx?_eq_some_iff_getElem] at hfind
    obtain ⟨hlt, hsock, -⟩ := hfind
    exact ⟨table[i], getElem?_eq_getElem hlt, by simpa using hsock⟩
  · exact ⟨⟨server, some socket, []⟩, by simp, rfl⟩

variable {table table' : LockTable Socket} {socket : Socket} {server : CServer} {k : Nat}
  {a : SocketLockInfo Socket}

theorem getElem?_getOrCreate (h : table[k]? = some a) :
    (getOrCreate table socket server).1[k]? = some a := by
  unfold getOrCreate
  split
  · exact h
  · obtain ⟨hlt, -⟩ := List.getElem?_eq_some_iff.mp h
    exact (getElem?_append_left hlt).trans h

/-- A new row holds no locks, and its socket had none before. -/
theorem getOrCreate_rows (h : (getOrCreate table socket server).1[k]? = some a) :
    table[k]? = some a ∨ k = table.length ∧ a = ⟨server, some socket, []⟩ ∧
      ∀ b ∈ table, b.controlSocket ≠ some socket := by
  unfold getOrCreate at h
  split at h
  · exact .inl h
  · next hfind =>
    rcases Nat.lt_or_ge k table.length with hk | hk
    · rw [getElem?_append_left hk] at h
      exact .inl h
    · rw [getElem?_append_right hk, getElem?_singleton] at h
      split_ifs at h with hzero
      cases h
      exact .inr ⟨by omega, rfl, by simpa using hfind⟩

/-- A new row has no locks. -/
theorem LockInv.getOrCreate (hinv : LockInv table) (socket : Socket) (server : CServer) :
    LockInv (getOrCreate table socket server).1 := by
  constructor
  · intro i j a b s ha hb has hbs
    rcases getOrCreate_rows ha with ha | ⟨hi, rfl, hfree⟩
    · rcases getOrCreate_rows hb with hb | ⟨-, rfl, hfree⟩
      · exact hinv.unique i j a b s ha hb has hbs
      · cases hbs
        exact absurd has (hfree a (mem_of_getElem? ha))
    · rcases getOrCreate_rows hb with hb | ⟨hj, -⟩
      · cases has
        exact absurd hbs (hfree b (mem_of_getElem? hb))
      · exact hi.trans hj.symm
  · intro i j a b ha hb hij hserver l hl m hm
    rcases getOrCreate_rows ha with ha | ⟨-, rfl, -⟩
    · rcases getOrCreate_rows hb with hb | ⟨-, rfl, -⟩
      · exact hinv.mutex i j a b ha hb hij hserver l hl m hm
      · cases hm
    · cases hl

variable {reason : LockingReason} {path : CServerPath} {inclusive : Bool} {handle : OpLock}

/-- What `Lock` does: the row of the socket, new or not, gets one more record. -/
theorem lock_cases (h : lock table socket server reason path inclusive = some (table', handle)) :
    ∃ sli waiting, (getOrCreate table socket server).1[handle.socket]? = some sli ∧
      sli.controlSocket = some socket ∧ handle.lock = sli.locks.length ∧
      waiting = ((getOrCreate table socket server).1.any fun other =>
        !(other.controlSocket == some socket || !other.server.equals sli.server) &&
          other.locks.any fun lock => lock.excludes reason path inclusive) ∧
      table' = (getOrCreate table socket server).1.set handle.socket
        { sli with locks := sli.locks ++ [⟨path, reason, inclusive, waiting, false⟩] } := by
  obtain ⟨sli, hsli, hsock⟩ := getOrCreate_spec table socket server
  simp only [FlintZilla.lock, hsli, Option.some.injEq, Prod.mk.injEq] at h
  obtain ⟨rfl, rfl⟩ := h
  exact ⟨sli, _, hsli, hsock, rfl, rfl, rfl⟩

/-- A lock that is granted at once. -/
theorem LockInv.lock (hinv : LockInv table)
    (h : lock table socket server reason path inclusive = some (table', handle)) :
    LockInv table' := by
  have hinv₀ := hinv.getOrCreate socket server
  obtain ⟨sli, waiting, hsli, hsock, -, hwaiting, rfl⟩ := lock_cases h
  refine hinv₀.grantStep (GrantStep.of_set _ hsli rfl (.inl rfl)
    (fun l hl _ => mem_append.mp hl) ?_)
  intro k other hother hk hserver l hl hgl m hm hgm hreason hconf
  -- a granted lock found no row that excludes it, and row `k` was among those looked at
  rw [mem_singleton.mp hl] at hgl hreason hconf
  have hfree := hwaiting.symm.trans hgl.1
  simp only [any_eq_false, Bool.and_eq_true, not_and] at hfree
  have hother' : other.controlSocket ≠ some socket := by
    intro hsame
    exact hk (hinv₀.unique k _ other sli socket hother hsli hsame hsock)
  refine hfree other (mem_of_getElem? hother) ?_ ?_
  · simp [hother', hserver]
  · rw [any_eq_true]
    exact ⟨m, hm, LockInfo.excludes_of_conflict hgm hreason hconf⟩

/-- What obtaining a lock keeps, `ObtainWaiting` keeps. -/
theorem obtainWaiting_induction (P : LockTable Socket → Prop)
    (hstep : ∀ (i : Nat) (st : LockTable Socket × Bool) (j : Nat), P st.1 → P (obtainAt i st j).1)
    (h : P table) (socket : Socket) : P (obtainWaiting table socket).1 := by
  refine foldlRecOn (motive := fun st : LockTable Socket × Bool => P st.1) _ _ h ?_
  intro st hst i _
  unfold FlintZilla.obtainRow
  split
  · exact hst
  · split_ifs
    · refine foldlRecOn (motive := fun st : LockTable Socket × Bool => P st.1) _ _ hst ?_
      intro st hst j _
      exact hstep i st j hst
    · exact hst

theorem LockInv.obtainWaiting (hinv : LockInv table) (socket : Socket) :
    LockInv (obtainWaiting table socket).1 :=
  obtainWaiting_induction LockInv (fun i _ j hst => LockInv.obtainAt hst i j) hinv socket

/-! ## Every interleaving -/

variable {s : OpLockState Socket}

/-- Each call. -/
theorem LockInv.step {s' : OpLockState Socket} {call : OpLockCall Socket}
    (hinv : LockInv s.table) (h : s.step call = some s') : LockInv s'.table := by
  cases call with
  | lock socket server reason path inclusive =>
    simp only [OpLockState.step, Option.map_eq_some_iff] at h
    obtain ⟨⟨table, handle⟩, hlock, rfl⟩ := h
    exact hinv.lock hlock
  | unlock k =>
    simp only [OpLockState.step] at h
    split at h
    · cases h
    · rw [Option.map_eq_some_iff] at h
      obtain ⟨⟨table, wasWaiting⟩, hunlock, rfl⟩ := h
      exact hinv.unlock hunlock
  | obtainWaiting socket =>
    cases h
    exact hinv.obtainWaiting socket
  | deliver k =>
    simp only [OpLockState.step] at h
    split at h
    · cases h
    · cases h
      exact hinv.obtainWaiting _

theorem opLockSystem_inv (h : (opLockSystem Socket).Reach s) : LockInv s.table := by
  refine Lts.Reach.invariant (fun s : OpLockState Socket => LockInv s.table) ?_ ?_ h
  · rintro s rfl
    constructor <;> simp
  · intro s call s' hstep hinv
    exact hinv.step hstep

/-- In every reachable state, granted locks of different sockets with the same recorded server and
the same reason do not conflict. -/
theorem opLock_mutex {s : OpLockState Socket} (h : (opLockSystem Socket).Reach s)
    {a b : SocketLockInfo Socket} (ha : a ∈ s.table) (hb : b ∈ s.table)
    (hsocket : a.controlSocket ≠ b.controlSocket) (hserver : a.server.equals b.server = true)
    {l m : LockInfo} (hl : l ∈ a.locks) (hm : m ∈ b.locks) (hgl : l.Granted) (hgm : m.Granted)
    (hreason : l.reason = m.reason) : ¬ l.Conflict m := by
  obtain ⟨i, hi⟩ := mem_iff_getElem?.mp ha
  obtain ⟨j, hj⟩ := mem_iff_getElem?.mp hb
  have hij : i ≠ j := by
    rintro rfl
    rw [hi] at hj
    cases hj
    exact hsocket rfl
  exact (opLockSystem_inv h).mutex i j a b hi hj hij hserver l hl m hm hgl hgm hreason

/-- Two sockets on one server: the second `mkdir` lock on `/a` waits until the first is unlocked, is
then obtained, and the first socket is granted one on `/b` beside it. -/
theorem opLock_mutex_two_sockets :
    let a : SocketLockInfo Bool :=
      ⟨{}, some true, [⟨ofText "/b".toList .unix, .mkdir, false, false, false⟩]⟩
    let b : SocketLockInfo Bool :=
      ⟨{}, some false, [⟨ofText "/a".toList .unix, .mkdir, false, false, false⟩]⟩
    (opLockSystem Bool).Reach ⟨[⟨{}, none, []⟩, b, a], [⟨1, 0⟩, ⟨2, 0⟩], [false]⟩ ∧
      ∀ l ∈ a.locks, ∀ m ∈ b.locks, l.Granted ∧ m.Granted ∧ ¬ l.Conflict m := by
  intro a b
  have hreach : (opLockSystem Bool).Reach ⟨[⟨{}, none, []⟩, b, a], [⟨1, 0⟩, ⟨2, 0⟩], [false]⟩ :=
    Lts.reach_ofFun [.lock true {} .mkdir (ofText "/a".toList .unix) false,
      .lock false {} .mkdir (ofText "/a".toList .unix) false, .unlock 0, .obtainWaiting false,
      .lock true {} .mkdir (ofText "/b".toList .unix) false] rfl rfl
  refine ⟨hreach, ?_⟩
  intro l hl m hm
  have hl' := mem_singleton.mp hl
  have hm' := mem_singleton.mp hm
  have hgl : l.Granted := by rw [hl']; exact ⟨rfl, rfl⟩
  have hgm : m.Granted := by rw [hm']; exact ⟨rfl, rfl⟩
  refine ⟨hgl, hgm, opLock_mutex hreach ?_ ?_ ?_ ?_ hl hm hgl hgm ?_⟩
  · simp
  · simp
  · simp [a, b]
  · decide
  · rw [hl', hm']

end Calls

end FlintZilla
