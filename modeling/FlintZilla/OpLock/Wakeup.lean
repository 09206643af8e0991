import FlintZilla.OpLock.Handles

/-!
# Waiting locks

`ObtainWaiting` is described once: in the row of the socket it grants the waiting locks that no lock
of another row excludes, and leaves the other rows alone. Two results follow. `Lock` decides about
the same lock in the same way unless a lock of another server excludes it, for `Lock` skips the rows
of other servers and `ObtainWaiting` does not. And no wakeup is lost: a lock that waits in vain is
blocked, or an event for its socket is on its way.

Main results:

* `obtainWaiting_eq`: what `ObtainWaiting` does to the table.
* `obtainWaiting_iff_lock`: when it decides as `Lock` does.
* `opLock_no_lost_wakeup`: a lock that waits is blocked, or its socket will be told.
-/

namespace FlintZilla

open Lib List

variable {Socket : Type}

/-! ## What `ObtainWaiting` does -/

variable {i : Nat} {table : LockTable Socket} {sli : SocketLockInfo Socket} {info : LockInfo}

instance : Decidable (Blocked table i info) := decidable_of_iff _ any_rows_eq_true_iff

/-- What `ObtainWaiting` makes of the lock `l` of row `i`. -/
def obtained (table : LockTable Socket) (i : Nat) (l : LockInfo) : LockInfo :=
  { l with waiting := l.waiting && decide (Blocked table i l) }

/-- A lock that is blocked, or does not wait, stays as it is. -/
theorem obtained_eq_self (h : info.waiting = true → Blocked table i info) :
    obtained table i info = info := by
  unfold obtained
  cases hwaiting : info.waiting with
  | false => rw [Bool.false_and, ← hwaiting]
  | true => rw [decide_eq_true (h hwaiting), Bool.and_true, ← hwaiting]

/-- The socket's own row does not block. -/
theorem blocked_set : Blocked (table.set i sli) i info ↔ Blocked table i info := by
  constructor
  · rintro ⟨k, other, hk, hother, hm⟩
    rw [getElem?_set_ne (Ne.symm hk)] at hother
    exact ⟨k, other, hk, hother, hm⟩
  · rintro ⟨k, other, hk, hother, hm⟩
    refine ⟨k, other, hk, ?_, hm⟩
    rw [getElem?_set_ne (Ne.symm hk)]
    exact hother

theorem obtained_set : obtained (table.set i sli) i = obtained table i := by
  funext l
  simp only [obtained, blocked_set]

theorem set_of_getElem? {α : Type} {l : List α} {a : α} (h : l[i]? = some a) : l.set i a = l := by
  obtain ⟨hlt, rfl⟩ := List.getElem?_eq_some_iff.mp h
  exact set_getElem_self hlt

variable {st : LockTable Socket × Bool}

/-- One round of the loop over the locks of a row. -/
theorem obtainAt_eq (hi : st.1[i]? = some sli) (j : Nat) : (obtainAt i st j).1 =
    st.1.set i { sli with locks := sli.locks.modify j (obtained st.1 i) } := by
  rw [modify_eq_set_getElem?]
  rcases obtainAt_cases i st j with ⟨heq, hstay⟩ | ⟨r, info, hr, hinfo, hwaiting, hfree, hset⟩
  · rw [heq]
    cases hinfo : sli.locks[j]? with
    | none => exact (set_of_getElem? hi).symm
    | some info =>
      change _ = st.1.set i { sli with locks := sli.locks.set j (obtained st.1 i info) }
      rw [obtained_eq_self (hstay sli info hi hinfo), set_of_getElem? hinfo, set_of_getElem? hi]
  · rw [hi] at hr
    cases hr
    rw [hset, hinfo]
    simp [obtained, hfree]

/-- The loop over locks of a row. -/
theorem foldl_obtainAt (hi : st.1[i]? = some sli) (js : List Nat) :
    (js.foldl (obtainAt i) st).1 = st.1.set i { sli with
      locks := js.foldl (fun l j => l.modify j (obtained st.1 i)) sli.locks } := by
  induction js generalizing st sli with
  | nil => exact (set_of_getElem? hi).symm
  | cons j js ih =>
    have hstep := obtainAt_eq hi j
    have hi' := getElem?_set_of_some hi { sli with locks := sli.locks.modify j (obtained st.1 i) }
    rw [← hstep] at hi'
    rw [foldl_cons, ih hi', hstep, obtained_set, set_set]
    rfl

/-- A loop that changes each element in place is `map`. -/
theorem foldl_modify {α : Type} (f : α → α) (l : List α) :
    (range l.length).foldl (fun l j => l.modify j f) l = l.map f := by
  have hloop : ∀ n k, ((range n).foldl (fun l j => l.modify j f) l)[k]? =
      if k < n then (l[k]?).map f else l[k]? := by
    intro n k
    induction n with
    | zero => rfl
    | succ n ih =>
      rw [range_succ, foldl_append, foldl_cons, foldl_nil, getElem?_modify, ih]
      split_ifs <;> first | omega | simp
  refine ext_getElem? fun k => ?_
  rw [hloop, getElem?_map]
  split_ifs with hk
  · rfl
  · rw [getElem?_eq_none (Nat.le_of_not_lt hk)]
    rfl

section Calls

variable [DecidableEq Socket] {socket : Socket} {k : Nat} {a : SocketLockInfo Socket}

/-- What `ObtainWaiting` makes of row `k`. -/
def rowObtained (table : LockTable Socket) (socket : Socket) (k : Nat)
    (a : SocketLockInfo Socket) : SocketLockInfo Socket :=
  if a.controlSocket = some socket then { a with locks := a.locks.map (obtained table k) } else a

theorem rowObtained_of_ne (h : a.controlSocket ≠ some socket) :
    rowObtained table socket k a = a := if_neg h

theorem rowObtained_controlSocket :
    (rowObtained table socket k a).controlSocket = a.controlSocket := by
  unfold rowObtained
  split_ifs <;> rfl

/-- The row of the socket, as a whole. -/
theorem obtainRow_eq (st : LockTable Socket × Bool) (k : Nat) :
    (obtainRow socket st k).1 = st.1.modify k (rowObtained st.1 socket k) := by
  unfold obtainRow
  rw [modify_eq_set_getElem?]
  cases hk : st.1[k]? with
  | none => rfl
  | some a =>
    change _ = st.1.set k (rowObtained st.1 socket k a)
    unfold rowObtained
    dsimp only
    split_ifs with hsocket
    · rw [foldl_obtainAt hk, foldl_modify]
    · exact (set_of_getElem? hk).symm

/-- The row of the socket, and only that row, changes. -/
theorem obtainWaiting_eq (hinv : LockInv table) (socket : Socket) :
    (obtainWaiting table socket).1 = table.mapIdx (rowObtained table socket) := by
  have hloop : ∀ n k, ((range n).foldl (obtainRow socket) (table, false)).1[k]? =
      (table[k]?).map fun a => if k < n then rowObtained table socket k a else a := by
    intro n
    induction n with
    | zero => simp
    | succ n ih =>
      intro k
      rw [range_succ, foldl_append, foldl_cons, foldl_nil, obtainRow_eq,
        getElem?_modify]
      generalize (range n).foldl (obtainRow socket) (table, false) = st at ih
      rw [ih]
      cases ha : table[k]? with
      | none => rfl
      | some a =>
        by_cases hk : n = k
        · subst hk
          have hrow : rowObtained st.1 socket n a = rowObtained table socket n a := by
            by_cases hsocket : a.controlSocket = some socket
            · -- the rows before this one belong to other sockets
              have hst : st.1 = table := by
                refine ext_getElem? fun j => ?_
                rw [ih]
                cases hb : table[j]? with
                | none => rfl
                | some b =>
                  rw [Option.map_some]
                  split_ifs with hj
                  · rw [rowObtained_of_ne]
                    intro hsame
                    exact absurd (hinv.unique j n b a socket hb ha hsame hsocket) (Nat.ne_of_lt hj)
                  · rfl
              rw [hst]
            · rw [rowObtained_of_ne hsocket, rowObtained_of_ne hsocket]
          simp [hrow]
        · have hlt : k < n + 1 ↔ k < n := by omega
          simp [hk, hlt]
  refine ext_getElem? fun k => ?_
  rw [getElem?_mapIdx, obtainWaiting, hloop]
  cases ha : table[k]? with
  | none => rfl
  | some a =>
    obtain ⟨hlt, -⟩ := List.getElem?_eq_some_iff.mp ha
    rw [Option.map_some, if_pos hlt, Option.map_some]

/-- A granted lock is as it was. -/
theorem mem_rowObtained_granted (h : info ∈ a.locks) (hgranted : info.Granted) :
    info ∈ (rowObtained table socket k a).locks := by
  unfold rowObtained
  split_ifs
  · refine mem_map.mpr ⟨info, h, obtained_eq_self ?_⟩
    intro hwaiting
    rw [hgranted.1] at hwaiting
    cases hwaiting
  · exact h

/-- A lock that waits afterwards waited before, and in the row of the socket it is blocked. -/
theorem mem_rowObtained_waiting (h : info ∈ (rowObtained table socket k a).locks)
    (hwaiting : info.waiting) :
    info ∈ a.locks ∧ (a.controlSocket = some socket → Blocked table k info) := by
  unfold rowObtained at h
  split_ifs at h with hsocket
  · obtain ⟨l, hl, rfl⟩ := mem_map.mp h
    have hblocked : Blocked table k l := of_decide_eq_true (Bool.and_eq_true_iff.mp hwaiting).2
    rw [obtained_eq_self fun _ => hblocked]
    exact ⟨hl, fun _ => hblocked⟩
  · exact ⟨h, fun hsame => absurd hsame hsocket⟩

/-- A waiting lock is obtained if no lock of another row excludes it. -/
theorem waiting_obtainWaiting (hinv : LockInv table) {j : Nat} (hi : table[i]? = some sli)
    (hsocket : sli.controlSocket = some socket) (hinfo : sli.locks[j]? = some info)
    (hwaiting : info.waiting) :
    waiting (obtainWaiting table socket).1 ⟨i, j⟩ = some false ↔ ¬ Blocked table i info := by
  rw [obtainWaiting_eq hinv]
  simp [waiting, hi, rowObtained, hsocket, hinfo, obtained, hwaiting]

/-! ## `Lock` and `ObtainWaiting` -/

/-- A lock of another row excludes the lock `info` of row `i`; the server of that row is `server` or
is another one. -/
def ExcludedBy (same : Bool) (table : LockTable Socket) (i : Nat) (server : CServer)
    (info : LockInfo) : Prop :=
  ∃ (k : Nat) (other : SocketLockInfo Socket), k ≠ i ∧ table[k]? = some other ∧
    other.server.equals server = same ∧
    ∃ m ∈ other.locks, m.excludes info.reason info.path info.inclusive = true

omit [DecidableEq Socket] in
/-- A lock of the same server, or of another one. -/
theorem blocked_iff_excludedBy (server : CServer) : Blocked table i info ↔
    ExcludedBy true table i server info ∨ ExcludedBy false table i server info := by
  constructor
  · rintro ⟨k, other, hk, hother, hm⟩
    cases hserver : other.server.equals server with
    | true => exact .inl ⟨k, other, hk, hother, hserver, hm⟩
    | false => exact .inr ⟨k, other, hk, hother, hserver, hm⟩
  · rintro (⟨k, other, hk, hother, -, hm⟩ | ⟨k, other, hk, hother, -, hm⟩) <;>
      exact ⟨k, other, hk, hother, hm⟩

/-- `Lock` looks at the rows of other sockets with the same server. -/
theorem waiting_lock (hinv : LockInv table) (hi : table[i]? = some sli)
    (hsocket : sli.controlSocket = some socket) (server : CServer) (info : LockInfo) :
    ∃ table' handle w, lock table socket server info.reason info.path info.inclusive =
      some (table', handle) ∧ waiting table' handle = some w ∧
        (w = true ↔ ExcludedBy true table i sli.server info) := by
  -- a socket has one row at most, so its row is the one that is found
  have hfind : table.findIdx? (fun sli => sli.controlSocket == some socket) = some i := by
    rw [findIdx?_eq_some_iff_getElem]
    obtain ⟨hlt, rfl⟩ := List.getElem?_eq_some_iff.mp hi
    refine ⟨hlt, by simpa using hsocket, ?_⟩
    intro k hk
    have hk' : table[k]? = some table[k] := getElem?_eq_getElem (hk.trans hlt)
    rw [beq_iff_eq]
    intro hsame
    exact absurd (hinv.unique k i _ _ socket hk' hi hsame hsocket) (Nat.ne_of_lt hk)
  have hcreate : getOrCreate table socket server = (table, i) := by simp [getOrCreate, hfind]
  simp only [lock, hcreate, hi]
  refine ⟨_, _, table.any fun other =>
    !(other.controlSocket == some socket || !other.server.equals sli.server) &&
      other.locks.any fun lock => lock.excludes info.reason info.path info.inclusive, rfl, ?_, ?_⟩
  · simp only [waiting, getElem?_set_of_some hi, getElem?_concat_length, Option.map_some]
  simp only [any_eq_true, Bool.and_eq_true, Bool.not_eq_true', Bool.or_eq_false_iff,
    beq_eq_false_iff_ne, Bool.not_eq_false']
  constructor
  · rintro ⟨other, hmem, ⟨hne, hserver⟩, hm⟩
    obtain ⟨k, hk⟩ := mem_iff_getElem?.mp hmem
    refine ⟨k, other, ?_, hk, hserver, hm⟩
    rintro rfl
    rw [hi] at hk
    cases hk
    exact hne hsocket
  · rintro ⟨k, other, hne, hk, hserver, hm⟩
    refine ⟨other, mem_of_getElem? hk, ⟨?_, hserver⟩, hm⟩
    intro hsame
    exact hne (hinv.unique k i other sli socket hk hi hsame hsocket)

/-- Whether a waiting lock is obtained by `ObtainWaiting` is the same as whether `Lock` would grant
it, exactly if no lock of a row of another server excludes it or one of the same server does so as
well. -/
theorem obtainWaiting_iff_lock {s : OpLockState Socket} (h : (opLockSystem Socket).Reach s)
    {socket : Socket} {i j : Nat} {sli : SocketLockInfo Socket} {info : LockInfo}
    (hi : s.table[i]? = some sli) (hsocket : sli.controlSocket = some socket)
    (hinfo : sli.locks[j]? = some info) (hwaiting : info.waiting = true) (server : CServer) :
    (waiting (obtainWaiting s.table socket).1 ⟨i, j⟩ = some false ↔
      ∃ table handle, lock s.table socket server info.reason info.path info.inclusive =
        some (table, handle) ∧ waiting table handle = some false) ↔
      ¬ExcludedBy false s.table i sli.server info ∨ ExcludedBy true s.table i sli.server info := by
  have hinv := opLockSystem_inv h
  obtain ⟨table, handle, w, hlock, hw, hiff⟩ := waiting_lock hinv hi hsocket server info
  have hgrants : (∃ table handle, lock s.table socket server info.reason info.path info.inclusive =
      some (table, handle) ∧ waiting table handle = some false) ↔
      ¬ExcludedBy true s.table i sli.server info := by
    simp only [hlock, ← hiff, Option.some.injEq, Prod.mk.injEq]
    constructor
    · rintro ⟨_, _, ⟨rfl, rfl⟩, hno⟩
      rw [hw] at hno
      simpa using hno
    · intro hno
      refine ⟨table, handle, ⟨rfl, rfl⟩, ?_⟩
      rw [hw]
      simpa using hno
  rw [waiting_obtainWaiting hinv hi hsocket hinfo hwaiting, hgrants,
    blocked_iff_excludedBy sli.server]
  tauto

/-- Two sockets on one server: the second waits for `/a`, and after the first has unlocked it both
functions grant it. -/
theorem obtainWaiting_iff_lock_two_sockets :
    ∃ s : OpLockState Bool, (opLockSystem Bool).Reach s ∧ s.events = [false] ∧
      waiting s.table ⟨1, 0⟩ = some true ∧
      (waiting (obtainWaiting s.table false).1 ⟨1, 0⟩ = some false ↔
        ∃ table handle, lock s.table false {} .mkdir (CServerPath.ofText "/a".toList .unix) false =
          some (table, handle) ∧ waiting table handle = some false) := by
  have hreach : (opLockSystem Bool).Reach ⟨[⟨{}, none, []⟩, ⟨{}, some false,
      [⟨CServerPath.ofText "/a".toList .unix, .mkdir, false, true, false⟩]⟩], [⟨1, 0⟩], [false]⟩ :=
    Lts.reach_ofFun [.lock true {} .mkdir (CServerPath.ofText "/a".toList .unix) false,
      .lock false {} .mkdir (CServerPath.ofText "/a".toList .unix) false, .unlock 0] rfl rfl
  refine ⟨_, hreach, rfl, rfl, (@obtainWaiting_iff_lock Bool _ _ hreach false 1 0 _
    ⟨CServerPath.ofText "/a".toList .unix, .mkdir, false, true, false⟩ rfl rfl rfl rfl {}).mpr ?_⟩
  -- the row of the first socket is the only other one, and it is empty
  left
  rintro ⟨k, other, hk, hother, -, m, hm, -⟩
  rcases k with _ | _ | k
  · cases hother
    cases hm
  · exact hk rfl
  · cases hother

/-- The second socket is on another server and holds the path there. The third waits for the first,
and is not granted the lock when the first is done, though a new call of `Lock` would be. -/
theorem obtainWaiting_refuses_other_server :
    ∃ s : OpLockState (Fin 3), (opLockSystem (Fin 3)).Reach s ∧ s.events = [2] ∧
      waiting s.table ⟨2, 0⟩ = some true ∧
      waiting (obtainWaiting s.table 2).1 ⟨2, 0⟩ = some true ∧
      ∃ table handle, lock s.table 2 {} .mkdir (CServerPath.ofText "/a".toList .unix) false =
        some (table, handle) ∧ waiting table handle = some false := by
  have hreach : (opLockSystem (Fin 3)).Reach _ := Lts.reach_ofFun
      [.lock 0 {} .mkdir (CServerPath.ofText "/a".toList .unix) false,
        .lock 1 { port := 2121 } .mkdir (CServerPath.ofText "/a".toList .unix) false,
        .lock 2 {} .mkdir (CServerPath.ofText "/a".toList .unix) false, .unlock 0] rfl rfl
  exact ⟨_, hreach, rfl, rfl, by decide, _, _, rfl, by decide⟩

end Calls

/-! ## No lost wakeup -/

/-- What blocks a lock goes on blocking it if it stays in its row. -/
theorem Blocked.mono {table' : LockTable Socket} (h : Blocked table i info)
    (hkeep : ∀ (k : Nat) (other : SocketLockInfo Socket) (m : LockInfo), table[k]? = some other →
      m ∈ other.locks → m.Granted → ∃ other', table'[k]? = some other' ∧ m ∈ other'.locks) :
    Blocked table' i info := by
  obtain ⟨k, other, hk, hother, m, hm, hexcludes⟩ := h
  obtain ⟨other', hother', hm'⟩ :=
    hkeep k other m hother hm (LockInfo.granted_of_excludes hexcludes)
  exact ⟨k, other', hk, hother', m, hm', hexcludes⟩

/-- A lock that waits is blocked, or its socket has an event coming. -/
structure WakeInv (s : OpLockState Socket) : Prop where
  inv : LockInv s.table
  /-- A row without a socket is empty. -/
  live : ∀ (i : Nat) (sli : SocketLockInfo Socket), s.table[i]? = some sli →
    sli.controlSocket = none → sli.locks = []
  woken : ∀ (i : Nat) (sli : SocketLockInfo Socket) (socket : Socket) (l : LockInfo),
    s.table[i]? = some sli → sli.controlSocket = some socket → l ∈ sli.locks → l.waiting = true →
    Blocked s.table i l ∨ socket ∈ s.events

namespace WakeInv

variable {s : OpLockState Socket} {k : Nat}

/-- A granted lock has a socket. -/
theorem socket_ne_none (hinv : WakeInv s) {other : SocketLockInfo Socket} {m : LockInfo}
    (hother : s.table[k]? = some other) (hm : m ∈ other.locks) : other.controlSocket ≠ none := by
  intro hnone
  rw [hinv.live k other hother hnone] at hm
  cases hm

variable {handle : OpLock} {table' : LockTable Socket} {wasWaiting : Bool}

/-- What waits after `Unlock` has waited before. -/
theorem unlock_waits {table : LockTable Socket}
    (h : unlock table handle = some (table', wasWaiting)) {b : SocketLockInfo Socket} {l : LockInfo}
    (hb : table'[k]? = some b) (hl : l ∈ b.locks) (hwaiting : l.waiting) :
    ∃ a, table[k]? = some a ∧ b.controlSocket = a.controlSocket ∧ l ∈ a.locks := by
  obtain ⟨a, ha, hrow⟩ := unlock_rows h hb
  obtain ⟨j, hj⟩ := mem_iff_getElem?.mp hl
  refine ⟨a, ha, ?_, ?_⟩
  · rcases hrow.socket with hsame | ⟨-, hempty⟩
    · exact hsame
    · rw [hempty] at hl
      cases hl
  · rcases hrow.locks j l hj with hold | ⟨hno, -⟩
    · exact mem_of_getElem? hold
    · rw [hwaiting] at hno
      cases hno

/-- The lock that goes was waiting, and so kept nobody waiting. -/
theorem unlock_blocked (hinv : WakeInv s)
    (h : FlintZilla.unlock s.table handle = some (table', true)) {i : Nat} {info : LockInfo}
    (hblocked : Blocked s.table i info) : Blocked table' i info := by
  apply hblocked.mono
  intro k other m hother hm hgranted
  obtain ⟨j, hj⟩ := mem_iff_getElem?.mp hm
  have hne : OpLock.mk k j ≠ handle := by
    rintro rfl
    unfold FlintZilla.unlock at h
    simp only [hother, hj, Option.some.injEq, Prod.mk.injEq] at h
    rw [hgranted.1] at h
    cases h.2
  obtain ⟨b, hb, -, -, hbj⟩ :=
    unlock_keeps h hother (hinv.socket_ne_none hother hm) hj hgranted.2 hne
  exact ⟨b, hb, mem_of_getElem? hbj⟩

/-- A lock that was granted and is released wakes the others up. -/
theorem unlock (hinv : WakeInv s) (h : FlintZilla.unlock s.table handle = some (table', wasWaiting))
    (handles : List OpLock) :
    WakeInv ⟨table', handles, if wasWaiting then s.events else s.events ++ wakeup table'⟩ where
  inv := hinv.inv.unlock h
  live := by
    intro i sli hsli hnone
    obtain ⟨a, ha, hrow⟩ := unlock_rows h hsli
    rcases hrow.socket with hsame | ⟨-, hempty⟩
    · have hle := hrow.length_le
      rw [hinv.live i a ha (hsame.symm.trans hnone)] at hle
      exact eq_nil_of_length_eq_zero (Nat.le_zero.mp hle)
    · exact hempty
  woken := by
    intro i sli socket l hsli hsocket hl hwaiting
    cases wasWaiting with
    | true =>
      obtain ⟨a, ha, hsame, hla⟩ := unlock_waits h hsli hl hwaiting
      rcases hinv.woken i a socket l ha (hsame.symm.trans hsocket) hla hwaiting with hb | he
      · exact .inl (hinv.unlock_blocked h hb)
      · exact .inr he
    | false =>
      -- every socket with a waiting lock is sent an event
      refine .inr (mem_append_right _ (mem_filterMap.mpr ⟨sli, ?_, ?_⟩))
      · exact mem_of_getElem? hsli
      · rw [if_pos (any_eq_true.mpr ⟨l, hl, hwaiting⟩)]
        exact hsocket

section Calls

variable [DecidableEq Socket]

theorem getOrCreate (hinv : WakeInv s) (socket : Socket) (server : CServer) :
    WakeInv { s with table := (FlintZilla.getOrCreate s.table socket server).1 } where
  inv := hinv.inv.getOrCreate socket server
  live := by
    intro k b hb hnone
    rcases getOrCreate_rows hb with hb | ⟨-, rfl, -⟩
    · exact hinv.live k b hb hnone
    · rfl
  woken := by
    intro k b so l hb hso hl hwaiting
    rcases getOrCreate_rows hb with hb | ⟨-, rfl, -⟩
    · refine (hinv.woken k b so l hb hso hl hwaiting).imp_left fun hblocked => hblocked.mono ?_
      intro k other m hother hm _
      exact ⟨other, getElem?_getOrCreate hother, hm⟩
    · cases hl

/-- A new lock waits only if another one excludes it. -/
theorem lock (hinv : WakeInv s) {table' : LockTable Socket} {socket : Socket} {server : CServer}
    {reason : LockingReason} {path : CServerPath} {inclusive : Bool} {handle : OpLock}
    (h : FlintZilla.lock s.table socket server reason path inclusive = some (table', handle))
    (handles : List OpLock) : WakeInv ⟨table', handles, s.events⟩ := by
  have hlock := hinv.inv.lock h
  have hinv₀ := hinv.getOrCreate socket server
  obtain ⟨sli, w, hsli, hsock, -, hw, rfl⟩ := lock_cases h
  generalize (FlintZilla.getOrCreate s.table socket server).1 = table₀ at *
  refine ⟨hlock, ?_, ?_⟩
  · intro k b hb hnone
    by_cases hk : handle.socket = k
    · subst hk
      rw [getElem?_set_of_some hsli] at hb
      cases hb
      rw [hsock] at hnone
      cases hnone
    · rw [getElem?_set_ne hk] at hb
      exact hinv₀.live k b hb hnone
  · -- the locks there were, and the new one
    have hwoken : ∀ (k : Nat) (b : SocketLockInfo Socket) (so : Socket) (l : LockInfo),
        table₀[k]? = some b → b.controlSocket = some so → l ∈ b.locks → l.waiting = true →
        Blocked (table₀.set handle.socket
          { sli with locks := sli.locks ++ [⟨path, reason, inclusive, w, false⟩] }) k l ∨
          so ∈ s.events := by
      intro k b so l hb hso hl hwaiting
      refine (hinv₀.woken k b so l hb hso hl hwaiting).imp_left fun hblocked => hblocked.mono ?_
      intro k other m hother hm _
      by_cases hk : handle.socket = k
      · subst hk
        cases hsli.symm.trans hother
        exact ⟨_, getElem?_set_of_some hsli _, mem_append_left _ hm⟩
      · exact ⟨other, (getElem?_set_ne hk).trans hother, hm⟩
    intro k b so l hb hso hl hwaiting
    by_cases hk : handle.socket = k
    · subst hk
      rw [getElem?_set_of_some hsli] at hb
      cases hb
      rcases mem_append.mp hl with hl | hl
      · exact hwoken _ sli so l hsli hso hl hwaiting
      · rw [mem_singleton] at hl
        subst hl
        -- it waits for a lock of another socket, that is, of another row
        have hany : w = true := hwaiting
        rw [hw, any_eq_true] at hany
        obtain ⟨other, hmem, hother⟩ := hany
        obtain ⟨r, hr⟩ := mem_iff_getElem?.mp hmem
        simp only [Bool.and_eq_true, Bool.not_eq_true', Bool.or_eq_false_iff, beq_eq_false_iff_ne,
          Bool.not_eq_false', any_eq_true] at hother
        have hne : r ≠ handle.socket := by
          rintro rfl
          cases hsli.symm.trans hr
          exact hother.1.1 hsock
        refine .inl ⟨r, other, hne, ?_, hother.2⟩
        rw [getElem?_set_ne (Ne.symm hne)]
        exact hr
    · rw [getElem?_set_ne hk] at hb
      exact hwoken k b so l hb hso hl hwaiting

/-- After `ObtainWaiting` the locks of the socket that still wait are blocked, and so are those of
other sockets that were. -/
theorem obtainWaiting (hinv : WakeInv s) (socket : Socket) {events : List Socket}
    (hevents : ∀ so ∈ s.events, so ≠ socket → so ∈ events) :
    WakeInv ⟨(FlintZilla.obtainWaiting s.table socket).1, s.handles, events⟩ := by
  have hlock := hinv.inv.obtainWaiting socket
  rw [obtainWaiting_eq hinv.inv] at hlock ⊢
  have hkeep : ∀ (i : Nat) (l : LockInfo), Blocked s.table i l →
      Blocked (s.table.mapIdx (rowObtained s.table socket)) i l := by
    intro i l hblocked
    apply hblocked.mono
    intro k other m hother hm hgranted
    refine ⟨rowObtained s.table socket k other, ?_, mem_rowObtained_granted hm hgranted⟩
    rw [getElem?_mapIdx, hother, Option.map_some]
  refine ⟨hlock, ?_, ?_⟩
  · intro k b hb hnone
    rw [getElem?_mapIdx, Option.map_eq_some_iff] at hb
    obtain ⟨a, ha, rfl⟩ := hb
    rw [rowObtained_controlSocket] at hnone
    rw [rowObtained_of_ne (by simp [hnone])]
    exact hinv.live k a ha hnone
  · intro k b so l hb hso hl hwaiting
    rw [getElem?_mapIdx, Option.map_eq_some_iff] at hb
    obtain ⟨a, ha, rfl⟩ := hb
    rw [rowObtained_controlSocket] at hso
    obtain ⟨hold, hblocked⟩ := mem_rowObtained_waiting hl hwaiting
    by_cases hsame : so = socket
    · subst hsame
      exact .inl (hkeep k l (hblocked hso))
    · rcases hinv.woken k a so l ha hso hold hwaiting with hb | he
      · exact .inl (hkeep k l hb)
      · exact .inr (hevents so he hsame)

/-- Each call. -/
theorem step (hinv : WakeInv s) {t : OpLockState Socket} {call : OpLockCall Socket}
    (h : s.step call = some t) : WakeInv t := by
  cases call with
  | lock socket server reason path inclusive =>
    simp only [OpLockState.step, Option.map_eq_some_iff] at h
    obtain ⟨⟨table, handle⟩, hlock, rfl⟩ := h
    exact hinv.lock hlock _
  | unlock k =>
    simp only [OpLockState.step] at h
    split at h
    · cases h
    · rw [Option.map_eq_some_iff] at h
      obtain ⟨⟨table, wasWaiting⟩, hunlock, rfl⟩ := h
      exact hinv.unlock hunlock _
  | obtainWaiting socket =>
    cases h
    exact hinv.obtainWaiting socket fun so hso _ => hso
  | deliver k =>
    simp only [OpLockState.step] at h
    split at h
    · cases h
    · next socket hk =>
      cases h
      refine hinv.obtainWaiting socket ?_
      -- the event that was delivered was one for this socket
      intro so hso hne
      obtain ⟨j, hj⟩ := mem_iff_getElem?.mp hso
      refine mem_eraseIdx_iff_getElem?.mpr ⟨j, ?_, hj⟩
      rintro rfl
      rw [hk] at hj
      exact hne (Option.some.inj hj).symm

end Calls

end WakeInv

/-- No wakeup is lost: whenever `ObtainWaiting` would grant a waiting lock, an event for the socket
of the lock is on its way. -/
theorem opLock_no_lost_wakeup [DecidableEq Socket] {s : OpLockState Socket}
    (h : (opLockSystem Socket).Reach s) {socket : Socket} {i j : Nat} {sli : SocketLockInfo Socket}
    {info : LockInfo} (hi : s.table[i]? = some sli) (hsocket : sli.controlSocket = some socket)
    (hinfo : sli.locks[j]? = some info) (hwaiting : info.waiting = true)
    (hgrant : waiting (obtainWaiting s.table socket).1 ⟨i, j⟩ = some false) :
    socket ∈ s.events := by
  have hinv : WakeInv s := by
    refine Lts.Reach.invariant WakeInv ?_ ?_ h
    · rintro s rfl
      exact ⟨⟨by simp, by simp⟩, by simp, by simp⟩
    · intro s call t hstep hs
      exact hs.step hstep
  rw [waiting_obtainWaiting hinv.inv hi hsocket hinfo hwaiting] at hgrant
  rcases hinv.woken i sli socket info hi hsocket (mem_of_getElem? hinfo) hwaiting with hb | he
  · exact absurd hb hgrant
  · exact he

/-- The second socket waits for `/a`; the first unlocks it, and the event stays pending while the
first goes on to lock `/b`. -/
theorem opLock_no_lost_wakeup_two_sockets :
    ∃ s : OpLockState Bool, (opLockSystem Bool).Reach s ∧ waiting s.table ⟨1, 0⟩ = some true ∧
      waiting (obtainWaiting s.table false).1 ⟨1, 0⟩ = some false ∧ false ∈ s.events := by
  have hreach : (opLockSystem Bool).Reach _ := Lts.reach_ofFun
      [.lock true {} .mkdir (CServerPath.ofText "/a".toList .unix) false,
        .lock false {} .mkdir (CServerPath.ofText "/a".toList .unix) false, .unlock 0,
        .lock true {} .mkdir (CServerPath.ofText "/b".toList .unix) false] rfl rfl
  exact ⟨_, hreach, rfl, by decide, @opLock_no_lost_wakeup Bool _ _ hreach false 1 0 _ _ rfl rfl rfl
    rfl (by decide)⟩

end FlintZilla
