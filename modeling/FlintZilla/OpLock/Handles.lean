import FlintZilla.OpLock.MutEx

/-!
# Lock handles

A handle is a pair of indices into vectors that shrink from the back, so that a handle denotes its
record as long as nothing before its index is popped. `unlock_rows` and `unlock_keeps` say what one
`Unlock` does to the records: what is in the table afterwards was there before, and what has not
been released is still there. With the calls of `Lock` recorded beside the handles, every handle
that has not been unlocked denotes the record of its call.

Main results:

* `unlock_keeps`, `Denotes.unlock`: what other handles denote after `Unlock`.
* `HandleInv.step`, `opLock_handles`: every handle denotes the record of its call, in every
  reachable state.
-/

namespace FlintZilla

open Lib List Option

/-! ## Popping -/

variable {α : Type} {k : Nat} {l : List α} {x : α}

/-- What does not satisfy the condition keeps its index. -/
theorem getElem?_popBackWhile_of_neg {p : α → Bool} (h : l[k]? = some x)
    (hx : p x = false) : (popBackWhile p l)[k]? = some x := by
  obtain ⟨popped, hl, hpopped⟩ := popBackWhile_append p l
  rcases Nat.lt_or_ge k (popBackWhile p l).length with hk | hk
  · rw [hl, getElem?_append_left hk] at h
    exact h
  · rw [hl, getElem?_append_right hk] at h
    have hp := hpopped x (mem_of_getElem? h)
    rw [hx] at hp
    cases hp

theorem getElem?_dropLast_of_lt (h : l[k]? = some x) (hk : k + 1 ≠ l.length) :
    l.dropLast[k]? = some x := by
  obtain ⟨hlt, -⟩ := List.getElem?_eq_some_iff.mp h
  rw [getElem?_dropLast, if_pos (by omega)]
  exact h

/-! ## What `Unlock` does to the records -/

variable {Socket : Type} {table table' : LockTable Socket} {handle : OpLock} {wasWaiting : Bool}
  {i : Nat} {sli sli' : SocketLockInfo Socket}

/-- A record that has not been released, in a row with a socket and not the one of the handle, stays
where it is. -/
theorem unlock_keeps (h : unlock table handle = some (table', wasWaiting)) {j : Nat}
    {a : SocketLockInfo Socket} {l : LockInfo} (ha : table[k]? = some a)
    (hsocket : a.controlSocket ≠ none) (hl : a.locks[j]? = some l) (hreleased : l.released = false)
    (hne : OpLock.mk k j ≠ handle) :
    ∃ b, table'[k]? = some b ∧ b.server = a.server ∧ b.controlSocket = a.controlSocket ∧
      b.locks[j]? = some l := by
  have hplace : k = handle.socket → j ≠ handle.lock := by
    rintro rfl rfl
    exact hne rfl
  unfold unlock at h
  split at h
  · cases h
  · next sli hsli =>
    split at h
    · cases h
    · next info hinfo =>
      simp only [some.injEq, Prod.mk.injEq] at h
      rcases h with ⟨rfl, -⟩
      -- the record is among those that the row keeps
      have hrest : handle.lock + 1 = sli.locks.length → k = handle.socket →
          (popBackWhile (·.released) sli.locks.dropLast)[j]? = some l := by
        intro hlast hk
        have hj := hplace hk
        subst hk
        rw [hsli] at ha
        cases ha
        exact getElem?_popBackWhile_of_neg (getElem?_dropLast_of_lt hl (by omega)) hreleased
      have hset : ∀ sli' : SocketLockInfo Socket, (k = handle.socket → sli'.server = sli.server ∧
          sli'.controlSocket = sli.controlSocket ∧ sli'.locks[j]? = some l) →
          ∃ b, (table.set handle.socket sli')[k]? = some b ∧ b.server = a.server ∧
            b.controlSocket = a.controlSocket ∧ b.locks[j]? = some l := by
        intro sli' hrow
        by_cases hk : handle.socket = k
        · subst hk
          rw [hsli] at ha
          cases ha
          refine ⟨sli', ?_, hrow rfl⟩
          exact getElem?_set_of_some hsli _
        · rw [getElem?_set_ne hk]
          exact ⟨a, ha, rfl, rfl, hl⟩
      split_ifs with hlast hempty hrow
      · -- the row that goes is empty, and the rows that follow it have no socket
        have hk : k ≠ handle.socket := by
          intro hk
          have hin := hrest hlast hk
          rw [isEmpty_iff.mp hempty] at hin
          cases hin
        have hsome : a.controlSocket.isNone = false := by
          cases hc : a.controlSocket with
          | none => exact absurd hc hsocket
          | some _ => rfl
        refine ⟨a, ?_, rfl, rfl, hl⟩
        exact getElem?_popBackWhile_of_neg (getElem?_dropLast_of_lt ha (by omega)) hsome
      · apply hset
        intro hk
        have hin := hrest hlast hk
        rw [isEmpty_iff.mp hempty] at hin
        cases hin
      · apply hset
        intro hk
        exact ⟨rfl, rfl, hrest hlast hk⟩
      · apply hset
        intro hk
        have hj := hplace hk
        subst hk
        rw [hsli] at ha
        cases ha
        refine ⟨rfl, rfl, ?_⟩
        rw [getElem?_set_ne (Ne.symm hj)]
        exact hl

/-! ## Requests and their records -/

/-- The arguments of a call of `Lock`. -/
structure LockRequest (Socket : Type) where
  socket : Socket
  reason : LockingReason
  path : CServerPath
  inclusive : Bool
deriving DecidableEq

/-- The indices of the handle are in range and lead to a record of the request that has not been
released. -/
def Denotes (table : LockTable Socket) (handle : OpLock) (r : LockRequest Socket) : Prop :=
  ∃ sli info, table[handle.socket]? = some sli ∧ sli.controlSocket = some r.socket ∧
    sli.locks[handle.lock]? = some info ∧ info.released = false ∧
    info.reason = r.reason ∧ info.path = r.path ∧ info.inclusive = r.inclusive

variable {r : LockRequest Socket}

/-- A row may change as long as its records keep what they were requested with. -/
theorem Denotes.set (h : Denotes table handle r) (hi : table[i]? = some sli)
    (hsocket : sli'.controlSocket = sli.controlSocket)
    (hlocks : ∀ (j : Nat) (l : LockInfo), sli.locks[j]? = some l → ∃ l', sli'.locks[j]? = some l' ∧
      l'.released = l.released ∧ l'.reason = l.reason ∧ l'.path = l.path ∧
      l'.inclusive = l.inclusive) : Denotes (table.set i sli') handle r := by
  obtain ⟨a, info, ha, hsock, hinfo, hreleased, hreason, hpath, hinclusive⟩ := h
  by_cases hk : i = handle.socket
  · subst hk
    rw [hi] at ha
    cases ha
    obtain ⟨l', hl', h1, h2, h3, h4⟩ := hlocks _ _ hinfo
    refine ⟨sli', l', ?_, hsocket.trans hsock, hl', h1.trans hreleased, h2.trans hreason,
      h3.trans hpath, h4.trans hinclusive⟩
    exact getElem?_set_of_some hi _
  · refine ⟨a, info, ?_, hsock, hinfo, hreleased, hreason, hpath, hinclusive⟩
    rw [getElem?_set_ne hk]
    exact ha

/-- Granting a lock changes whether it waits, not whose it is. -/
theorem Denotes.obtainAt (i : Nat) (st : LockTable Socket × Bool) (j : Nat)
    (h : Denotes st.1 handle r) : Denotes (obtainAt i st j).1 handle r := by
  rcases obtainAt_cases i st j with ⟨hsame, -⟩ | ⟨sli, info, hsli, hinfo, -, -, hset⟩
  · rw [hsame]
    exact h
  · rw [hset]
    refine h.set hsli rfl ?_
    intro k l hl
    by_cases hk : j = k
    · subst hk
      rw [hinfo] at hl
      cases hl
      refine ⟨{ info with waiting := false }, ?_, rfl, rfl, rfl, rfl⟩
      exact getElem?_set_of_some hinfo _
    · refine ⟨l, ?_, rfl, rfl, rfl, rfl⟩
      rw [getElem?_set_ne hk]
      exact hl

theorem Denotes.unlock {handle g : OpLock} (h : unlock table handle = some (table', wasWaiting))
    (hg : Denotes table g r) (hne : g ≠ handle) : Denotes table' g r := by
  obtain ⟨a, info, ha, hsock, hinfo, hreleased, hreq⟩ := hg
  have hsome : a.controlSocket ≠ none := by
    rw [hsock]
    exact some_ne_none _
  obtain ⟨b, hb, -, hbsock, hbinfo⟩ := unlock_keeps h ha hsome hinfo hreleased hne
  exact ⟨b, info, hb, hbsock.trans hsock, hbinfo, hreleased, hreq⟩

/-- Unlocking an outstanding handle fails no assertion. -/
theorem Denotes.unlock_isSome (h : Denotes table handle r) :
    (FlintZilla.unlock table handle).isSome = true := by
  obtain ⟨sli, info, hsli, -, hinfo, -⟩ := h
  simp [FlintZilla.unlock, hsli, hinfo]

/-! ## Histories -/

/-- The state of the manager, and the calls of `Lock` that returned the handles. -/
structure LockHistory (Socket : Type) where
  state : OpLockState Socket
  requests : List (LockRequest Socket)

structure HandleInv (s : LockHistory Socket) : Prop where
  denotes : List.Forall₂ (Denotes s.state.table) s.state.handles s.requests
  nodup : s.state.handles.Nodup

variable {s : LockHistory Socket}

/-- Every handle denotes some record. -/
theorem HandleInv.request (hinv : HandleInv s)
    (h : handle ∈ s.state.handles) : ∃ r, Denotes s.state.table handle r := by
  obtain ⟨k, hk⟩ := mem_iff_getElem?.mp h
  obtain ⟨hlt, rfl⟩ := List.getElem?_eq_some_iff.mp hk
  exact ⟨_, hinv.denotes.get hlt (hinv.denotes.length_eq ▸ hlt)⟩

/-- The handle that was unlocked is gone, the others denote what they did. -/
theorem HandleInv.unlock {events : List Socket}
    (hinv : HandleInv s) (hk : s.state.handles[k]? = some handle)
    (h : FlintZilla.unlock s.state.table handle = some (table', wasWaiting)) :
    HandleInv ⟨⟨table', s.state.handles.eraseIdx k, events⟩, s.requests.eraseIdx k⟩ := by
  have hrest : List.Forall₂ (Denotes s.state.table) (s.state.handles.eraseIdx k)
      (s.requests.eraseIdx k) := by
    rw [eraseIdx_eq_take_drop_succ, eraseIdx_eq_take_drop_succ]
    exact rel_append (forall₂_take k hinv.denotes)
      (forall₂_drop (k + 1) hinv.denotes)
  have hnodup : (handle :: s.state.handles.eraseIdx k).Nodup := by
    obtain ⟨hlt, rfl⟩ := List.getElem?_eq_some_iff.mp hk
    rw [eraseIdx_eq_take_drop_succ, ← nodup_middle, getElem_cons_drop,
      take_append_drop]
    exact hinv.nodup
  rw [nodup_cons] at hnodup
  refine ⟨?_, hnodup.2⟩
  rw [forall₂_iff_zip] at hrest ⊢
  refine ⟨hrest.1, ?_⟩
  intro g r hmem
  refine (hrest.2 hmem).unlock h ?_
  rintro rfl
  exact hnodup.1 (of_mem_zip hmem).1

section Calls

variable [DecidableEq Socket] {table' : LockTable Socket} {socket : Socket} {server : CServer}
  {reason : LockingReason} {path : CServerPath} {inclusive : Bool} {handle : OpLock}

/-! ## Every interleaving -/

def LockHistory.step (s : LockHistory Socket) (call : OpLockCall Socket) :
    Option (LockHistory Socket) :=
  (s.state.step call).map fun t =>
    ⟨t, match call with
      | .lock socket _ reason path inclusive => s.requests ++ [⟨socket, reason, path, inclusive⟩]
      | .unlock k => s.requests.eraseIdx k
      | _ => s.requests⟩

/-- Every interleaving of calls, with the requests recorded. -/
def lockHistorySystem (Socket : Type) [DecidableEq Socket] :
    Lts (LockHistory Socket) (OpLockCall Socket) :=
  Lts.ofFun (fun s => s = ⟨⟨[], [], []⟩, []⟩) LockHistory.step

variable {s : LockHistory Socket}

/-- The new handle denotes the new record. -/
theorem HandleInv.lock (hinv : HandleInv s)
    (h : FlintZilla.lock s.state.table socket server reason path inclusive =
      some (table', handle)) :
    HandleInv ⟨{ s.state with table := table', handles := s.state.handles ++ [handle] },
      s.requests ++ [⟨socket, reason, path, inclusive⟩]⟩ := by
  obtain ⟨sli, waiting, hsli, hsock, hlock, -, rfl⟩ := lock_cases h
  have hold : ∀ g r, Denotes s.state.table g r →
      Denotes (getOrCreate s.state.table socket server).1 g r := by
    rintro g r ⟨a, info, ha, hrest⟩
    exact ⟨a, info, getElem?_getOrCreate ha, hrest⟩
  generalize (getOrCreate s.state.table socket server).1 = table₀ at *
  have hkept : ∀ g r, Denotes s.state.table g r → Denotes (table₀.set handle.socket
      { sli with locks := sli.locks ++ [⟨path, reason, inclusive, waiting, false⟩] }) g r := by
    intro g r hg
    refine (hold g r hg).set hsli rfl ?_
    intro j l hl
    obtain ⟨hlt, -⟩ := List.getElem?_eq_some_iff.mp hl
    refine ⟨l, ?_, rfl, rfl, rfl, rfl⟩
    rw [getElem?_append_left hlt]
    exact hl
  constructor
  · refine rel_append (hinv.denotes.imp hkept)
      (List.Forall₂.cons ?_ List.Forall₂.nil)
    refine ⟨{ sli with locks := sli.locks ++ [⟨path, reason, inclusive, waiting, false⟩] },
      ⟨path, reason, inclusive, waiting, false⟩, ?_, hsock, ?_, rfl, rfl, rfl, rfl⟩
    · exact getElem?_set_of_some hsli _
    · rw [hlock]
      simp
  · -- the handles so far point into the row as it was
    rw [nodup_append]
    refine ⟨hinv.nodup, nodup_singleton handle, ?_⟩
    intro g hg g' hg' heq
    rw [mem_singleton] at hg'
    subst heq hg'
    obtain ⟨r, hr⟩ := hinv.request hg
    obtain ⟨a, info, ha, -, hinfo, -⟩ := hold _ _ hr
    rw [hsli] at ha
    cases ha
    rw [hlock, getElem?_eq_none le_rfl] at hinfo
    cases hinfo

theorem HandleInv.obtainWaiting (hinv : HandleInv s) (socket : Socket) (events : List Socket) :
    HandleInv ⟨⟨(obtainWaiting s.state.table socket).1, s.state.handles, events⟩, s.requests⟩ := by
  refine ⟨hinv.denotes.imp ?_, hinv.nodup⟩
  intro g r hg
  exact obtainWaiting_induction (Denotes · g r) Denotes.obtainAt hg socket

/-- Each call. -/
theorem HandleInv.step {t : LockHistory Socket} {call : OpLockCall Socket} (hinv : HandleInv s)
    (h : s.step call = some t) : HandleInv t := by
  simp only [LockHistory.step, map_eq_some_iff] at h
  obtain ⟨u, hstep, rfl⟩ := h
  cases call with
  | lock socket server reason path inclusive =>
    simp only [OpLockState.step, map_eq_some_iff] at hstep
    obtain ⟨⟨table, handle⟩, hlock, rfl⟩ := hstep
    exact hinv.lock hlock
  | unlock k =>
    simp only [OpLockState.step] at hstep
    split at hstep
    · cases hstep
    · next handle hk =>
      rw [map_eq_some_iff] at hstep
      obtain ⟨⟨table, wasWaiting⟩, hunlock, rfl⟩ := hstep
      exact hinv.unlock hk hunlock
  | obtainWaiting socket =>
    cases hstep
    exact hinv.obtainWaiting socket _
  | deliver k =>
    simp only [OpLockState.step] at hstep
    split at hstep
    · cases hstep
    · cases hstep
      exact hinv.obtainWaiting _ _

/-- Each outstanding handle denotes the record of its own call, not released, no two of them denote
the same one, and none fails an assertion of `Unlock`. -/
theorem opLock_handles {s : LockHistory Socket} (h : (lockHistorySystem Socket).Reach s) :
    List.Forall₂ (Denotes s.state.table) s.state.handles s.requests ∧ s.state.handles.Nodup ∧
      ∀ handle ∈ s.state.handles, (unlock s.state.table handle).isSome = true := by
  have hinv : HandleInv s := by
    refine Lts.Reach.invariant HandleInv ?_ ?_ h
    · rintro s rfl
      exact ⟨List.Forall₂.nil, nodup_nil⟩
    · intro s call t hstep hinv
      exact hinv.step hstep
  refine ⟨hinv.denotes, hinv.nodup, ?_⟩
  intro handle hhandle
  obtain ⟨r, hr⟩ := hinv.request hhandle
  exact hr.unlock_isSome

/-- Three locks of one socket, the second released before the others: its record stays as a
tombstone until the third is unlocked, and a lock of another socket follows. -/
theorem opLock_handles_tombstone :
    ∃ s, (lockHistorySystem Bool).Reach s ∧ s.state.handles = [⟨0, 0⟩, ⟨0, 2⟩, ⟨1, 0⟩] ∧
      s.requests.map (·.path) = [CServerPath.ofText "/a".toList .unix,
        CServerPath.ofText "/c".toList .unix, CServerPath.ofText "/a".toList .unix] ∧
      List.Forall₂ (Denotes s.state.table) s.state.handles s.requests ∧ s.state.handles.Nodup ∧
      ∀ handle ∈ s.state.handles, (unlock s.state.table handle).isSome = true := by
  have hreach : (lockHistorySystem Bool).Reach _ := Lts.reach_ofFun
      [.lock true {} .mkdir (CServerPath.ofText "/a".toList .unix) false,
        .lock true {} .mkdir (CServerPath.ofText "/b".toList .unix) false,
        .lock true {} .mkdir (CServerPath.ofText "/c".toList .unix) false, .unlock 1,
        .lock false {} .mkdir (CServerPath.ofText "/a".toList .unix) false] rfl rfl
  exact ⟨_, hreach, rfl, rfl, opLock_handles hreach⟩

end Calls

end FlintZilla
