import FlintZilla.Http.Header

/-!
# Receiving one response

The operation from the first byte of a response on, with other requests behind it. What a call of
the parser does to the response is a parameter: `Parses` asks that every call and every event leaves
it where `stands` holds, with a rank that goes down while the loop of `OnReceive` goes on. Then the
operation waits for bytes of the response or for the writer until the response is finished.

Main results:

* `Waiting.processLoop`, `Waiting.step`: what the loop of `OnReceive` and an event do to a response
  that is being received.
* `finished_step`: responses that are finished stay as they are.
-/

namespace FlintZilla

open Lib HttpRequestOp List

/-- The writer takes `n` bytes and the end of the body while an event is handled. -/
def WriterAnswers.Accepts (a : WriterAnswers) (n : Nat) : Prop := WriterReady 0 0 a n

variable {a : WriterAnswers}

/-- A writer that takes everything takes less, too. -/
theorem WriterAnswers.Accepts.ready {m n : Nat} (h : a.Accepts n) (hmn : m ≤ n)
    (size capacity : Nat) : WriterReady size capacity a m := by
  have hroom := h.room
  refine ⟨h.willing, ?_, h.final⟩
  unfold writerRoom at hroom ⊢
  omega

/-! ## One event -/

/-- The bytes that an event leaves unread. -/
def HttpEvent.unread (input : List UInt8) : HttpEvent → List UInt8
  | .read n _ => input.drop n
  | _ => input

variable {toInt64 : List UInt8 → Int} {s : HttpRequestOp}

namespace HttpRequestOp

/-- The same operation with other bytes unread. -/
def withInput (s : HttpRequestOp) (input : List UInt8) : HttpRequestOp := { s with input := input }

/-- Finishing a response does not look at the input. -/
theorem finishResponse_withInput (s : HttpRequestOp) (input : List UInt8) :
    (s.withInput input).finishResponse = s.finishResponse.withInput input := by
  unfold finishResponse withInput
  dsimp only
  split
  · split_ifs
    all_goals rfl
  · split_ifs
    all_goals rfl

variable (toInt64) in
/-- Nor does the loop over the buffer. -/
theorem processLoop_withInput (fuel : Nat) (s : HttpRequestOp) (input : List UInt8) :
    (s.withInput input).processLoop toInt64 fuel =
      (s.processLoop toInt64 fuel).withInput input := by
  induction fuel generalizing s with
  | zero => rfl
  | succ fuel ih =>
    obtain ⟨current, later, socket, result, unread, finished⟩ := s
    show processLoop toInt64 (fuel + 1) ⟨current, later, socket, result, input, finished⟩ = _
    rw [processLoop, processLoop]
    rcases current.parseReceiveBuffer toInt64 with ⟨res, c⟩
    dsimp only
    have hfinish : finishResponse ⟨c, later, socket, result, input, finished⟩ =
        (finishResponse ⟨c, later, socket, result, unread, finished⟩).withInput input :=
      finishResponse_withInput ⟨c, later, socket, result, unread, finished⟩ input
    have hnext : processLoop toInt64 fuel ⟨c, later, socket, result, input, finished⟩ =
        (processLoop toInt64 fuel ⟨c, later, socket, result, unread, finished⟩).withInput input :=
      ih ⟨c, later, socket, result, unread, finished⟩
    rw [hfinish, hnext, ih]
    generalize finishResponse ⟨c, later, socket, result, unread, finished⟩ = t
    rw [show (t.withInput input).result = t.result from rfl]
    split_ifs
    all_goals rfl

variable (toInt64) in
/-- Only a read takes bytes from the socket, and nothing else looks at them. -/
theorem process_withInput (s : HttpRequestOp) (input : List UInt8) (a : WriterAnswers) :
    (s.withInput input).process toInt64 a = (s.process toInt64 a).withInput input :=
  processLoop_withInput toInt64 _ { s with current := { s.current with answers := a } } input

theorem input_processLoop (fuel : Nat) (s : HttpRequestOp) :
    (s.processLoop toInt64 fuel).input = s.input := by
  rw [show s = s.withInput s.input from rfl, processLoop_withInput]
  rfl

theorem input_process (s : HttpRequestOp) (a : WriterAnswers) :
    (s.process toInt64 a).input = s.input := input_processLoop _ _

/-- Before the loop an event changes only where the stream is cut and whether it has ended. -/
theorem step_process {e : HttpEvent} {t : HttpRequestOp} (h : s.step toInt64 e = some t) :
    ∃ buffer eof, buffer ++ e.unread s.input = s.current.recvBuffer ++ s.input ∧
      ((s.current.readState.eof = true → s.input = []) → eof = true → e.unread s.input = []) ∧
      t = process toInt64 { s with
        current := { s.current with
          recvBuffer := buffer, readState := { s.current.readState with eof := eof } }
        input := e.unread s.input } e.answers := by
  unfold step at h
  split at h
  · cases h
  cases e with
  | read n a =>
    dsimp only at h
    split_ifs at h with hread
    cases h
    refine ⟨_, _, ?_, ?_, rfl⟩
    · rw [append_assoc]
      exact congrArg _ (take_append_drop n s.input)
    · rw [hread.2.2.2]
      simp
  | eof a =>
    dsimp only at h
    split_ifs at h with hnil
    cases h
    exact ⟨_, _, rfl, fun _ _ => hnil, rfl⟩
  | resume a =>
    dsimp only at h
    split_ifs at h
    cases h
    exact ⟨_, _, rfl, id, rfl⟩

variable (toInt64) in
/-- The writer is ready: the parser is called without new bytes. -/
theorem step_resume (hresult : s.result = none) (hsocket : s.socket) (hlater : s.later = [])
    (a : WriterAnswers) : s.step toInt64 (.resume a) = some (s.process toInt64 a) := by
  unfold step
  rw [if_neg (by rw [hresult, hsocket]; simp)]
  exact if_pos hlater

/-- The response is put behind the finished ones. -/
theorem finishResponse_frame (s : HttpRequestOp) :
    s.finishResponse.finished = s.finished ++ [(s.current.front, s.current.recvBuffer)] ∧
      s.finishResponse.input = s.input := by
  unfold finishResponse
  dsimp only
  split
  · split_ifs
    all_goals exact ⟨rfl, rfl⟩
  · split_ifs
    all_goals exact ⟨rfl, rfl⟩

theorem result_finishResponse (h : s.later = []) : s.finishResponse.result ≠ none := by
  unfold finishResponse
  dsimp only
  rw [h]
  split_ifs
  all_goals exact Option.some_ne_none _

/-- The record of a finished response stays. -/
theorem finished_processLoop (fuel : Nat) (s : HttpRequestOp) :
    s.finished <+: (s.processLoop toInt64 fuel).finished := by
  induction fuel generalizing s with
  | zero => exact prefix_rfl
  | succ fuel ih =>
    rw [processLoop]
    rcases s.current.parseReceiveBuffer toInt64 with ⟨res, c⟩
    dsimp only
    have hfinish := (finishResponse_frame { s with current := c }).1
    split_ifs
    · exact prefix_rfl
    · rw [hfinish]
      exact prefix_append _ _
    · exact (hfinish ▸ prefix_append _ _).trans (ih _)
    · exact ih { s with current := c }
    · exact prefix_rfl

theorem finished_process {a : WriterAnswers} {finished : List (Option HttpExchange × List UInt8)}
    (h : s.finished = finished) : finished <+: (s.process toInt64 a).finished :=
  h ▸ finished_processLoop _ { s with current := { s.current with answers := a } }

/-- An event keeps the record and takes from the socket what it reads. -/
theorem finished_step {t : HttpRequestOp} {e : HttpEvent} (h : s.step toInt64 e = some t) :
    s.finished <+: t.finished ∧ t.input = e.unread s.input := by
  obtain ⟨buffer, eof, -, -, rfl⟩ := step_process h
  exact ⟨finished_process rfl, input_process _ _⟩

end HttpRequestOp

/-! ## Where the operation stands -/

/-- The parser stays where `stands` holds until the body is complete. `within` is what is known of
the bytes that are unread before and after an event. -/
structure Parses (toInt64 : List UInt8 → Int)
    (stands : Nat → Nat → List UInt8 → HttpReceive → Prop) (r : Incoming)
    (within : List UInt8 → List UInt8 → Prop) : Prop where
  call {k n : Nat} {input : List UInt8} {c : HttpReceive} : stands k n input c →
    CallOutcome stands r input k (c.Ready n) (c.parseReceiveBuffer toInt64)
  bounds {k n : Nat} {input : List UInt8} {c : HttpReceive} : stands k n input c →
    Receiving input c ∧ k < 3 ∧ n ≤ r.body.length
  /-- An event cuts the same stream elsewhere and brings new answers of the writer. -/
  update {k n : Nat} {input input' buffer : List UInt8} {c : HttpReceive} {eof : Bool}
    {a : WriterAnswers} : stands k n input c → buffer ++ input' = c.recvBuffer ++ input →
    (eof = true → input' = []) → a.Works → within input input' →
    ∃ j m, stands j m input' { c with
      recvBuffer := buffer, readState := { c.readState with eof := eof }, answers := a }

/-- The response is not finished. -/
structure Waiting (stands : Nat → Nat → List UInt8 → HttpReceive → Prop) (r : Incoming)
    (later : List (Option HttpExchange)) (s : HttpRequestOp) : Prop where
  result : s.result = none
  socket : s.socket = true
  later : s.later = later
  finished : s.finished = []
  standing : (∃ k n, stands k n s.input s.current) ∨ ∃ y, AtEnd r s.input y s.current

/-- Nothing of the response was read. -/
theorem inHead_sent (h : ResponseHead) (tail : List UInt8) (x : HttpExchange)
    (later : List (Option HttpExchange)) {input : List UInt8} (hinput : input = h.bytes ++ tail) :
    InHead h tail input x x (sent x later input).current where
  sent := Nat.succ_ne_zero _
  eof := by
    intro heof
    cases heof
  works := ⟨by simp [sent], by simp [sent]⟩
  front := rfl
  readState := rfl
  left := by
    show HeadLeft h tail x x input
    rw [hinput, ResponseHead.bytes, append_assoc, append_assoc]
    exact HeadLeft.status

/-- What handling an event comes to; `ready` is the readiness of the writer. -/
inductive Processed (stands : Nat → Nat → List UInt8 → HttpReceive → Prop) (r : Incoming)
    (later : List (Option HttpExchange)) (ready : Prop) (t : HttpRequestOp) : Prop where
  | waiting (ht : Waiting stands r later t) (hwhy : r.extra.length < t.input.length ∨ ¬ready)
  | received {y : HttpExchange} {rest : List UInt8} {more : List (Option HttpExchange × List UInt8)}
      (hfinished : t.finished = (some y, rest) :: more) (hopen : y.Open r.code)
      (htaken : y.taken = r.body)
      (hrest : rest ++ t.input = r.extra) (hlast : later = [] → more = [] ∧ t.result ≠ none)

variable {stands : Nat → Nat → List UInt8 → HttpReceive → Prop} {r : Incoming}
variable {later : List (Option HttpExchange)} {ready : Prop} {t : HttpRequestOp}

theorem Processed.mono {p q : Prop} (hpq : q → p) (h : Processed stands r later p t) :
    Processed stands r later q t := by
  cases h with
  | waiting ht hwhy => exact .waiting ht (hwhy.imp_right (mt hpq))
  | received hfinished hopen htaken hrest hlast =>
    exact .received hfinished hopen htaken hrest hlast

/-- An event after which the response is not finished leaves bytes of it unread, or the writer has
not taken everything. -/
theorem Processed.unfinished (h : Processed stands r later ready t)
    (hnil : t.finished = []) : r.extra.length < t.input.length ∨ ¬ready := by
  cases h with
  | waiting _ hwhy => exact hwhy
  | received hfinished =>
    rw [hnil] at hfinished
    cases hfinished

variable {y : HttpExchange} {c : HttpReceive} {fuel k n : Nat}

/-- The response is finished; the loop may go on with the next one. -/
theorem Waiting.finish (h : Waiting stands r later s) (hc : AtEnd r s.input y c) :
    Processed stands r later ready
      (let t := { s with current := c }.finishResponse
       if t.result.isSome then t else t.processLoop toInt64 fuel) := by
  obtain ⟨hfinished, hinput⟩ := finishResponse_frame { s with current := c }
  have hlast : later = [] → { s with current := c }.finishResponse.result ≠ none := fun hnil =>
    result_finishResponse (h.later.trans hnil)
  generalize { s with current := c }.finishResponse = t at hfinished hinput hlast ⊢
  rw [h.finished, hc.front] at hfinished
  by_cases hresult : t.result.isSome = true
  · rw [if_pos hresult]
    exact .received hfinished hc.isOpen hc.taken (by rw [hinput]; exact hc.rest) fun hnil =>
      ⟨rfl, hlast hnil⟩
  · rw [if_neg hresult]
    obtain ⟨more, hmore⟩ : t.finished <+: (t.processLoop toInt64 fuel).finished :=
      t.finished_processLoop fuel
    have hlist : (t.processLoop toInt64 fuel).finished = (some y, c.recvBuffer) :: more := by
      rw [← hmore, hfinished]
      rfl
    refine .received hlist hc.isOpen hc.taken ?_ ?_
    · rw [input_processLoop, hinput]
      exact hc.rest
    · intro hnil
      exact absurd (Option.isSome_iff_ne_none.mpr (hlast hnil)) hresult

/-- One round of the loop of `OnReceive`. -/
theorem Waiting.processLoop_call (h : Waiting stands r later s)
    (hcall : CallOutcome stands r s.input k ready (s.current.parseReceiveBuffer toInt64))
    (hmore : ∀ j n c, j < k → stands j n s.input c → (ready → c.Ready n) →
      Processed stands r later ready (processLoop toInt64 fuel { s with current := c })) :
    Processed stands r later ready (s.processLoop toInt64 (fuel + 1)) := by
  rw [processLoop]
  generalize s.current.parseReceiveBuffer toInt64 = res at hcall ⊢
  cases hcall with
  | needData hc hlt =>
    dsimp only
    rw [if_pos (.inr rfl)]
    exact .waiting { h with standing := .inl ⟨_, _, hc⟩ } (.inl hlt)
  | blocked hc hready =>
    dsimp only
    rw [if_pos (.inl rfl)]
    exact .waiting { h with standing := .inl ⟨_, _, hc⟩ } (.inr hready)
  | more hj hc hready =>
    dsimp only
    rw [if_neg (by decide), if_neg (by decide), if_pos rfl]
    exact hmore _ _ _ hj hc hready
  | blockedAtEnd hc hready =>
    dsimp only
    rw [if_pos (.inl rfl)]
    exact .waiting { h with standing := .inr ⟨_, hc⟩ } (.inr hready)
  | finished hc =>
    dsimp only
    rw [if_neg (by decide), if_pos rfl]
    exact h.finish hc

namespace Parses

variable {within : List UInt8 → List UInt8 → Prop} {e : HttpEvent}
variable (hp : Parses toInt64 stands r within)

include hp

/-- By induction on the rank. -/
theorem processLoop (h : Waiting stands r later s) (hs : stands k n s.input s.current)
    (hk : k < fuel) : Processed stands r later (s.current.Ready n)
      (s.processLoop toInt64 fuel) := by
  induction fuel generalizing s k n with
  | zero => omega
  | succ fuel ih =>
    refine h.processLoop_call (hp.call hs) ?_
    intro j m c hj hc hready
    have hnext : Waiting stands r later { s with current := c } :=
      { h with standing := .inl ⟨j, m, hc⟩ }
    exact (ih hnext hc (by omega)).mono hready

/-- A call of the parser with the answers of the writer. -/
theorem process (h : Waiting stands r later { s with current := { s.current with answers := a } }) :
    Processed stands r later (a.Accepts r.body.length) (s.process toInt64 a) := by
  rcases h.standing with ⟨k, n, hs⟩ | ⟨y, hend⟩
  · obtain ⟨-, hk, hn⟩ := hp.bounds hs
    exact (hp.processLoop h hs (by omega)).mono fun ha => ha.ready hn _ _
  · refine (h.processLoop_call (k := 0) hend.parseReceiveBuffer ?_).mono fun ha =>
      ha.ready (Nat.zero_le _) _ _
    omega

/-- An event that finds the response unfinished. -/
theorem step (h : Waiting stands r later s) (hworks : e.answers.Works)
    (hwithin : within s.input (e.unread s.input)) (hstep : s.step toInt64 e = some t) :
    Processed stands r later (e.answers.Accepts r.body.length) t := by
  obtain ⟨buffer, eof, hstream, heof, rfl⟩ := step_process hstep
  refine hp.process { h with standing := ?_ }
  rcases h.standing with ⟨k, n, hs⟩ | ⟨y, hend⟩
  · have hnew := hp.update hs hstream (heof (hp.bounds hs).1.eof) hworks hwithin
    exact .inl hnew
  · exact .inr ⟨y, { hend with
      eof := heof hend.eof, works := hworks, rest := hstream.trans hend.rest }⟩

/-- Once all of the response is read and the writer takes it, the last response is finished. -/
theorem finished_resume (h : Waiting stands r [] s) (hworks : a.Works)
    (hwithin : within s.input s.input) (haccepts : a.Accepts r.body.length)
    (hread : s.input.length ≤ r.extra.length) : (s.process toInt64 a).finished ≠ [] := by
  intro hnil
  have hstep := hp.step (e := .resume a) h hworks hwithin
    (step_resume toInt64 h.result h.socket h.later a)
  rcases hstep.unfinished hnil with hunread | hnot
  · -- resuming reads nothing, so nothing was unread
    rw [input_process] at hunread
    omega
  · exact hnot haccepts

end Parses

end FlintZilla
