import FlintZilla.Http.Request

/-!
# Data for a response

What `ProcessData` does with data of a body, whatever the encoding: with a writer that works the
data goes into its buffers, in order, until it has no buffer left.

Main results:

* `fillWriter_outcome`: what a writer that works takes.
* `finalizeResponseBody_outcome`: how a response is finished.
* `Taking.processData`: data of a body is passed on, as far as the writer takes it.
-/

namespace FlintZilla

open Lib HttpReceive List HttpResponse

/-! ## The writer -/

def WriteBufferReply.capacity : WriteBufferReply → Nat
  | .ok capacity => capacity
  | _ => 0

/-- The bytes that fit into the current buffer and the buffers offered. -/
def writerRoom (size capacity : Nat) (buffers : List WriteBufferReply) : Nat :=
  (capacity - size) + (buffers.map WriteBufferReply.capacity).sum

/-- What the loop in `ProcessData` does unless the writer fails. -/
structure FillOutcome (size capacity : Nat) (data : List UInt8) (buffers : List WriteBufferReply)
    (f : HttpReceive.Filled) : Prop where
  written : f.written <+: data
  works : ∀ b ∈ f.buffers, b ≠ .error
  willing : (∀ b ∈ buffers, b ≠ .wait) → ∀ b ∈ f.buffers, b ≠ .wait
  res : (f.res = Reply.continue_ ∧ f.written = data ∧
      writerRoom size capacity buffers ≤ data.length + writerRoom f.size f.capacity f.buffers) ∨
    (f.res = Reply.wouldBlock ∧ f.written.length < data.length ∧
      ((∀ b ∈ buffers, b ≠ .wait) → writerRoom size capacity buffers < data.length))

/-- By induction on the buffers: the data goes into the one at hand, then into those that follow. -/
theorem fillWriter_outcome {size capacity : Nat} {data : List UInt8}
    {buffers : List WriteBufferReply} (h : ∀ b ∈ buffers, b ≠ .error) :
    FillOutcome size capacity data buffers (fillWriter size capacity data buffers) := by
  induction buffers generalizing size capacity data with
  | nil =>
    rw [fillWriter]
    by_cases hfit : data.length ≤ capacity - size
    · rw [if_pos hfit]
      refine ⟨prefix_rfl, h, id, .inl ⟨rfl, rfl, ?_⟩⟩
      simp only [writerRoom]
      omega
    · rw [if_neg hfit]
      refine ⟨List.take_prefix _ _, h, id, .inr ⟨rfl, ?_, ?_⟩⟩
      · simp only [length_take]
        omega
      · simp only [writerRoom, map_nil, sum_nil]
        omega
  | cons r buffers ih =>
    rw [fillWriter]
    have htail : ∀ b ∈ buffers, b ≠ .error := fun b hb => h b (mem_cons_of_mem r hb)
    by_cases hfit : data.length ≤ capacity - size
    · rw [if_pos hfit]
      refine ⟨prefix_rfl, h, id, .inl ⟨rfl, rfl, ?_⟩⟩
      simp only [writerRoom]
      omega
    · rw [if_neg hfit]
      cases r with
      | wait =>
        refine ⟨List.take_prefix _ _, htail, ?_, .inr ⟨rfl, ?_, ?_⟩⟩
        · exact fun hw => absurd rfl (hw .wait mem_cons_self)
        · simp only [length_take]
          omega
        · exact fun hw => absurd rfl (hw .wait mem_cons_self)
      | error => exact absurd rfl (h .error mem_cons_self)
      | ok newCapacity =>
        -- the buffer is full; the loop goes on with the rest of the data and the new buffer
        have hrest : FillOutcome 0 newCapacity (data.drop (capacity - size)) buffers
          (fillWriter 0 newCapacity (data.drop (capacity - size)) buffers) := ih htail
        dsimp only
        have hdrop : (data.drop (capacity - size)).length = data.length - (capacity - size) :=
          length_drop
        have hroom : writerRoom size capacity (.ok newCapacity :: buffers) =
            (capacity - size) + writerRoom 0 newCapacity buffers := by
          simp only [writerRoom, map_cons, sum_cons, WriteBufferReply.capacity]
          omega
        refine ⟨?_, hrest.works, ?_, ?_⟩
        · have happend := (prefix_append_right_inj (data.take (capacity - size))).mpr
            hrest.written
          rwa [take_append_drop] at happend
        · intro hw
          exact hrest.willing fun b hb => hw b (mem_cons_of_mem _ hb)
        · rcases hrest.res with ⟨hres, hwritten, hle⟩ | ⟨hres, hshort, hlt⟩
          · refine .inl ⟨hres, ?_, ?_⟩
            · rw [hwritten, take_append_drop]
            · dsimp only
              omega
          · refine .inr ⟨hres, ?_, ?_⟩
            · simp only [length_append, length_take]
              omega
            · intro hw
              have hroom' := hlt fun b hb => hw b (mem_cons_of_mem _ hb)
              omega

/-- The writer takes `n` more bytes and the end of the body without a wait. -/
structure WriterReady (size capacity : Nat) (a : WriterAnswers) (n : Nat) : Prop where
  willing : ∀ b ∈ a.buffers, b ≠ .wait
  room : n ≤ writerRoom size capacity a.buffers
  final : a.finals.head? = some .ok

def HttpReceive.Ready (s : HttpReceive) (n : Nat) : Prop :=
  WriterReady s.readState.writerSize s.readState.writerCapacity s.answers n

/-- What holds whenever bytes of the response are awaited. -/
structure Receiving (input : List UInt8) (s : HttpReceive) : Prop where
  sent : s.sendPos ≠ 0
  eof : s.readState.eof = true → input = []
  works : s.answers.Works

/-! ## Passing data on -/

/-- Data goes to the writer and not into the response. -/
def HttpExchange.usesWriter (x : HttpExchange) : Bool := x.response.success && x.response.hasWriter

/-- The data that was passed on. -/
def HttpExchange.taken (x : HttpExchange) : List UInt8 :=
  if x.usesWriter then x.response.written else x.response.body

/-- The response after more data. -/
def HttpExchange.withData (x : HttpExchange) (body written : List UInt8) : HttpExchange :=
  { x with response := { x.response with body := body, written := written } }

/-- `n` bytes of the data were passed on; apart from the response only the size and the capacity of
the buffer and the answers of the writer have changed. -/
structure DataPassed (x : HttpExchange) (s : HttpReceive) (data : List UInt8) (res n : Nat)
    (y : HttpExchange) (size capacity : Nat) (a : WriterAnswers) : Prop where
  same : ∃ body written, y = x.withData body written
  taken : y.taken = x.taken ++ data.take n
  le : n ≤ data.length
  works : a.Works
  res : (res = Reply.continue_ ∧ n = data.length ∧
      ∀ m, s.Ready (data.length + m) → WriterReady size capacity a m) ∨
    (res = Reply.wouldBlock ∧ n < data.length ∧ ∀ m, ¬s.Ready (data.length + m))

variable {s : HttpReceive} {x : HttpExchange} {data : List UInt8}

/-- Data for the writer. -/
theorem writeData_passed (hworks : s.answers.Works) (hwriter : x.usesWriter) :
    ∃ res n y size capacity a, s.writeData x data = ((res, n), { s with
        front := some y
        readState := { s.readState with writerSize := size, writerCapacity := capacity }
        answers := a }) ∧ DataPassed x s data res n y size capacity a := by
  have hfill : FillOutcome s.readState.writerSize s.readState.writerCapacity data s.answers.buffers
      (fillWriter s.readState.writerSize s.readState.writerCapacity data
        s.answers.buffers) := fillWriter_outcome hworks.1
  unfold writeData
  generalize fillWriter s.readState.writerSize s.readState.writerCapacity data
    s.answers.buffers = f at hfill ⊢
  refine ⟨_, _, _, _, _, _, rfl, ⟨⟨x.response.body, _, rfl⟩, ?_, hfill.written.length_le,
    ⟨hfill.works, hworks.2⟩, ?_⟩⟩
  · show (if x.usesWriter then _ else _) = (if x.usesWriter then _ else _) ++ _
    rw [if_pos hwriter, if_pos hwriter, ← prefix_iff_eq_take.mp hfill.written]
  · -- all data is written, or the writer has no buffer
    rcases hfill.res with ⟨hres, hwritten, hle⟩ | ⟨hres, hshort, hlt⟩
    · refine .inl ⟨hres, by rw [hwritten], ?_⟩
      intro m hready
      refine ⟨hfill.willing hready.willing, ?_, hready.final⟩
      have hroom := hready.room
      show m ≤ writerRoom f.size f.capacity f.buffers
      omega
    · refine .inr ⟨hres, hshort, ?_⟩
      intro m hready
      have hlack := hlt hready.willing
      have hroom := hready.room
      omega

/-- Data that is kept in the response. -/
theorem appendBody_passed (hworks : s.answers.Works) (hwriter : x.usesWriter = false)
    (hroom : x.response.body.length + data.length ≤ maxBody) :
    DataPassed x s data Reply.continue_ data.length
      { x with response := x.response.appendBody data }
      s.readState.writerSize s.readState.writerCapacity s.answers := by
  have happend : x.response.appendBody data =
      { x.response with body := x.response.body ++ data } := by
    unfold appendBody
    by_cases hfull : x.response.body.length < maxBody
    · rw [if_pos hfull]
    · -- a body of the maximal size is complete
      have hnil : data = [] := length_eq_zero_iff.mp (by omega)
      rw [if_neg hfull, hnil, append_nil]
  rw [happend]
  refine ⟨⟨_, x.response.written, rfl⟩, ?_, Nat.le_refl _, hworks, .inl ⟨rfl, rfl, ?_⟩⟩
  · show (if x.usesWriter then _ else _) = (if x.usesWriter then _ else _) ++ _
    rw [hwriter, take_length]
    rfl
  · intro m hready
    have hle := hready.room
    exact ⟨hready.willing, by omega, hready.final⟩

/-- Data that somebody wants, in either way. -/
theorem takeData_passed (hfront : s.front = some x) (hwanted : x.response.ignoreBody = false)
    (hworks : s.answers.Works)
    (hroom : x.usesWriter = true ∨ x.response.body.length + data.length ≤ maxBody) :
    ∃ res n y size capacity a, s.takeData data = ((res, n), { s with
        front := some y
        readState := { s.readState with writerSize := size, writerCapacity := capacity }
        answers := a }) ∧ DataPassed x s data res n y size capacity a := by
  unfold takeData
  rw [hfront]
  dsimp only
  rw [if_neg (by rw [hwanted]; decide),
    show (x.response.success && x.response.hasWriter) = x.usesWriter from rfl]
  by_cases hwriter : x.usesWriter = true
  · rw [if_pos hwriter]
    exact writeData_passed hworks hwriter
  · rw [if_neg hwriter]
    exact ⟨_, _, _, _, _, _, rfl,
      appendBody_passed hworks (by simpa using hwriter) (hroom.resolve_left hwriter)⟩

/-! ## The end of the body -/

/-- The response when `FinalizeResponseBody` has seen it. -/
def HttpExchange.withBody (x : HttpExchange) : HttpExchange :=
  { x with response := { x.response with gotBody := true } }

/-- `FinalizeResponseBody` succeeds or waits for the writer; it uses up an answer of the writer. -/
inductive FinalizeOutcome (x : HttpExchange) (s : HttpReceive) : Nat × HttpReceive → Prop where
  | ok {finals : List AioResult} (hworks : WriterAnswers.Works ⟨s.answers.buffers, finals⟩) :
      FinalizeOutcome x s (Reply.ok, { s with
        front := some x.withBody, answers := ⟨s.answers.buffers, finals⟩ })
  | wait {finals : List AioResult} (hworks : WriterAnswers.Works ⟨s.answers.buffers, finals⟩)
      (hfinal : s.answers.finals.head? ≠ some .ok) :
      FinalizeOutcome x s (Reply.wouldBlock, { s with
        front := some x.withBody, answers := ⟨s.answers.buffers, finals⟩ })

/-- The writer is told to finish, and may have to be asked again. -/
theorem finalizeResponseBody_outcome (hfront : s.front = some x)
    (hbody : x.response.noBody = false) (hwanted : x.response.ignoreBody = false)
    (hworks : s.answers.Works) : FinalizeOutcome x s s.finalizeResponseBody := by
  unfold finalizeResponseBody
  rw [hfront]
  dsimp only
  rw [if_neg (by rw [hwanted, hbody]; decide),
    show (x.response.success && x.response.hasWriter) = x.usesWriter from rfl]
  by_cases hwriter : x.usesWriter = true
  · rw [if_pos hwriter]
    unfold finalizeWriter
    -- a writer whose answers are used up makes the operation wait
    cases hfinals : s.answers.finals with
    | nil =>
      have hend : FinalizeOutcome x s (Reply.wouldBlock, { s with
          front := some x.withBody, answers := ⟨s.answers.buffers, s.answers.finals⟩ }) :=
        .wait hworks (by simp [hfinals])
      exact hend
    | cons r finals =>
      have htail : WriterAnswers.Works ⟨s.answers.buffers, finals⟩ :=
        ⟨hworks.1, fun a ha => hworks.2 a (hfinals ▸ mem_cons_of_mem r ha)⟩
      cases r with
      | ok => exact .ok htail
      | wait => exact .wait htail (by simp [hfinals])
      | error => exact absurd rfl (hworks.2 .error (hfinals ▸ mem_cons_self))
  · rw [if_neg hwriter]
    have hend : FinalizeOutcome x s (Reply.ok, { s with
        front := some x.withBody, answers := ⟨s.answers.buffers, s.answers.finals⟩ }) :=
      .ok hworks
    exact hend

/-- The receive buffer plays no part in it. -/
theorem finalizeResponseBody_recvBuffer (s : HttpReceive) (buffer : List UInt8) :
    { s with recvBuffer := buffer }.finalizeResponseBody =
      (s.finalizeResponseBody.1, { s.finalizeResponseBody.2 with recvBuffer := buffer }) := by
  unfold finalizeResponseBody finalizeWriter
  dsimp only
  split
  · rfl
  · split_ifs
    · rfl
    · split
      · rfl
      · split
        all_goals rfl
    · rfl

theorem recvBuffer_finalizeResponseBody (s : HttpReceive) :
    s.finalizeResponseBody.2.recvBuffer = s.recvBuffer :=
  congrArg (fun res => res.2.recvBuffer) (finalizeResponseBody_recvBuffer s s.recvBuffer)

/-! ## Where the parser stands -/

/-- What is received: the code of the response, its body and the bytes behind the response. -/
structure Incoming where
  code : Nat
  body : List UInt8
  extra : List UInt8

/-- The header is complete and the body is wanted. -/
structure HttpExchange.Open (x : HttpExchange) (code : Nat) : Prop where
  code : x.response.code = code
  sentHeader : x.request.sentHeader = true
  gotHeader : x.response.gotHeader = true
  hasBody : x.response.noBody = false
  wanted : x.response.ignoreBody = false

/-- The body was passed on up to `content`. -/
structure Taking (r : Incoming) (input content : List UInt8) (x : HttpExchange) (s : HttpReceive) :
    Prop extends Receiving input s where
  front : s.front = some x
  isOpen : x.Open r.code
  received : s.readState.receivedData = x.taken.length
  done : s.readState.done = false
  room : x.usesWriter = true ∨ r.body.length ≤ HttpResponse.maxBody
  taken : x.taken ++ content = r.body

/-- The body is complete; nothing behind the response was consumed. -/
structure AtEnd (r : Incoming) (input : List UInt8) (x : HttpExchange) (s : HttpReceive) : Prop
    extends Receiving input s where
  front : s.front = some x
  isOpen : x.Open r.code
  done : s.readState.done = true
  taken : x.taken = r.body
  rest : s.recvBuffer ++ input = r.extra

/-- How a call of the parser ends. It stands where `stands k n input` holds when at most `k` more
calls follow before bytes are missing and `n` bytes of the body are still to come; `ready` is the
readiness of the writer at the start of the call. -/
inductive CallOutcome (stands : Nat → Nat → List UInt8 → HttpReceive → Prop) (r : Incoming)
    (input : List UInt8) (k : Nat) (ready : Prop) : Nat × HttpReceive → Prop where
  | needData {j n : Nat} {s : HttpReceive} (hs : stands j n input s)
      (hlt : r.extra.length < input.length) :
      CallOutcome stands r input k ready (Reply.needData, s)
  | blocked {j n : Nat} {s : HttpReceive} (hs : stands j n input s) (hready : ¬ready) :
      CallOutcome stands r input k ready (Reply.wouldBlock, s)
  | more {j n : Nat} {s : HttpReceive} (hj : j < k) (hs : stands j n input s)
      (hready : ready → s.Ready n) :
      CallOutcome stands r input k ready (Reply.continue_, s)
  | blockedAtEnd {x : HttpExchange} {s : HttpReceive} (hs : AtEnd r input x s)
      (hready : ¬ready) : CallOutcome stands r input k ready (Reply.wouldBlock, s)
  | finished {x : HttpExchange} {s : HttpReceive} (hs : AtEnd r input x s) :
      CallOutcome stands r input k ready (Reply.ok, s)

variable {r : Incoming} {input content : List UInt8} {k : Nat}
variable {stands stands' : Nat → Nat → List UInt8 → HttpReceive → Prop}

/-- The places where the parser may stand, and the condition for progress, made weaker. -/
theorem CallOutcome.imp {p q : Prop} {res : Nat × HttpReceive}
    (hstands : ∀ j n s, stands j n input s → stands' j n input s) (hpq : q → p)
    (h : CallOutcome stands r input k p res) : CallOutcome stands' r input k q res := by
  cases h with
  | needData hs hlt => exact .needData (hstands _ _ _ hs) hlt
  | blocked hs hready => exact .blocked (hstands _ _ _ hs) (mt hpq hready)
  | more hj hs hready => exact .more hj (hstands _ _ _ hs) fun hq => hready (hpq hq)
  | blockedAtEnd hs hready => exact .blockedAtEnd hs (mt hpq hready)
  | finished hs => exact .finished hs

theorem CallOutcome.mono {p q : Prop} {res : Nat × HttpReceive} (hpq : q → p)
    (h : CallOutcome stands r input k p res) : CallOutcome stands r input k q res :=
  h.imp (fun _ _ _ => id) hpq

/-- At the end the response is finished, or waits for the writer. -/
theorem AtEnd.finalizeResponseBody (h : AtEnd r input x s) :
    CallOutcome stands r input k (s.Ready 0) s.finalizeResponseBody := by
  have hend : ∀ finals, WriterAnswers.Works ⟨s.answers.buffers, finals⟩ →
      AtEnd r input x.withBody { s with
        front := some x.withBody, answers := ⟨s.answers.buffers, finals⟩ } :=
    fun finals hworks => { h with front := rfl, isOpen := { h.isOpen with }, works := hworks }
  have houtcome := finalizeResponseBody_outcome h.front h.isOpen.hasBody h.isOpen.wanted h.works
  generalize s.finalizeResponseBody = res at houtcome ⊢
  cases houtcome with
  | ok hworks => exact .finished (hend _ hworks)
  | wait hworks hfinal => exact .blockedAtEnd (hend _ hworks) fun hready => hfinal hready.final

theorem AtEnd.parseReceiveBuffer {toInt64 : List UInt8 → Int} (h : AtEnd r input x s) :
    CallOutcome stands r input k (s.Ready 0) (s.parseReceiveBuffer toInt64) := by
  unfold HttpReceive.parseReceiveBuffer
  rw [if_pos h.done]
  exact h.finalizeResponseBody

/-! ## `ProcessData` -/

/-- The body ends. -/
def HttpReceive.ended (s : HttpReceive) : HttpReceive :=
  { s with readState := { s.readState with done := true } }

/-- `n` bytes were passed on. -/
def HttpReceive.passed (s : HttpReceive) (n : Nat) (y : HttpExchange) (size capacity : Nat)
    (a : WriterAnswers) : HttpReceive :=
  { s with
    front := some y
    readState := { s.readState with
      writerSize := size, writerCapacity := capacity
      receivedData := s.readState.receivedData + n }
    answers := a }

/-- The data is passed on, and with all of the content length the body ends. -/
theorem Taking.processData (h : Taking r input content x s) (hdata : data <+: content) :
    ∃ res n y size capacity a, DataPassed x s data res n y size capacity a ∧
      Taking r input (content.drop n) y (s.passed n y size capacity a) ∧
      s.processData data =
        if res = Reply.continue_ ∧ (y.taken.length : Int) = s.readState.responseContentLength then
          (((s.passed n y size capacity a).ended.finalizeResponseBody.1, n),
            (s.passed n y size capacity a).ended.finalizeResponseBody.2)
        else ((res, n), s.passed n y size capacity a) := by
  have hle := hdata.length_le
  -- the content is not longer than the maximum, whatever has been taken of it
  have hroom : x.usesWriter = true ∨ x.response.body.length + data.length ≤ maxBody := by
    by_cases hwriter : x.usesWriter = true
    · exact .inl hwriter
    · have hlen := congrArg length h.taken
      have hmax := h.room.resolve_left hwriter
      rw [HttpExchange.taken, if_neg hwriter, length_append] at hlen
      exact .inr (by omega)
  obtain ⟨res, n, y, size, capacity, a, heq, hpassed⟩ :=
    takeData_passed h.front h.isOpen.wanted h.works hroom
  have htake : data.take n = content.take n := by
    obtain ⟨later, rfl⟩ := hdata
    exact (take_append_of_le_length hpassed.le).symm
  -- a part of the data may be taken, which is then a part of the content
  have htaken : y.taken = x.taken ++ content.take n := by rw [hpassed.taken, htake]
  have hcount : s.readState.receivedData + (n : Int) = y.taken.length := by
    have hn := hpassed.le
    rw [htaken, length_append, length_take, h.received]
    omega
  obtain ⟨b, w, hy⟩ := hpassed.same
  refine ⟨res, n, y, size, capacity, a, hpassed, ?_, ?_⟩
  · exact { h with
      front := rfl, works := hpassed.works, received := hcount
      isOpen := by rw [hy]; exact { h.isOpen with }
      room := by rw [hy]; exact h.room
      taken := by rw [htaken, append_assoc, take_append_drop, h.taken] }
  · unfold HttpReceive.processData
    rw [heq, ← hcount]
    rfl

end FlintZilla
