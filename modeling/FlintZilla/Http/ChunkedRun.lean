import FlintZilla.Http.ChunkedResponse

/-!
# Receiving a chunked response

The operation with one request, from the first byte of its response on. Between two events it stands
somewhere in the response, or the response is finished; what an event does follows from the lemmas
on one call of the parser.

Main results:

* `chunkedSystem_inv`, `chunkedSystem_progress`: where the operation stands, and that it can go on.
* `chunkedResponse_decoded`: the body is delivered and what follows stays in the stream.
* `chunked_same_end`: when a content length makes no difference.
* `chunked_line_rejected`: a line that does not fit in the buffer is an error.
-/

namespace FlintZilla

open Lib HttpRequestOp List

variable {m : ChunkedMessage} {extra : List UInt8} {x y : HttpExchange} {s : HttpRequestOp}
variable {toInt64 : List UInt8 → Int} {a : WriterAnswers} {c : HttpReceive}

section

variable (hx : x.GoesOn (m.incoming extra)) (hlength : m.LengthBehind toInt64)
  (h : (goodHttpSystem toInt64 x [] (m.bytes ++ extra)).Reach s)

include hx hlength h

/-- What is true of the operation after any events. -/
theorem chunkedSystem_inv :
    Waiting (ChunkedStanding m extra x) (m.incoming extra) [] s ∨
      (s.result ≠ none ∧ ∃ y rest, s.finished = [(some y, rest)] ∧ y.Open m.head.code ∧
        y.taken = m.body.content ∧ rest ++ s.input = extra) := by
  induction h with
  | @init s hinit =>
    have hs : s = .sent x [] (m.bytes ++ extra) := hinit
    subst hs
    refine .inl ⟨rfl, rfl, rfl, rfl, .inl ⟨_, _, .header (inHead_sent _ _ x [] ?_)⟩⟩
    exact append_assoc _ _ _
  | @step s t e _ hstep ih =>
    obtain ⟨hstep, hworks⟩ := hstep
    have hfun : s.step toInt64 e = some t := hstep
    rcases ih with hs | ⟨hresult, -⟩
    · cases (chunkedStanding_parses hx hlength).step hs hworks trivial hfun with
      | waiting ht _ => exact .inl ht
      | received hfinished hopen htaken hrest hlast =>
        obtain ⟨rfl, hresult⟩ := hlast rfl
        exact .inr ⟨hresult, _, _, hfinished, hopen, htaken, hrest⟩
    · -- nothing happens after the response
      unfold step at hfun
      rw [if_pos (.inl (Option.isSome_iff_ne_none.mpr hresult))] at hfun
      cases hfun

/-- As long as the response is not finished: the operation has not failed, an event that does not
finish it leaves bytes of it unread or the writer has not taken everything, and it is finished once
all of it is read and the writer takes it. -/
theorem chunkedSystem_progress (hs : s.finished = []) :
    s.result = none ∧
    (∀ e t, (goodHttpSystem toInt64 x [] (m.bytes ++ extra)).Step s e t → t.finished = [] →
      extra.length < t.input.length ∨ ¬e.answers.Accepts m.body.content.length) ∧
    (s.input.length ≤ extra.length → ∀ a : WriterAnswers, a.Works →
      a.Accepts m.body.content.length →
        ∃ t, (goodHttpSystem toInt64 x [] (m.bytes ++ extra)).Step s (.resume a) t ∧
          t.finished ≠ []) := by
  have hparses := chunkedStanding_parses hx hlength
  rcases chunkedSystem_inv hx hlength h with hwaiting | ⟨-, y, rest, hfinished, -⟩
  · refine ⟨hwaiting.result, ?_, ?_⟩
    · rintro e t ⟨hstep, hworks⟩ ht
      exact (hparses.step hwaiting hworks trivial hstep).unfinished ht
    · intro hread a hworks haccepts
      exact ⟨_, ⟨step_resume toInt64 hwaiting.result hwaiting.socket hwaiting.later a, hworks⟩,
        hparses.finished_resume hwaiting hworks trivial haccepts hread⟩
  · rw [hs] at hfinished
    cases hfinished

end

theorem ChunkedResponse.bytes_message (r : ChunkedResponse) : r.bytes = r.message.bytes := by
  unfold ChunkedMessage.bytes ResponseHead.bytes
  rw [append_assoc, append_assoc]
  rfl

/-- A response that is finished has delivered its body. -/
theorem ChunkedResponse.delivered {r : ChunkedResponse} (hx : x.Awaits r.body.content)
    (h : (goodHttpSystem toInt64 x [] (r.bytes ++ extra)).Reach s) (hs : s.finished ≠ []) :
    ∃ y rest, s.finished = [(some y, rest)] ∧ y.response.delivered = r.body.content ∧
      rest ++ s.input = extra := by
  rw [r.bytes_message] at h
  rcases chunkedSystem_inv (hx.goesOn_incoming extra) (.inl r.noLength) h with
    hwaiting | ⟨-, y, rest, hfinished, hopen, htaken, hrest⟩
  · exact absurd hwaiting.finished hs
  · refine ⟨y, rest, hfinished, ?_, hrest⟩
    have hsuccess : y.response.success = true := by
      unfold HttpResponse.success
      rw [hopen.code]
      exact decide_eq_true r.success
    rw [HttpExchange.taken, HttpExchange.usesWriter, hsuccess] at htaken
    exact htaken

/-- However the response is cut into reads and however often the writer waits, no error occurs
before the response is finished, and the finished response has delivered its body and has left all
bytes behind it. An event after which the response is not finished is one that leaves bytes of it
unread or one in which the writer did not take everything, so that the response is finished once all
of it is read and the writer takes it. -/
theorem chunkedResponse_decoded (toInt64 : List UInt8 → Int) (r : ChunkedResponse)
    (extra : List UInt8) (x : HttpExchange) (hx : x.Awaits r.body.content) {s : HttpRequestOp}
    (h : (goodHttpSystem toInt64 x [] (r.bytes ++ extra)).Reach s) :
    ((s.finished = [] ∧ s.result = none) ∨
      ∃ y rest, s.finished = [(some y, rest)] ∧ y.response.delivered = r.body.content ∧
        rest ++ s.input = extra) ∧
    (s.finished = [] → ∀ e t, (goodHttpSystem toInt64 x [] (r.bytes ++ extra)).Step s e t →
      t.finished = [] →
      extra.length < t.input.length ∨ ¬e.answers.Accepts r.body.content.length) ∧
    (s.finished = [] → s.input.length ≤ extra.length →
      ∀ a : WriterAnswers, a.Works → a.Accepts r.body.content.length →
        ∃ t, (goodHttpSystem toInt64 x [] (r.bytes ++ extra)).Step s (.resume a) t ∧
          t.finished ≠ []) := by
  have hprogress := fun hs : s.finished = [] => chunkedSystem_progress (hx.goesOn_incoming extra)
    (.inl r.noLength) (r.bytes_message ▸ h) hs
  rw [← r.bytes_message] at hprogress
  refine ⟨?_, fun hs => (hprogress hs).2.1, fun hs => (hprogress hs).2.2⟩
  by_cases hs : s.finished = []
  · exact .inl ⟨hs, (hprogress hs).1⟩
  · exact .inr (r.delivered hx h hs)

/-! ## Two chunks and a trailer -/

/-- The body `hello` in two chunks, the first with an extension, and a trailer line. -/
def helloBody : ChunkedBody where
  chunks := [
    ⟨⟨ascii "02", ascii ";a=b", by decide, by simp [ascii, asciiChar], by decide, by decide⟩,
      ascii "he", by decide, by decide, by decide⟩,
    ⟨⟨ascii "3", [], by decide, nofun, by decide, by decide⟩, ascii "llo",
      by decide, by decide, by decide⟩]
  last := ⟨ascii "0", [], by decide, nofun, by decide, by decide⟩
  last_zero := by decide
  trailer := [⟨⟨ascii "T: u", by decide, by decide⟩, by decide⟩]

def helloResponse : ChunkedResponse where
  statusLine := ⟨ascii "HTTP/1.1 200 OK", by decide, by decide⟩
  code := 200
  fields := [⟨⟨ascii "Transfer-Encoding: chunked", by decide, by decide⟩,
    ascii "Transfer-Encoding", ascii "chunked", by decide⟩]
  body := helloBody
  status := by rfl
  success := by decide
  mayHaveBody := by decide
  chunked := by decide
  noLength := by decide

/-- A request whose response goes to a writer. -/
def getRequest : HttpExchange where
  request := ⟨ascii "GET", [], true⟩
  response := .fresh none true

theorem getRequest_awaits : getRequest.Awaits helloResponse.body.content where
  sentHeader := rfl
  notHead := by decide
  fresh := rfl
  goesOn := by
    intro p hp
    cases hp
  room := .inl rfl

/-- The reads cut a line end and the data of a chunk, and the writer waits in the middle of the data
and at the end. -/
def helloRun : List HttpEvent := [
  .read 16 ⟨[], []⟩, .read 40 ⟨[.ok 1], []⟩, .read 24 ⟨[.wait], []⟩,
  .resume ⟨[.ok 3, .ok 1], [.wait]⟩, .resume ⟨[], [.ok]⟩]

theorem chunkedResponse_decoded_hello :
    ∃ s y,
      (goodHttpSystem (fun _ => -1) getRequest [] (helloResponse.bytes ++ ascii "XY")).Reach s ∧
      s.finished = [(some y, ascii "XY")] ∧ y.response.delivered = ascii "hello" := by
  have hreach : (goodHttpSystem (fun _ => -1) getRequest []
      (helloResponse.bytes ++ ascii "XY")).Reach _ := Lts.reach_restrict_ofFun helloRun rfl rfl
  have hdecoded := chunkedResponse_decoded _ helloResponse (ascii "XY") getRequest
    getRequest_awaits hreach
  rcases hdecoded.1 with ⟨hnil, -⟩ | ⟨y, rest, hfinished, hdelivered, hrest⟩
  · cases hnil
  · -- everything was read
    have hall : rest ++ [] = ascii "XY" := hrest
    rw [List.append_nil] at hall
    subst hall
    exact ⟨_, y, hreach, hfinished, hdelivered⟩

/-! ## With a content length -/

/-- Two chunked responses with the same body, each without a content length or with one that is
larger than the body: whatever else their headers say and however they are received, both end behind
the body and have passed on the same bytes, and neither fails or stops before. -/
theorem chunked_same_end (toInt64 : List UInt8 → Int) (m m' : ChunkedMessage)
    (hbody : m'.body = m.body) (hlength : m.LengthBehind toInt64)
    (hlength' : m'.LengthBehind toInt64) (extra : List UInt8) (x x' : HttpExchange)
    (hx : x.GoesOn (m.incoming extra)) (hx' : x'.GoesOn (m'.incoming extra)) {s s' : HttpRequestOp}
    (h : (goodHttpSystem toInt64 x [] (m.bytes ++ extra)).Reach s)
    (h' : (goodHttpSystem toInt64 x' [] (m'.bytes ++ extra)).Reach s') :
    (s.finished ≠ [] → s'.finished ≠ [] → ∃ y rest y' rest', s.finished = [(some y, rest)] ∧
      s'.finished = [(some y', rest')] ∧ y.taken = y'.taken ∧ y.taken = m.body.content ∧
      rest ++ s.input = rest' ++ s'.input ∧ rest ++ s.input = extra) ∧
    (s.finished = [] → s.result = none ∧ (s.input.length ≤ extra.length →
      ∀ a : WriterAnswers, a.Works → a.Accepts m.body.content.length →
        ∃ t, (goodHttpSystem toInt64 x [] (m.bytes ++ extra)).Step s (.resume a) t ∧
          t.finished ≠ [])) := by
  constructor
  · intro hs hs'
    rcases chunkedSystem_inv hx hlength h with
      hwaiting | ⟨-, y, rest, hfinished, -, htaken, hrest⟩
    · exact absurd hwaiting.finished hs
    rcases chunkedSystem_inv hx' hlength' h' with
      hwaiting | ⟨-, y', rest', hfinished', -, htaken', hrest'⟩
    · exact absurd hwaiting.finished hs'
    rw [hbody] at htaken'
    exact ⟨y, rest, y', rest', hfinished, hfinished', htaken.trans htaken'.symm, htaken,
      hrest.trans hrest'.symm, hrest⟩
  · intro hs
    obtain ⟨hresult, -, hresume⟩ := chunkedSystem_progress hx hlength h hs
    exact ⟨hresult, hresume⟩

/-- The value of a text of decimal digits. -/
def digitsValue (text : List UInt8) : Int :=
  text.foldl (fun n b => 10 * n + (b.toNat - (asciiChar '0').toNat : Nat)) 0

/-- A chunked response with a content length of 2. -/
def lengthMessage (body : ChunkedBody) : ChunkedMessage where
  head := { helloResponse.message.head with
    fields := helloResponse.fields ++ [⟨⟨ascii "Content-Length: 2", by decide, by decide⟩,
      ascii "Content-Length", ascii "2", by decide⟩] }
  body := body
  chunked := by decide

/-- The body `h`. -/
def letterBody : ChunkedBody where
  chunks := [⟨⟨ascii "1", [], by decide, nofun, by decide, by decide⟩, ascii "h", by decide,
    by decide, by decide⟩]
  last := helloBody.last
  last_zero := by decide
  trailer := []

/-- The body `h` with the content length, and without one and cut into two reads. -/
theorem chunked_same_end_letter :
    ∃ s s' y rest y' rest',
      (goodHttpSystem digitsValue getRequest []
        ((lengthMessage letterBody).bytes ++ ascii "X")).Reach s ∧
      (goodHttpSystem digitsValue getRequest []
        (ChunkedMessage.bytes { helloResponse.message with body := letterBody } ++
          ascii "X")).Reach s' ∧
      s.finished = [(some y, rest)] ∧ s'.finished = [(some y', rest')] ∧ y.taken = y'.taken ∧
      rest ++ s.input = rest' ++ s'.input := by
  have hreach : (goodHttpSystem digitsValue getRequest []
      ((lengthMessage letterBody).bytes ++ ascii "X")).Reach _ :=
    Lts.reach_restrict_ofFun [.read 78 ⟨[.ok 4], [.ok]⟩] rfl rfl
  have hreach' : (goodHttpSystem digitsValue getRequest [] (ChunkedMessage.bytes
      { helloResponse.message with body := letterBody } ++ ascii "X")).Reach _ :=
    Lts.reach_restrict_ofFun [.read 30 ⟨[], []⟩, .read 28 ⟨[.ok 1], [.ok]⟩] rfl rfl
  have hx : ∀ m : ChunkedMessage, m.head.code = 200 →
      getRequest.GoesOn (m.incoming (ascii "X")) := by
    intro m hcode
    refine ⟨⟨rfl, rfl⟩, by decide, ?_, nofun, .inl ⟨?_, rfl⟩⟩
    all_goals
      dsimp only [ChunkedMessage.incoming]
      omega
  obtain ⟨y, rest, y', rest', hs, hs', htaken, -, hrest, -⟩ := (chunked_same_end digitsValue
    (lengthMessage letterBody) { helloResponse.message with body := letterBody } rfl
    (.inr (by decide)) (.inl (by decide)) _ _ _ (hx _ rfl) (hx _ rfl) hreach hreach').1
    (List.cons_ne_nil _ _) (List.cons_ne_nil _ _)
  exact ⟨_, _, y, rest, y', rest', hreach, hreach', hs, hs', htaken, hrest⟩

/-- With a content length of 2 the body `hello` ends behind its first two bytes, and the rest of the
response is left over. -/
theorem chunked_ends_with_length :
    ∃ s y, (goodHttpSystem digitsValue getRequest [] (lengthMessage helloBody).bytes).Reach s ∧
      s.finished = [(some y, ascii "\r\n3\r\nllo\r\n0\r\nT: u\r\n\r\n")] ∧
      y.taken = ascii "he" ∧ s.result = some Reply.error :=
  ⟨_, _, Lts.reach_restrict_ofFun [.read 97 ⟨[.ok 8], [.ok]⟩] rfl rfl, rfl, rfl, rfl⟩

/-! ## Lines the parser rejects -/

variable {text : List UInt8}

/-- A line whose LF is the 8193rd byte of the buffer is not found in time. -/
theorem HttpReceive.parseChunkedData_tooLong (hclean : Lines.Clean text)
    (hlength : text.length = 8191) (hsize : c.readState.chunkSize = 0)
    (hbuffer : c.recvBuffer = text ++ [Lines.cr]) :
    c.parseChunkedData = c.fail ("Malformed chunk data: " ++ "Line length exceeded") := by
  have hscan : Lines.scan c.recvBuffer = .incomplete := by
    have hcut : c.recvBuffer ++ [Lines.lf] = Lines.ended text := by
      rw [hbuffer, Lines.ended, append_assoc]
      rfl
    exact Lines.scan_incomplete hclean hcut (cons_ne_nil _ _)
  have hlen : c.recvBuffer.length = 8191 + 1 := by
    rw [hbuffer, length_append, hlength]
    rfl
  have hne : c.recvBuffer ≠ [] := by
    intro hnil
    rw [hnil] at hlen
    cases hlen
  unfold parseChunkedData
  rw [hlen, chunkLoop, if_neg hne]
  unfold chunkRound parseChunk
  rw [if_pos hsize]
  dsimp only
  rw [hscan]
  rw [if_pos (by rw [hlen]; decide)]
  rfl

/-- The header of a chunked response and the line before its trailer. -/
def chunkedStart : List UInt8 :=
  ascii "HTTP/1.1 200 OK\r\nTransfer-Encoding: chunked\r\n\r\n0\r\n"

/-- A trailer line of 8191 bytes. -/
def longTrailer : List UInt8 := List.replicate 8191 (asciiChar 'a')

variable (toInt64) in
/-- A read takes bytes off the input and calls the parser. -/
theorem HttpRequestOp.step_read {A B : List UInt8} {a : WriterAnswers} (hresult : s.result = none)
    (hsocket : s.socket) (heof : s.current.readState.eof = false) (hinput : s.input = A ++ B)
    (hpos : 0 < A.length) (hle : A.length ≤ recvSize) :
    s.step toInt64 (.read A.length a) = some (process toInt64 { s with
      current := { s.current with recvBuffer := s.current.recvBuffer ++ A }, input := B } a) := by
  unfold step
  rw [if_neg (by rw [hresult, hsocket]; simp)]
  dsimp only
  rw [if_pos ⟨hpos, hle, by rw [hinput, length_append]; omega, heof⟩, hinput, take_left, drop_left]

variable (toInt64) in
/-- A full buffer without a line end. -/
theorem HttpReceive.parseReceiveBuffer_tooLong {c : HttpReceive} (hclean : Lines.Clean text)
    (hlength : text.length = 8191) (hbuffer : c.recvBuffer = text ++ [Lines.cr])
    (hfront : c.front = some y) (hsent : y.request.sentHeader)
    (hgot : y.response.gotHeader) (hdone : c.readState.done = false)
    (hchunked : c.readState.transferEncoding = .chunked) (hsize : c.readState.chunkSize = 0) :
    c.parseReceiveBuffer toInt64 = c.fail ("Malformed chunk data: " ++ "Line length exceeded") := by
  rw [parseReceiveBuffer_chunked hdone hfront hsent hgot hchunked,
    c.parseChunkedData_tooLong hclean hlength hsize hbuffer]
  exact closeIncomplete_of_ne (by decide)

/-- The operation that has received `chunkedStart`. -/
def trailerOp : HttpRequestOp :=
  let s := HttpRequestOp.sent getRequest [] []
  HttpRequestOp.process (fun _ => -1) { s with
    current := { s.current with recvBuffer := chunkedStart } } ⟨[], []⟩

/-- The operation after the header and the last chunk. -/
theorem read_chunkedStart (input : List UInt8) :
    (sent getRequest [] (chunkedStart ++ input)).step (fun _ => -1)
      (.read chunkedStart.length ⟨[], []⟩) = some (trailerOp.withInput input) := by
  unfold trailerOp
  rw [← process_withInput]
  rfl

/-- It awaits a trailer. -/
theorem trailerOp_awaits : (trailerOp.result = none ∧ trailerOp.socket = true ∧
      trailerOp.finished = [] ∧ trailerOp.current.recvBuffer = [] ∧ trailerOp.current.errors = []) ∧
    (trailerOp.current.readState.eof = false ∧ trailerOp.current.readState.done = false ∧
      trailerOp.current.readState.transferEncoding = .chunked ∧
      trailerOp.current.readState.chunkSize = 0) ∧
    ∃ y ∈ trailerOp.current.front, y.request.sentHeader = true ∧ y.response.gotHeader = true := by
  decide

variable (toInt64) in
/-- A trailer line of 8191 bytes of which everything but the LF is there ends the operation. -/
theorem process_tooLong (hclean : Lines.Clean text)
    (hlength : text.length = 8191) (hbuffer : s.current.recvBuffer = text ++ [Lines.cr])
    (hfront : s.current.front = some y) (hsent : y.request.sentHeader)
    (hgot : y.response.gotHeader) (hdone : s.current.readState.done = false)
    (hchunked : s.current.readState.transferEncoding = .chunked)
    (hsize : s.current.readState.chunkSize = 0) :
    (s.process toInt64 a).finished = s.finished ∧ (s.process toInt64 a).result = some Reply.error ∧
      (s.process toInt64 a).current.errors =
        s.current.errors ++ ["Malformed chunk data: Line length exceeded"] := by
  have hparse := HttpReceive.parseReceiveBuffer_tooLong toInt64
    (c := { s.current with answers := a })
    hclean hlength hbuffer hfront hsent hgot hdone hchunked hsize
  unfold process
  rw [show 3 * (s.later.length + 1) = 3 * s.later.length + 2 + 1 from rfl, processLoop, hparse]
  exact ⟨rfl, rfl, rfl⟩

/-- A chunk with an extension that starts with a tab. -/
def tabResponse : List UInt8 :=
  ascii "HTTP/1.1 200 OK\r\nTransfer-Encoding: chunked\r\n\r\n1\t;x\r\na\r\n0\r\n\r\n"

/-- The extension that starts with a tab is rejected; so is the trailer line of 8191 bytes when a
read ends between its CR and its LF. -/
theorem chunked_line_rejected :
    (∃ s, (goodHttpSystem (fun _ => -1) getRequest [] tabResponse).Reach s ∧
      s.finished = [] ∧ s.result = some Reply.error ∧
      s.current.errors = ["Malformed chunk data: Invalid chunk size"]) ∧
    ∃ s, (goodHttpSystem (fun _ => -1) getRequest []
        (chunkedStart ++ (longTrailer ++ [Lines.cr] ++ ascii "\n\r\n"))).Reach s ∧
      s.finished = [] ∧ s.result = some Reply.error ∧
      s.current.errors = ["Malformed chunk data: Line length exceeded"] := by
  constructor
  · exact ⟨_, Lts.reach_restrict_ofFun [.read 61 ⟨[], []⟩] rfl rfl, rfl, rfl, rfl⟩
  · have hclean : Lines.Clean longTrailer := by
      intro b hb
      rw [List.eq_of_mem_replicate hb]
      decide
    have hlength : longTrailer.length = 8191 := List.length_replicate
    have hcr : (longTrailer ++ [Lines.cr]).length = 8192 := by
      rw [List.length_append, hlength]
      rfl
    have hworks : WriterAnswers.Works ⟨[], []⟩ := ⟨by simp, by simp⟩
    -- the first read ends behind the line of the last chunk, the second one in the line end
    have hfirst := read_chunkedStart (longTrailer ++ [Lines.cr] ++ ascii "\n\r\n")
    obtain ⟨⟨hresult, hsocket, hfinished, hbuffer, herrors⟩, ⟨heof, hdone, hchunked, hsize⟩,
      y, hfront, hsent, hgot⟩ := trailerOp_awaits
    generalize trailerOp = t at *
    have hsecond := step_read (fun _ => -1) (a := ⟨[], []⟩)
      (s := t.withInput (longTrailer ++ [Lines.cr] ++ ascii "\n\r\n")) hresult hsocket heof rfl
      (by rw [hcr]; decide) (by rw [hcr]; decide)
    have hend := process_tooLong (fun _ => -1) (a := ⟨[], []⟩)
      (s := { t.withInput (ascii "\n\r\n") with
        current := { t.current with
          recvBuffer := t.current.recvBuffer ++ (longTrailer ++ [Lines.cr]) } })
      hclean hlength (by rw [hbuffer]; rfl) hfront hsent hgot hdone hchunked hsize
    have hreach : (goodHttpSystem (fun _ => -1) getRequest []
        (chunkedStart ++ (longTrailer ++ [Lines.cr] ++ ascii "\n\r\n"))).Reach (t.withInput _) :=
      Lts.Reach.step (Lts.Reach.init rfl) ⟨hfirst, hworks⟩
    exact ⟨_, Lts.Reach.step hreach ⟨hsecond, hworks⟩, hend.1.trans hfinished, hend.2.1,
      hend.2.2.trans (congrArg (· ++ _) herrors)⟩

end FlintZilla
