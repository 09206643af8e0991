import FlintZilla.Aio.Buffers
import FlintZilla.Http.Response
import FlintZilla.Lib.Lines
import FlintZilla.Lib.Lts

/-!
# Receiving HTTP responses

The receiving side of `CHttpRequestOpData`, `engine/http/request.cpp`. The parser is resumable: its
state between two calls is `read_state_` and the unconsumed part of `recv_buffer_`. It stops when it
needs more bytes from the socket (`FZ_REPLY_WOULDBLOCK | FZ_REPLY_CONTINUE`) or when the writer has
no buffer for it (`FZ_REPLY_WOULDBLOCK`).
-/

namespace FlintZilla

open Lib

/-- `transferEncodings`. -/
inductive TransferEncoding where
  | identity
  | chunked
  | unknown
deriving DecidableEq

/-- `read_state`; of `writer_buffer_` only size and capacity matter here. -/
structure HttpReadState where
  transferEncoding : TransferEncoding
  getTrailer : Bool
  terminateChunk : Bool
  chunkSize : Nat
  responseContentLength : Int
  receivedData : Int
  writerSize : Nat
  writerCapacity : Nat
  done : Bool
  keepAlive : Bool
  eof : Bool
deriving DecidableEq

def HttpReadState.fresh : HttpReadState where
  transferEncoding := .unknown
  getTrailer := false
  terminateChunk := false
  chunkSize := 0
  responseContentLength := -1
  receivedData := 0
  writerSize := 0
  writerCapacity := 0
  done := false
  keepAlive := false
  eof := false

/-- An answer of `writer_base::get_write_buffer`. -/
inductive WriteBufferReply where
  /-- An empty buffer of that capacity. -/
  | ok (capacity : Nat)
  | wait
  | error
deriving DecidableEq

/-- How the writer answers the calls made while an event is handled. It waits when there is no
answer left. -/
structure WriterAnswers where
  buffers : List WriteBufferReply
  finals : List AioResult
deriving DecidableEq

/-- What the parser works on: the front of `requests_`, `send_pos_`, `recv_buffer_`, `read_state_`,
the writer and the messages logged as errors. -/
structure HttpReceive where
  front : Option HttpExchange
  sendPos : Nat
  recvBuffer : List UInt8
  readState : HttpReadState
  answers : WriterAnswers
  errors : List String
deriving DecidableEq

/-- `max_line_size`. -/
def maxLineSize : Nat := 8192

/-- `FZ_REPLY_WOULDBLOCK | FZ_REPLY_CONTINUE`: more bytes are needed. -/
def Reply.needData : Nat := Reply.wouldBlock ||| Reply.continue_

namespace HttpReceive

/-- Log an error and return `FZ_REPLY_ERROR`. -/
def fail (s : HttpReceive) (message : String) : Nat × HttpReceive :=
  (Reply.error, { s with errors := s.errors ++ [message] })

/-- `_("Connection closed by server")`. -/
def failClosed (s : HttpReceive) : Nat × HttpReceive :=
  (Reply.error ||| Reply.disconnected,
    { s with errors := s.errors ++ ["Connection closed by server"] })

/-! ## The body -/

/-- `writer_->finalize`. -/
def finalizeWriter (s : HttpReceive) : Nat × HttpReceive :=
  match s.answers.finals with
  | [] => (Reply.wouldBlock, s)
  | r :: finals =>
    let s := { s with answers := { s.answers with finals := finals } }
    match r with
    | .ok => (Reply.ok, s)
    | .wait => (Reply.wouldBlock, s)
    | .error => (Reply.error, s)

def finalizeResponseBody (s : HttpReceive) : Nat × HttpReceive :=
  match s.front with
  | none => (Reply.ok, s)
  | some x =>
    if x.response.ignoreBody || x.response.noBody then (Reply.ok, s)
    else
      let s := { s with front := some { x with response := { x.response with gotBody := true } } }
      if x.response.success && x.response.hasWriter then s.finalizeWriter else (Reply.ok, s)

/-- How far the loop that fills buffers of the writer has come. -/
structure Filled where
  res : Nat
  written : List UInt8
  size : Nat
  capacity : Nat
  buffers : List WriteBufferReply
deriving DecidableEq

/-- `while (remaining)`: what fits goes into the buffer, then a new one is needed. -/
def fillWriter (size capacity : Nat) (data : List UInt8) : List WriteBufferReply → Filled
  | [] =>
    if data.length ≤ capacity - size then
      ⟨Reply.continue_, data, size + data.length, capacity, []⟩
    else ⟨Reply.wouldBlock, data.take (capacity - size), 0, 0, []⟩
  | r :: buffers =>
    if data.length ≤ capacity - size then
      ⟨Reply.continue_, data, size + data.length, capacity, r :: buffers⟩
    else
      let taken := data.take (capacity - size)
      match r with
      | .wait => ⟨Reply.wouldBlock, taken, 0, 0, buffers⟩
      | .error => ⟨Reply.criticalError, taken, size + taken.length, capacity, buffers⟩
      | .ok newCapacity =>
        let f := fillWriter 0 newCapacity (data.drop (capacity - size)) buffers
        { f with written := taken ++ f.written }

/-- The branch of `ProcessData` with a writer: its result and the number of bytes it took. -/
def writeData (s : HttpReceive) (x : HttpExchange) (data : List UInt8) :
    (Nat × Nat) × HttpReceive :=
  let f := fillWriter s.readState.writerSize s.readState.writerCapacity data s.answers.buffers
  ((f.res, f.written.length), { s with
    front := some { x with
      response := { x.response with written := x.response.written ++ f.written } }
    readState := { s.readState with writerSize := f.size, writerCapacity := f.capacity }
    answers := { s.answers with buffers := f.buffers } })

/-- `ProcessData` up to `receivedData_`: its result and the number of bytes it took. -/
def takeData (s : HttpReceive) (data : List UInt8) : (Nat × Nat) × HttpReceive :=
  match s.front with
  | none => ((Reply.continue_, data.length), s)
  | some x =>
    if x.response.ignoreBody then ((Reply.continue_, data.length), s)
    else if x.response.success && x.response.hasWriter then s.writeData x data
    else ((Reply.continue_, data.length),
      { s with front := some { x with response := x.response.appendBody data } })

def processData (s : HttpReceive) (data : List UInt8) : (Nat × Nat) × HttpReceive :=
  let ((res, taken), s) := s.takeData data
  let received := s.readState.receivedData + taken
  let s := { s with readState := { s.readState with receivedData := received } }
  if res = Reply.continue_ ∧ received = s.readState.responseContentLength then
    let (res, s) := finalizeResponseBody { s with readState := { s.readState with done := true } }
    ((res, taken), s)
  else ((res, taken), s)

/-! ## Chunked data -/

/-- A round of a parsing loop: the loop goes on, or the function returns. -/
inductive Round where
  | next (s : HttpReceive)
  | done (r : Nat × HttpReceive)

def failChunk (s : HttpReceive) (reason : String) : Round :=
  .done (s.fail ("Malformed chunk data: " ++ reason))

/-- The data of the chunk, `if (read_state_.chunk_data_.size != 0)`. -/
def parseChunk (s : HttpReceive) : Round :=
  if s.readState.chunkSize = 0 then .next s
  else
    let data := s.recvBuffer.take s.readState.chunkSize
    let ((res, taken), t) := s.processData data
    let size := t.readState.chunkSize - taken
    let t := { t with
      recvBuffer := t.recvBuffer.drop taken, readState := { t.readState with chunkSize := size } }
    if res ≠ Reply.continue_ then .done (res, t)
    else .next { t with readState := { t.readState with
      terminateChunk := if size = 0 then true else t.readState.terminateChunk } }

/-- What a whole line means depends on what was read before; `rest` follows it in the buffer. -/
def parseChunkLine (s : HttpReceive) (line rest : List UInt8) : Round :=
  if s.readState.terminateChunk then
    if line ≠ [] then s.failChunk "Chunk data improperly terminated"
    else .next { s with
      recvBuffer := rest, readState := { s.readState with terminateChunk := false } }
  else if s.readState.getTrailer then
    if line = [] then
      .done (finalizeResponseBody { s with
        recvBuffer := rest, readState := { s.readState with done := true } })
    else .next { s with recvBuffer := rest }
  else
    match parseChunkSize s.readState.chunkSize line with
    | none => s.failChunk "Invalid chunk size"
    | some size => .next { s with
        recvBuffer := rest
        readState := { s.readState with
          chunkSize := size, getTrailer := s.readState.getTrailer || size == 0 } }

/-- One round of `while (!recv_buffer_.empty())`. -/
def chunkRound (s : HttpReceive) : Round :=
  match s.parseChunk with
  | .done r => .done r
  | .next s =>
    match Lines.scan s.recvBuffer with
    | .badEnding => s.failChunk "Wrong line endings"
    | .nul => s.failChunk "Null character in line"
    | .incomplete =>
      if maxLineSize ≤ s.recvBuffer.length then s.failChunk "Line length exceeded"
      else .done (Reply.needData, s)
    | .line line rest => s.parseChunkLine line rest

def chunkLoop : Nat → HttpReceive → Nat × HttpReceive
  | 0, s => (Reply.needData, s)
  | fuel + 1, s =>
    if s.recvBuffer = [] then (Reply.needData, s)
    else
      match s.chunkRound with
      | .done r => r
      | .next s => chunkLoop fuel s

/-- Every round takes a line end out of the buffer. -/
def parseChunkedData (s : HttpReceive) : Nat × HttpReceive := s.chunkLoop s.recvBuffer.length

/-! ## The header -/

def failHeader (s : HttpReceive) (reason : String) : Nat × HttpReceive :=
  s.fail ("Malformed response header: " ++ reason)

/-- The flags `ProcessCompleteHeader` sets first. -/
def completeHeader (x : HttpExchange) : HttpExchange :=
  { x with response := { x.response with
    gotHeader := true
    noBody :=
      x.response.noBody || x.request.verb == ascii "HEAD" || x.response.codeProhibitsBody } }

/-- What `ProcessCompleteHeader` takes from the fields, or why it fails. `toInt64` is
`fz::to_integral<int64_t>` with -1 for what is no number. -/
def readHeaderFields (toInt64 : List UInt8 → Int) (readState : HttpReadState) (x : HttpExchange) :
    Except String HttpReadState :=
  let te := strToLowerAscii (x.response.headers.getHeader (ascii "Transfer-Encoding"))
  let cl := x.response.headers.getHeader (ascii "Content-Length")
  if te ≠ ascii "chunked" ∧ te ≠ [] ∧ te ≠ ascii "identity" then .error "Unknown transfer encoding"
  else if cl ≠ [] ∧ toInt64 cl < 0 then .error "Invalid Content-Length"
  else .ok { readState with
    transferEncoding := if te = ascii "chunked" then .chunked else .identity
    responseContentLength :=
      if x.response.noBody then 0 else if cl = [] then -1 else toInt64 cl
    keepAlive := x.response.headers.keepAlive && x.request.headers.keepAlive }

/-- The callback `on_header_`. On `FZ_REPLY_OK` the caller is not interested in the body and the
request is dropped. -/
def callOnHeader (s : HttpReceive) (x : HttpExchange) : Nat × HttpReceive :=
  match x.response.onHeader with
  | none => (Reply.continue_, s)
  | some (res, writer) =>
    if res = Reply.ok ∧ s.sendPos ≠ 0 then (Reply.continue_, { s with front := none })
    else (res, { s with
      front := some { x with response := { x.response with hasWriter := writer } } })

def processCompleteHeader (toInt64 : List UInt8 → Int) (s : HttpReceive) (x : HttpExchange) :
    Nat × HttpReceive :=
  let x := completeHeader x
  let s := { s with front := some x }
  match readHeaderFields toInt64 s.readState x with
  | .error reason => s.failHeader reason
  | .ok readState =>
    let (res, s) := callOnHeader { s with readState := readState } x
    if res = Reply.continue_ ∧ s.readState.responseContentLength = 0 then
      finalizeResponseBody { s with readState := { s.readState with done := true } }
    else (res, s)

/-- A status line. The code 100 leaves `flag_got_code` unset. -/
def parseStatus (s : HttpReceive) (x : HttpExchange) (rest : List UInt8) : Round :=
  match parseStatusLine s.recvBuffer with
  | .error message => .done (s.fail message)
  | .ok code =>
    let response := { x.response with
      code := code, gotCode := if code ≠ 100 then true else x.response.gotCode }
    let s := { s with front := some { x with response := response } }
    if s.sendPos = 0 ∧ response.success then
      .done (s.fail
        "Broken server, it claims to have processed a request before it got fully set")
    else .next { s with recvBuffer := rest }

/-- What a whole line of the header means; `rest` follows it in the buffer. -/
def parseHeaderField (toInt64 : List UInt8 → Int) (s : HttpReceive) (x : HttpExchange)
    (line rest : List UInt8) : Round :=
  if !x.response.gotCode then s.parseStatus x rest
  else if line = [] then .done (processCompleteHeader toInt64 { s with recvBuffer := rest } x)
  else
    match parseHeaderLine line with
    | none => .done (s.failHeader "Invalid line")
    | some (name, value) => .next { s with
        recvBuffer := rest
        front := some { x with response := { x.response with
          headers := x.response.headers.addHeader name value } } }

/-- One round of the loop of `ParseHeader`. -/
def headerRound (toInt64 : List UInt8 → Int) (s : HttpReceive) (x : HttpExchange) : Round :=
  match Lines.scan s.recvBuffer with
  | .badEnding => .done (s.failHeader "Server not sending proper line endings")
  | .nul => .done (s.failHeader "Null character in line")
  | .incomplete =>
    if maxLineSize ≤ s.recvBuffer.length then .done (s.fail "Too long header line")
    else .done (Reply.needData, s)
  | .line line rest => s.parseHeaderField toInt64 x line rest

def headerLoop (toInt64 : List UInt8 → Int) : Nat → HttpReceive → Nat × HttpReceive
  | 0, s => (Reply.needData, s)
  | fuel + 1, s =>
    match s.front with
    | none => (Reply.internalError, s)
    | some x =>
      match s.headerRound toInt64 x with
      | .done r => r
      | .next s => if s.recvBuffer = [] then (Reply.needData, s) else headerLoop toInt64 fuel s

/-- Every round takes a line end out of the buffer, but the first one looks at an empty buffer
too. -/
def parseHeader (toInt64 : List UInt8 → Int) (s : HttpReceive) : Nat × HttpReceive :=
  s.headerLoop toInt64 (s.recvBuffer.length + 1)

/-! ## The receive buffer -/

/-- A parser that needs more bytes fails when the server has closed the connection. -/
def closeIncomplete (r : Nat × HttpReceive) : Nat × HttpReceive :=
  if r.2.readState.eof ∧ r.1 = Reply.needData then r.2.failClosed else r

/-- The branch for identity encoding. It consumes `recv_buffer_.size() - size`, where `size` is by
then the number of bytes of the clipped range that were not processed. -/
def parseIdentityData (s : HttpReceive) : Nat × HttpReceive :=
  let length := s.readState.responseContentLength
  if s.recvBuffer = [] then
    if s.readState.eof then
      if length ≠ -1 ∧ s.readState.receivedData ≠ length then s.failClosed
      else finalizeResponseBody { s with readState := { s.readState with done := true } }
    else (Reply.needData, s)
  else
    let size :=
      if length ≠ -1 ∧ length < s.readState.receivedData + s.recvBuffer.length then
        (length - s.readState.receivedData).toNat
      else s.recvBuffer.length
    let ((res, taken), t) := s.processData (s.recvBuffer.take size)
    (res, { t with recvBuffer := t.recvBuffer.drop (t.recvBuffer.length - (size - taken)) })

def parseBody (s : HttpReceive) : Nat × HttpReceive :=
  if s.readState.transferEncoding = .chunked then closeIncomplete s.parseChunkedData
  else s.parseIdentityData

def parseReceiveBuffer (toInt64 : List UInt8 → Int) (s : HttpReceive) : Nat × HttpReceive :=
  if s.readState.done then s.finalizeResponseBody
  else
    match s.front with
    | none => s.parseBody
    | some x =>
      if !x.request.sentHeader ∧ s.readState.eof then s.failClosed
      else if !x.request.sentHeader ∧ s.recvBuffer ≠ [] then
        s.fail "Server sent data even before request headers were sent"
      else if !x.response.gotHeader then closeIncomplete (s.parseHeader toInt64)
      else s.parseBody

end HttpReceive

/-! ## The operation -/

/-- `CHttpRequestOpData` and its socket: the front of `requests_` with what is read for it, the
other requests, whether there is a socket, the result once `OnReceive` has returned one, the bytes
of the server that were not yet read, and for each finished response what `recv_buffer_` held behind
it. -/
structure HttpRequestOp where
  current : HttpReceive
  later : List (Option HttpExchange)
  socket : Bool
  result : Option Nat
  input : List UInt8
  finished : List (Option HttpExchange × List UInt8)
deriving DecidableEq

namespace HttpRequestOp

/-- All requests are sent and nothing is read yet. -/
def sent (front : HttpExchange) (later : List (Option HttpExchange)) (input : List UInt8) :
    HttpRequestOp where
  current := {
    front := some front
    sendPos := later.length + 1
    recvBuffer := []
    readState := .fresh
    answers := ⟨[], []⟩
    errors := [] }
  later := later
  socket := true
  result := none
  input := input
  finished := []

/-- The branch of `OnReceive` for a finished response. -/
def finishResponse (s : HttpRequestOp) : HttpRequestOp :=
  let c := s.current
  let socketDone := c.readState.eof || !c.readState.keepAlive || c.sendPos == 0
  let buffer := if socketDone then [] else c.recvBuffer
  let s := { s with
    socket := s.socket && !socketDone, finished := s.finished ++ [(c.front, c.recvBuffer)] }
  let c := { c with
    front := none, sendPos := c.sendPos - 1, recvBuffer := buffer, readState := .fresh }
  match s.later with
  | [] =>
    if buffer ≠ [] then
      let (res, c) := c.fail ("Malformed response: " ++ "Server sent too much data.")
      { s with current := c, result := some res }
    else { s with current := c, result := some Reply.ok }
  | x :: later =>
    -- without a socket the operation starts again with the requests that are left
    if socketDone then { s with
      current := { c with front := x, sendPos := 0 }, later := later
      result := some Reply.continue_ }
    else { s with current := { c with front := x }, later := later }

/-- `while (!requests_.empty())`. -/
def processLoop (toInt64 : List UInt8 → Int) : Nat → HttpRequestOp → HttpRequestOp
  | 0, s => s
  | fuel + 1, s =>
    let (res, c) := s.current.parseReceiveBuffer toInt64
    let s := { s with current := c }
    if res = Reply.wouldBlock ∨ res = Reply.needData then s
    else if res = Reply.ok then
      let s := s.finishResponse
      if s.result.isSome then s else processLoop toInt64 fuel s
    else if res = Reply.continue_ then processLoop toInt64 fuel s
    else { s with result := some res }

/-- The part of `OnReceive` behind the read. A response needs at most three calls of the parser:
the header, the data there is, and the empty buffer. -/
def process (toInt64 : List UInt8 → Int) (s : HttpRequestOp) (answers : WriterAnswers) :
    HttpRequestOp :=
  processLoop toInt64 (3 * (s.later.length + 1)) { s with current := { s.current with
    answers := answers } }

end HttpRequestOp

/-! ## The system -/

/-- An event and the answers of the writer while it is handled. -/
inductive HttpEvent where
  /-- The socket returns that many bytes. -/
  | read (n : Nat) (answers : WriterAnswers)
  /-- The server has closed the connection. -/
  | eof (answers : WriterAnswers)
  /-- `OnWriterReady`: the writer of the front is ready again. -/
  | resume (answers : WriterAnswers)
deriving DecidableEq

def HttpEvent.answers : HttpEvent → WriterAnswers
  | .read _ answers | .eof answers | .resume answers => answers

/-- `recv_size`. -/
def recvSize : Nat := 1024 * 64

/-- An event that finds the operation waiting. -/
def HttpRequestOp.step (toInt64 : List UInt8 → Int) (s : HttpRequestOp) (e : HttpEvent) :
    Option HttpRequestOp :=
  if s.result.isSome ∨ s.socket = false then none
  else
    match e with
    | .read n answers =>
      if 0 < n ∧ n ≤ recvSize ∧ n ≤ s.input.length ∧ s.current.readState.eof = false then
        some (process toInt64 { s with
          current := { s.current with recvBuffer := s.current.recvBuffer ++ s.input.take n }
          input := s.input.drop n } answers)
      else none
    | .eof answers =>
      if s.input = [] then
        some (process toInt64 { s with
          current := { s.current with readState := { s.current.readState with eof := true } } }
          answers)
      else none
    | .resume answers =>
      -- the event of another writer than that of the last request is taken for a stale one
      if s.later = [] then some (s.process toInt64 answers) else none

/-- Every fragmentation of the input and every behaviour of the writer. -/
def httpSystem (toInt64 : List UInt8 → Int) (front : HttpExchange)
    (later : List (Option HttpExchange)) (input : List UInt8) : Lts HttpRequestOp HttpEvent :=
  Lts.ofFun (fun s => s = .sent front later input) (HttpRequestOp.step toInt64)

/-- The writer may make the parser wait but does not fail. -/
def WriterAnswers.Works (a : WriterAnswers) : Prop :=
  (∀ b ∈ a.buffers, b ≠ .error) ∧ ∀ r ∈ a.finals, r ≠ .error

instance WriterAnswers.decidableWorks (a : WriterAnswers) : Decidable a.Works :=
  inferInstanceAs (Decidable (_ ∧ _))

def goodHttpSystem (toInt64 : List UInt8 → Int) (front : HttpExchange)
    (later : List (Option HttpExchange)) (input : List UInt8) : Lts HttpRequestOp HttpEvent :=
  (httpSystem toInt64 front later input).restrict fun _ e => e.answers.Works

end FlintZilla
