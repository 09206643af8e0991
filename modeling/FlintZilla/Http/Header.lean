import FlintZilla.Http.Chunked
import FlintZilla.Http.Data

/-!
# The header of a response

`ParseHeader` on the header of any final response, that is, one whose code is not 100. However the
header is cut into reads, the parser reaches its empty line with the code and the fields, and with
what follows the header still in the stream.

Main results:

* `InHead.headerRound`, `InHead.headerLoop`: the lines of the header, one after the other.
* `processCompleteHeader_withHead`: what the empty line behind them does.
* `InHead.call`: one call of the parser inside the header.
-/

namespace FlintZilla

open Lib HttpReceive List

/-- A line of the header that the parser accepts. -/
structure HeaderField where
  line : HttpLine
  name : List UInt8
  value : List UInt8
  parsed : parseHeaderLine line.text = some (name, value)

/-- The map after more fields. -/
def addFields (headers : HttpHeaders) (fields : List HeaderField) : HttpHeaders :=
  fields.foldl (fun hs f => hs.addHeader f.name f.value) headers

def fieldsBytes (fields : List HeaderField) : List UInt8 :=
  fields.flatMap fun f => Lines.ended f.line.text

/-- The status line and the fields of a final response. -/
structure ResponseHead where
  statusLine : HttpLine
  code : Nat
  fields : List HeaderField
  status : parseStatusLine (Lines.ended statusLine.text) = .ok code
  final : code ≠ 100

def ResponseHead.bytes (h : ResponseHead) : List UInt8 :=
  Lines.ended h.statusLine.text ++ (fieldsBytes h.fields ++ Lines.ended [])

/-- The request has been sent, and nothing of its response was read. -/
structure HttpExchange.Awaiting (x : HttpExchange) : Prop where
  sentHeader : x.request.sentHeader = true
  fresh : x.response = .fresh x.response.onHeader x.response.hasWriter

/-- The response when all lines of its header are read. -/
def HttpExchange.withHead (x : HttpExchange) (h : ResponseHead) : HttpExchange :=
  { x with response := { x.response with
    code := h.code, gotCode := true, headers := addFields [] h.fields } }

/-- The response before its header is complete, and the stream that is left; `tail` follows the
header. -/
inductive HeadLeft (h : ResponseHead) (tail : List UInt8) (x : HttpExchange) :
    HttpExchange → List UInt8 → Prop where
  | status : HeadLeft h tail x x
      (Lines.ended h.statusLine.text ++ (fieldsBytes h.fields ++ (Lines.ended [] ++ tail)))
  | fields {headers : HttpHeaders} {left : List HeaderField} :
      addFields headers left = addFields [] h.fields →
      HeadLeft h tail x
        { x with
          response := { x.response with code := h.code, gotCode := true, headers := headers } }
        (fieldsBytes left ++ (Lines.ended [] ++ tail))

/-- The parser is in the header. -/
structure InHead (h : ResponseHead) (tail input : List UInt8) (x y : HttpExchange)
    (s : HttpReceive) : Prop extends Receiving input s where
  front : s.front = some y
  readState : s.readState = { HttpReadState.fresh with eof := s.readState.eof }
  left : HeadLeft h tail x y (s.recvBuffer ++ input)

/-- Reading lines of a header does not touch the state of the reader or the writer. -/
structure HeadRead (s t : HttpReceive) : Prop where
  readState : t.readState = s.readState
  answers : t.answers = s.answers

/-- How a call of `ParseHeader` ends: a part of the header is missing, or `ProcessCompleteHeader` is
called. -/
inductive HeadOutcome (toInt64 : List UInt8 → Int) (h : ResponseHead) (tail input : List UInt8)
    (x : HttpExchange) (s : HttpReceive) : Nat × HttpReceive → Prop where
  | needData {y : HttpExchange} {t : HttpReceive} (hin : InHead h tail input x y t)
      (hread : HeadRead s t) (hlt : tail.length < input.length) :
      HeadOutcome toInt64 h tail input x s (Reply.needData, t)
  | complete {t : HttpReceive} (hreceiving : Receiving input t) (hread : HeadRead s t)
      (hstream : t.recvBuffer ++ input = tail) :
      HeadOutcome toInt64 h tail input x s (t.processCompleteHeader toInt64 (x.withHead h))

/-- How a round of `ParseHeader` ends. -/
inductive HeadRoundOutcome (toInt64 : List UInt8 → Int) (h : ResponseHead) (tail input : List UInt8)
    (x : HttpExchange) (s : HttpReceive) : HttpReceive.Round → Prop where
  | next {y : HttpExchange} {t : HttpReceive} (hin : InHead h tail input x y t)
      (hread : HeadRead s t) (hlt : t.recvBuffer.length < s.recvBuffer.length) :
      HeadRoundOutcome toInt64 h tail input x s (.next t)
  | done {res : Nat × HttpReceive} (hres : HeadOutcome toInt64 h tail input x s res) :
      HeadRoundOutcome toInt64 h tail input x s (.done res)

variable {toInt64 : List UInt8 → Int} {h : ResponseHead} {tail input : List UInt8}
variable {x y : HttpExchange} {s t : HttpReceive}

theorem HeadRead.refl (s : HttpReceive) : HeadRead s s := ⟨rfl, rfl⟩

theorem HeadRead.trans {u : HttpReceive} (hst : HeadRead s t) (htu : HeadRead t u) : HeadRead s u :=
  ⟨htu.readState.trans hst.readState, htu.answers.trans hst.answers⟩

/-- What was read before does not matter. -/
theorem HeadOutcome.trans {res : Nat × HttpReceive} (hst : HeadRead s t)
    (hres : HeadOutcome toInt64 h tail input x t res) :
    HeadOutcome toInt64 h tail input x s res := by
  cases hres with
  | needData hin hread hlt => exact .needData hin (hst.trans hread) hlt
  | complete hreceiving hread hstream => exact .complete hreceiving (hst.trans hread) hstream

/-! ## Lines -/

/-- The status line is looked at before it is complete. -/
theorem parseStatusLine_append {buffer tail : List UInt8} {code : Nat}
    (h : parseStatusLine buffer = .ok code) : parseStatusLine (buffer ++ tail) = .ok code := by
  have hlen : 15 ≤ buffer.length := by
    by_contra hshort
    rw [parseStatusLine, if_pos (.inl (by omega))] at h
    cases h
  have hlt : ((buffer ++ tail).length < 15) = (buffer.length < 15) := by
    rw [length_append]
    exact propext ⟨by omega, by omega⟩
  -- the tests look at the first twelve bytes
  have hget : ∀ i < 12, (buffer ++ tail).getD i 0 = buffer.getD i 0 := by
    intro i hi
    rw [getD_eq_getElem?_getD, getElem?_append_left (by omega), ← getD_eq_getElem?_getD]
  have htake : (buffer ++ tail).take 7 = buffer.take 7 := take_append_of_le_length (by omega)
  unfold parseStatusLine at h ⊢
  simp only [hlt, htake, hget 9 (by omega), hget 10 (by omega), hget 11 (by omega)]
  exact h

variable {stream : List UInt8}

/-- There is at least the empty line left. -/
theorem HeadLeft.length_lt (hleft : HeadLeft h tail x y stream) : tail.length < stream.length := by
  have hend : (Lines.ended []).length = 2 := rfl
  cases hleft with
  | status | fields _ =>
    simp only [length_append] at hend ⊢
    omega

/-- The request stays, and so does what is known of the header. -/
theorem HeadLeft.frame (hleft : HeadLeft h tail x y stream) :
    y.request = x.request ∧ y.response.gotHeader = x.response.gotHeader := by
  cases hleft with
  | status | fields _ => exact ⟨rfl, rfl⟩

/-- A part of a line is in the buffer, or a whole line. -/
theorem InHead.headerRound_of_line {line : HttpLine} {rest : List UInt8}
    (hin : InHead h tail input x y s)
    (hstream : s.recvBuffer ++ input = Lines.ended line.text ++ rest)
    (htail : tail.length ≤ rest.length)
    (hline : ∀ left, s.recvBuffer = Lines.ended line.text ++ left → left ++ input = rest →
      HeadRoundOutcome toInt64 h tail input x s (s.parseHeaderField toInt64 y line.text left)) :
    HeadRoundOutcome toInt64 h tail input x s (s.headerRound toInt64 y) := by
  unfold headerRound
  rcases Lines.scan_cut line.clean hstream with
    ⟨hscan, hshort, hmissing⟩ | ⟨left, hscan, hbuffer, hrest⟩
  · have hfits := line.fits
    rw [hscan]
    rw [if_neg (by omega)]
    exact .done (.needData hin (HeadRead.refl s) (by omega))
  · rw [hscan]
    exact hline left hbuffer hrest

variable {left : List UInt8}

/-- The status line gives the code. -/
theorem InHead.status (hx : x.Awaiting) (hin : InHead h tail input x x s)
    (hbuffer : s.recvBuffer = Lines.ended h.statusLine.text ++ left)
    (hrest : left ++ input = fieldsBytes h.fields ++ (Lines.ended [] ++ tail)) :
    HeadRoundOutcome toInt64 h tail input x s
      (s.parseHeaderField toInt64 x h.statusLine.text left) := by
  have hgot : x.response.gotCode = false := by rw [hx.fresh]; rfl
  have hheaders : x.response.headers = [] := by rw [hx.fresh]; rfl
  unfold parseHeaderField parseStatus
  rw [if_pos (by rw [hgot]; rfl), hbuffer, parseStatusLine_append h.status]
  dsimp only
  rw [if_neg (fun hbroken => hin.sent hbroken.1), if_pos h.final]
  refine .next (y := { x with response := { x.response with code := h.code, gotCode := true } })
    { hin with front := rfl, left := ?_ } ⟨rfl, rfl⟩ ?_
  · rw [hrest]
    exact HeadLeft.fields (by rw [hheaders])
  · rw [hbuffer]
    exact Lines.length_lt_ended _ _

/-- A field is added to those before it. -/
theorem InHead.field {headers : HttpHeaders} {f : HeaderField}
    {fields : List HeaderField}
    (hin : InHead h tail input x { x with response := { x.response with
      code := h.code, gotCode := true, headers := headers } } s)
    (hfields : addFields headers (f :: fields) = addFields [] h.fields)
    (hbuffer : s.recvBuffer = Lines.ended f.line.text ++ left)
    (hrest : left ++ input = fieldsBytes fields ++ (Lines.ended [] ++ tail)) :
    HeadRoundOutcome toInt64 h tail input x s
      (s.parseHeaderField toInt64 { x with response := { x.response with
        code := h.code, gotCode := true, headers := headers } } f.line.text left) := by
  have hne : f.line.text ≠ [] := by
    intro hnil
    have hparsed := f.parsed
    rw [hnil] at hparsed
    cases hparsed
  unfold parseHeaderField
  rw [if_neg hne, f.parsed]
  refine .next (y := { x with response := { x.response with
      code := h.code, gotCode := true, headers := headers.addHeader f.name f.value } })
    { hin with front := rfl, left := ?_ } ⟨rfl, rfl⟩ ?_
  · rw [hrest]
    exact HeadLeft.fields hfields
  · rw [hbuffer]
    exact Lines.length_lt_ended _ _

/-- The line that ends a header. -/
def emptyLine : HttpLine := ⟨[], by simp [Lines.Clean], by decide⟩

/-- A round reads a line, or waits for the rest of it. -/
theorem InHead.headerRound (hx : x.Awaiting) (hin : InHead h tail input x y s) :
    HeadRoundOutcome toInt64 h tail input x s (s.headerRound toInt64 y) := by
  have hleft := hin.left
  generalize hstream : s.recvBuffer ++ input = stream at hleft
  cases hleft with
  | status =>
    refine hin.headerRound_of_line hstream ?_ fun left hbuffer hrest => hin.status hx hbuffer hrest
    simp only [length_append]
    omega
  | @fields headers fields hfields =>
    cases fields with
    | nil =>
      have hempty : s.recvBuffer ++ input = Lines.ended emptyLine.text ++ tail := hstream
      refine hin.headerRound_of_line hempty (Nat.le_refl _) ?_
      intro left hbuffer hrest
      have hheaders : headers = addFields [] h.fields := hfields
      subst hheaders
      have hreceiving : Receiving input { s with recvBuffer := left } := { hin with }
      exact .done (.complete hreceiving ⟨rfl, rfl⟩ hrest)
    | cons f fields =>
      have hcons : fieldsBytes (f :: fields) = Lines.ended f.line.text ++ fieldsBytes fields := rfl
      rw [hcons, append_assoc] at hstream
      refine hin.headerRound_of_line hstream ?_ fun left hbuffer hrest =>
        hin.field hfields hbuffer hrest
      simp only [length_append]
      omega

/-- By induction on the bytes in the buffer. -/
theorem InHead.headerLoop {fuel : Nat} (hx : x.Awaiting) (hin : InHead h tail input x y s)
    (hfuel : s.recvBuffer.length < fuel) :
    HeadOutcome toInt64 h tail input x s (s.headerLoop toInt64 fuel) := by
  induction fuel generalizing s y with
  | zero => omega
  | succ fuel ih =>
    rw [headerLoop, hin.front]
    dsimp only
    have hround : HeadRoundOutcome toInt64 h tail input x s (s.headerRound toInt64 y) :=
      hin.headerRound hx
    generalize s.headerRound toInt64 y = round at hround ⊢
    cases hround with
    | done hres => exact hres
    | @next y t ht hread hlt =>
      dsimp only
      by_cases hnil : t.recvBuffer = []
      · rw [if_pos hnil]
        have hleft := ht.left.length_lt
        rw [hnil] at hleft
        exact .needData ht hread hleft
      · rw [if_neg hnil]
        exact (ih ht (by omega)).trans hread

/-! ## The end of the header -/

/-- Whether the response has a writer once `on_header_` was called. -/
def HttpResponse.writesBody (r : HttpResponse) : Bool :=
  match r.onHeader with
  | none => r.hasWriter
  | some (_, writer) => writer

/-- The response when its header is complete. -/
def HttpExchange.complete (x : HttpExchange) (h : ResponseHead) : HttpExchange :=
  { x with response := { (x.withHead h).response with gotHeader := true, noBody := false } }

/-- The response when `on_header_` has let it go on. -/
def HttpExchange.opened (x : HttpExchange) (h : ResponseHead) : HttpExchange :=
  { x with response := { (x.complete h).response with hasWriter := x.response.writesBody } }

theorem taken_opened (hx : x.Awaiting) (h : ResponseHead) : (x.opened h).taken = [] := by
  have hbody : x.response.body = [] := by rw [hx.fresh]; rfl
  have hwritten : x.response.written = [] := by rw [hx.fresh]; rfl
  show (if (x.opened h).usesWriter then x.response.written else x.response.body) = []
  rw [hbody, hwritten, ite_self]

/-- A response that may have a body. -/
theorem completeHeader_withHead (hx : x.Awaiting) (hhead : x.request.verb ≠ ascii "HEAD")
    (hcode : ¬(100 ≤ h.code ∧ h.code < 200) ∧ h.code ≠ 304 ∧ h.code ≠ 204) :
    completeHeader (x.withHead h) = x.complete h := by
  have hno : (x.withHead h).response.noBody = false := by
    show x.response.noBody = false
    rw [hx.fresh]
    rfl
  have hverb : ((x.withHead h).request.verb == ascii "HEAD") = false :=
    beq_eq_false_iff_ne.mpr hhead
  have hbody : (x.withHead h).response.codeProhibitsBody = false := by
    show (decide (100 ≤ h.code ∧ h.code < 200) || h.code == 304 || h.code == 204) = false
    simp only [Bool.or_eq_false_iff, decide_eq_false_iff_not, beq_eq_false_iff_ne]
    exact ⟨⟨hcode.1, hcode.2.1⟩, hcode.2.2⟩
  unfold completeHeader
  rw [hbody, hno, hverb]
  rfl

/-- The callback lets the response go on. -/
theorem callOnHeader_complete (hgoesOn : ∀ p ∈ x.response.onHeader, p.1 = Reply.continue_)
    (hfront : s.front = some (x.complete h)) :
    s.callOnHeader (x.complete h) = (Reply.continue_, { s with front := some (x.opened h) }) := by
  unfold callOnHeader HttpExchange.opened HttpResponse.writesBody
  rw [show (x.complete h).response.onHeader = x.response.onHeader from rfl]
  cases honHeader : x.response.onHeader with
  | none =>
    show (Reply.continue_, s) = (Reply.continue_, { s with front := some (x.complete h) })
    rw [← hfront]
  | some p =>
    obtain ⟨res, writer⟩ := p
    have hres : res = Reply.continue_ := hgoesOn _ honHeader
    subst hres
    rfl

/-- The fields are read and the handler is called; a response of length zero is finished at once. -/
theorem processCompleteHeader_withHead {readState : HttpReadState} (hx : x.Awaiting)
    (hhead : x.request.verb ≠ ascii "HEAD")
    (hcode : ¬(100 ≤ h.code ∧ h.code < 200) ∧ h.code ≠ 304 ∧ h.code ≠ 204)
    (hgoesOn : ∀ p ∈ x.response.onHeader, p.1 = Reply.continue_)
    (hfields : readHeaderFields toInt64 s.readState (x.complete h) = .ok readState) :
    s.processCompleteHeader toInt64 (x.withHead h) = if readState.responseContentLength = 0 then
        finalizeResponseBody { s with
          front := some (x.opened h), readState := { readState with done := true } }
      else (Reply.continue_, { s with front := some (x.opened h), readState := readState }) := by
  unfold processCompleteHeader
  rw [completeHeader_withHead hx hhead hcode]
  dsimp only
  rw [hfields]
  dsimp only
  rw [callOnHeader_complete hgoesOn rfl]
  by_cases hlength : readState.responseContentLength = 0
  · rw [if_pos ⟨rfl, hlength⟩, if_pos hlength]
  · rw [if_neg fun hand => hlength hand.2, if_neg hlength]

/-! ## One call of the parser -/

variable {r : Incoming} {stands : Nat → Nat → List UInt8 → HttpReceive → Prop} {res : Nat}

theorem closeIncomplete_of_ne (hne : res ≠ Reply.needData) :
    closeIncomplete (res, s) = (res, s) := by
  unfold closeIncomplete
  rw [if_neg fun hclose => hne hclose.2]

/-- The connection is not closed while bytes are unread. -/
theorem closeIncomplete_of_unread (hs : Receiving input s)
    (hlt : tail.length < input.length) : closeIncomplete (res, s) = (res, s) := by
  unfold closeIncomplete
  rw [if_neg]
  rintro ⟨heof, -⟩
  rw [hs.eof heof] at hlt
  simp at hlt

/-- A call that says that bytes are missing leaves bytes unread. -/
theorem CallOutcome.closeIncomplete_eq {res : Nat × HttpReceive} {ready : Prop} {k : Nat}
    (hs : ∀ j n t, stands j n input t → Receiving input t)
    (hres : CallOutcome stands r input k ready res) : closeIncomplete res = res := by
  cases hres with
  | needData ht hlt => exact closeIncomplete_of_unread (hs _ _ _ ht) hlt
  | blocked | more | blockedAtEnd | finished => exact closeIncomplete_of_ne (by decide)

/-- In the header a call of the parser waits for the rest of it or completes it. -/
theorem InHead.parseReceiveBuffer (hx : x.Awaiting) (hin : InHead h tail input x y s)
    {P : Nat × HttpReceive → Prop}
    (hneed : ∀ y t, InHead h tail input x y t → tail.length < input.length → P (Reply.needData, t))
    (hcomplete : ∀ t, Receiving input t → HeadRead s t → t.recvBuffer ++ input = tail →
      P (HttpReceive.closeIncomplete (t.processCompleteHeader toInt64 (x.withHead h)))) :
    P (s.parseReceiveBuffer toInt64) := by
  have hy : y.request.sentHeader = true ∧ y.response.gotHeader = false := by
    rw [hin.left.frame.1, hin.left.frame.2, hx.fresh]
    exact ⟨hx.sentHeader, rfl⟩
  have hdone : ¬s.readState.done = true := by
    rw [hin.readState]
    exact Bool.false_ne_true
  have hloop : HeadOutcome toInt64 h tail input x s (s.parseHeader toInt64) :=
    hin.headerLoop hx (Nat.lt_succ_self _)
  unfold HttpReceive.parseReceiveBuffer
  rw [if_neg hdone, hin.front]
  dsimp only
  rw [hy.1, hy.2]
  generalize s.parseHeader toInt64 = res at hloop ⊢
  cases hloop with
  | needData ht hread hlt =>
    rw [closeIncomplete_of_unread ht.toReceiving hlt]
    exact hneed _ _ ht hlt
  | complete ht hread hstream => exact hcomplete _ ht hread hstream

/-! ## The body starts -/

/-- The response goes on into its body: the request is no `HEAD`, the code allows a body, and
`on_header_` wants it. -/
structure HttpExchange.GoesOn (x : HttpExchange) (r : Incoming) : Prop extends x.Awaiting where
  notHead : x.request.verb ≠ ascii "HEAD"
  mayHaveBody : ¬(100 ≤ r.code ∧ r.code < 200) ∧ r.code ≠ 304 ∧ r.code ≠ 204
  goesOn : ∀ p ∈ x.response.onHeader, p.1 = Reply.continue_
  room : ((200 ≤ r.code ∧ r.code < 300) ∧ x.response.writesBody = true) ∨
    r.body.length ≤ HttpResponse.maxBody

section

variable (hx : x.GoesOn r) (hcode : h.code = r.code)

include hx hcode

/-- The response is open behind its header. -/
theorem HttpExchange.GoesOn.isOpen : (x.opened h).Open r.code where
  code := hcode
  sentHeader := hx.sentHeader
  gotHeader := rfl
  hasBody := rfl
  wanted := by
    show x.response.ignoreBody = false
    rw [hx.fresh]
    rfl

theorem HttpExchange.GoesOn.room_opened :
    (x.opened h).usesWriter = true ∨ r.body.length ≤ HttpResponse.maxBody := by
  refine hx.room.imp_left ?_
  rintro ⟨hsuccess, hwriter⟩
  show (decide (200 ≤ h.code ∧ h.code < 300) && x.response.writesBody) = true
  rw [hcode, decide_eq_true hsuccess, hwriter]
  rfl

/-- A call of the parser that starts in the header: with `tail` behind the header, the parser goes
on into the body, or the response ends because its content length is 0. -/
theorem InHead.call (hin : InHead h tail input x y s)
    {encoding : TransferEncoding} {length : Int} {k n : Nat}
    (hfields : ∀ readState, ∃ keepAlive, readHeaderFields toInt64 readState (x.complete h) =
      .ok { readState with
        transferEncoding := encoding, responseContentLength := length, keepAlive := keepAlive })
    (htail : r.extra.length ≤ tail.length) (hempty : length = 0 → r.body = [] ∧ tail = r.extra)
    (hstands : ∀ j n t, stands j n input t → Receiving input t)
    (hhead : ∀ z t, InHead h tail input x z t → stands k n input t)
    (hopen : ∀ t keepAlive eof, Taking r input r.body (x.opened h) t →
      t.readState = { HttpReadState.fresh with
        transferEncoding := encoding, responseContentLength := length
        keepAlive := keepAlive, eof := eof } →
      t.recvBuffer ++ input = tail → length ≠ 0 → ∃ j < k, stands j r.body.length input t) :
    CallOutcome stands r input k (s.Ready r.body.length) (s.parseReceiveBuffer toInt64) := by
  refine hin.parseReceiveBuffer hx.toAwaiting ?_ ?_
  · intro z t ht hlt
    exact .needData (hhead z t ht) (by omega)
  · intro t ht hread hstream
    obtain ⟨keepAlive, hfields⟩ := hfields t.readState
    have hstate : t.readState = { HttpReadState.fresh with eof := t.readState.eof } := by
      rw [hread.readState]
      exact hin.readState
    have htaken := taken_opened hx.toAwaiting h
    rw [processCompleteHeader_withHead hx.toAwaiting hx.notHead (hcode ▸ hx.mayHaveBody) hx.goesOn
      hfields]
    have hready : s.Ready r.body.length → t.Ready r.body.length := by
      unfold HttpReceive.Ready
      rw [hread.readState, hread.answers]
      exact id
    by_cases hlength : length = 0
    · -- no body follows, and the response is finished at once
      obtain ⟨hbody, hrest⟩ := hempty hlength
      rw [if_pos hlength]
      have hend : AtEnd r input (x.opened h) { t with
          front := some (x.opened h)
          readState := { t.readState with
            transferEncoding := encoding, responseContentLength := length
            keepAlive := keepAlive, done := true } } :=
        { ht with
          front := rfl, isOpen := hx.isOpen hcode, done := rfl, taken := by rw [htaken, hbody]
          rest := hstream.trans hrest }
      have hfinal : CallOutcome stands r input k _ _ := hend.finalizeResponseBody
      rw [hfinal.closeIncomplete_eq hstands]
      refine hfinal.mono fun hs => ?_
      have hzero := hready hs
      rw [hbody] at hzero
      exact hzero
    · rw [if_neg hlength, closeIncomplete_of_ne (by decide)]
      have hbody : Taking r input r.body (x.opened h) { t with
          front := some (x.opened h)
          readState := { t.readState with
            transferEncoding := encoding, responseContentLength := length
            keepAlive := keepAlive } } :=
        { ht with
          front := rfl, isOpen := hx.isOpen hcode, room := hx.room_opened hcode
          received := by rw [htaken, hstate]; rfl
          done := by rw [hstate]; rfl
          taken := by rw [htaken]; rfl }
      obtain ⟨j, hj, hs⟩ := hopen _ keepAlive t.readState.eof hbody (by rw [hstate]) hstream hlength
      exact .more hj hs hready

end

end FlintZilla
