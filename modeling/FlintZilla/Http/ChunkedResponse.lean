import FlintZilla.Http.Decoder
import FlintZilla.Http.Reception

/-!
# Chunked responses

The header before a chunked body, and where the parser stands in such a response. However the socket
cuts it into reads and however often the writer makes the parser wait, a chunked response delivers
its body, and what follows its last line end stays in the receive buffer. A content length must not
be reached before that: the parser ends the response with it.

Main results:

* `parseReceiveBuffer_chunked`: one call of the parser inside the body.
* `chunkedStanding_parses`: chunked responses are received as `Parses` asks.
-/

namespace FlintZilla

open Lib HttpReceive

/-! ## The header -/

/-- A successful response with a chunked body and without a content length. -/
structure ChunkedResponse where
  statusLine : HttpLine
  code : Nat
  fields : List HeaderField
  body : ChunkedBody
  status : parseStatusLine (Lines.ended statusLine.text) = .ok code
  success : 200 ≤ code ∧ code < 300
  mayHaveBody : code ≠ 204
  chunked : strToLowerAscii ((addFields [] fields).getHeader (ascii "Transfer-Encoding")) =
    ascii "chunked"
  noLength : (addFields [] fields).getHeader (ascii "Content-Length") = []

def ChunkedResponse.bytes (r : ChunkedResponse) : List UInt8 :=
  Lines.ended r.statusLine.text ++ (fieldsBytes r.fields ++ (Lines.ended [] ++ r.body.bytes))

def ChunkedResponse.head (r : ChunkedResponse) : ResponseHead where
  statusLine := r.statusLine
  code := r.code
  fields := r.fields
  status := r.status
  final := by
    have hsuccess := r.success
    omega

/-- A request that was sent and whose response is wanted: `on_header_` lets the response go on, and
without a writer the body is not too large. -/
structure HttpExchange.Awaits (x : HttpExchange) (body : List UInt8) : Prop where
  sentHeader : x.request.sentHeader = true
  notHead : x.request.verb ≠ ascii "HEAD"
  fresh : x.response = .fresh x.response.onHeader x.response.hasWriter
  goesOn : ∀ p ∈ x.response.onHeader, p.1 = Reply.continue_
  room : x.response.writesBody = true ∨ body.length ≤ HttpResponse.maxBody

/-- Any response with a chunked body. -/
structure ChunkedMessage where
  head : ResponseHead
  body : ChunkedBody
  chunked : strToLowerAscii ((addFields [] head.fields).getHeader (ascii "Transfer-Encoding")) =
    ascii "chunked"

def ChunkedResponse.message (r : ChunkedResponse) : ChunkedMessage := ⟨r.head, r.body, r.chunked⟩

namespace ChunkedMessage

def bytes (m : ChunkedMessage) : List UInt8 := m.head.bytes ++ m.body.bytes

def incoming (m : ChunkedMessage) (extra : List UInt8) : Incoming :=
  ⟨m.head.code, m.body.content, extra⟩

/-- There is no content length, or it is larger than the body. -/
def LengthBehind (toInt64 : List UInt8 → Int) (m : ChunkedMessage) : Prop :=
  (addFields [] m.head.fields).getHeader (ascii "Content-Length") = [] ∨
    (m.body.content.length : Int) <
      toInt64 ((addFields [] m.head.fields).getHeader (ascii "Content-Length"))

end ChunkedMessage

variable {m : ChunkedMessage} {r : ChunkedResponse} {extra : List UInt8} {x : HttpExchange}
variable {s : HttpReceive} {toInt64 : List UInt8 → Int}

/-- An exchange that awaits this body goes on with it. -/
theorem HttpExchange.Awaits.goesOn_incoming (hx : x.Awaits r.body.content) (extra : List UInt8) :
    x.GoesOn (r.message.incoming extra) where
  sentHeader := hx.sentHeader
  fresh := hx.fresh
  notHead := hx.notHead
  mayHaveBody := by
    have hsuccess := r.success
    have hbody := r.mayHaveBody
    show ¬(100 ≤ r.code ∧ r.code < 200) ∧ r.code ≠ 304 ∧ r.code ≠ 204
    omega
  goesOn := hx.goesOn
  room := hx.room.imp_left fun hwriter => ⟨r.success, hwriter⟩

/-! ## Calls of the parser -/

/-- A content length in the header is stored, but it is larger than the body. -/
theorem ChunkedMessage.LengthBehind.readHeaderFields (h : m.LengthBehind toInt64)
    (x : HttpExchange) : ∃ length : Int,
      (length = -1 ∨ (m.body.content.length : Int) < length) ∧ ∀ readState, ∃ keepAlive,
        HttpReceive.readHeaderFields toInt64 readState (x.complete m.head) = .ok { readState with
          transferEncoding := .chunked, responseContentLength := length
          keepAlive := keepAlive } := by
  have hte : strToLowerAscii ((x.complete m.head).response.headers.getHeader
    (ascii "Transfer-Encoding")) = ascii "chunked" := m.chunked
  have hno : ¬(x.complete m.head).response.noBody = true := Bool.false_ne_true
  have hlength : (x.complete m.head).response.headers.getHeader (ascii "Content-Length") = [] ∨
    (m.body.content.length : Int) <
      toInt64 ((x.complete m.head).response.headers.getHeader (ascii "Content-Length")) := h
  unfold HttpReceive.readHeaderFields
  rw [hte]
  generalize (x.complete m.head).response.headers.getHeader (ascii "Content-Length") = cl
    at hlength ⊢
  refine ⟨if cl = [] then -1 else toInt64 cl, ?_, fun readState =>
    ⟨(x.complete m.head).response.headers.keepAlive && x.request.headers.keepAlive, ?_⟩⟩
  · split_ifs with hnil
    · exact .inl rfl
    · exact .inr (hlength.resolve_left hnil)
  · have hvalid : ¬(cl ≠ [] ∧ toInt64 cl < 0) := by
      rintro ⟨hne, hneg⟩
      have hlt := hlength.resolve_left hne
      omega
    rw [if_neg (by simp), if_neg hvalid]
    rfl

/-- Behind the header a chunked response is read by `ParseChunkedData`. -/
theorem parseReceiveBuffer_chunked (hdone : s.readState.done = false) (hfront : s.front = some x)
    (hsent : x.request.sentHeader) (hgot : x.response.gotHeader)
    (hchunked : s.readState.transferEncoding = .chunked) :
    s.parseReceiveBuffer toInt64 = closeIncomplete s.parseChunkedData := by
  unfold parseReceiveBuffer parseBody
  rw [if_neg (by rw [hdone]; decide), hfront]
  dsimp only
  rw [hsent, hgot, if_neg (by simp), if_neg (by simp), if_neg (by decide), if_pos hchunked]

/-- In the body the header has been read. -/
theorem InChunks.receiving {i : Incoming} {j n : Nat} {input : List UInt8}
    (h : InChunks i j n input s) : Receiving input s := by
  cases h with
  | mk hs => exact hs.toReceiving

/-- Where the parser stands before the body is complete. -/
inductive ChunkedStanding (m : ChunkedMessage) (extra : List UInt8) (x : HttpExchange) :
    Nat → Nat → List UInt8 → HttpReceive → Prop where
  | header {input : List UInt8} {y : HttpExchange} {s : HttpReceive}
      (hin : InHead m.head (m.body.bytes ++ extra) input x y s) :
      ChunkedStanding m extra x 1 m.body.content.length input s
  | body {j n : Nat} {input : List UInt8} {s : HttpReceive}
      (hin : InChunks (m.incoming extra) j n input s) : ChunkedStanding m extra x j n input s

theorem ChunkedStanding.receiving {k n : Nat} {input : List UInt8}
    (h : ChunkedStanding m extra x k n input s) : Receiving input s := by
  cases h with
  | header hin => exact hin.toReceiving
  | body hin => exact hin.receiving

/-- With the header the parser goes on into the body. -/
theorem ChunkedStanding.call_header {input : List UInt8} {y : HttpExchange}
    (hx : x.GoesOn (m.incoming extra)) (hlength : m.LengthBehind toInt64)
    (hin : InHead m.head (m.body.bytes ++ extra) input x y s) :
    CallOutcome (ChunkedStanding m extra x) (m.incoming extra) input 1
      (s.Ready m.body.content.length) (s.parseReceiveBuffer toInt64) := by
  obtain ⟨length, hlimit, hfields⟩ := hlength.readHeaderFields x
  have hencoded := m.body.encoded extra
  refine hin.call hx rfl hfields hencoded.length_lt.le ?_ (fun _ _ _ h => h.receiving)
    (fun _ _ h => .header h) ?_
  · omega
  · intro t keepAlive eof ht hstate hstream _
    refine ⟨0, Nat.one_pos, .body (.mk { ht with chunked := ?_, limit := ?_, encoded := ?_ })⟩
    · rw [hstate]
    · rw [hstate]
      exact hlimit
    · rw [hstate, hstream]
      exact hencoded

/-- In the header, in the body and at the end. -/
theorem chunkedStanding_parses (hx : x.GoesOn (m.incoming extra))
    (hlength : m.LengthBehind toInt64) :
    Parses toInt64 (ChunkedStanding m extra x) (m.incoming extra) fun _ _ => True where
  call h := by
    cases h with
    | header hin => exact ChunkedStanding.call_header hx hlength hin
    | body hin =>
      cases hin with
      | mk hs =>
        have hcall := hs.parseChunkedData
        rw [parseReceiveBuffer_chunked hs.done hs.front hs.isOpen.sentHeader hs.isOpen.gotHeader
          hs.chunked, hcall.closeIncomplete_eq fun _ _ _ h => h.receiving]
        exact hcall.imp (fun _ _ _ h => .body h) id
  bounds h := by
    refine ⟨h.receiving, ?_⟩
    cases h with
    | header hin => exact ⟨by decide, Nat.le_refl _⟩
    | body hin =>
      cases hin with
      | mk hs =>
        have hlen := congrArg List.length hs.taken
        rw [List.length_append] at hlen
        exact ⟨by decide, by omega⟩
  update h hstream heof hworks _ := by
    cases h with
    | header hin =>
      refine ⟨_, _, .header { hin with
        eof := heof, works := hworks, readState := ?_, left := hstream ▸ hin.left }⟩
      rw [hin.readState]
    | body hin =>
      cases hin with
      | mk hs =>
        exact ⟨_, _, .body (.mk { hs with
          eof := heof, works := hworks, encoded := hstream ▸ hs.encoded })⟩

end FlintZilla
