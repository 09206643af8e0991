import FlintZilla.Http.ChunkedRun

/-!
# Responses with a content length

A response with identity encoding and a content length. `ParseReceiveBuffer` clips the data to the
content and then consumes everything but the clipped bytes that were not processed. As long as no
read goes beyond the response this is right: its body is delivered and what follows it is left
alone. With more in the buffer the bytes behind the response are lost, or they are taken for its
body.

Main results:

* `InBody.parseIdentityData`, `InBody.parseReceiveBuffer`: one call of the parser inside the body.
* `IdentityStanding.call`: one call, wherever the parser stands.
-/

namespace FlintZilla

open Lib HttpReceive List

/-! ## The response -/

/-- A response that may have a body, with identity encoding and the length of its body. -/
structure IdentityResponse (toInt64 : List UInt8 → Int) where
  head : ResponseHead
  body : List UInt8
  mayHaveBody : ¬(100 ≤ head.code ∧ head.code < 200) ∧ head.code ≠ 304 ∧ head.code ≠ 204
  identity : strToLowerAscii ((addFields [] head.fields).getHeader (ascii "Transfer-Encoding")) ∈
    [[], ascii "identity"]
  hasLength : (addFields [] head.fields).getHeader (ascii "Content-Length") ≠ []
  length : toInt64 ((addFields [] head.fields).getHeader (ascii "Content-Length")) = body.length

variable {toInt64 : List UInt8 → Int}

def IdentityResponse.bytes (r : IdentityResponse toInt64) : List UInt8 := r.head.bytes ++ r.body

/-- A request that was sent and whose response is wanted: `on_header_` lets the response go on, and
a body that does not go to a writer is not too large. -/
structure HttpExchange.Wants (x : HttpExchange) (r : IdentityResponse toInt64) : Prop
    extends x.Awaiting where
  notHead : x.request.verb ≠ ascii "HEAD"
  goesOn : ∀ p ∈ x.response.onHeader, p.1 = Reply.continue_
  room : ((200 ≤ r.head.code ∧ r.head.code < 300) ∧ x.response.writesBody = true) ∨
    r.body.length ≤ HttpResponse.maxBody

variable {m : IdentityResponse toInt64} {extra input content : List UInt8} {x y : HttpExchange}
variable {s : HttpReceive} {r : Incoming}

def IdentityResponse.incoming (m : IdentityResponse toInt64) (extra : List UInt8) : Incoming :=
  ⟨m.head.code, m.body, extra⟩

/-- An exchange that wants this body goes on with it. -/
theorem HttpExchange.Wants.goesOn_incoming (hx : x.Wants m) (extra : List UInt8) :
    x.GoesOn (m.incoming extra) :=
  { hx with mayHaveBody := m.mayHaveBody }

/-! ## Where the parser stands -/

/-- The parser is in the body, `content` is still to come, and no byte behind it was read. -/
structure InBody (r : Incoming) (input content : List UInt8) (x : HttpExchange) (s : HttpReceive) :
    Prop extends Taking r input content x s where
  encoding : s.readState.transferEncoding = .identity
  length : s.readState.responseContentLength = r.body.length
  missing : content ≠ []
  stream : s.recvBuffer ++ input = content ++ r.extra
  within : r.extra.length ≤ input.length

/-- Where the parser stands before the body is complete: the call that empties the buffer asks for
another one. -/
inductive IdentityStanding (m : IdentityResponse toInt64) (extra : List UInt8) (x : HttpExchange) :
    Nat → Nat → List UInt8 → HttpReceive → Prop where
  | header {input : List UInt8} {y : HttpExchange} {s : HttpReceive}
      (hin : InHead m.head (m.body ++ extra) input x y s)
      (hwithin : m.body ≠ [] → extra.length ≤ input.length) :
      IdentityStanding m extra x 2 m.body.length input s
  | body {input content : List UInt8} {y : HttpExchange} {s : HttpReceive}
      (hin : InBody (m.incoming extra) input content y s) :
      IdentityStanding m extra x 1 content.length input s
  | drained {input content : List UInt8} {y : HttpExchange} {s : HttpReceive}
      (hin : InBody (m.incoming extra) input content y s) (hnil : s.recvBuffer = []) :
      IdentityStanding m extra x 0 content.length input s

theorem IdentityStanding.receiving {k n : Nat} (h : IdentityStanding m extra x k n input s) :
    Receiving input s := by
  cases h with
  | header hin _ => exact hin.toReceiving
  | body hin | drained hin _ => exact hin.toReceiving

/-! ## The body -/

section

variable (h : InBody r input content x s)

include h

/-- The buffer holds an initial part of what is still to come. -/
theorem InBody.buffer_prefix : s.recvBuffer <+: content := by
  have hlen := congrArg List.length h.stream
  have hwithin := h.within
  simp only [length_append] at hlen
  exact prefix_of_prefix_length_le (prefix_append _ input)
    (h.stream ▸ prefix_append content r.extra) (by omega)

/-- With nothing in the buffer the rest of the body is awaited. -/
theorem InBody.unread_of_nil (hnil : s.recvBuffer = []) : r.extra.length < input.length := by
  have hlen := congrArg List.length h.stream
  have hpos := length_pos_iff.mpr h.missing
  rw [hnil, nil_append, length_append] at hlen
  omega

/-- Without data the parser asks for more. -/
theorem InBody.parseIdentityData_nil (hnil : s.recvBuffer = []) :
    s.parseIdentityData = (Reply.needData, s) := by
  have heof : ¬s.readState.eof = true := by
    intro heof
    have hlt := h.unread_of_nil hnil
    rw [h.eof heof] at hlt
    cases hlt
  unfold parseIdentityData
  rw [if_pos hnil, if_neg heof]

/-- `n` bytes of the buffer were passed on. -/
theorem InBody.dropData {n size capacity : Nat} {a : WriterAnswers}
    (htaking : Taking r input (content.drop n) y (s.passed n y size capacity a))
    (hn : n ≤ s.recvBuffer.length) (hlt : n < content.length) :
    InBody r input (content.drop n) y { s.passed n y size capacity a with
      recvBuffer := s.recvBuffer.drop n } :=
  { htaking with
    encoding := h.encoding, length := h.length, within := h.within
    missing := by
      rw [Ne, drop_eq_nil_iff]
      omega
    stream := (take_eq_of_append_eq h.stream hn (Nat.le_of_lt hlt)).2 }

end

/-- Without clipping the bytes that were processed are consumed. -/
theorem parseIdentityData_eq {res n : Nat} {t : HttpReceive} (hne : s.recvBuffer ≠ [])
    (hfits : s.readState.receivedData + s.recvBuffer.length ≤ s.readState.responseContentLength)
    (heq : s.processData s.recvBuffer = ((res, n), t)) (hn : n ≤ s.recvBuffer.length)
    (hbuffer : t.recvBuffer = s.recvBuffer) :
    s.parseIdentityData = (res, { t with recvBuffer := s.recvBuffer.drop n }) := by
  have hdrop : s.recvBuffer.length - (s.recvBuffer.length - n) = n := by omega
  unfold parseIdentityData
  dsimp only
  rw [if_neg hne, if_neg (by omega), take_length, heq]
  rw [hbuffer, hdrop]

/-- What is in the buffer is body; it is passed on as far as the writer takes it, and the rest
stays. -/
theorem InBody.parseIdentityData (h : InBody (m.incoming extra) input content y s) :
    CallOutcome (IdentityStanding m extra x) (m.incoming extra) input 1 (s.Ready content.length)
      s.parseIdentityData := by
  by_cases hnil : s.recvBuffer = []
  · rw [h.parseIdentityData_nil hnil]
    exact .needData (.body h) (h.unread_of_nil hnil)
  have hbuffer := h.buffer_prefix.length_le
  have hbody := congrArg List.length h.taken
  rw [List.length_append] at hbody
  have hlength := h.length
  have hreceived := h.received
  have hfits : s.readState.receivedData + s.recvBuffer.length ≤
    s.readState.responseContentLength := by omega
  obtain ⟨res, n, z, size, capacity, a, hpassed, htaking, heq⟩ :=
    h.toTaking.processData h.buffer_prefix
  have hn := hpassed.le
  have hcount := congrArg List.length htaking.taken
  rw [length_append, length_drop] at hcount
  rcases hpassed.res with ⟨rfl, rfl, hready⟩ | ⟨rfl, hshort, hready⟩
  · by_cases hall : s.recvBuffer.length = content.length
    · -- the body is complete
      rw [if_pos ⟨rfl, by omega⟩] at heq
      rw [parseIdentityData_eq hnil hfits heq hn (recvBuffer_finalizeResponseBody _)]
      have hend : AtEnd (m.incoming extra) input z
          { (s.passed s.recvBuffer.length z size capacity a).ended with
            recvBuffer := s.recvBuffer.drop s.recvBuffer.length } :=
        { htaking with
          done := rfl
          taken := by
            have htaken := htaking.taken
            rwa [hall, drop_length, append_nil] at htaken
          rest := by
            rw [(take_eq_of_append_eq h.stream (Nat.le_refl _) hbuffer).2, hall, drop_length]
            rfl }
      -- the buffer is consumed behind `FinalizeResponseBody`
      have hfinal : CallOutcome (IdentityStanding m extra x) _ input 1 _ _ :=
        hend.finalizeResponseBody
      rw [finalizeResponseBody_recvBuffer] at hfinal
      exact hfinal.mono fun hs => hready 0 (by rwa [Nat.add_zero, hall])
    · rw [if_neg fun hand => hall (by omega)] at heq
      rw [parseIdentityData_eq hnil hfits heq hn rfl]
      refine .more Nat.one_pos (.drained (h.dropData htaking hn (by omega)) drop_length) ?_
      intro hs
      refine hready _ ?_
      rwa [length_drop, Nat.add_sub_cancel' hbuffer]
  · rw [if_neg (by simp [Reply.wouldBlock, Reply.continue_])] at heq
    rw [parseIdentityData_eq hnil hfits heq hn rfl]
    refine .blocked (.body (h.dropData htaking hn (by omega))) ?_
    have hlack := hready (content.length - s.recvBuffer.length)
    rwa [Nat.add_sub_cancel' hbuffer] at hlack

/-! ## Calls of the parser -/

/-- Behind the header a response with identity encoding is read by the last branch. -/
theorem InBody.parseReceiveBuffer (h : InBody r input content x s) :
    s.parseReceiveBuffer toInt64 = s.parseIdentityData := by
  unfold HttpReceive.parseReceiveBuffer HttpReceive.parseBody
  rw [if_neg (by rw [h.done]; decide), h.front]
  dsimp only
  rw [h.isOpen.sentHeader, h.isOpen.gotHeader, if_neg (by simp), if_neg (by simp),
    if_neg (by decide), if_neg (by rw [h.encoding]; decide)]

/-- The content length is the length of the body. -/
theorem readHeaderFields_identity (readState : HttpReadState) (x : HttpExchange)
    (r : IdentityResponse toInt64) :
    ∃ keepAlive, readHeaderFields toInt64 readState (x.complete r.head) =
      .ok { readState with
        transferEncoding := .identity, responseContentLength := r.body.length
        keepAlive := keepAlive } := by
  have hte : strToLowerAscii ((x.complete r.head).response.headers.getHeader
      (ascii "Transfer-Encoding")) ∈ [[], ascii "identity"] := r.identity
  have hcl : (x.complete r.head).response.headers.getHeader (ascii "Content-Length") ≠ [] :=
    r.hasLength
  have hlength : toInt64 ((x.complete r.head).response.headers.getHeader
      (ascii "Content-Length")) = r.body.length := r.length
  refine ⟨(x.complete r.head).response.headers.keepAlive &&
    (x.complete r.head).request.headers.keepAlive, ?_⟩
  unfold readHeaderFields
  dsimp only
  generalize strToLowerAscii ((x.complete r.head).response.headers.getHeader
      (ascii "Transfer-Encoding")) = te at hte ⊢
  have hchunked : te ≠ ascii "chunked" := by
    rintro rfl
    exact absurd hte (by decide)
  have hknown : ¬(te ≠ ascii "chunked" ∧ te ≠ [] ∧ te ≠ ascii "identity") := by
    rintro ⟨-, hnil, hid⟩
    simp only [mem_cons, not_mem_nil, or_false] at hte
    exact hte.elim hnil hid
  rw [hlength, if_neg hknown, if_neg (by omega), if_neg hchunked,
    if_neg (show ¬(x.complete r.head).response.noBody = true from Bool.false_ne_true), if_neg hcl]

/-- With the header the parser goes on into the body, or there is none. -/
theorem IdentityStanding.call_header (hx : x.GoesOn (m.incoming extra))
    (hin : InHead m.head (m.body ++ extra) input x y s)
    (hwithin : m.body ≠ [] → extra.length ≤ input.length) :
    CallOutcome (IdentityStanding m extra x) (m.incoming extra) input 2 (s.Ready m.body.length)
      (s.parseReceiveBuffer toInt64) := by
  refine hin.call hx rfl (readHeaderFields_identity · x m) (by simp [IdentityResponse.incoming]) ?_
    (fun _ _ _ h => h.receiving) (fun _ _ h => .header h hwithin) ?_
  · intro hzero
    have hnil : m.body = [] := length_eq_zero_iff.mp (by omega)
    exact ⟨hnil, by rw [hnil]; rfl⟩
  · intro t keepAlive eof ht hstate hstream hlength
    have hbody : m.body ≠ [] := fun hnil => hlength (by rw [hnil]; rfl)
    exact ⟨1, Nat.one_lt_two, .body { ht with
      encoding := by rw [hstate]
      length := by rw [hstate]; rfl
      missing := hbody, stream := hstream, within := hwithin hbody }⟩

/-- In the header, in the body and at the end. -/
theorem IdentityStanding.call {k n : Nat} (hx : x.GoesOn (m.incoming extra))
    (h : IdentityStanding m extra x k n input s) :
    CallOutcome (IdentityStanding m extra x) (m.incoming extra) input k (s.Ready n)
      (s.parseReceiveBuffer toInt64) := by
  cases h with
  | header hin hwithin => exact IdentityStanding.call_header hx hin hwithin
  | body hin =>
    rw [hin.parseReceiveBuffer]
    exact hin.parseIdentityData
  | drained hin hnil =>
    rw [hin.parseReceiveBuffer, hin.parseIdentityData_nil hnil]
    exact .needData (.body hin) (hin.unread_of_nil hnil)

end FlintZilla
