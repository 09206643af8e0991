import FlintZilla.Http.Chunked
import FlintZilla.Http.Data

/-!
# Decoding a chunked body

What one call of the parser does to a response whose body is `body` and is followed by `extra`, when
`input` is what was not yet read from the socket. `Decoding` and `AtEnd` say where the parser can
stand between two calls; each function gets one lemma that says how it leaves.

Main results:

* `Decoding.processData`, `Decoding.parseChunkLine`: data of a chunk, and a line between two chunks.
* `Decoding.chunkLoop`, `Decoding.parseChunkedData`: the loop over both.
-/

namespace FlintZilla

open Lib List HttpReceive

/-! ## Where the parser stands -/

/-- The parser is in the body and `content` is still to come. A content length must be larger than
the body, or the parser would end the response with it. -/
structure Decoding (r : Incoming) (input content : List UInt8) (x : HttpExchange)
    (s : HttpReceive) :
    Prop extends Taking r input content x s where
  chunked : s.readState.transferEncoding = .chunked
  limit : s.readState.responseContentLength = -1 ∨
    (r.body.length : Int) < s.readState.responseContentLength
  encoded : Encoded r.extra s.readState.getTrailer s.readState.terminateChunk s.readState.chunkSize
    content (s.recvBuffer ++ input)

/-- In the body one call takes what there is. -/
inductive InChunks (r : Incoming) : Nat → Nat → List UInt8 → HttpReceive → Prop where
  | mk {input content : List UInt8} {x : HttpExchange} {s : HttpReceive} :
      Decoding r input content x s → InChunks r 0 content.length input s

/-- How a call of the parser ends when it started in the body. -/
abbrev BodyOutcome (r : Incoming) (input : List UInt8) (ready : Prop) : Nat × HttpReceive → Prop :=
  CallOutcome (InChunks r) r input 0 ready

variable {r : Incoming} {input content : List UInt8} {x : HttpExchange} {s : HttpReceive}
variable {data : List UInt8}

/-- `ProcessData` does not end the response. -/
theorem Decoding.processData (h : Decoding r input content x s) (hdata : data <+: content) :
    ∃ res n y size capacity a, DataPassed x s data res n y size capacity a ∧
      Taking r input (content.drop n) y (s.passed n y size capacity a) ∧
      s.processData data = ((res, n), s.passed n y size capacity a) := by
  obtain ⟨res, n, y, size, capacity, a, hpassed, htaking, heq⟩ := h.toTaking.processData hdata
  refine ⟨res, n, y, size, capacity, a, hpassed, htaking, heq.trans (if_neg ?_)⟩
  have hlen := congrArg length htaking.taken
  have hlimit := h.limit
  rw [length_append] at hlen
  omega

/-! ## Rounds of the parser -/

/-- How a round ends: it returns, or the loop goes on with a state that also meets `P`. -/
inductive RoundOutcome (r : Incoming) (input : List UInt8) (ready : Prop) (P : HttpReceive → Prop) :
    HttpReceive.Round → Prop where
  | next {content : List UInt8} {x : HttpExchange} {s : HttpReceive} :
      Decoding r input content x s → (ready → s.Ready content.length) → P s →
      RoundOutcome r input ready P (.next s)
  | done {res : Nat × HttpReceive} : BodyOutcome r input ready res →
      RoundOutcome r input ready P (.done res)

variable {d : List UInt8}

/-- Two cuts of one stream agree up to the shorter one. -/
theorem take_eq_of_append_eq {a b c : List UInt8} (h : a ++ b = c ++ d) {k : Nat}
    (ha : k ≤ a.length) (hc : k ≤ c.length) :
    a.take k = c.take k ∧ a.drop k ++ b = c.drop k ++ d := by
  constructor
  · have htake := congrArg (take k) h
    rwa [take_append_of_le_length ha, take_append_of_le_length hc] at htake
  · have hdrop := congrArg (drop k) h
    rwa [drop_append_of_le_length ha, drop_append_of_le_length hc] at hdrop

variable {rest : List UInt8}

/-- `n` bytes of the data `d` went to the response. -/
theorem Decoding.dropData {later : List UInt8} {n size capacity : Nat} {y : HttpExchange}
    {a : WriterAnswers} (h : Decoding r input (d ++ later) x s)
    (hd : d.length = s.readState.chunkSize) (hstream : s.recvBuffer ++ input = d ++ rest)
    (hrest : Encoded r.extra false true 0 later rest) (htrailer : s.readState.getTrailer = false)
    (hterminate : s.readState.terminateChunk = false)
    (htaking : Taking r input ((d ++ later).drop n) y (s.passed n y size capacity a))
    (hbuffer : n ≤ s.recvBuffer.length) (hle : n ≤ d.length) :
    Decoding r input (d.drop n ++ later) y { s.passed n y size capacity a with
      recvBuffer := s.recvBuffer.drop n
      readState := { (s.passed n y size capacity a).readState with
        chunkSize := s.readState.chunkSize - n
        terminateChunk :=
          if s.readState.chunkSize - n = 0 then true else s.readState.terminateChunk } } := by
  rw [drop_append_of_le_length hle] at htaking
  refine { htaking with chunked := h.chunked, limit := h.limit, encoded := ?_ }
  show Encoded r.extra s.readState.getTrailer _ _ _ (s.recvBuffer.drop n ++ input)
  rw [(take_eq_of_append_eq hstream hbuffer hle).2, htrailer, hterminate, ← hd]
  by_cases hall : d.length - n = 0
  · have hdrop : d.drop n = [] := drop_eq_nil_iff.mpr (by omega)
    rw [hall, hdrop]
    exact hrest
  · rw [if_neg hall]
    exact Encoded.drop_data (by omega) hrest

variable (h : Decoding r input content x s)

include h

/-- The data of a chunk: the parser takes what there is, up to the end of the chunk. -/
theorem Decoding.parseChunk : RoundOutcome r input (s.Ready content.length)
      (fun t => t.recvBuffer.length ≤ s.recvBuffer.length ∧
        (t.readState.chunkSize = 0 ∨ t.recvBuffer = [])) s.parseChunk := by
  unfold HttpReceive.parseChunk
  by_cases hsize : s.readState.chunkSize = 0
  · rw [if_pos hsize]
    exact .next h id ⟨Nat.le_refl _, .inl hsize⟩
  rw [if_neg hsize]
  obtain ⟨htrailer, hterminate, d, later, rest, hd, rfl, hstream, hrest⟩ :=
    h.encoded.data_of_size_ne hsize
  -- the buffer holds an initial part of the data
  have hlen : (s.recvBuffer.take s.readState.chunkSize).length =
      min s.readState.chunkSize s.recvBuffer.length := length_take
  have hprefix : s.recvBuffer.take s.readState.chunkSize <+: d ++ later := by
    have htake := (take_eq_of_append_eq hstream (Nat.min_le_right s.readState.chunkSize _)
      (by omega)).1
    rw [← take_eq_take_min] at htake
    rw [htake]
    exact (List.take_prefix _ d).trans (prefix_append d later)
  dsimp only
  generalize s.recvBuffer.take s.readState.chunkSize = data at *
  obtain ⟨res, n, y, size, capacity, a, hpassed, htaking, heq⟩ := h.processData hprefix
  have hle := hpassed.le
  have hdrop := h.dropData hd hstream hrest htrailer hterminate htaking (by omega) (by omega)
  have hlength : (d ++ later).length = data.length + (d.drop data.length ++ later).length := by
    rw [length_append, length_append, length_drop]
    omega
  rw [heq]
  dsimp only [HttpReceive.passed]
  rcases hpassed.res with ⟨rfl, rfl, hready⟩ | ⟨rfl, hshort, hready⟩
  · refine .next hdrop ?_ ⟨by simp, ?_⟩
    · intro hs
      rw [hlength] at hs
      exact hready _ hs
    · -- the whole chunk, or the whole buffer
      rcases Nat.le_total s.readState.chunkSize s.recvBuffer.length with hall | hall
      · dsimp only
        omega
      · exact .inr (drop_eq_nil_iff.mpr (by omega))
  · rw [if_neg (by omega)] at hdrop
    refine .done (.blocked (.mk hdrop) ?_)
    rw [hlength]
    exact hready _

/-- A whole line, when no data is awaited. -/
theorem Decoding.parseChunkLine {text tail : List UInt8} (hsize : s.readState.chunkSize = 0)
    (hline : Encoded.NextLine r.extra s.readState.getTrailer s.readState.terminateChunk content
      text rest) (hrest : tail ++ input = rest) :
    RoundOutcome r input (s.Ready content.length) (fun t => t.recvBuffer = tail)
      (s.parseChunkLine text tail) := by
  subst hrest
  unfold parseChunkLine
  cases hline with
  | terminator hterminate htext hnext =>
    rw [if_pos hterminate, if_neg (not_not_intro htext)]
    have hstate : Decoding r input content x { s with
        recvBuffer := tail, readState := { s.readState with terminateChunk := false } } :=
      { h with encoded := by rw [hsize]; exact hnext }
    exact .next hstate id rfl
  | trailer hterminate htrailer htext hnext =>
    rw [if_neg (by rw [hterminate]; decide), if_pos htrailer, if_neg htext]
    have hstate : Decoding r input content x { s with recvBuffer := tail } :=
      { h with encoded := by rw [hsize, htrailer, hterminate]; exact hnext }
    exact .next hstate id rfl
  | last hterminate htrailer htext hcontent hnext =>
    rw [if_neg (by rw [hterminate]; decide), if_pos htrailer, if_pos htext]
    subst hcontent
    have hend : AtEnd r input x
        { s with recvBuffer := tail, readState := { s.readState with done := true } } :=
      { h with done := rfl, taken := by simpa using h.taken, rest := hnext }
    exact .done hend.finalizeResponseBody
  | @sizeLine size hterminate htrailer hparse hnext =>
    rw [if_neg (by rw [hterminate]; decide), if_neg (by rw [htrailer]; decide), hsize, hparse]
    have hstate : Decoding r input content x { s with
        recvBuffer := tail
        readState := { s.readState with
          chunkSize := size, getTrailer := s.readState.getTrailer || size == 0 } } :=
      { h with encoded := by rw [htrailer, hterminate, Bool.false_or]; exact hnext }
    exact .next hstate id rfl

/-- With nothing in the buffer, bytes of the response are still unread. -/
theorem Decoding.needData_of_nil {ready : Prop} (hnil : s.recvBuffer = []) :
    BodyOutcome r input ready (Reply.needData, s) := by
  have hlt := h.encoded.length_lt
  rw [hnil] at hlt
  exact .needData (.mk h) hlt

/-- A round takes something off the buffer, or leaves. -/
theorem Decoding.chunkRound : RoundOutcome r input (s.Ready content.length)
      (fun t => t.recvBuffer.length < s.recvBuffer.length) s.chunkRound := by
  unfold HttpReceive.chunkRound
  have hchunk := h.parseChunk
  generalize s.parseChunk = round at hchunk ⊢
  cases hchunk with
  | done hr => exact .done hr
  | @next content' y t ht hready hbuffer =>
    dsimp only
    rcases hbuffer with ⟨hle, hsize | hnil⟩
    · -- outside of a chunk: the buffer starts with a line or with a part of one
      have hencoded := ht.encoded
      rw [hsize] at hencoded
      obtain ⟨line, rest, hstream, hextra, hline⟩ := hencoded.line_of_size_eq
      rcases Lines.scan_cut line.clean hstream with ⟨hscan, hshort, hmissing⟩ |
        ⟨tail, hscan, hbuffer, hrest⟩
      · -- only a part of the line is there, and it is short enough to be kept
        have hfits := line.fits
        rw [hscan]
        rw [if_neg (by omega)]
        exact .done (.needData (.mk ht) (by omega))
      · rw [hscan]
        have hnext := ht.parseChunkLine hsize hline hrest
        have hlength : tail.length < s.recvBuffer.length := by
          rw [hbuffer] at hle
          exact Nat.lt_of_lt_of_le (Lines.length_lt_ended _ _) hle
        dsimp only
        generalize t.parseChunkLine line.text tail = round at hnext ⊢
        cases hnext with
        | next hu hready' htail => exact .next hu (fun hs => hready' (hready hs)) (htail ▸ hlength)
        | done hr => exact .done (hr.mono hready)
    · -- inside of a chunk: the buffer is used up
      rw [hnil]
      exact .done (ht.needData_of_nil hnil)

/-- By induction on the rounds, of which there is one for each byte at most. -/
theorem Decoding.chunkLoop {fuel : Nat} (hfuel : s.recvBuffer.length ≤ fuel) :
    BodyOutcome r input (s.Ready content.length) (s.chunkLoop fuel) := by
  induction fuel generalizing s content x with
  | zero => exact h.needData_of_nil (length_eq_zero_iff.mp (by omega))
  | succ fuel ih =>
    rw [chunkLoop]
    by_cases hnil : s.recvBuffer = []
    · rw [if_pos hnil]
      exact h.needData_of_nil hnil
    · rw [if_neg hnil]
      have hround := h.chunkRound
      generalize s.chunkRound = round at hround ⊢
      cases hround with
      | done hr => exact hr
      | next ht hready hlt => exact (ih ht (by omega)).mono hready

theorem Decoding.parseChunkedData :
    BodyOutcome r input (s.Ready content.length) s.parseChunkedData :=
  h.chunkLoop (Nat.le_refl _)

omit h

end FlintZilla
