import FlintZilla.Ftp.Session

/-!
# Reading replies

`CFtpControlSocket::OnReceive` and `ParseLine` with the index of the inner loop and the size of each
read as the source has them. What the rest of the socket does with a line is left open: any way to
convert it, to look at it during the logon and to handle a reply, each of which may depend on all
that came before and close the connection.

The reads cut the stream of bytes anywhere. `feedByte` is the receiver that gets one byte at a time;
`receive_eq_feed` says that a read is the bytes of the read fed one after the other, so that what
is extracted depends on the stream alone.

Main results:

* `receive_eq_feed`, `onReceive_eq_feed`: reading in pieces is reading byte by byte.
* `feed_tooLong_iff`: when the buffer overflows.
* `onReceive_fragments`: two ways to cut a stream into reads end in the same state.
-/

namespace FlintZilla

open Lib FtpSession List

/-- What the socket does with a line; the state `σ` is all of it that the lines can reach. -/
structure LineHandler (σ : Type) where
  /-- `ConvToLocal`. -/
  convToLocal : σ → List UInt8 → WString × σ
  /-- What `ParseLine` does for a logon; `none` means that the connection is closed. -/
  watchLine : σ → WString → Option σ
  /-- `ParseResponse` of a reply with `m_MultilineResponseLines`, and whether there is still a
  connection afterwards. -/
  parseResponse : σ → WString → List WString → σ × Bool

/-- The part of `CFtpControlSocket` that receives. `lines` and `replies` record what has been
extracted and passed to `ParseResponse`, `tooLong` that the error about it has been logged. -/
structure FtpReceiver (σ : Type) where
  receiveBuffer : List UInt8 := []
  multilineResponseCode : WString := []
  multilineResponseLines : List WString := []
  /-- There is an `active_layer_`. -/
  connected : Bool := true
  tooLong : Bool := false
  lines : List (List UInt8) := []
  replies : List (WString × List WString) := []
  rest : σ
deriving DecidableEq

namespace FtpReceiver

variable {σ : Type}

/-- `DoClose`. -/
def doClose (s : FtpReceiver σ) : FtpReceiver σ :=
  { s with
    receiveBuffer := []
    multilineResponseCode := []
    multilineResponseLines := []
    connected := false }

/-- `ParseResponse`. -/
def parseResponse (h : LineHandler σ) (s : FtpReceiver σ) (response : WString) : FtpReceiver σ :=
  let (rest, open_) := h.parseResponse s.rest response s.multilineResponseLines
  let s := { s with rest := rest, replies := s.replies ++ [(response, s.multilineResponseLines)] }
  if open_ then s else s.doClose

/-- `CFtpControlSocket::ParseLine`. -/
def parseLine (h : LineHandler σ) (s : FtpReceiver σ) (line : WString) : FtpReceiver σ :=
  match h.watchLine s.rest line with
  | none => s.doClose
  | some rest =>
    let s := { s with rest := rest }
    if line.length ≤ 3 then s
    else if s.multilineResponseCode ≠ [] then
      if line.take 4 = s.multilineResponseCode then
        let s := { s with multilineResponseCode := [] }.parseResponse h line
        { s with multilineResponseLines := [] }
      else { s with multilineResponseLines := s.multilineResponseLines ++ [line] }
    else if (line.drop 3).head? = some '-' then
      { s with
        multilineResponseCode := line.take 3 ++ [' ']
        multilineResponseLines := s.multilineResponseLines ++ [line] }
    else s.parseResponse h line

/-- The first `i` bytes of the buffer are a line; the line end after them goes with it. -/
def takeLine (h : LineHandler σ) (s : FtpReceiver σ) (i : Nat) : FtpReceiver σ :=
  let bytes := s.receiveBuffer.take i
  let (line, rest) := h.convToLocal s.rest bytes
  { s with
    receiveBuffer := s.receiveBuffer.drop (i + 1)
    lines := s.lines ++ [bytes]
    rest := rest }.parseLine h line

/-- The inner loop of `OnReceive` from index `i`. Each round looks at one of the `n` bytes that have
not been looked at. -/
def scanLoop (h : LineHandler σ) : Nat → Nat → FtpReceiver σ → FtpReceiver σ
  | 0, _, s => s
  | n + 1, i, s =>
    match s.receiveBuffer[i]? with
    | none => s
    | some p =>
      if isLineEnd p then
        if i = 0 then scanLoop h n 0 { s with receiveBuffer := s.receiveBuffer.drop 1 }
        else
          let s := s.takeLine h i
          if s.connected then scanLoop h n 0 s else s
      else scanLoop h n (i + 1) s

/-- What `OnReceive` does with the bytes of a read. -/
def receive (h : LineHandler σ) (s : FtpReceiver σ) (bytes : List UInt8) : FtpReceiver σ :=
  let i := s.receiveBuffer.length
  let s := scanLoop h bytes.length i { s with receiveBuffer := s.receiveBuffer ++ bytes }
  if !s.connected then s
  else if s.receiveBuffer.length = maxReceive then { s.doClose with tooLong := true }
  else s

/-- The reads of one or more calls of `OnReceive`. At each of them so many bytes of the stream have
arrived, none means `EAGAIN`; the read returns as many of them as there is room for. -/
def onReceive (h : LineHandler σ) : List Nat → FtpReceiver σ → List UInt8 →
    FtpReceiver σ × List UInt8
  | [], s, stream => (s, stream)
  | available :: reads, s, stream =>
    if !s.connected then (s, stream)
    else
      let toRead := maxReceive - s.receiveBuffer.length
      let bytes := stream.take (min available toRead)
      if bytes = [] then onReceive h reads s stream
      else onReceive h reads (s.receive h bytes) (stream.drop bytes.length)

/-! ## One byte at a time -/

/-- The line that has become too long closes the connection. -/
def checkLength (s : FtpReceiver σ) : FtpReceiver σ :=
  if s.connected ∧ s.receiveBuffer.length = maxReceive then { s.doClose with tooLong := true }
  else s

/-- The line splitter: a line end ends the line so far, if there is one; any other byte belongs
to it. -/
def feedByte (h : LineHandler σ) (s : FtpReceiver σ) (b : UInt8) : FtpReceiver σ :=
  if !s.connected then s
  else if isLineEnd b then
    if s.receiveBuffer = [] then s else s.takeLine h s.receiveBuffer.length
  else checkLength { s with receiveBuffer := s.receiveBuffer ++ [b] }

/-- The stream fed byte by byte. -/
def feed (h : LineHandler σ) (s : FtpReceiver σ) (bytes : List UInt8) : FtpReceiver σ :=
  bytes.foldl (feedByte h) s

variable {s : FtpReceiver σ} (h : LineHandler σ)

theorem feed_append (s : FtpReceiver σ) (x y : List UInt8) :
    feed h s (x ++ y) = feed h (feed h s x) y := by
  exact foldl_append

/-- A closed connection takes no more bytes. -/
theorem feed_closed (hs : s.connected = false) (bytes : List UInt8) : feed h s bytes = s := by
  induction bytes with
  | nil => rfl
  | cons b bytes ih =>
    have hstep : feedByte h s b = s := by simp [feedByte, hs]
    show feed h (feedByte h s b) bytes = s
    rw [hstep]
    exact ih

/-! ## A line and the bytes behind it -/

/-- The same receiver with other bytes in its buffer. -/
def withBuffer (s : FtpReceiver σ) (bytes : List UInt8) : FtpReceiver σ :=
  { s with receiveBuffer := bytes }

@[simp] theorem withBuffer_receiveBuffer (s : FtpReceiver σ) (bytes : List UInt8) :
    (s.withBuffer bytes).receiveBuffer = bytes := rfl

@[simp] theorem withBuffer_connected (s : FtpReceiver σ) (bytes : List UInt8) :
    (s.withBuffer bytes).connected = s.connected := rfl

@[simp] theorem withBuffer_withBuffer (s : FtpReceiver σ) (x y : List UInt8) :
    (s.withBuffer x).withBuffer y = s.withBuffer y := rfl

/-- `t'` is what becomes of the receiver that ends as `t` if `x` stands in its buffer: nothing but
the buffer differs, and nothing at all if the connection is closed. -/
def Behind (x : List UInt8) (t t' : FtpReceiver σ) : Prop :=
  t' = if t.connected then t.withBuffer x else t

/-- What is behind the line in the buffer makes no difference to a reply. -/
theorem parseResponse_behind (hs : s.connected) (x : List UInt8) (response : WString) :
    Behind x (s.parseResponse h response) ((s.withBuffer x).parseResponse h response) := by
  unfold Behind parseResponse
  dsimp only [withBuffer]
  by_cases hopen : (h.parseResponse s.rest response s.multilineResponseLines).2 = true
  · simp [hopen, hs]
  · simp [hopen, doClose]

/-- Nor does it to a line. -/
theorem parseLine_behind (hs : s.connected) (x : List UInt8)
    (line : WString) : Behind x (s.parseLine h line) ((s.withBuffer x).parseLine h line) := by
  unfold parseLine
  rw [show (s.withBuffer x).rest = s.rest from rfl]
  cases h.watchLine s.rest line with
  | none => simp [Behind, doClose, withBuffer]
  | some rest =>
    dsimp only [withBuffer]
    split_ifs with hshort hcode hend hdash
    · simp [Behind, hs, withBuffer]
    · -- the end of a reply with several lines, which are then forgotten
      have hreply := parseResponse_behind h
        (s := { s with rest := rest, multilineResponseCode := [] }) hs x line
      unfold Behind at hreply ⊢
      rw [show ({ s with receiveBuffer := x, rest := rest, multilineResponseCode := [] } :
        FtpReceiver σ) = { s with rest := rest, multilineResponseCode := [] }.withBuffer x from rfl,
        hreply]
      split_ifs with hopen <;> rfl
    · simp [Behind, hs, withBuffer]
    · simp [Behind, hs, withBuffer]
    · exact parseResponse_behind h (s := { s with rest := rest }) hs x line

/-- A line is taken off the front, with the rest left behind it. -/
theorem takeLine_behind (hs : s.connected) (e : UInt8) (rest : List UInt8) :
    Behind rest (s.takeLine h s.receiveBuffer.length)
      ((s.withBuffer (s.receiveBuffer ++ e :: rest)).takeLine h s.receiveBuffer.length) := by
  have htake : (s.receiveBuffer ++ e :: rest).take s.receiveBuffer.length = s.receiveBuffer :=
    take_left
  have hdrop : (s.receiveBuffer ++ e :: rest).drop (s.receiveBuffer.length + 1) = rest := by simp
  unfold takeLine
  dsimp only [withBuffer]
  rw [htake, hdrop, take_length, drop_eq_nil_of_le (Nat.le_succ _)]
  exact parseLine_behind h (s := { s with
    receiveBuffer := []
    lines := s.lines ++ [s.receiveBuffer]
    rest := (h.convToLocal s.rest s.receiveBuffer).2 }) hs rest _

/-- Nothing is left of the line that was taken. -/
theorem takeLine_receiveBuffer (hs : s.connected)
    (hopen : (s.takeLine h s.receiveBuffer.length).connected) :
    (s.takeLine h s.receiveBuffer.length).receiveBuffer = [] := by
  have hline : Behind [] (s.takeLine h s.receiveBuffer.length)
      (s.takeLine h s.receiveBuffer.length) := by
    unfold takeLine
    rw [take_length, drop_eq_nil_of_le (Nat.le_succ _)]
    exact parseLine_behind h (s := { s with
      receiveBuffer := []
      lines := s.lines ++ [s.receiveBuffer]
      rest := (h.convToLocal s.rest s.receiveBuffer).2 }) hs [] _
  unfold Behind at hline
  rw [if_pos hopen] at hline
  rw [hline]
  rfl

/-! ## Reads and bytes -/

theorem checkLength_of_lt (hs : s.receiveBuffer.length < maxReceive) : s.checkLength = s := by
  unfold checkLength
  rw [if_neg]
  omega

theorem checkLength_of_closed (hs : s.connected = false) : s.checkLength = s := by
  simp [checkLength, hs]

/-- The loop over the bytes of a read. In front of the index there is no line end, and the length
of the line is looked at in the end: it cannot reach the limit before, since a read is not longer
than there is room. -/
theorem scanLoop_eq_feed (rest front : List UInt8) (s : FtpReceiver σ) (hs : s.connected)
    (hfront : ∀ b ∈ front, isLineEnd b = false) (hroom : front.length + rest.length ≤ maxReceive) :
    (scanLoop h rest.length front.length (s.withBuffer (front ++ rest))).checkLength =
      feed h (s.withBuffer front).checkLength rest := by
  -- `front` is the part of the line that the loop has passed
  induction rest generalizing front s with
  | nil =>
    rw [append_nil]
    rfl
  | cons b rest ih =>
    rw [length_cons] at hroom
    have hshort : (s.withBuffer front).checkLength = s.withBuffer front :=
      checkLength_of_lt (by rw [withBuffer_receiveBuffer]; omega)
    have hat : (front ++ b :: rest)[front.length]? = some b := by simp
    have hnil : ∀ t : FtpReceiver σ, (t.withBuffer []).checkLength = t.withBuffer [] :=
      fun t => checkLength_of_lt (by rw [withBuffer_receiveBuffer]; decide)
    rw [hshort]
    show _ = feed h (feedByte h (s.withBuffer front) b) rest
    simp only [length_cons, scanLoop, withBuffer_receiveBuffer, hat]
    by_cases hend : isLineEnd b = true
    · rw [if_pos hend]
      by_cases hempty : front = []
      · -- a line end on its own
        subst hempty
        have hskip : feedByte h (s.withBuffer []) b = s.withBuffer [] := by simp [feedByte, hend]
        rw [hskip]
        have hrest := ih [] s hs (by simp) (by simp; omega)
        rw [hnil] at hrest
        exact hrest
      · rw [if_neg (by simpa using hempty)]
        have htake : feedByte h (s.withBuffer front) b =
            (s.withBuffer front).takeLine h front.length := by
          simp [feedByte, hs, hend, hempty]
        -- the rest of the buffer is behind the line for the loop, and not there yet for `feed`
        have hbehind := takeLine_behind h (s := s.withBuffer front) hs b rest
        rw [withBuffer_receiveBuffer, withBuffer_withBuffer] at hbehind
        rw [htake]
        have hleft := takeLine_receiveBuffer h (s := s.withBuffer front) hs
        rw [withBuffer_receiveBuffer] at hleft
        generalize (s.withBuffer front).takeLine h front.length = t at hbehind hleft
        rw [hbehind]
        by_cases hopen : t.connected = true
        · have ht : t = t.withBuffer [] := by
            rw [show t.withBuffer [] = t.withBuffer t.receiveBuffer by rw [hleft hopen]]
            rfl
          rw [if_pos hopen, if_pos (show (t.withBuffer rest).connected = true from hopen)]
          have hrest := ih [] t hopen (by simp) (by simp; omega)
          rw [hnil, ← ht] at hrest
          exact hrest
        · -- the line closed the connection, and the rest is never read
          rw [if_neg hopen, if_neg hopen]
          rw [Bool.not_eq_true] at hopen
          rw [feed_closed h hopen]
          exact checkLength_of_closed hopen
    · rw [if_neg hend]
      have hgrow : feedByte h (s.withBuffer front) b =
          (s.withBuffer (front ++ [b])).checkLength := by
        simp [feedByte, hs, hend, withBuffer]
      have hclean : ∀ x ∈ front ++ [b], isLineEnd x = false := by
        refine forall_mem_append.mpr ⟨hfront, forall_mem_singleton.mpr ?_⟩
        simpa using hend
      have hrest := ih (front ++ [b]) s hs hclean (by simp; omega)
      rw [append_assoc, length_append] at hrest
      rw [hgrow]
      exact hrest

/-- The bytes of the line so far. -/
def Clean (s : FtpReceiver σ) : Prop :=
  s.connected = true →
    (∀ b ∈ s.receiveBuffer, isLineEnd b = false) ∧ s.receiveBuffer.length < maxReceive

/-- A read is its bytes, one after the other. -/
theorem receive_eq_feed (hs : s.connected) (hclean : s.Clean)
    {bytes : List UInt8} (hroom : s.receiveBuffer.length + bytes.length ≤ maxReceive) :
    s.receive h bytes = feed h s bytes := by
  obtain ⟨hfront, hlt⟩ := hclean hs
  have hloop := scanLoop_eq_feed h bytes s.receiveBuffer s hs hfront hroom
  rw [show s.withBuffer s.receiveBuffer = s from rfl, checkLength_of_lt hlt] at hloop
  rw [← hloop]
  -- the two tests at the end of a round
  have hcheck : ∀ t : FtpReceiver σ, (if !t.connected then t
      else if t.receiveBuffer.length = maxReceive then { t.doClose with tooLong := true }
      else t) = t.checkLength := by
    intro t
    unfold checkLength
    by_cases hopen : t.connected = true
    · simp [hopen]
    · simp [hopen]
  exact hcheck _

/-- The buffer never holds a line end. -/
theorem Clean.feedByte (hclean : s.Clean) (b : UInt8) : (feedByte h s b).Clean := by
  unfold FtpReceiver.feedByte
  by_cases hs : s.connected = true
  · obtain ⟨hfront, hlt⟩ := hclean hs
    rw [if_neg (by simp [hs])]
    split_ifs with hend hempty
    · exact hclean
    · intro hopen
      rw [takeLine_receiveBuffer h hs hopen]
      exact ⟨by simp, by decide⟩
    · unfold checkLength
      split_ifs with hmax
      · intro hopen
        cases hopen
      · intro _
        rw [not_and] at hmax
        have hne := hmax hs
        constructor
        · refine forall_mem_append.mpr ⟨hfront, forall_mem_singleton.mpr ?_⟩
          simpa using hend
        · simp only [length_append, length_singleton] at hne ⊢
          omega
  · rw [if_pos (by simpa using hs)]
    exact hclean

theorem Clean.feed (hclean : s.Clean) (bytes : List UInt8) : (feed h s bytes).Clean := by
  induction bytes generalizing s with
  | nil => exact hclean
  | cons b bytes ih => exact ih (hclean.feedByte h b)

/-- Any reads feed the bytes that they take from the stream. -/
theorem onReceive_eq_feed (reads : List Nat) (s : FtpReceiver σ)
    (hclean : s.Clean) (stream : List UInt8) :
    ∃ taken left, stream = taken ++ left ∧ onReceive h reads s stream = (feed h s taken, left) := by
  induction reads generalizing s stream with
  | nil => exact ⟨[], stream, rfl, rfl⟩
  | cons available reads ih =>
    unfold onReceive
    dsimp only
    split_ifs with hclosed hnone
    · exact ⟨[], stream, rfl, rfl⟩
    · exact ih s hclean stream
    · have hs : s.connected = true := by simpa using hclosed
      generalize hbytes : stream.take (min available (maxReceive - s.receiveBuffer.length)) = bytes
      have hlength : bytes.length ≤ maxReceive - s.receiveBuffer.length := by
        rw [← hbytes, length_take]
        omega
      have hlt := (hclean hs).2
      -- no more is read than fits into the buffer
      have hstream : bytes <+: stream := by
        rw [← hbytes]
        exact take_prefix _ stream
      rw [receive_eq_feed h hs hclean (by omega)]
      obtain ⟨taken, left, hsplit, hrun⟩ := ih (feed h s bytes) (hclean.feed h bytes)
        (stream.drop bytes.length)
      refine ⟨bytes ++ taken, left, ?_, ?_⟩
      · rw [append_assoc, ← hsplit]
        exact (prefix_iff_eq_append.mp hstream).symm
      · rw [hrun, feed_append]

/-- All of the stream has been read, unless the connection has been closed. -/
def Done (st : FtpReceiver σ × List UInt8) : Prop := st.2 = [] ∨ st.1.connected = false

/-- Once everything is read. -/
theorem onReceive_done {reads : List Nat} (hclean : s.Clean)
    {stream : List UInt8} (hdone : Done (onReceive h reads s stream)) :
    (onReceive h reads s stream).1 = feed h s stream := by
  obtain ⟨taken, left, rfl, hrun⟩ := onReceive_eq_feed h reads s hclean stream
  rw [hrun] at hdone ⊢
  rw [feed_append]
  rcases hdone with hleft | hclosed
  · have hnil : left = [] := hleft
    rw [hnil]
    rfl
  · rw [feed_closed h hclosed]

/-! ## Lines that are too long -/

theorem parseResponse_tooLong (s : FtpReceiver σ) (response : WString) :
    (s.parseResponse h response).tooLong = s.tooLong := by
  unfold parseResponse
  dsimp only
  split_ifs <;> rfl

/-- Lines do not count as too long, only buffers do. -/
theorem parseLine_tooLong (s : FtpReceiver σ) (line : WString) :
    (s.parseLine h line).tooLong = s.tooLong := by
  unfold parseLine
  cases h.watchLine s.rest line with
  | none => rfl
  | some rest =>
    dsimp only
    split_ifs
    · rfl
    · exact parseResponse_tooLong h _ line
    · rfl
    · rfl
    · exact parseResponse_tooLong h _ line

variable {b : UInt8}

/-- A line end empties the buffer, if the connection stays. -/
theorem feedByte_lineEnd (hs : s.connected) (hb : isLineEnd b) :
    (feedByte h s b).tooLong = s.tooLong ∧
      ((feedByte h s b).connected = true → (feedByte h s b).receiveBuffer = []) := by
  unfold feedByte
  rw [if_neg (by simp [hs])]
  split_ifs with hempty
  · exact ⟨rfl, fun _ => hempty⟩
  · exact ⟨parseLine_tooLong h _ _, takeLine_receiveBuffer h hs⟩

/-- Any other byte makes the line longer. -/
theorem feedByte_other (hs : s.connected) (hb : isLineEnd b = false) :
    feedByte h s b = (s.withBuffer (s.receiveBuffer ++ [b])).checkLength := by
  unfold feedByte
  rw [if_neg (by simp [hs]), if_neg (by simp [hb])]
  rfl

theorem feed_concat (s : FtpReceiver σ) (bytes : List UInt8) (b : UInt8) :
    feed h s (bytes ++ [b]) = feedByte h (feed h s bytes) b :=
  feed_append h s bytes [b]

/-- What is in the buffer came last, after bytes that left the connection open. -/
theorem feed_suffix (hs : s.connected) (hempty : s.receiveBuffer = [])
    (bytes : List UInt8) (hopen : (feed h s bytes).connected) :
    ∃ earlier, bytes = earlier ++ (feed h s bytes).receiveBuffer ∧
      (feed h s earlier).connected = true := by
  induction bytes using reverseRecOn with
  | nil => exact ⟨[], by simp [feed, hempty], hs⟩
  | append_singleton bytes b ih =>
    by_cases hbefore : (feed h s bytes).connected = true
    · by_cases hb : isLineEnd b = true
      · refine ⟨bytes ++ [b], ?_, hopen⟩
        rw [feed_concat] at hopen ⊢
        rw [(feedByte_lineEnd h hbefore hb).2 hopen, append_nil]
      · obtain ⟨earlier, hbytes, hearlier⟩ := ih hbefore
        refine ⟨earlier, ?_, hearlier⟩
        rw [Bool.not_eq_true] at hb
        rw [feed_concat, feedByte_other h hbefore hb] at hopen ⊢
        unfold checkLength at hopen ⊢
        split_ifs at hopen ⊢
        · cases hopen
        · rw [withBuffer_receiveBuffer, ← append_assoc, ← hbytes]
    · rw [feed_concat] at hopen
      simp [feedByte, hbefore] at hopen

/-- Bytes without a line end stay in the buffer as long as there is room for them. -/
theorem feed_run (hs : s.connected) (hlt : s.receiveBuffer.length < maxReceive) {run : List UInt8}
    (hrun : ∀ b ∈ run, isLineEnd b = false)
    (hlong : maxReceive ≤ s.receiveBuffer.length + run.length) :
    (feed h s run).tooLong = true ∧ (feed h s run).connected = false := by
  induction run generalizing s with
  | nil =>
    rw [length_nil] at hlong
    omega
  | cons b run ih =>
    have hb := hrun b mem_cons_self
    show (feed h (feedByte h s b) run).tooLong = true ∧
      (feed h (feedByte h s b) run).connected = false
    rw [feedByte_other h hs hb]
    by_cases hfull : (s.receiveBuffer ++ [b]).length = maxReceive
    · have hclosed : (s.withBuffer (s.receiveBuffer ++ [b])).checkLength =
          { (s.withBuffer (s.receiveBuffer ++ [b])).doClose with tooLong := true } :=
        if_pos ⟨hs, hfull⟩
      rw [hclosed, feed_closed h rfl]
      exact ⟨rfl, rfl⟩
    · rw [length_append, length_singleton] at hfull
      rw [length_cons] at hlong
      have hroom : (s.withBuffer (s.receiveBuffer ++ [b])).receiveBuffer.length < maxReceive := by
        rw [withBuffer_receiveBuffer, length_append, length_singleton]
        omega
      rw [checkLength_of_lt hroom]
      refine ih hs hroom (fun x hx => hrun x (mem_cons_of_mem b hx)) ?_
      rw [withBuffer_receiveBuffer, length_append, length_singleton]
      omega

/-- The connection is closed for a too long line where `maxReceive` bytes without a line end follow
bytes that left it open. -/
theorem feed_tooLong_iff (hs : s.connected)
    (hempty : s.receiveBuffer = []) (hfine : s.tooLong = false) (bytes : List UInt8) :
    (feed h s bytes).tooLong = true ↔ ∃ earlier run, earlier ++ run <+: bytes ∧
      run.length = maxReceive ∧ (∀ b ∈ run, isLineEnd b = false) ∧
      (feed h s earlier).connected = true := by
  have hclean : s.Clean := by
    intro _
    rw [hempty]
    exact ⟨by simp, by decide⟩
  constructor
  · -- the last line end before the byte is where the run starts
    induction bytes using reverseRecOn with
    | nil =>
      intro hlong
      rw [show feed h s [] = s from rfl, hfine] at hlong
      cases hlong
    | append_singleton bytes b ih =>
      intro hlong
      by_cases hbefore : (feed h s bytes).tooLong = true
      · obtain ⟨earlier, run, hinit, hrest⟩ := ih hbefore
        exact ⟨earlier, run, hinit.trans (prefix_append bytes [b]), hrest⟩
      · -- this byte is the one too many
        rw [feed_concat] at hlong
        by_cases hopen : (feed h s bytes).connected = true
        · by_cases hb : isLineEnd b = true
          · rw [(feedByte_lineEnd h hopen hb).1] at hlong
            exact absurd hlong hbefore
          · rw [Bool.not_eq_true] at hb
            rw [feedByte_other h hopen hb] at hlong
            obtain ⟨earlier, hbytes, hearlier⟩ := feed_suffix h hs hempty bytes hopen
            refine ⟨earlier, (feed h s bytes).receiveBuffer ++ [b], ?_, ?_, ?_, hearlier⟩
            · rw [← append_assoc, ← hbytes]
            · unfold checkLength at hlong
              split_ifs at hlong with hmax
              · exact hmax.2
              · exact absurd hlong hbefore
            · refine forall_mem_append.mpr
                ⟨(hclean.feed h bytes hopen).1, forall_mem_singleton.mpr ?_⟩
              exact hb
        · rw [show feedByte h (feed h s bytes) b = feed h s bytes by
            simp [feedByte, hopen]] at hlong
          exact absurd hlong hbefore
  · rintro ⟨earlier, run, ⟨later, rfl⟩, hlength, hrun, hopen⟩
    have hroom := (hclean.feed h earlier hopen).2
    obtain ⟨hlong, hclosed⟩ := feed_run h hopen hroom hrun (by omega)
    rw [feed_append, feed_append, feed_closed h hclosed]
    exact hlong

/-! ## Any two ways to cut a stream -/

/-- On a connection nothing has been read from, two ways to cut a stream into reads end in the same
state: the same lines have been extracted, the same replies passed on, and what they led to is the
same. The connection is closed for a line that is too long exactly if `maxReceive` bytes without CR,
LF or NUL arrive while it is open. -/
theorem onReceive_fragments (h : LineHandler σ) {s : FtpReceiver σ} (hs : s.connected = true)
    (hempty : s.receiveBuffer = []) (hfine : s.tooLong = false) (stream : List UInt8)
    (reads reads' : List Nat) (hdone : Done (onReceive h reads s stream))
    (hdone' : Done (onReceive h reads' s stream)) :
    (onReceive h reads s stream).1 = (onReceive h reads' s stream).1 ∧
      ((onReceive h reads s stream).1.tooLong = true ↔ ∃ earlier run, earlier ++ run <+: stream ∧
        run.length = maxReceive ∧ (∀ b ∈ run, isLineEnd b = false) ∧
        (feed h s earlier).connected = true) := by
  have hclean : s.Clean := by
    intro _
    rw [hempty]
    exact ⟨by simp, by decide⟩
  rw [onReceive_done h hclean hdone, onReceive_done h hclean hdone']
  exact ⟨rfl, feed_tooLong_iff h hs hempty hfine stream⟩

/-- A handler for examples: bytes are characters, and a reply that starts with `421` closes the
connection. -/
def plainHandler : LineHandler Nat where
  convToLocal n bytes := (bytes.map fun b => Char.ofNat b.toNat, n)
  watchLine n _ := some n
  parseResponse n response _ := (n + 1, response.take 3 ≠ "421".toList)

/-- A reply with three lines, cut within the lines and between CR and LF, and read at once. -/
theorem onReceive_fragments_reply : let s : FtpReceiver Nat := { rest := 0 }
    let stream := ascii "211-a\r\n b\r\n 211 c\r\n211 end\r\n"
    (onReceive plainHandler [3, 3, 0, 9, 100] s stream).1 =
        (onReceive plainHandler [100] s stream).1 ∧
      (onReceive plainHandler [100] s stream).1.replies =
        [("211 end".toList, ["211-a".toList, " 211 c".toList])] ∧
      (onReceive plainHandler [100] s stream).1.tooLong = false := by
  intro s stream
  have hfragments := onReceive_fragments plainHandler (s := s) rfl rfl rfl stream
    [3, 3, 0, 9, 100] [100] (.inl (by decide)) (.inl (by decide))
  exact ⟨hfragments.1, by decide, by decide⟩

end FtpReceiver

end FlintZilla
