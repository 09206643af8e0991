import FlintZilla.Http.Request

/-!
# Chunked bodies

The chunked encoding of a body, and what the parser makes of it. `Encoded` relates the three members
of `chunk_data_` to the stream that is left, so that it says at every point between two rounds of
the parser which bytes of the body are still to come. A round keeps it or ends the response; the
writer can only stop the parser in between.

Main results:

* `parseChunkLine_sizeDigits`: exactly when the size of a chunk is read as its digits say.
* `ChunkedBody.encoded`: the encoding of a body is what the parser expects at its start.
* `Encoded.data_of_size_ne`, `Encoded.line_of_size_eq`: what comes next in the stream.
-/

namespace FlintZilla

open Lib List Nat

/-! ## The encoding -/

/-- A line that is found whatever part of it is in the receive buffer: the parser gives up when
8192 bytes hold no whole line, and it may see the line without its LF. -/
structure HttpLine where
  text : List UInt8
  clean : Lines.Clean text
  fits : text.length + 1 < maxLineSize

/-- The number that hexadecimal digits stand for when they follow digits of value `size`. -/
def hexValue (size : Nat) (digits : List UInt8) : Nat :=
  digits.foldl (fun n q => n * 16 + (hexDigit q).getD 0) size

/-- The line before a chunk: a size, possibly with leading zeros, and an extension. -/
structure ChunkSizeLine where
  digits : List UInt8
  extension : List UInt8
  digits_hex : ∀ q ∈ digits, (hexDigit q).isSome
  extension_start : ∀ q ∈ extension.head?, q = asciiChar ';' ∨ q = asciiChar ' '
  clean : Lines.Clean (digits ++ extension)
  fits : (digits ++ extension).length + 1 < maxLineSize

def ChunkSizeLine.line (l : ChunkSizeLine) : HttpLine := ⟨l.digits ++ l.extension, l.clean, l.fits⟩

/-- A chunk of data. The size of a chunk is an unsigned number of 64 bits. -/
structure Chunk where
  sizeLine : ChunkSizeLine
  data : List UInt8
  data_ne : data ≠ []
  size_eq : hexValue 0 sizeLine.digits = data.length
  size_lt : data.length < 2 ^ 64

def Chunk.bytes (c : Chunk) : List UInt8 :=
  Lines.ended c.sizeLine.line.text ++ (c.data ++ Lines.ended [])

/-- A trailer line is not empty. -/
structure TrailerLine where
  line : HttpLine
  text_ne : line.text ≠ []

structure ChunkedBody where
  chunks : List Chunk
  last : ChunkSizeLine
  last_zero : hexValue 0 last.digits = 0
  trailer : List TrailerLine

namespace ChunkedBody

/-- The trailer and the empty line behind it. -/
def trailerBytes (trailer : List TrailerLine) : List UInt8 :=
  trailer.flatMap (fun t => Lines.ended t.line.text) ++ Lines.ended []

def bytes (b : ChunkedBody) : List UInt8 :=
  b.chunks.flatMap Chunk.bytes ++ (Lines.ended b.last.line.text ++ trailerBytes b.trailer)

/-- The body itself. -/
def content (b : ChunkedBody) : List UInt8 := b.chunks.flatMap Chunk.data

end ChunkedBody

/-! ## Size lines -/

/-- The part of a size line before the first semicolon or blank. -/
def sizeDigits (line : List UInt8) : List UInt8 :=
  line.takeWhile fun q => !(q == asciiChar ';' || q == asciiChar ' ')

/-- The digits behind a size that has wrapped. -/
theorem hexValue_mod (size : Nat) (digits : List UInt8) :
    hexValue (size % 2 ^ 64) digits % 2 ^ 64 = hexValue size digits % 2 ^ 64 := by
  induction digits generalizing size with
  | nil => exact mod_mod _ _
  | cons q digits ih =>
    show hexValue (size % 2 ^ 64 * 16 + (hexDigit q).getD 0) digits % 2 ^ 64 =
      hexValue (size * 16 + (hexDigit q).getD 0) digits % 2 ^ 64
    rw [← ih, ← ih (size * 16 + (hexDigit q).getD 0)]
    congr 2
    omega

/-- The value of the digits, in 64 bits. -/
theorem parseChunkSize_eq {size : Nat} (hsize : size < 2 ^ 64) (line : List UInt8) :
    parseChunkSize size line = if (sizeDigits line).all fun q => (hexDigit q).isSome then
      some (hexValue size (sizeDigits line) % 2 ^ 64) else none := by
  induction line generalizing size with
  | nil => exact congrArg some (mod_eq_of_lt hsize).symm
  | cons q line ih =>
    rw [parseChunkSize]
    by_cases hstop : q = asciiChar ';' ∨ q = asciiChar ' '
    · have hnil : sizeDigits (q :: line) = [] := takeWhile_cons_of_neg (by grind)
      rw [if_pos hstop, hnil]
      exact congrArg some (mod_eq_of_lt hsize).symm
    · have hcons : sizeDigits (q :: line) = q :: sizeDigits line :=
        takeWhile_cons_of_pos (by simpa using hstop)
      rw [if_neg hstop, hcons, all_cons]
      cases hd : hexDigit q with
      | none => rfl
      | some d =>
        have hvalue : hexValue size (q :: sizeDigits line) % 2 ^ 64 =
            hexValue ((size * 16 + d) % 2 ^ 64) (sizeDigits line) % 2 ^ 64 := by
          rw [hexValue_mod, hexValue, foldl_cons, hd]
          rfl
        rw [hvalue]
        exact ih (mod_lt _ (by decide))

/-- The digits end at the extension or the blanks before it. -/
theorem ChunkSizeLine.sizeDigits_line (l : ChunkSizeLine) : sizeDigits l.line.text = l.digits := by
  have hdigits : ∀ q ∈ l.digits, (!(q == asciiChar ';' || q == asciiChar ' ')) = true := by
    intro q hq
    have hhex := l.digits_hex q hq
    rw [Bool.not_eq_true', Bool.or_eq_false_iff, beq_eq_false_iff_ne, beq_eq_false_iff_ne]
    constructor
    all_goals
      rintro rfl
      exact absurd hhex (by decide)
  show (l.digits ++ l.extension).takeWhile _ = l.digits
  rw [takeWhile_append_of_pos hdigits]
  cases hext : l.extension with
  | nil => exact append_nil _
  | cons q rest =>
    have hq := l.extension_start q (by rw [hext]; rfl)
    rw [takeWhile_cons_of_neg (by grind), append_nil]

theorem ChunkSizeLine.parse (l : ChunkSizeLine) (h : hexValue 0 l.digits < 2 ^ 64) :
    parseChunkSize 0 l.line.text = some (hexValue 0 l.digits) := by
  rw [parseChunkSize_eq (by decide), l.sizeDigits_line, if_pos (all_eq_true.mpr l.digits_hex),
    mod_eq_of_lt h]

/-- A line where a size is expected: all its digits have to be hexadecimal. -/
theorem parseChunkLine_size {s : HttpReceive} (hsize : s.readState.chunkSize = 0)
    (hterminate : s.readState.terminateChunk = false) (htrailer : s.readState.getTrailer = false)
    (line rest : List UInt8) : s.parseChunkLine line rest =
      if ∀ q ∈ sizeDigits line, (hexDigit q).isSome then
        .next { s with
          recvBuffer := rest
          readState := { s.readState with
            chunkSize := hexValue 0 (sizeDigits line) % 2 ^ 64
            getTrailer := hexValue 0 (sizeDigits line) % 2 ^ 64 == 0 } }
      else s.failChunk "Invalid chunk size" := by
  unfold HttpReceive.parseChunkLine
  rw [hterminate, htrailer, hsize, parseChunkSize_eq (by decide)]
  by_cases hall : ((sizeDigits line).all fun q => (hexDigit q).isSome) = true
  · rw [if_pos hall, if_pos (all_eq_true.mp hall)]
    rfl
  · rw [if_neg hall, if_neg fun hhex => hall (all_eq_true.mpr hhex)]
    rfl

/-- The parser rejects a size line or goes on with the value of the digits before its extension, and
it rejects a line without any hexadecimal digit, exactly if one of these characters is no digit, or
their value fits into 64 bits and there is a digit in the line. -/
theorem parseChunkLine_sizeDigits (s : HttpReceive) (hsize : s.readState.chunkSize = 0)
    (hterminate : s.readState.terminateChunk = false) (htrailer : s.readState.getTrailer = false)
    (line rest : List UInt8) :
    ((s.parseChunkLine line rest = s.failChunk "Invalid chunk size" ∨
        (∀ q ∈ sizeDigits line, (hexDigit q).isSome) ∧ ∃ t, s.parseChunkLine line rest = .next t ∧
          t.recvBuffer = rest ∧ t.readState.chunkSize = hexValue 0 (sizeDigits line)) ∧
      ((∀ q ∈ line, hexDigit q = none) →
        s.parseChunkLine line rest = s.failChunk "Invalid chunk size")) ↔
    (∃ q ∈ sizeDigits line, hexDigit q = none) ∨
      (hexValue 0 (sizeDigits line) < 2 ^ 64 ∧ ∃ q ∈ line, (hexDigit q).isSome) := by
  rw [parseChunkLine_size hsize hterminate htrailer]
  by_cases hhex : ∀ q ∈ sizeDigits line, (hexDigit q).isSome
  · have hno : ¬ ∃ q ∈ sizeDigits line, hexDigit q = none := by
      rintro ⟨q, hq, hnone⟩
      have hdigit := hhex q hq
      rw [hnone] at hdigit
      cases hdigit
    -- the size is kept modulo the width of its type
    have hvalue : hexValue 0 (sizeDigits line) % 2 ^ 64 = hexValue 0 (sizeDigits line) ↔
        hexValue 0 (sizeDigits line) < 2 ^ 64 := Nat.mod_eq_iff_lt (by decide)
    have hdigit : (¬ ∀ q ∈ line, hexDigit q = none) ↔ ∃ q ∈ line, (hexDigit q).isSome := by
      simp [Option.ne_none_iff_isSome]
    rw [if_pos hhex, or_iff_right hno, ← hvalue, ← hdigit]
    simpa [HttpReceive.failChunk] using fun _ _ _ _ => hhex
  · rw [if_neg hhex]
    refine iff_of_true ⟨.inl rfl, fun _ => rfl⟩ (.inl ?_)
    simpa using hhex

/-- The size `1a` with an extension. -/
theorem parseChunkLine_sizeDigits_ext : ∃ t, HttpReceive.parseChunkLine
      ⟨none, 1, [], .fresh, ⟨[], []⟩, []⟩ (ascii "1a;x") [] = .next t ∧
    t.readState.chunkSize = 26 := by
  rcases ((parseChunkLine_sizeDigits ⟨none, 1, [], .fresh, ⟨[], []⟩, []⟩ rfl rfl rfl (ascii "1a;x")
    []).mpr (by decide)).1 with hfail | ⟨-, t, ht, -, hvalue⟩
  · cases hfail
  · exact ⟨t, ht, hvalue⟩

/-- The size 2^64 is read as 0, and so is a line without any digit: both end the data. -/
theorem parseChunkLine_as_last : [ascii "10000000000000000", [], ascii ";x"].Forall fun line => ∃ t,
    HttpReceive.parseChunkLine ⟨none, 1, [], .fresh, ⟨[], []⟩, []⟩ line [] = .next t ∧
      t.readState.chunkSize = 0 ∧ t.readState.getTrailer = true :=
  ⟨⟨_, rfl, rfl, rfl⟩, ⟨_, rfl, rfl, rfl⟩, ⟨_, rfl, rfl, rfl⟩⟩

/-! ## What is left of a body -/

/-- `Encoded extra trailer terminate size content stream`: with these members of `chunk_data_`, the
stream still encodes `content` and `extra` follows the response. -/
inductive Encoded (extra : List UInt8) :
    Bool → Bool → Nat → List UInt8 → List UInt8 → Prop where
  | sizeLine {line : HttpLine} {size : Nat} {trailer : Bool} {content rest : List UInt8} :
      parseChunkSize 0 line.text = some size → trailer = (size == 0) →
      Encoded extra trailer false size content rest →
      Encoded extra false false 0 content (Lines.ended line.text ++ rest)
  | data {d content rest : List UInt8} : d ≠ [] → Encoded extra false true 0 content rest →
      Encoded extra false false d.length (d ++ content) (d ++ rest)
  | terminator {content rest : List UInt8} : Encoded extra false false 0 content rest →
      Encoded extra false true 0 content (Lines.ended [] ++ rest)
  | trailer {line : HttpLine} {rest : List UInt8} : line.text ≠ [] →
      Encoded extra true false 0 [] rest →
      Encoded extra true false 0 [] (Lines.ended line.text ++ rest)
  | last : Encoded extra true false 0 [] (Lines.ended [] ++ extra)

namespace Encoded

variable {extra content stream : List UInt8} {trailer terminate : Bool} {size : Nat}

/-- What follows the response is behind at least one line end. -/
theorem length_lt (h : Encoded extra trailer terminate size content stream) :
    extra.length < stream.length := by
  induction h with
  | data _ _ ih =>
    rw [length_append]
    omega
  | last => exact Lines.length_lt_ended _ _
  | sizeLine _ _ _ ih | terminator _ ih | trailer _ _ ih =>
    exact lt_trans ih (Lines.length_lt_ended _ _)

/-- In the middle of a chunk the stream starts with the data that is left of it. -/
theorem data_of_size_ne (h : Encoded extra trailer terminate size content stream)
    (hsize : size ≠ 0) :
    trailer = false ∧ terminate = false ∧ ∃ d content' rest, d.length = size ∧
      content = d ++ content' ∧ stream = d ++ rest ∧ Encoded extra false true 0 content' rest := by
  cases h with
  | data hne hrest => exact ⟨rfl, rfl, _, _, _, rfl, rfl, rfl, hrest⟩
  | sizeLine | terminator | trailer | last => exact absurd rfl hsize

/-- Part of the data was taken. -/
theorem drop_data {d content rest : List UInt8} {k : Nat} (hk : k < d.length)
    (h : Encoded extra false true 0 content rest) :
    Encoded extra false false (d.length - k) (d.drop k ++ content) (d.drop k ++ rest) := by
  have hne : d.drop k ≠ [] := by
    intro hnil
    have hle := drop_eq_nil_iff.mp hnil
    omega
  have hdata := data hne h
  rwa [length_drop] at hdata

/-- What the next line is, by what `parseChunkLine` does with it. -/
inductive NextLine (extra : List UInt8) (trailer terminate : Bool)
    (content text rest : List UInt8) :
    Prop where
  | terminator : terminate = true → text = [] → Encoded extra trailer false 0 content rest →
      NextLine extra trailer terminate content text rest
  | trailer : terminate = false → trailer = true → text ≠ [] →
      Encoded extra true false 0 content rest → NextLine extra trailer terminate content text rest
  | last : terminate = false → trailer = true → text = [] → content = [] → rest = extra →
      NextLine extra trailer terminate content text rest
  | sizeLine {size : Nat} : terminate = false → trailer = false →
      parseChunkSize 0 text = some size → Encoded extra (size == 0) false size content rest →
      NextLine extra trailer terminate content text rest

/-- Outside of a chunk the stream starts with a line. -/
theorem line_of_size_eq (h : Encoded extra trailer terminate 0 content stream) :
    ∃ line : HttpLine, ∃ rest, stream = Lines.ended line.text ++ rest ∧
      extra.length ≤ rest.length ∧ NextLine extra trailer terminate content line.text rest := by
  have hempty : ∃ line : HttpLine, line.text = [] := ⟨⟨[], by simp [Lines.Clean], by decide⟩, rfl⟩
  generalize hsize : 0 = size at h
  cases h with
  | sizeLine hparse htrailer hrest =>
    subst htrailer
    exact ⟨_, _, rfl, hrest.length_lt.le, .sizeLine rfl rfl hparse hrest⟩
  | data hne _ => exact absurd (length_eq_zero_iff.mp hsize.symm) hne
  | terminator hrest =>
    obtain ⟨line, hline⟩ := hempty
    exact ⟨line, _, by rw [hline], hrest.length_lt.le, .terminator rfl hline hrest⟩
  | trailer hne hrest => exact ⟨_, _, rfl, hrest.length_lt.le, .trailer rfl rfl hne hrest⟩
  | last =>
    obtain ⟨line, hline⟩ := hempty
    exact ⟨line, _, by rw [hline], le_refl _, .last rfl rfl hline rfl rfl⟩

end Encoded

/-- The lines of the trailer, and the empty line behind them. -/
theorem encoded_trailer (extra : List UInt8) (trailer : List TrailerLine) :
    Encoded extra true false 0 [] (ChunkedBody.trailerBytes trailer ++ extra) := by
  unfold ChunkedBody.trailerBytes
  induction trailer with
  | nil => exact Encoded.last
  | cons t trailer ih =>
    rw [flatMap_cons, append_assoc, append_assoc, ← append_assoc _ _ extra]
    exact Encoded.trailer t.text_ne ih

/-- The bytes of a body encode its content. -/
theorem ChunkedBody.encoded (b : ChunkedBody) (extra : List UInt8) :
    Encoded extra false false 0 b.content (b.bytes ++ extra) := by
  obtain ⟨chunks, last, last_zero, trailer⟩ := b
  show Encoded extra false false 0 (chunks.flatMap Chunk.data) (chunks.flatMap Chunk.bytes ++
    (Lines.ended last.line.text ++ trailerBytes trailer) ++ extra)
  induction chunks with
  | nil =>
    have hparse := last.parse (by rw [last_zero]; decide)
    rw [last_zero] at hparse
    have hline := Encoded.sizeLine hparse rfl (encoded_trailer extra trailer)
    simpa using hline
  | cons c chunks ih =>
    have hparse := c.sizeLine.parse (by rw [c.size_eq]; exact c.size_lt)
    rw [c.size_eq] at hparse
    have hsize : (c.data.length == 0) = false :=
      beq_eq_false_iff_ne.mpr fun h => c.data_ne (length_eq_zero_iff.mp h)
    have hdata := Encoded.data c.data_ne (Encoded.terminator ih)
    have hline := Encoded.sizeLine hparse hsize.symm hdata
    simpa [Chunk.bytes] using hline

end FlintZilla
