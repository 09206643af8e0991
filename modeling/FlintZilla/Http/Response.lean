import FlintZilla.Ascii
import FlintZilla.Lib.Search
import FlintZilla.Reply

/-!
# HTTP requests and responses

The parts of `HttpRequest` and `HttpResponse` of `engine/http/httpcontrolsocket.h` that the
receiving side of `CHttpRequestOpData` reads and writes, with the header map they share and the
texts the parser takes from single lines.

Main results:

* `getHeader_setHeader`, `getHeader_setHeader_of_ne`: the map of the header fields.
-/

namespace FlintZilla

open Lib.Search

/-! ## Header fields -/

/-- `HttpHeaders`: a map whose keys are compared with `fz::less_insensitive_ascii`. -/
abbrev HttpHeaders := List (List UInt8 × List UInt8)

def sameHeader (a b : List UInt8) : Bool := strToLowerAscii a == strToLowerAscii b

namespace HttpHeaders

/-- `WithHeaders::get_header`. -/
def getHeader (headers : HttpHeaders) (key : List UInt8) : List UInt8 :=
  ((headers.find? fun h => sameHeader h.1 key).map Prod.snd).getD []

/-- `auto & header = response.headers_[key]` and the assignment behind it. -/
def addHeader (headers : HttpHeaders) (key value : List UInt8) : HttpHeaders :=
  match headers with
  | [] => [(key, value)]
  | (k, v) :: rest =>
    if sameHeader k key then
      (k, if v = [] then value else if value = [] then v else v ++ ascii ", " ++ value) :: rest
    else (k, v) :: addHeader rest key value

/-- `headers_[key] = value`. -/
def setHeader (headers : HttpHeaders) (key value : List UInt8) : HttpHeaders :=
  match headers with
  | [] => [(key, value)]
  | (k, v) :: rest =>
    if sameHeader k key then (k, value) :: rest else (k, v) :: setHeader rest key value

/-- `headers_.erase(key)`. -/
def eraseHeader (headers : HttpHeaders) (key : List UInt8) : HttpHeaders :=
  headers.filter fun h => !sameHeader h.1 key

/-- `WithHeaders::keep_alive`. -/
def keepAlive (headers : HttpHeaders) : Bool :=
  let h := strToLowerAscii (headers.getHeader (ascii "Connection"))
  !(fields (fun b => b == asciiChar ',' || b == asciiChar ' ') h).contains (ascii "close")

theorem sameHeader_congr {a b : List UInt8} (h : sameHeader a b) (c : List UInt8) :
    sameHeader a c = sameHeader b c := by
  have hlower : strToLowerAscii a = strToLowerAscii b := by simpa [sameHeader] using h
  unfold sameHeader
  rw [hlower]

theorem getHeader_cons (k v key : List UInt8) (headers : HttpHeaders) :
    getHeader ((k, v) :: headers) key = if sameHeader k key then v else getHeader headers key := by
  unfold getHeader
  rw [List.find?_cons]
  cases h : sameHeader k key with
  | true | false => simp

/-- The value that was set, whatever the case of the key. -/
theorem getHeader_setHeader (headers : HttpHeaders) (key value : List UInt8) :
    (headers.setHeader key value).getHeader key = value := by
  induction headers with
  | nil => rw [setHeader, getHeader_cons, if_pos (by simp [sameHeader])]
  | cons h rest ih =>
    rcases h with ⟨k, v⟩
    rw [setHeader]
    by_cases hk : sameHeader k key = true
    · rw [if_pos hk, getHeader_cons, if_pos hk]
    · rw [if_neg hk, getHeader_cons, if_neg hk]
      exact ih

variable {key other : List UInt8}

/-- Other fields stay. -/
theorem getHeader_setHeader_of_ne (headers : HttpHeaders) (hne : sameHeader key other = false)
    (value : List UInt8) :
    (headers.setHeader key value).getHeader other = headers.getHeader other := by
  induction headers with
  | nil => rw [setHeader, getHeader_cons, if_neg (by simp [hne])]
  | cons h rest ih =>
    rcases h with ⟨k, v⟩
    rw [setHeader]
    by_cases hk : sameHeader k key = true
    · have hother : ¬ sameHeader k other = true := by
        rw [sameHeader_congr hk, hne]
        decide
      rw [if_pos hk, getHeader_cons, if_neg hother, getHeader_cons, if_neg hother]
    · rw [if_neg hk, getHeader_cons, getHeader_cons, ih]

theorem getHeader_eraseHeader_of_ne (headers : HttpHeaders) (hne : sameHeader key other = false) :
    (headers.eraseHeader key).getHeader other = headers.getHeader other := by
  induction headers with
  | nil => rfl
  | cons h rest ih =>
    rcases h with ⟨k, v⟩
    unfold eraseHeader
    by_cases hk : sameHeader k key = true
    · have hother : ¬ sameHeader k other = true := by
        rw [sameHeader_congr hk, hne]
        decide
      rw [List.filter_cons_of_neg (by simp [hk]), getHeader_cons, if_neg hother]
      exact ih
    · rw [List.filter_cons_of_pos (by simp [hk]), getHeader_cons, getHeader_cons]
      split
      · rfl
      · exact ih

end HttpHeaders

def isBlank (b : UInt8) : Bool := b == asciiChar ' ' || b == asciiChar '\t'

/-- The name and the value of a header line. -/
def parseHeaderLine (line : List UInt8) : Option (List UInt8 × List UInt8) :=
  match find (· == asciiChar ':') line with
  | none => none
  | some 0 => none
  | some delimPos =>
    let value := (line.drop (delimPos + 1)).dropWhile isBlank
    some (line.take delimPos, (value.reverse.dropWhile isBlank).reverse)

/-- The tests on a status line and the code in it. They look at the receive buffer and not at the
line only. -/
def parseStatusLine (buffer : List UInt8) : Except String Nat :=
  let digit (i : Nat) : Nat := (buffer.getD i 0).toNat - (asciiChar '0').toNat
  if buffer.length < 15 ∨ buffer.take 7 ≠ ascii "HTTP/1." then .error "Invalid HTTP Response"
  else if buffer.getD 9 0 < asciiChar '1' ∨ asciiChar '5' < buffer.getD 9 0 ∨
      buffer.getD 10 0 < asciiChar '0' ∨ asciiChar '9' < buffer.getD 10 0 ∨
      buffer.getD 11 0 < asciiChar '0' ∨ asciiChar '9' < buffer.getD 11 0 then
    .error "Invalid response code"
  else .ok (digit 9 * 100 + digit 10 * 10 + digit 11)

/-- The value of a hexadecimal digit. -/
def hexDigit (q : UInt8) : Option Nat :=
  if asciiChar '0' ≤ q ∧ q ≤ asciiChar '9' then some (q.toNat - (asciiChar '0').toNat)
  else if asciiChar 'A' ≤ q ∧ q ≤ asciiChar 'F' then some (q.toNat - (asciiChar 'A').toNat + 10)
  else if asciiChar 'a' ≤ q ∧ q ≤ asciiChar 'f' then some (q.toNat - (asciiChar 'a').toNat + 10)
  else none

/-- The loop that reads a chunk size of type `uint64_t`; `none` is an invalid size. -/
def parseChunkSize (size : Nat) : List UInt8 → Option Nat
  | [] => some size
  | q :: rest =>
    if q = asciiChar ';' ∨ q = asciiChar ' ' then some size
    else
      match hexDigit q with
      | none => none
      | some d => parseChunkSize ((size * 16 + d) % 2 ^ 64) rest

/-! ## Requests and responses -/

structure HttpRequest where
  verb : List UInt8
  headers : HttpHeaders
  /-- `flag_sent_header`. -/
  sentHeader : Bool
deriving DecidableEq

/-- `HttpResponse` with its flags. What the callback `on_header_` returns, and whether the response
has a writer behind it, is given with the response. -/
structure HttpResponse where
  code : Nat
  gotCode : Bool
  gotHeader : Bool
  gotBody : Bool
  noBody : Bool
  ignoreBody : Bool
  headers : HttpHeaders
  onHeader : Option (Nat × Bool)
  hasWriter : Bool
  body : List UInt8
  /-- All bytes put into buffers of the writer. -/
  written : List UInt8
deriving DecidableEq

namespace HttpResponse

/-- A response before its first byte. -/
def fresh (onHeader : Option (Nat × Bool)) (hasWriter : Bool) : HttpResponse where
  code := 0
  gotCode := false
  gotHeader := false
  gotBody := false
  noBody := false
  ignoreBody := false
  headers := []
  onHeader := onHeader
  hasWriter := hasWriter
  body := []
  written := []

def success (r : HttpResponse) : Bool := decide (200 ≤ r.code ∧ r.code < 300)

def codeProhibitsBody (r : HttpResponse) : Bool :=
  decide (100 ≤ r.code ∧ r.code < 200) || r.code == 304 || r.code == 204

/-- The limit on a body without writer. -/
def maxBody : Nat := 1024 * 1024 * 16

/-- What `ProcessData` does with data that no writer takes. -/
def appendBody (r : HttpResponse) (data : List UInt8) : HttpResponse :=
  if r.body.length < maxBody then { r with body := r.body ++ data } else r

/-- The bytes a successful response has delivered. -/
def delivered (r : HttpResponse) : List UInt8 := if r.hasWriter then r.written else r.body

end HttpResponse

/-- `HttpRequestResponseInterface`. -/
structure HttpExchange where
  request : HttpRequest
  response : HttpResponse
deriving DecidableEq

end FlintZilla
