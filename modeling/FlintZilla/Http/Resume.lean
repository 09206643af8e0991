import FlintZilla.Http.FileTransfer
import FlintZilla.Http.IdentityRun
import FlintZilla.Lib.Fair

/-!
# Resuming HTTP downloads

A download of a fixed resource to a file that exists, with the answer to resume, from a server that
handles ranges as RFC 7233 asks and may redirect a few times before. As long as the server does not
answer 416 the transfer succeeds, and the file is what it should be: the offset the writer is opened
at is the offset that was asked for, and only if the server has honoured it.

After a 416 the request is sent again, but the transfer only stops setting the `Range` header and
does not take it out of the request, so the server gets the same range a second time.

Main results:

* `Phase.advances`: every step goes on towards the end, which is bounded by a rank.
* `Phase.progress`: there is always a next step.
* `httpDownload_resumes`: without a 416 the download succeeds, with the file as the last answer
  asks.
* `complete_file_fails`: a file that is complete already leads to a failure.
-/

namespace FlintZilla

open Lib HttpDownload List Nat HttpHeaders HttpReceive

/-! ## The server -/

/-- The answers to a request for `resource`. -/
inductive Rfc7233 (resource : List UInt8) (q : SentRequest) : HttpAnswer → Prop where
  | ok {headers : HttpHeaders} : Rfc7233 resource q ⟨200, headers, resource⟩
  | partialContent {headers : HttpHeaders} (offset : Nat)
      (hrange : q.headers.getHeader (ascii "Range") = rangeText offset)
      (hlt : offset < resource.length) : Rfc7233 resource q ⟨206, headers, resource.drop offset⟩
  | rangeNotSatisfiable {headers : HttpHeaders} {body : List UInt8} (offset : Nat)
      (hrange : q.headers.getHeader (ascii "Range") = rangeText offset)
      (hle : resource.length ≤ offset) : Rfc7233 resource q ⟨416, headers, body⟩

/-- An answer the transfer follows, below the limit. -/
structure Redirects (env : HttpEnv) (d : HttpDownload) (a : HttpAnswer) : Prop where
  code : 300 ≤ a.code ∧ a.code < 400
  supported : a.code ≠ 305
  below : d.op.redirectCount + 1 < 6
  scheme : (HttpDownload.redirectLocation env d.op.uri a.headers).scheme ≠ []
  host : (HttpDownload.redirectLocation env d.op.uri a.headers).host ≠ []
  isAbsolute : (HttpDownload.redirectLocation env d.op.uri a.headers).isAbsolute = true
  protocol : getProtocolFromPrefix
    (env.toWstring (HttpDownload.redirectLocation env d.op.uri a.headers).scheme) ∈
      [ServerProtocol.http, .https]
  hostname : env.toWstring (HttpDownload.redirectLocation env d.op.uri a.headers).host ≠ []

/-- The header fields say truly where the body ends, or nothing about it. -/
structure WellFramed (env : HttpEnv) (a : HttpAnswer) : Prop where
  encoding : strToLowerAscii (a.headers.getHeader (ascii "Transfer-Encoding")) ∈
    [[], ascii "identity", ascii "chunked"]
  length : a.headers.getHeader (ascii "Content-Length") = [] ∨
    env.toInt64 (a.headers.getHeader (ascii "Content-Length")) = a.body.length

/-- The user wants to resume, the server answers the last request, and nothing fails. -/
def Conforms (env : HttpEnv) (resource : List UInt8) (d : HttpDownload) :
    HttpDownload.Event → Prop
  | .fileExists action => action = .resume
  | .answer a => WellFramed env a ∧
      (Redirects env d a ∨ ∃ q, d.requests.getLast? = some q ∧ Rfc7233 resource q a)
  | .failed _ => False
  | .start | .data _ | .bodyEnd => True

/-- Everybody but the server has events of their own. -/
def HttpDownload.Event.isAnswer : HttpDownload.Event → Bool
  | .answer _ => true
  | _ => false

def rfc7233System (env : HttpEnv) (uri : Uri) (resource old : List UInt8) :
    Lts HttpDownload HttpDownload.Event :=
  (httpDownloadSystem env uri (some old)).restrict (Conforms env resource)

/-- The answer, if it is one, is not 416. -/
def HttpDownload.Event.Satisfiable : HttpDownload.Event → Prop
  | .answer a => a.code ≠ 416
  | _ => True

/-- The server never finds the range behind the end of the resource. -/
def resumeSystem (env : HttpEnv) (uri : Uri) (resource old : List UInt8) :
    Lts HttpDownload HttpDownload.Event :=
  (httpDownloadSystem env uri (some old)).restrict fun d e =>
    Conforms env resource d e ∧ e.Satisfiable

/-- What the file should be when the last answer had that code. -/
def resumed (resource old : List UInt8) (code : Nat) : List UInt8 :=
  if code = 206 then old ++ resource.drop old.length else resource

/-! ## The range -/

theorem toUInt8_of_isDigit {c : Char} (h : c.isDigit) : Char.ofNat c.toNat.toUInt8.toNat = c := by
  have hle : c.toNat ≤ 57 := by
    simp only [Char.isDigit, Bool.and_eq_true, decide_eq_true_eq] at h
    exact UInt32.le_iff_toNat_le.mp h.2
  have hsame : c.toNat.toUInt8.toNat = c.toNat := by
    rw [UInt8.toNat_ofNat']
    omega
  rw [hsame, Char.ofNat_toNat]

/-- The text of a range says where it starts. -/
theorem rangeText_inj {m n : Nat} (h : rangeText m = rangeText n) : m = n := by
  unfold rangeText ascii at h
  simp only [String.toList_append, map_append, append_assoc] at h
  have hdigits := append_cancel_right (append_cancel_left h)
  have hback : ∀ k : Nat, ((toString k).toList.map fun c => c.toNat.toUInt8).map
      (fun b => Char.ofNat b.toNat) = toDigits 10 k := by
    intro k
    rw [map_map, toString_eq_repr, toList_repr]
    refine (map_congr_left ?_).trans (map_id _)
    intro c hc
    have hdigit : c.isDigit = true := isDigit_of_mem_toDigits (b := 10) (by decide) (by decide) hc
    exact toUInt8_of_isDigit hdigit
  have htexts : toDigits 10 m = toDigits 10 n := by rw [← hback m, ← hback n, hdigits]
  rw [← ofDigitChars_toDigits (by decide : 1 < 10) (le_refl 10) (n := m), htexts,
    ofDigitChars_toDigits (by decide) (le_refl 10)]

namespace HttpDownload

/-- The request operation leaves the range alone. -/
theorem getHeader_range_requestHeaders (env : HttpEnv) (verb : List UInt8) (uri : Uri)
    (headers : HttpHeaders) : (requestHeaders env verb uri headers).getHeader (ascii "Range") =
      headers.getHeader (ascii "Range") := by
  unfold requestHeaders
  dsimp only
  have hlength : sameHeader (ascii "Content-Length") (ascii "Range") = false := by decide
  have hagent : sameHeader (ascii "User-Agent") (ascii "Range") = false := by decide
  have hconnection : sameHeader (ascii "Connection") (ascii "Range") = false := by decide
  have hhost : sameHeader (ascii "Host") (ascii "Range") = false := by decide
  split_ifs
  all_goals
    simp only [getHeader_eraseHeader_of_ne _ hlength,
      getHeader_setHeader_of_ne _ hlength, getHeader_setHeader_of_ne _ hagent,
      getHeader_setHeader_of_ne _ hconnection,
      getHeader_setHeader_of_ne _ hhost]

/-! ## Where a download stands -/

/-- What holds until the body of the last answer. -/
structure Resuming (old : List UInt8) (d : HttpDownload) : Prop where
  result : d.result = none
  verb : d.op.verb = ascii "GET"
  factory : d.op.writerFactory = true
  resume : d.op.resume = true
  size : d.op.localFileSize = some old.length
  file : d.file = some old

/-- The question about the file is asked. -/
def asked (uri : Uri) (old : List UInt8) : HttpDownload :=
  { new uri (some old) with
    op := { HttpFileTransfer.new uri with
      opState := .transfer, localFileSize := some old.length }
    asking := true }

/-- The phases of the download. -/
inductive Phase (uri : Uri) (resource old : List UInt8) : HttpDownload → Prop where
  | created : Phase uri resource old (new uri (some old))
  | asking : Phase uri resource old (asked uri old)
  | awaiting {d : HttpDownload} {q : SentRequest} (h : Resuming old d)
      (hstage : d.stage = .awaiting)
      (hstate : d.op.opState = .waittransfer) (hlast : d.requests.getLast? = some q)
      (hrange : q.headers.getHeader (ascii "Range") = rangeText old.length) :
      Phase uri resource old d
  | redirected {d : HttpDownload} {rest : List UInt8} (h : Resuming old d)
      (hstage : d.stage = .reading false rest) (hstate : d.op.opState = .transfer) :
      Phase uri resource old d
  | writing {d : HttpDownload} {content rest : List UInt8} (hresult : d.result = none)
      (hstage : d.stage = .reading true rest) (hstate : d.op.opState = .waittransfer)
      (hsuccess : d.success = true) (hwriter : d.writer = true) (hfile : d.file = some content)
      (hrest : content ++ rest = resumed resource old d.op.responseCode) : Phase uri resource old d
  | finished {d : HttpDownload} (hresult : d.result = some Reply.ok)
      (hfile : d.file = some (resumed resource old d.op.responseCode)) : Phase uri resource old d

/-- What is left to do: first the answers that may still come, then the bytes of the current one. -/
def work (d : HttpDownload) : Nat × Nat :=
  if d.result.isSome then (0, 0)
  else
    match d.stage with
    | .reading true rest => (1, rest.length)
    | .awaiting => (2 + 2 * (5 - d.op.redirectCount), 0)
    | .reading false rest => (3 + 2 * (5 - d.op.redirectCount), rest.length)
    | .idle => if d.asking then (13, 0) else (14, 0)

/-- A step to the next phase or within a body. -/
structure Advances (uri : Uri) (resource old : List UInt8) (d t : HttpDownload) : Prop where
  phase : Phase uri resource old t
  work : Prod.Lex (· < ·) (· < ·) t.work d.work

variable {env : HttpEnv} {uri : Uri} {resource old : List UInt8} {d t : HttpDownload}

theorem work_of_awaiting (hresult : d.result = none) (hstage : d.stage = .awaiting) :
    d.work = (2 + 2 * (5 - d.op.redirectCount), 0) := by
  unfold work
  rw [hresult, hstage]
  rfl

variable {rest : List UInt8}

theorem work_of_reading {wanted : Bool} (hresult : d.result = none)
    (hstage : d.stage = .reading wanted rest) :
    d.work = (if wanted then 1 else 3 + 2 * (5 - d.op.redirectCount), rest.length) := by
  unfold work
  rw [hresult, hstage]
  cases wanted with
  | true | false => rfl

theorem work_of_result {r : Nat} (hresult : d.result = some r) : d.work = (0, 0) := by
  unfold work
  rw [hresult]
  rfl

variable {a b n : Nat}

/-- Fewer answers may still come. -/
theorem work_lt_of_first {m : Nat} (hd : d.work = (a, b)) (ht : t.work = (m, n)) (h : m < a) :
    Prod.Lex (· < ·) (· < ·) t.work d.work := by
  rw [hd, ht]
  exact .left _ _ h

/-- Fewer bytes are missing. -/
theorem work_lt_of_second (hd : d.work = (a, b)) (ht : t.work = (a, n)) (h : n < b) :
    Prod.Lex (· < ·) (· < ·) t.work d.work := by
  rw [hd, ht]
  exact .right _ h

/-! ## Requests -/

/-- The request is sent, with the range if the file is resumed. -/
theorem Resuming.sendTransfer (h : Resuming old d) (env : HttpEnv) :
    Phase uri resource old (d.sendTransfer env) := by
  refine .awaiting { h with } rfl rfl (getLast?_concat) ?_
  show (requestHeaders env d.op.verb d.op.uri _).getHeader (ascii "Range") = _
  rw [getHeader_range_requestHeaders, if_pos h.resume, h.size, getHeader_setHeader]
  rfl

/-- After a redirect the request operation is followed by another one. -/
theorem resetRequest_redirected (hstate : d.op.opState = .transfer) :
    d.resetRequest env Reply.ok = { d with stage := .idle }.sendTransfer env := by
  unfold resetRequest HttpFileTransfer.subcommandResult send
  rw [if_pos (.inl rfl), hstate, if_pos rfl, if_pos rfl]

/-- Otherwise the transfer has the result of the request operation. -/
theorem resetRequest_waiting (env : HttpEnv) (hstate : d.op.opState = .waittransfer) :
    d.resetRequest env Reply.ok = { d with stage := .idle, result := some Reply.ok } := by
  unfold resetRequest HttpFileTransfer.subcommandResult
  rw [if_pos (.inl rfl), hstate, if_neg (by decide), if_neg (by decide)]

/-! ## Headers -/

variable {a : HttpAnswer} {e : Event}

/-- A response that is framed as it should be has readable fields. -/
theorem readHeaderFields_framed (h : WellFramed env a) (d : HttpDownload) :
    ∃ readState, readHeaderFields env.toInt64 .fresh
        (completeHeader (d.exchange a)) = .ok readState ∧
      (readState.responseContentLength = 0 →
        (completeHeader (d.exchange a)).response.noBody = true ∨ a.body = []) := by
  unfold readHeaderFields
  have hencoding : ¬(strToLowerAscii (a.headers.getHeader (ascii "Transfer-Encoding")) ≠
        ascii "chunked" ∧
      strToLowerAscii (a.headers.getHeader (ascii "Transfer-Encoding")) ≠ [] ∧
      strToLowerAscii (a.headers.getHeader (ascii "Transfer-Encoding")) ≠ ascii "identity") := by
    have hmem := h.encoding
    simp only [mem_cons] at hmem
    tauto
  have hlength : ¬(a.headers.getHeader (ascii "Content-Length") ≠ [] ∧
      env.toInt64 (a.headers.getHeader (ascii "Content-Length")) < 0) := by
    rintro ⟨hne, hneg⟩
    have heq := h.length.resolve_left hne
    omega
  refine ⟨_, (if_neg hencoding).trans (if_neg hlength), ?_⟩
  intro hzero
  by_cases hno : (completeHeader (d.exchange a)).response.noBody = true
  · exact .inl hno
  · rw [if_neg hno] at hzero
    by_cases hcl : a.headers.getHeader (ascii "Content-Length") = []
    · -- the length is then -1
      have hcl' : (completeHeader (d.exchange a)).response.headers.getHeader
          (ascii "Content-Length") = [] := hcl
      rw [if_pos hcl'] at hzero
      cases hzero
    · have hcl' : ¬(completeHeader (d.exchange a)).response.headers.getHeader
          (ascii "Content-Length") = [] := hcl
      rw [if_neg hcl'] at hzero
      have heq : (a.body.length : Int) = 0 := (h.length.resolve_left hcl).symm.trans hzero
      exact .inr (length_eq_zero_iff.mp (by omega))

/-- The transfer when `OnHeader` is called. -/
def withCode (d : HttpDownload) (code : Nat) : HttpDownload :=
  { d with op := { d.op with responseCode := code } }

/-- What follows `OnHeader` when it wants the answer read. -/
theorem processCompleteHeader_read {res : Nat} (hframed : WellFramed env a)
    (hheader : (d.withCode a.code).onHeader env a.headers = (res, t))
    (hres : res = Reply.continue_ ∨ res = Reply.ok) :
    d.processCompleteHeader env a = { t with stage := .reading (res == Reply.continue_) a.body } ∨
    (d.processCompleteHeader env a = t.resetRequest env Reply.ok ∧
      ((completeHeader (d.exchange a)).response.noBody = true ∨ a.body = [])) := by
  obtain ⟨readState, hread, hzero⟩ := readHeaderFields_framed hframed d
  unfold processCompleteHeader
  rw [hread]
  rw [show ({ d with op := { d.op with responseCode := a.code } } : HttpDownload).onHeader env
    a.headers = (res, t) from hheader]
  dsimp only
  split_ifs with hlength
  · exact .inr ⟨rfl, hzero hlength⟩
  · exact .inl rfl

theorem openWriter_length (old : List UInt8) : openWriter old.length (some old) = some old := by
  unfold openWriter
  split_ifs with hnil
  · rw [length_eq_zero_iff.mp hnil]
  · simp

/-- A 206 continues the file and a 200 starts it again. -/
theorem Resuming.onHeader_final (h : Resuming old d) {code : Nat} (hcode : code = 200 ∨ code = 206)
    (env : HttpEnv) (headers : HttpHeaders) :
    ∃ t, (d.withCode code).onHeader env headers = (Reply.continue_, t) ∧
      t.op = { d.op with responseCode := code, resume := code == 206 } ∧ t.result = none ∧
      t.writer = true ∧ t.file = some (if code = 206 then old else []) := by
  unfold onHeader withCode
  dsimp only
  rw [if_neg (by omega), if_neg (by omega), if_neg (by omega), if_pos h.factory, h.resume, h.size,
    h.file]
  rcases hcode with hcode | hcode
  · subst hcode
    exact ⟨_, rfl, rfl, h.result, rfl, rfl⟩
  · subst hcode
    rw [if_pos (by decide), Option.getD_some, openWriter_length]
    exact ⟨_, rfl, rfl, h.result, rfl, rfl⟩

/-- A redirect counts, and the new address is used. -/
theorem onHeader_redirects (h : Redirects env d a) :
    (d.withCode a.code).onHeader env a.headers = (Reply.ok, { d with
      op := { d.op with
        responseCode := a.code, redirectCount := d.op.redirectCount + 1
        uri := redirectLocation env d.op.uri a.headers, opState := .transfer } }) := by
  have hcode := h.code
  have hbelow := h.below
  have hprotocol := h.protocol
  simp only [mem_cons] at hprotocol
  have htarget : ¬((redirectLocation env d.op.uri a.headers).scheme = [] ∨
      (redirectLocation env d.op.uri a.headers).host = [] ∨
      (!(redirectLocation env d.op.uri a.headers).isAbsolute) = true) := by
    rw [h.isAbsolute]
    simp [h.scheme, h.host]
  unfold onHeader redirect withCode
  dsimp only
  rw [if_neg (by omega), if_neg (by omega), if_pos hcode.1, if_neg (by omega),
    if_neg h.supported, if_neg htarget, if_neg (by tauto), if_neg h.hostname]

/-! ## Steps -/

/-- The first step asks what to do with the file. -/
theorem start_advances (huri : uri.empty = false)
    (hstep : (new uri (some old)).step env e = some t) :
    Advances uri resource old (new uri (some old)) t := by
  cases e with
  | start =>
    have hsend : (new uri (some old)).send env = asked uri old := by
      show (if uri.empty then _ else asked uri old) = _
      rw [huri]
      rfl
    have ht : t = asked uri old := by
      rw [← hsend]
      exact (Option.some.inj hstep).symm
    subst ht
    exact ⟨.asking, .left _ _ (by decide : 13 < 14)⟩
  | fileExists action | answer a | data n | bodyEnd | failed res => cases hstep

/-- The answer is to resume. -/
theorem asked_advances (hconforms : Conforms env resource (asked uri old) e)
    (hstep : (asked uri old).step env e = some t) :
    Advances uri resource old (asked uri old) t := by
  cases e with
  | fileExists action =>
    have haction : action = .resume := hconforms
    subst haction
    cases hstep
    have hresuming : Resuming old { asked uri old with
        asking := false, op := { (asked uri old).op with resume := true } } :=
      ⟨rfl, rfl, rfl, rfl, rfl, rfl⟩
    refine ⟨hresuming.sendTransfer env, ?_⟩
    exact .left _ _ (by decide : 12 < 13)
  | start | answer a | data n | bodyEnd | failed res => cases hstep

/-- The header of the last answer was handled: the writer is open at the right place. -/
structure Opened (old : List UInt8) (code : Nat) (t : HttpDownload) : Prop where
  result : t.result = none
  state : t.op.opState = .waittransfer
  answered : t.op.responseCode = code
  success : t.success = true
  writer : t.writer = true
  file : t.file = some (if code = 206 then old else [])

/-- The body of the last answer is to be read, unless it is empty. -/
theorem Resuming.processCompleteHeader_final (h : Resuming old d)
    (hstate : d.op.opState = .waittransfer) (hframed : WellFramed env a)
    (hcode : a.code = 200 ∨ a.code = 206) :
    ∃ t, Opened old a.code t ∧
      (d.processCompleteHeader env a = { t with stage := .reading true a.body } ∨
      (d.processCompleteHeader env a = { t with stage := .idle, result := some Reply.ok } ∧
        a.body = [])) := by
  obtain ⟨t, hheader, hop, hresult, hwriter, hfile⟩ := h.onHeader_final hcode env a.headers
  have hstate' : t.op.opState = .waittransfer := by
    rw [hop]
    exact hstate
  have hcode' : t.op.responseCode = a.code := by rw [hop]
  have hsuccess : t.success = true := by
    unfold success
    rw [decide_eq_true_iff]
    omega
  refine ⟨t, ⟨hresult, hstate', hcode', hsuccess, hwriter, hfile⟩, ?_⟩
  rcases processCompleteHeader_read hframed hheader (.inl rfl) with hread | ⟨hreset, hempty⟩
  · exact .inl hread
  · refine .inr ⟨hreset.trans (resetRequest_waiting env hstate'), hempty.resolve_left ?_⟩
    -- a GET and these codes allow a body
    unfold exchange
    rw [h.verb]
    rcases hcode with hcode | hcode
    · rw [hcode]
      exact Bool.false_ne_true
    · rw [hcode]
      exact Bool.false_ne_true

/-- The last answer is read into the file. -/
theorem Resuming.answer_final (h : Resuming old d) (hstage : d.stage = .awaiting)
    (hstate : d.op.opState = .waittransfer) (hframed : WellFramed env a)
    (hcode : a.code = 200 ∨ a.code = 206)
    (hbody : (if a.code = 206 then old else []) ++ a.body = resumed resource old a.code) :
    Advances uri resource old d (d.processCompleteHeader env a) := by
  obtain ⟨t, ht, hread | ⟨hend, hnil⟩⟩ := h.processCompleteHeader_final hstate hframed hcode
  · rw [hread]
    refine ⟨.writing ht.result rfl ht.state ht.success ht.writer ht.file ?_, ?_⟩
    · show _ ++ a.body = resumed resource old t.op.responseCode
      rw [ht.answered]
      exact hbody
    · refine work_lt_of_first (work_of_awaiting h.result hstage) (work_of_reading ht.result rfl) ?_
      show 1 < _
      omega
  · rw [hnil, append_nil] at hbody
    rw [hend]
    refine ⟨.finished rfl ?_, ?_⟩
    · show t.file = some (resumed resource old t.op.responseCode)
      rw [ht.answered, ht.file, hbody]
    · exact work_lt_of_first (work_of_awaiting h.result hstage) (work_of_result rfl) (by omega)

/-- The server redirects once more. -/
theorem Resuming.answer_redirects (h : Resuming old d) (hstage : d.stage = .awaiting)
    (hframed : WellFramed env a) (hredirects : Redirects env d a) :
    Advances uri resource old d (d.processCompleteHeader env a) := by
  have hheader := onHeader_redirects hredirects
  have hbelow := hredirects.below
  generalize ht : ({ d with op := { d.op with
    responseCode := a.code, redirectCount := d.op.redirectCount + 1
    uri := redirectLocation env d.op.uri a.headers, opState := .transfer } } : HttpDownload) = t
    at hheader
  have hresuming : Resuming old t := by
    subst ht
    exact { h with }
  have hstate : t.op.opState = .transfer := by rw [← ht]
  have hcount : t.op.redirectCount = d.op.redirectCount + 1 := by rw [← ht]
  rcases processCompleteHeader_read hframed hheader (.inr rfl) with hread | ⟨hreset, -⟩
  · -- the redirection has a body, which is read before the next request
    rw [hread]
    refine ⟨.redirected { hresuming with } rfl hstate, ?_⟩
    refine work_lt_of_first (work_of_awaiting h.result hstage)
      (work_of_reading hresuming.result rfl) ?_
    show 3 + 2 * (5 - t.op.redirectCount) < 2 + 2 * (5 - d.op.redirectCount)
    omega
  · -- no body: the next request is sent at once
    have hidle : Resuming old { t with stage := .idle } := { hresuming with }
    rw [hreset, resetRequest_redirected hstate]
    refine ⟨hidle.sendTransfer env, ?_⟩
    refine work_lt_of_first (work_of_awaiting h.result hstage)
      (work_of_awaiting hresuming.result rfl) ?_
    show 2 + 2 * (5 - t.op.redirectCount) < 2 + 2 * (5 - d.op.redirectCount)
    omega

/-- The server answers. -/
theorem awaiting_advances {q : SentRequest} (h : Resuming old d) (hstage : d.stage = .awaiting)
    (hstate : d.op.opState = .waittransfer) (hlast : d.requests.getLast? = some q)
    (hrange : q.headers.getHeader (ascii "Range") = rangeText old.length)
    (hconforms : Conforms env resource d e) (hsatisfiable : e.Satisfiable)
    (hstep : d.step env e = some t) : Advances uri resource old d t := by
  unfold step at hstep
  rw [h.result, hstage] at hstep
  cases e with
  | answer a =>
    cases hstep
    rcases hconforms with ⟨hframed, hredirects | ⟨q', hlast', hanswer⟩⟩
    · exact h.answer_redirects hstage hframed hredirects
    · -- the server has seen the range of the last request
      have hq : q' = q := Option.some.inj (hlast'.symm.trans hlast)
      subst hq
      cases hanswer with
      | ok => exact h.answer_final hstage hstate hframed (.inl rfl) rfl
      | partialContent offset hoffset hlt =>
        have hn := rangeText_inj (hoffset.symm.trans hrange)
        subst hn
        exact h.answer_final hstage hstate hframed (.inr rfl) rfl
      | rangeNotSatisfiable offset hoffset hle => exact absurd rfl hsatisfiable
  | start | fileExists action | data n | bodyEnd => cases hstep
  | failed res => exact absurd hconforms not_false

/-- The body of a redirect is read and dropped. -/
theorem redirected_advances (h : Resuming old d) (hstage : d.stage = .reading false rest)
    (hstate : d.op.opState = .transfer) (hconforms : Conforms env resource d e)
    (hstep : d.step env e = some t) : Advances uri resource old d t := by
  unfold step at hstep
  rw [h.result, hstage] at hstep
  cases e with
  | data n =>
    dsimp only at hstep
    split_ifs at hstep with hbound
    cases hstep
    -- the data is dropped
    refine ⟨.redirected { h with } rfl hstate, ?_⟩
    refine work_lt_of_second (work_of_reading h.result hstage) (work_of_reading h.result rfl) ?_
    rw [length_drop]
    omega
  | bodyEnd =>
    cases rest with
    | cons b rest => cases hstep
    | nil =>
      cases hstep
      have hidle : Resuming old { d with stage := .idle } := { h with }
      rw [resetRequest_redirected hstate]
      refine ⟨hidle.sendTransfer env, ?_⟩
      refine work_lt_of_first (work_of_reading h.result hstage) (work_of_awaiting h.result rfl) ?_
      show 2 + 2 * (5 - d.op.redirectCount) < 3 + 2 * (5 - d.op.redirectCount)
      omega
  | start | fileExists action | answer a => cases hstep
  | failed res => exact absurd hconforms not_false

/-- Data goes to the end of the file. -/
theorem processData_writing {content : List UInt8} (hsuccess : d.success)
    (hwriter : d.writer) (hfile : d.file = some content) (data : List UInt8) :
    d.processData true data = { d with file := some (content ++ data) } := by
  unfold processData
  rw [hsuccess, hwriter, hfile]
  rfl

section

variable {content rest : List UInt8} (hresult : d.result = none)
  (hstage : d.stage = .reading true rest) (hstate : d.op.opState = .waittransfer)
  (hsuccess : d.success) (hwriter : d.writer) (hfile : d.file = some content)

include hresult hstage hstate hsuccess hwriter hfile

/-- The body is read into the file. -/
theorem writing_advances (hrest : content ++ rest = resumed resource old d.op.responseCode)
    (hconforms : Conforms env resource d e) (hstep : d.step env e = some t) :
    Advances uri resource old d t := by
  unfold step at hstep
  rw [hresult, hstage] at hstep
  cases e with
  | data n =>
    -- the bytes go to the file, so less is left
    dsimp only at hstep
    split_ifs at hstep with hbound
    cases hstep
    rw [processData_writing hsuccess hwriter hfile]
    refine ⟨.writing hresult rfl hstate hsuccess hwriter rfl ?_, ?_⟩
    · rw [append_assoc, take_append_drop]
      exact hrest
    · refine work_lt_of_second (work_of_reading hresult hstage) (work_of_reading hresult rfl) ?_
      rw [length_drop]
      omega
  | bodyEnd =>
    -- all of the body is written, and the request is reset
    cases rest with
    | cons b rest => cases hstep
    | nil =>
      cases hstep
      rw [append_nil] at hrest
      rw [resetRequest_waiting env hstate]
      refine ⟨.finished rfl (hfile.trans (congrArg some hrest)), ?_⟩
      exact work_lt_of_first (work_of_reading hresult hstage) (work_of_result rfl) one_pos
  | start | fileExists action | answer a => cases hstep
  | failed res => exact absurd hconforms not_false

end

/-- One step, in each phase. -/
theorem Phase.advances (huri : uri.empty = false) (h : Phase uri resource old d)
    (hstep : (resumeSystem env uri resource old).Step d e t) : Advances uri resource old d t := by
  obtain ⟨hfun, hconforms, hsatisfiable⟩ := hstep
  have hfun : d.step env e = some t := hfun
  cases h with
  | created => exact start_advances huri hfun
  | asking => exact asked_advances hconforms hfun
  | awaiting h hstage hstate hlast hrange =>
    exact awaiting_advances h hstage hstate hlast hrange hconforms hsatisfiable hfun
  | redirected h hstage hstate => exact redirected_advances h hstage hstate hconforms hfun
  | writing hresult hstage hstate hsuccess hwriter hfile hrest =>
    exact writing_advances hresult hstage hstate hsuccess hwriter hfile hrest hconforms hfun
  | finished hresult _ =>
    unfold step at hfun
    rw [hresult] at hfun
    cases hfun

end HttpDownload

/-! ## Whole downloads -/

open HttpDownload

variable {env : HttpEnv} {uri : Uri} {resource old : List UInt8} {d : HttpDownload}

/-- Whole runs. -/
theorem resumeSystem_phase (huri : uri.empty = false)
    (h : (resumeSystem env uri resource old).Reach d) : HttpDownload.Phase uri resource old d := by
  refine Lts.Reach.invariant (HttpDownload.Phase uri resource old) ?_ ?_ h
  · intro s hinit
    have hs : s = .new uri (some old) := hinit
    subst hs
    exact .created
  · intro s e t hstep hs
    exact (hs.advances huri hstep).phase

/-- What is left of a body can be read. -/
theorem HttpDownload.progress_reading {wanted : Bool} {rest : List UInt8}
    (hresult : d.result = none) (hstage : d.stage = .reading wanted rest) :
    ∃ e t, e.isAnswer = false ∧ (resumeSystem env uri resource old).Step d e t := by
  cases rest with
  | nil =>
    refine ⟨.bodyEnd, d.resetRequest env Reply.ok, rfl, ?_, trivial, trivial⟩
    show d.step env .bodyEnd = _
    unfold step
    rw [hresult, hstage]
    rfl
  | cons b rest =>
    refine ⟨.data 1, { d.processData wanted [b] with stage := .reading wanted rest }, rfl, ?_,
      trivial, trivial⟩
    show d.step env (.data 1) = _
    unfold step
    rw [hresult, hstage]
    rfl

/-- Nothing but the answer of the server is waited for. -/
theorem HttpDownload.Phase.progress (h : HttpDownload.Phase uri resource old d)
    (hresult : d.result = none) (hstage : d.stage ≠ .awaiting) :
    ∃ e t, e.isAnswer = false ∧ (resumeSystem env uri resource old).Step d e t := by
  cases h with
  | created => exact ⟨.start, _, rfl, rfl, trivial, trivial⟩
  | asking => exact ⟨.fileExists .resume, _, rfl, rfl, rfl, trivial⟩
  | awaiting _ hawaiting => exact absurd hawaiting hstage
  | redirected _ hreading | writing _ hreading => exact progress_reading hresult hreading
  | finished hok _ =>
    rw [hok] at hresult
    cases hresult

/-- A resumed download ends with `FZ_REPLY_OK` and the file as the code of the last answer asks for,
as long as the server does not answer 416: it has no other result, it waits for nothing but answers
and takes every one, and it does not go on forever. -/
theorem httpDownload_resumes (env : HttpEnv) (uri : Uri) (huri : uri.empty = false)
    (resource old : List UInt8) {d : HttpDownload}
    (h : (resumeSystem env uri resource old).Reach d) :
    (d.result = none ∨ (d.result = some Reply.ok ∧
      d.file = some (resumed resource old d.op.responseCode))) ∧
    (d.result = none → d.stage ≠ .awaiting →
      ∃ e t, e.isAnswer = false ∧ (resumeSystem env uri resource old).Step d e t) ∧
    (d.result = none → d.stage = .awaiting → ∀ a, Conforms env resource d (.answer a) →
      a.code ≠ 416 → ∃ t, (resumeSystem env uri resource old).Step d (.answer a) t) ∧
    ∀ b : (resumeSystem env uri resource old).Behavior, b.state 0 ≠ d := by
  have hphase := resumeSystem_phase huri h
  refine ⟨?_, ?_, ?_, ?_⟩
  · cases hphase with
    | created | asking => exact .inl rfl
    | awaiting h | redirected h => exact .inl h.result
    | writing hresult => exact .inl hresult
    | finished hresult hfile => exact .inr ⟨hresult, hfile⟩
  · intro hresult hstage
    exact hphase.progress hresult hstage
  · intro hresult hstage a hconforms hcode
    refine ⟨d.processCompleteHeader env a, ?_, hconforms, hcode⟩
    show d.step env (.answer a) = _
    unfold step
    rw [hresult, hstage]
    rfl
  · rintro b rfl
    -- every step of a behaviour would do some of the work that is left
    have hwf : WellFounded fun t d : HttpDownload => Prod.Lex (· < ·) (· < ·) t.work d.work :=
      InvImage.wf work (WellFounded.prod_lex Nat.lt_wfRel.wf Nat.lt_wfRel.wf)
    obtain ⟨i, hi⟩ := b.exists_not_descending hwf
    exact hi ((resumeSystem_phase huri (b.reach h i)).advances huri (b.step i)).work

/-! ## A redirect and a range -/

/-- A library that knows one host. -/
def oneHostEnv : HttpEnv where
  toInt64 := digitsValue
  parseUri := fun path => ⟨ascii "http", ascii "host", 0, path, []⟩
  resolve := fun location _ => location
  uriToString := fun _ => "http://host"
  toWstring := fun text => text.map fun b => Char.ofNat b.toNat
  userAgent := ascii "FileZilla"

def fileUri : Uri := ⟨ascii "http", ascii "host", 0, ascii "/file", []⟩

/-- The server redirects once, then it sends what is missing. -/
theorem httpDownload_resumes_hello :
    ∃ d, (resumeSystem oneHostEnv fileUri (ascii "hello") (ascii "he")).Reach d ∧
      d.result = some Reply.ok ∧ d.file = some (ascii "hello") ∧ d.op.redirectCount = 1 := by
  have hrun : (resumeSystem oneHostEnv fileUri (ascii "hello") (ascii "he")).Run
      (.new fileUri (some (ascii "he")))
      [.start, .fileExists .resume,
        .answer ⟨302, [(ascii "Location", ascii "/moved"), (ascii "Content-Length", ascii "1")],
          ascii "x"⟩, .data 1, .bodyEnd,
        .answer ⟨206, [], ascii "llo"⟩, .data 2, .data 1, .bodyEnd] _ :=
    .cons ⟨rfl, trivial, trivial⟩ <| .cons ⟨rfl, rfl, trivial⟩ <|
    .cons ⟨rfl, ⟨⟨by decide, .inr (by decide)⟩, .inl ⟨by decide, by decide, by decide, by decide,
      by decide, by decide, by decide, by decide⟩⟩, show 302 ≠ 416 by decide⟩ <|
    .cons ⟨rfl, trivial, trivial⟩ <| .cons ⟨rfl, trivial, trivial⟩ <|
    .cons ⟨rfl, ⟨⟨by decide, .inl rfl⟩, .inr ⟨_, rfl, .partialContent 2 rfl (by decide)⟩⟩,
      show 206 ≠ 416 by decide⟩ <|
    .cons ⟨rfl, trivial, trivial⟩ <| .cons ⟨rfl, trivial, trivial⟩ <|
    .cons ⟨rfl, trivial, trivial⟩ <| .nil _
  have hreach : (resumeSystem oneHostEnv fileUri (ascii "hello") (ascii "he")).Reach _ :=
    Lts.Reach.run (Lts.Reach.init rfl) hrun
  rcases (httpDownload_resumes oneHostEnv fileUri rfl _ _ hreach).1 with hnone | ⟨hok, hfile⟩
  · cases hnone
  · exact ⟨_, hreach, hok, hfile, rfl⟩

/-! ## After a 416 -/

/-- A file that is complete: both requests ask for what is behind the end of the resource, and the
transfer fails. -/
theorem complete_file_fails :
    ∃ d, (rfc7233System oneHostEnv fileUri (ascii "abc") (ascii "abc")).Reach d ∧
      d.result = some Reply.error ∧
      d.requests.map (fun q => q.headers.getHeader (ascii "Range")) =
        [ascii "bytes=3-", ascii "bytes=3-"] := by
  have hrun : (rfc7233System oneHostEnv fileUri (ascii "abc") (ascii "abc")).Run
      (.new fileUri (some (ascii "abc")))
      [.start, .fileExists .resume, .answer ⟨416, [], []⟩, .answer ⟨416, [], []⟩] _ :=
    .cons ⟨rfl, trivial⟩ <| .cons ⟨rfl, rfl⟩ <|
    .cons ⟨rfl, ⟨by decide, .inl rfl⟩, .inr ⟨_, rfl, .rangeNotSatisfiable 3 rfl (by decide)⟩⟩ <|
    .cons ⟨rfl, ⟨by decide, .inl rfl⟩,
      .inr ⟨_, rfl, .rangeNotSatisfiable 3 rfl (by decide)⟩⟩ <| .nil _
  exact ⟨_, Lts.Reach.run (Lts.Reach.init rfl) hrun, rfl, rfl⟩

end FlintZilla
