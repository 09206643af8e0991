import FlintZilla.Http.Request
import FlintZilla.Server

/-!
# HTTP downloads

`CHttpFileTransferOpData`, `engine/http/filetransfer.cpp`, with the request operations it starts one
after the other. The request object, with its URI and its header map, belongs to the transfer and
lives through all of them: `HttpRequest::reset` and `HttpResponse::reset` clear the response but not
the headers of the request.

Responses come as messages here: a code, header fields and a body. How a message is read from the
socket, and how a body gets through the buffers of the writer, is the matter of `Http.Request` and
of `Aio.Writer`; data counts as written to the file when it was passed to the writer. Request
bodies, the delays that a server can ask for and the status of the transfer are left out.
-/

namespace FlintZilla

open Lib

/-! ## URIs -/

/-- `fz::uri`. -/
structure Uri where
  scheme : List UInt8
  host : List UInt8
  port : Nat
  path : List UInt8
  query : List UInt8
deriving DecidableEq

def Uri.empty (u : Uri) : Bool := u.host.isEmpty && u.path.isEmpty

/-- The path starts with a slash. -/
def Uri.isAbsolute (u : Uri) : Bool := u.path.head? == some (asciiChar '/')

/-- What the operation takes from `libfilezilla` and the build. -/
structure HttpEnv where
  /-- `fz::to_integral<int64_t>` with -1 for what is no number. -/
  toInt64 : List UInt8 → Int
  parseUri : List UInt8 → Uri
  /-- `location.resolve(base)`. -/
  resolve : Uri → Uri → Uri
  uriToString : Uri → String
  /-- `fz::to_wstring_from_utf8`. -/
  toWstring : List UInt8 → WString
  /-- `PACKAGE_STRING` with slashes for blanks. -/
  userAgent : List UInt8

/-! ## The operation -/

/-- `filetransferStates`. -/
inductive HttpTransferState where
  | init
  | transfer
  | waittransfer
deriving DecidableEq

/-- `CHttpFileTransferOpData`. Of `rr_` it holds the URI, the verb and the headers of the request
and the code of the response; `localFileSize_` is `none` for `nosize`. -/
structure HttpFileTransfer where
  opState : HttpTransferState
  download : Bool
  writerFactory : Bool
  uri : Uri
  verb : List UInt8
  headers : HttpHeaders
  resume : Bool
  localFileSize : Option Nat
  redirectCount : Nat
  responseCode : Nat
deriving DecidableEq

/-- The constructor for a `CFileTransferCommand` that is a download. -/
def HttpFileTransfer.new (uri : Uri) : HttpFileTransfer where
  opState := .init
  download := true
  writerFactory := true
  uri := uri
  verb := ascii "GET"
  headers := []
  resume := false
  localFileSize := none
  redirectCount := 0
  responseCode := 0

/-- `SubcommandResult`. -/
def HttpFileTransfer.subcommandResult (op : HttpFileTransfer) (prevResult : Nat) : Nat :=
  if op.opState = .transfer then Reply.continue_ else prevResult

/-- `fz::sprintf("bytes=%d-", localFileSize_)`. -/
def rangeText (offset : Nat) : List UInt8 := ascii ("bytes=" ++ toString offset ++ "-")

/-- A request as the server gets it. -/
structure SentRequest where
  verb : List UInt8
  uri : Uri
  headers : HttpHeaders
deriving DecidableEq

/-- A response as the server means it. -/
structure HttpAnswer where
  code : Nat
  headers : HttpHeaders
  body : List UInt8
deriving DecidableEq

/-- How far the request operation is. -/
inductive HttpStage where
  /-- There is none. -/
  | idle
  /-- The request is sent. -/
  | awaiting
  /-- The header is complete; `wanted` is whether the operation still has its request, `rest` is the
  part of the body that was not passed on yet. -/
  | reading (wanted : Bool) (rest : List UInt8)
deriving DecidableEq

/-- The transfer with its request operation, the local file and whether the response has a writer
for it, the question about the file, the requests sent, the errors logged and the result of the
transfer. -/
structure HttpDownload where
  op : HttpFileTransfer
  stage : HttpStage
  file : Option (List UInt8)
  writer : Bool
  asking : Bool
  requests : List SentRequest
  errors : List String
  result : Option Nat
deriving DecidableEq

namespace HttpDownload

def new (uri : Uri) (file : Option (List UInt8)) : HttpDownload where
  op := .new uri
  stage := .idle
  file := file
  writer := false
  asking := false
  requests := []
  errors := []
  result := none

def logError (d : HttpDownload) (message : String) : HttpDownload :=
  { d with errors := d.errors ++ [message] }

/-! ## Sending -/

/-- The headers that the request operation sets before it sends the request, and
`update_content_length` for a request without body. -/
def requestHeaders (env : HttpEnv) (verb : List UInt8) (uri : Uri) (headers : HttpHeaders) :
    HttpHeaders :=
  let host :=
    if uri.port ≠ 0 then uri.host ++ ascii ":" ++ ascii (toString uri.port) else uri.host
  let headers := headers.setHeader (ascii "Host") host
  let headers :=
    if (headers.find? fun h => sameHeader h.1 (ascii "Connection")).isNone then
      headers.setHeader (ascii "Connection") (ascii "close")
    else headers
  let headers := headers.setHeader (ascii "User-Agent") env.userAgent
  if verb = ascii "GET" ∨ verb = ascii "HEAD" ∨ verb = ascii "OPTIONS" then
    headers.eraseHeader (ascii "Content-Length")
  else headers.setHeader (ascii "Content-Length") (ascii "0")

/-- `filetransfer_transfer`, and the request operation up to the end of the request. -/
def sendTransfer (env : HttpEnv) (d : HttpDownload) : HttpDownload :=
  let headers :=
    if d.op.resume then
      d.op.headers.setHeader (ascii "Range") (rangeText (d.op.localFileSize.getD 0))
    else d.op.headers
  let headers := requestHeaders env d.op.verb d.op.uri headers
  { d with
    op := { d.op with opState := .waittransfer, headers := headers, responseCode := 0 }
    stage := .awaiting
    requests := d.requests ++ [⟨d.op.verb, d.op.uri, headers⟩] }

/-- `CheckOverwriteFile` for a download: without a local file the transfer goes on, otherwise there
is a question to be answered. -/
def checkOverwriteFile (d : HttpDownload) : Nat × HttpDownload :=
  let d := { d with op := { d.op with localFileSize := d.file.map List.length } }
  if d.file.isNone then (Reply.ok, d) else (Reply.wouldBlock, { d with asking := true })

/-- `filetransfer_init`. -/
def sendInit (env : HttpEnv) (d : HttpDownload) : HttpDownload :=
  if !d.op.download then { d with result := some Reply.notSupported }
  else if d.op.uri.empty then
    { d.logError "Could not create URI for this transfer." with result := some Reply.error }
  else
    let d := { d with op := { d.op with opState := .transfer } }
    if d.op.writerFactory then
      let (res, d) := d.checkOverwriteFile
      if res = Reply.ok then d.sendTransfer env else d
    else d.sendTransfer env

def send (env : HttpEnv) (d : HttpDownload) : HttpDownload :=
  match d.op.opState with
  | .init => d.sendInit env
  | .transfer => d.sendTransfer env
  | .waittransfer => { d with result := some Reply.internalError }

/-- `ResetOperation` with the result of the request operation. -/
def resetRequest (env : HttpEnv) (d : HttpDownload) (res : Nat) : HttpDownload :=
  let d := { d with stage := .idle }
  if res = Reply.ok ∨ res = Reply.error ∨ res = Reply.criticalError ∨ res = Reply.errorNotFound then
    let r := d.op.subcommandResult res
    if r = Reply.continue_ then d.send env else { d with result := some r }
  else { d with result := some res }

/-! ## Receiving -/

/-- `file_writer::open`: the file from its beginning, or behind `offset` bytes of it. -/
def openWriter (offset : Nat) (file : Option (List UInt8)) : Option (List UInt8) :=
  if offset = 0 then some []
  else file.map fun content =>
    content.take offset ++ List.replicate (offset - content.length) 0

/-- Where a redirect leads. -/
def redirectLocation (env : HttpEnv) (base : Uri) (headers : HttpHeaders) : Uri :=
  let location := env.parseUri (headers.getHeader (ascii "Location"))
  if location.empty then location else env.resolve location base

/-- The redirects of `OnHeader`. -/
def redirect (env : HttpEnv) (d : HttpDownload) (headers : HttpHeaders) : Nat × HttpDownload :=
  let d := { d with op := { d.op with redirectCount := d.op.redirectCount + 1 } }
  if 6 ≤ d.op.redirectCount then (Reply.error, d.logError "Too many redirects")
  else if d.op.responseCode = 305 then (Reply.error, d.logError "Unsupported redirect")
  else
    let location := redirectLocation env d.op.uri headers
    let protocol := getProtocolFromPrefix (env.toWstring location.scheme)
    if location.scheme = [] ∨ location.host = [] ∨ !location.isAbsolute then
      (Reply.error, d.logError
        ("Redirection to invalid or unsupported URI: " ++ env.uriToString location))
    else if protocol ≠ .http ∧ protocol ≠ .https then
      (Reply.error, d.logError
        ("Redirection to invalid or unsupported address: " ++ env.uriToString location))
    else if env.toWstring location.host = [] then
      (Reply.error, d.logError ("Invalid hostname: " ++ env.uriToString location))
    else (Reply.ok, { d with op := { d.op with uri := location, opState := .transfer } })

/-- `OnHeader`. -/
def onHeader (env : HttpEnv) (d : HttpDownload) (headers : HttpHeaders) : Nat × HttpDownload :=
  if d.op.responseCode = 416 ∧ d.op.resume = true then
    (Reply.error, { d with op := { d.op with resume := false, opState := .transfer } })
  else if d.op.responseCode < 200 ∨ 400 ≤ d.op.responseCode then (Reply.error, d)
  else if 300 ≤ d.op.responseCode then d.redirect env headers
  else
    -- the server may have disallowed to resume
    let resume := d.op.resume && d.op.responseCode == 206
    let d := { d with op := { d.op with resume := resume } }
    if d.op.writerFactory then
      match openWriter (if resume then d.op.localFileSize.getD 0 else 0) d.file with
      | none => (Reply.criticalError, d)
      | some content => (Reply.continue_, { d with file := some content, writer := true })
    else (Reply.continue_, d)

/-- The exchange of `Http.Request` with the whole header of the answer. -/
def exchange (d : HttpDownload) (a : HttpAnswer) : HttpExchange where
  request := ⟨d.op.verb, d.op.headers, true⟩
  response := { HttpResponse.fresh none false with
    code := a.code, gotCode := true, headers := a.headers }

/-- `ProcessCompleteHeader` of the request operation. When `OnHeader` returns `FZ_REPLY_OK` the
operation gives up its request but reads the body. -/
def processCompleteHeader (env : HttpEnv) (d : HttpDownload) (a : HttpAnswer) : HttpDownload :=
  match HttpReceive.readHeaderFields env.toInt64 .fresh
      (HttpReceive.completeHeader (d.exchange a)) with
  | .error reason =>
    (d.logError ("Malformed response header: " ++ reason)).resetRequest env Reply.error
  | .ok readState =>
    let (res, d) := { d with op := { d.op with responseCode := a.code } }.onHeader env a.headers
    if res = Reply.continue_ ∨ res = Reply.ok then
      if readState.responseContentLength = 0 then d.resetRequest env Reply.ok
      else { d with stage := .reading (res == Reply.continue_) a.body }
    else d.resetRequest env res

/-- `HttpResponse::success`. -/
def success (d : HttpDownload) : Bool :=
  decide (200 ≤ d.op.responseCode ∧ d.op.responseCode < 300)

/-- `ProcessData`, as far as the file is concerned. -/
def processData (d : HttpDownload) (wanted : Bool) (data : List UInt8) : HttpDownload :=
  if wanted && d.success && d.writer then { d with file := d.file.map (· ++ data) } else d

/-! ## The system -/

/-- `CFileExistsNotification::OverwriteAction`. The other actions come to one of these after a
comparison, or start over with another file. -/
inductive FileExistsAction where
  | overwrite
  | resume
  | skip
deriving DecidableEq

inductive Event where
  | start
  /-- `SetFileExistsAction`. -/
  | fileExists (action : FileExistsAction)
  /-- The header of an answer is complete. -/
  | answer (a : HttpAnswer)
  /-- That many bytes of its body are passed on. -/
  | data (n : Nat)
  /-- The body is complete and the writer, if there is one, has written everything. -/
  | bodyEnd
  /-- The request operation fails. -/
  | failed (res : Nat)
deriving DecidableEq

/-- `SetFileExistsAction` for a download. -/
def setFileExistsAction (env : HttpEnv) (d : HttpDownload) (action : FileExistsAction) :
    HttpDownload :=
  let d := { d with asking := false }
  match action with
  | .overwrite => d.send env
  | .resume =>
    { d with op := { d.op with resume := d.op.resume || d.op.localFileSize.isSome } }.send env
  | .skip => { d with result := some Reply.ok }

/-- An event that finds the transfer in progress. -/
def step (env : HttpEnv) (d : HttpDownload) (e : Event) : Option HttpDownload :=
  if d.result.isSome then none
  else
    match e, d.stage with
    | .start, .idle => if d.op.opState = .init then some (d.send env) else none
    | .fileExists action, .idle =>
      if d.asking then some (d.setFileExistsAction env action) else none
    | .answer a, .awaiting => some (d.processCompleteHeader env a)
    | .data n, .reading wanted rest =>
      if 0 < n ∧ n ≤ rest.length then
        some { d.processData wanted (rest.take n) with stage := .reading wanted (rest.drop n) }
      else none
    | .bodyEnd, .reading _ [] => some (d.resetRequest env Reply.ok)
    | .failed _, .idle => none
    | .failed res, _ => if Reply.has res Reply.error then some (d.resetRequest env res) else none
    | _, _ => none

end HttpDownload

/-- Every server, network and user. -/
def httpDownloadSystem (env : HttpEnv) (uri : Uri) (file : Option (List UInt8)) :
    Lts HttpDownload HttpDownload.Event :=
  Lts.ofFun (fun d => d = .new uri file) (HttpDownload.step env)

end FlintZilla
