/-
# `connection::handle` as a machine

The task runs from one await point to the next without interruption, so its states are the
await points, each with the locals that live across it.  The definitions below cut
`engine/src/connection.rs`, `handle`, at those points: `nextRequest` is the top of the inner
loop, `awaitHeader` the code after `Status::Partial`, `answerRequest` the second parse up to
`handler.call`, and so on; `Conn.resume` is what one wakeup does.

* The world answers through `Event`s: bytes, or an error, on the socket; the idle timer; a
  number of bytes accepted; the completion of a file operation.
* `Effect`s are what an observer of the task sees: the two counter calls of `InFlightGuard`,
  the handler's calls, and the bytes put on the socket.
-/
import HelixRack.Machine
import HelixRack.Incremental
import HelixRack.Response

namespace HelixRack

/-! ## 1. `content_length` -/

/-- What an `io::Error` of kind `InvalidData` wraps. -/
inductive InvalidData where
  /-- An error of `httparse`. -/
  | httparse
  /-- A `Utf8Error`. -/
  | utf8
  | text (message : String)
  deriving DecidableEq, Repr

/-- The loop of `content_length`, from a given `found` on. -/
def contentLengthFrom (found : Option Nat) : List Header → Except InvalidData Nat
  | [] => .ok (found.getD 0)
  | header :: rest =>
    if !eqIgnoreAsciiCase header.name "content-length" then contentLengthFrom found rest
    else match fromUtf8 header.value with
      | none => .error .utf8
      | some value => match parseUsize (trim value) with
        | none => .error (.text "malformed Content-Length header")
        | some parsed => match found with
          | none => contentLengthFrom (some parsed) rest
          | some existing =>
            if existing = parsed then contentLengthFrom found rest
            else .error (.text "conflicting Content-Length headers")

def contentLength (headers : List Header) : Except InvalidData Nat :=
  contentLengthFrom none headers

theorem contentLengthFrom_skip {found : Option Nat} {header : Header} {rest : List Header}
    (h : eqIgnoreAsciiCase header.name "content-length" = false) :
    contentLengthFrom found (header :: rest) = contentLengthFrom found rest := by
  rw [contentLengthFrom, h]
  rfl

theorem contentLengthFrom_first {header : Header} {rest : List Header} {value : String}
    {n : Nat} (h : eqIgnoreAsciiCase header.name "content-length" = true)
    (hv : fromUtf8 header.value = some value) (hn : parseUsize (trim value) = some n) :
    contentLengthFrom none (header :: rest) = contentLengthFrom (some n) rest := by
  rw [contentLengthFrom, h]
  simp only [Bool.not_true, Bool.false_eq_true, if_false, hv, hn]

/-- A first `Content-Length`, its value written as text. -/
theorem contentLengthFrom_text {name value : String} {rest : List Header} {n : Nat}
    (h : eqIgnoreAsciiCase name "content-length" = true) (hn : parseUsize (trim value) = some n) :
    contentLengthFrom none (⟨name, asBytes value⟩ :: rest) = contentLengthFrom (some n) rest :=
  contentLengthFrom_first h (fromUtf8_asBytes value) hn

/-- Fields of another name change nothing. -/
theorem contentLengthFrom_others {found : Option Nat} {headers : List Header}
    (h : ∀ header ∈ headers, eqIgnoreAsciiCase header.name "content-length" = false) :
    contentLengthFrom found headers = .ok (found.getD 0) := by
  induction headers with
  | nil => rfl
  | cons header rest ih =>
    obtain ⟨hfirst, hrest⟩ := List.forall_mem_cons.mp h
    rw [contentLengthFrom_skip hfirst, ih hrest]

/-- A header list that declares a length, and does so once. -/
theorem contentLength_declared {value : String} {n : Nat} {others : List Header}
    (hn : parseUsize (trim value) = some n)
    (h : ∀ header ∈ others, eqIgnoreAsciiCase header.name "content-length" = false) :
    contentLength (⟨"Content-Length", asBytes value⟩ :: others) = .ok n := by
  rw [contentLength, contentLengthFrom_text (by decide) hn, contentLengthFrom_others h]
  rfl

/-- The loop that turns every header value into a `&str`; `none` at the first that is not
UTF-8. -/
def parsedHeaders : List Header → Option (List (String × String))
  | [] => some []
  | header :: rest =>
    (fromUtf8 header.value).bind fun value =>
      (parsedHeaders rest).map fun headers => (header.name, value) :: headers

/-- `ParsedRequest`, from the second parse and the buffered body. -/
def parsedRequest (request : Request) (headers : List (String × String)) (body : Bytes) :
    ParsedRequest :=
  let fullPath := request.path.getD ""
  let (path, query) := (splitOnce fullPath '?').getD (fullPath, "")
  { method := request.method.getD "", path, query, headers, body }

def isHead (request : ParsedRequest) : Bool := eqIgnoreAsciiCase request.method "HEAD"

/-! ## 2. The task's states -/

/-- The locals alive while `ensure_framing` awaits the file's metadata. -/
structure Answer where
  bodyEnd : Nat
  isHead : Bool
  response : HandlerResponse
  deriving DecidableEq, Repr

/-- The locals after `handler.call` and the `retain` on its response. -/
def Answer.start (bodyEnd : Nat) (request : ParsedRequest) (response : HandlerResponse) :
    Answer :=
  { bodyEnd, isHead := HelixRack.isHead request,
    response := { response with headers := stripConnection response.headers } }

/-- The locals alive while the response is being written. -/
structure Sending where
  bodyEnd : Nat
  isLastAllowedRequest : Bool
  body : ResponseBody
  deriving DecidableEq, Repr

/-- What follows a `write_all(..).await?`. -/
inductive AfterWrite where
  /-- The 431: no request is in flight, `handle` returns. -/
  | headerRejected
  /-- The 413 and the 400: `handle` returns, which drops the guard. -/
  | requestRejected
  /-- `write_body` comes next. -/
  | body (sending : Sending)
  /-- The next chunk of the spooled body comes next. -/
  | chunk (sending : Sending) (file : File)
  /-- The response is out. -/
  | finish (sending : Sending)
  deriving DecidableEq, Repr

/-- How `handle` ended. -/
inductive Exit where
  | ok
  | invalidData (error : InvalidData)
  /-- An error of the operating system, passed through by `?`. -/
  | os
  /-- The handler panicked, and unwinding ended the task. -/
  | panicked
  /-- The task was dropped while it was suspended. -/
  | dropped
  deriving DecidableEq, Repr

inductive Await where
  /-- Spawned, not polled yet. -/
  | spawned
  | readHeader
  | readBody (consumed bodyEnd : Nat)
  | metadata (answer : Answer) (file : File)
  | write (rest : Bytes) (next : AfterWrite)
  | seek (sending : Sending) (file : File)
  | readFile (sending : Sending) (file : File)
  | ended (exit : Exit)
  deriving DecidableEq, Repr

/-- A connection task: `buf`, `filled` and `requests_served`, and where it is suspended. -/
structure Conn where
  buf : Bytes
  filled : Nat
  requestsServed : Nat
  await : Await
  deriving DecidableEq, Repr

/-- The task `serve` spawns for an accepted connection. -/
def Conn.new : Conn :=
  { buf := List.replicate initialBufCapacity 0, filled := 0, requestsServed := 0,
    await := .spawned }

namespace Conn

/-- `buf[..filled]`. -/
def received (c : Conn) : Bytes := c.buf.take c.filled

/-- The bytes of a read land behind `filled`. -/
def fill (c : Conn) (data : Bytes) : Conn :=
  { c with buf := overwriteAt c.buf c.filled data, filled := c.filled + data.length }

/-- `copy_within(body_end..filled, 0)` and `filled -= body_end`. -/
def shift (c : Conn) (bodyEnd : Nat) : Conn :=
  { c with buf := copyWithin c.buf bodyEnd c.filled, filled := c.filled - bodyEnd }

/-- Suspend at an await point. -/
def suspend (c : Conn) (a : Await) : Conn := { c with await := a }

/-- Return from `handle`. -/
def exit (c : Conn) (e : Exit) : Conn := c.suspend (.ended e)

end Conn

/-! ## 3. What the world sends in, and what it sees -/

inductive Event where
  /-- The task's first poll. -/
  | poll
  /-- A socket read ends with these bytes; none means EOF. -/
  | read (data : Bytes)
  | readError
  /-- `keep_alive_timeout` ran out. -/
  | elapsed
  /-- The socket accepts this many bytes of the pending `write_all`. -/
  | wrote (n : Nat)
  | writeError
  /-- The awaited `metadata` or `seek` is done. -/
  | ready
  /-- A read of the spooled file ends with this many bytes. -/
  | fileRead (n : Nat)
  deriving DecidableEq, Repr

inductive Effect where
  /-- `record_request_start`. -/
  | requestStart
  /-- `record_request_finish`. -/
  | requestFinish
  /-- `handler.call` on a request whose header block is `consumed` bytes long. -/
  | call (consumed : Nat) (request : ParsedRequest) (response : Option HandlerResponse)
  /-- Bytes of a handler's response. -/
  | sent (bytes : Bytes)
  /-- Bytes of one of the engine's own 400, 413 and 431 responses. -/
  | rejected (bytes : Bytes)
  deriving DecidableEq, Repr

/-- Everything `handle` is given besides the socket. -/
structure Server (σ : Type) where
  /-- `httparse::Request::parse` with room for so many headers. -/
  httparse : Nat → IncrementalParser UInt8 Request
  handler : Handler σ
  maxKeepalive : Nat
  /-- The `combine-write` feature. -/
  combineWrite : Bool

/-- A task together with the state of the handler it calls. -/
structure Poll (σ : Type) where
  conn : Conn
  app : σ
  effects : List Effect

namespace Poll

variable {σ : Type}

/-- Effects that came before. -/
def after (os : List Effect) (p : Poll σ) : Poll σ := { p with effects := os ++ p.effects }

@[simp] theorem after_conn (os : List Effect) (p : Poll σ) : (p.after os).conn = p.conn := rfl
@[simp] theorem after_app (os : List Effect) (p : Poll σ) : (p.after os).app = p.app := rfl
@[simp] theorem after_effects (os : List Effect) (p : Poll σ) :
    (p.after os).effects = os ++ p.effects := rfl

theorem after_after (os os' : List Effect) (p : Poll σ) :
    (p.after os).after os' = p.after (os' ++ os) := by
  simp [after]

end Poll

namespace Server

variable {σ : Type} (srv : Server σ)

/-- One of `handle`'s two parses. -/
def parse (bytes : Bytes) : Status Request := (srv.httparse maxHeaders).parse bytes

/-! ## 4. From one await point to the next -/

/-- The rest of the outer loop after `Status::Partial`: the cap, the growth, the read. -/
def awaitHeader (c : Conn) : Conn :=
  if c.filled ≥ maxBufCapacity then
    c.suspend (.write requestHeaderFieldsTooLarge .headerRejected)
  else
    let buf := if c.filled = c.buf.length then
        resize c.buf (min (c.buf.length * 2) maxBufCapacity)
      else c.buf
    { c with buf, await := .readHeader }

/-- From `requests_served += 1` to the first write of the response. -/
def sendHead (c : Conn) (answer : Answer) : Conn :=
  let served := c.requestsServed + 1
  let isLast := decide (served ≥ srv.maxKeepalive)
  let response := if isLast then answer.response.pushHeader "Connection" "close"
    else answer.response
  let head := serializeHead response
  let sending : Sending :=
    { bodyEnd := answer.bodyEnd, isLastAllowedRequest := isLast, body := response.body }
  let next : Await :=
    if answer.isHead then .write head (.finish sending)
    else match srv.combineWrite, response.body with
      | true, .inMemory bytes => .write (head ++ bytes) (.finish sending)
      | _, _ => .write head (.body sending)
  { c with requestsServed := served, await := next }

/-- `ensure_framing(&mut response).await?` and on. -/
def frameResponse (c : Conn) (answer : Answer) : Conn × List Effect :=
  match ensureFraming answer.response with
  | .framed response => (srv.sendHead c { answer with response }, [])
  | .awaitMetadata file => (c.suspend (.metadata answer file), [])
  | .failed => (c.exit .os, [.requestFinish])

/-- `handler.call` and the `Connection` filter. -/
def callHandler (app : σ) (c : Conn) (consumed bodyEnd : Nat) (request : ParsedRequest) :
    Poll σ :=
  match srv.handler app request with
  | (none, app') => ⟨c.exit .panicked, app', [.call consumed request none, .requestFinish]⟩
  | (some response, app') =>
    let (c', os) := srv.frameResponse c (.start bodyEnd request response)
    ⟨c', app', .call consumed request (some response) :: os⟩

/-- The second parse, on a buffer that holds the whole body. -/
def answerRequest (app : σ) (c : Conn) (consumed bodyEnd : Nat) : Poll σ :=
  match srv.parse c.received with
  | .invalid => ⟨c.exit (.invalidData .httparse), app, [.requestFinish]⟩
  | .complete _ request | .incomplete request =>
    match parsedHeaders request.headers with
    | none => ⟨c.suspend (.write badRequestResponse .requestRejected), app, []⟩
    | some headers =>
      srv.callHandler app c consumed bodyEnd
        (parsedRequest request headers ((c.buf.take bodyEnd).drop consumed))

/-- `while filled < body_end`. -/
def fillBody (app : σ) (c : Conn) (consumed bodyEnd : Nat) : Poll σ :=
  if c.filled < bodyEnd then ⟨c.suspend (.readBody consumed bodyEnd), app, []⟩
  else srv.answerRequest app c consumed bodyEnd

/-- The body cap and the growth of the buffer to the declared body. -/
def startRequest (app : σ) (c : Conn) (consumed bodyLen : Nat) : Poll σ :=
  if bodyLen > maxBodyCapacity then
    ⟨c.suspend (.write payloadTooLargeResponse .requestRejected), app, []⟩
  else
    let bodyEnd := consumed + bodyLen
    let buf := if c.buf.length < bodyEnd then resize c.buf bodyEnd else c.buf
    srv.fillBody app { c with buf } consumed bodyEnd

/-- The top of the inner loop. -/
def nextRequest (app : σ) (c : Conn) : Poll σ :=
  match srv.parse c.received with
  | .invalid => ⟨c.exit (.invalidData .httparse), app, []⟩
  | .incomplete _ => ⟨awaitHeader c, app, []⟩
  | .complete consumed request =>
    match contentLength request.headers with
    | .error e => ⟨c.exit (.invalidData e), app, []⟩
    | .ok bodyLen => (srv.startRequest app c consumed bodyLen).after [.requestStart]

/-- `drop(in_flight)` and on: return after the last allowed request, else shift and loop. -/
def finishRequest (app : σ) (c : Conn) (sending : Sending) : Poll σ :=
  (if sending.isLastAllowedRequest then ⟨c.exit .ok, app, []⟩
    else srv.nextRequest app (c.shift sending.bodyEnd)).after [.requestFinish]

/-- `write_body`.  A `write_all` of nothing does not suspend. -/
def writeBody (app : σ) (c : Conn) (sending : Sending) : Poll σ :=
  match sending.body with
  | .inMemory bytes =>
    if bytes = [] then srv.finishRequest app c sending
    else ⟨c.suspend (.write bytes (.finish sending)), app, []⟩
  | .spooled file =>
    if .cloneForWrite ∈ file.faults then ⟨c.exit .os, app, [.requestFinish]⟩
    else ⟨c.suspend (.seek sending file), app, []⟩

/-- What follows a `write_all` that is through. -/
def afterWrite (app : σ) (c : Conn) : AfterWrite → Poll σ
  | .headerRejected => ⟨c.exit .ok, app, []⟩
  | .requestRejected => ⟨c.exit .ok, app, [.requestFinish]⟩
  | .body sending => srv.writeBody app c sending
  | .chunk sending file => ⟨c.suspend (.readFile sending file), app, []⟩
  | .finish sending => srv.finishRequest app c sending

end Server

/-! ## 5. One wakeup -/

namespace AfterWrite

/-- Which response the pending `write_all` belongs to. -/
def effect (bytes : Bytes) : AfterWrite → Effect
  | .headerRejected | .requestRejected => .rejected bytes
  | .body _ | .chunk _ _ | .finish _ => .sent bytes

end AfterWrite

namespace Await

/-- Whether `in_flight` is in scope at this await point. -/
def guarded : Await → Bool
  | .spawned | .readHeader | .ended _ | .write _ .headerRejected => false
  | .readBody _ _ | .metadata _ _ | .seek _ _ | .readFile _ _ | .write _ _ => true

/-- `InFlightGuard::drop`, where there is a guard to drop. -/
def dropGuard (a : Await) : List Effect := if a.guarded then [.requestFinish] else []

def Ended (a : Await) : Prop := ∃ e, a = .ended e

instance (a : Await) : Decidable a.Ended :=
  match a with
  | .ended e => .isTrue ⟨e, rfl⟩
  | .spawned | .readHeader | .readBody _ _ | .metadata _ _ | .write _ _ | .seek _ _
  | .readFile _ _ => .isFalse (by rintro ⟨e, h⟩; cases h)

end Await

namespace Conn

variable {σ : Type}

/-- Leave `handle` from an await point, through `?` or `return`, or because the suspended task
is dropped: the guard's destructor runs and nothing else. -/
def leave (c : Conn) (app : σ) (e : Exit) : Poll σ := ⟨c.exit e, app, c.await.dropGuard⟩

/-- **What one wakeup of the task does**, up to its next await point.  `none`: the event does
not belong to the await point the task is at. -/
def resume (srv : Server σ) (app : σ) (c : Conn) (event : Event) : Option (Poll σ) :=
  match c.await, event with
  | .spawned, .poll => some (srv.nextRequest app c)
  | .readHeader, .read data =>
    if data.length ≤ c.buf.length - c.filled then
      some (if data = [] then c.leave app .ok else srv.nextRequest app (c.fill data))
    else none
  | .readHeader, .readError => some (c.leave app .os)
  | .readHeader, .elapsed => if c.filled = 0 then some (c.leave app .ok) else none
  | .readBody consumed bodyEnd, .read data =>
    if data.length ≤ bodyEnd - c.filled then
      some (if data = [] then c.leave app .ok
        else srv.fillBody app (c.fill data) consumed bodyEnd)
    else none
  | .readBody _ _, .readError => some (c.leave app .os)
  | .metadata answer file, .ready =>
    some (if .metadata ∈ file.faults then c.leave app .os
      else ⟨srv.sendHead c { answer with
        response := answer.response.pushContentLength file.contents.length }, app, []⟩)
  | .write rest next, .wrote n =>
    if 0 < n ∧ n ≤ rest.length then
      some ((if n = rest.length then srv.afterWrite app c next
        else ⟨c.suspend (.write (rest.drop n) next), app, []⟩).after
          [next.effect (rest.take n)])
    else none
  | .write _ _, .writeError => some (c.leave app .os)
  | .seek sending file, .ready =>
    some (if .seek ∈ file.faults then c.leave app .os
      else ⟨c.suspend (.readFile sending (file.seekTo 0)), app, []⟩)
  | .readFile sending file, .fileRead n =>
    if n ≤ spooledBodyChunkSize ∧ n ≤ file.unread.length ∧ (n = 0 → file.unread = []) then
      some (if n = 0 then
          (if file.faultsAtLimit then c.leave app .os else srv.finishRequest app c sending)
        else ⟨c.suspend (.write (file.unread.take n) (.chunk sending (file.advance n))), app,
          []⟩)
    else none
  | _, _ => none

end Conn

/-! ## 6. One wakeup, by cases -/

namespace Conn

variable {σ : Type}

/-- The ways a wakeup can go, each with the event that brings it about. -/
inductive Wakeup (srv : Server σ) (app : σ) (c : Conn) : Event → Poll σ → Prop
  | start (hc : c.await = .spawned) : Wakeup srv app c .poll (srv.nextRequest app c)
  | header {data : Bytes} (hc : c.await = .readHeader) (hne : data ≠ [])
      (hlen : c.filled + data.length ≤ c.buf.length) :
      Wakeup srv app c (.read data) (srv.nextRequest app (c.fill data))
  | body {consumed bodyEnd : Nat} {data : Bytes} (hc : c.await = .readBody consumed bodyEnd)
      (hne : data ≠ []) (hlen : c.filled + data.length ≤ bodyEnd) :
      Wakeup srv app c (.read data) (srv.fillBody app (c.fill data) consumed bodyEnd)
  | eof (hc : c.await = .readHeader ∨ ∃ k n, c.await = .readBody k n) :
      Wakeup srv app c (.read []) (c.leave app .ok)
  | readError (hc : c.await = .readHeader ∨ ∃ k n, c.await = .readBody k n) :
      Wakeup srv app c .readError (c.leave app .os)
  | elapsed (hc : c.await = .readHeader) (h0 : c.filled = 0) :
      Wakeup srv app c .elapsed (c.leave app .ok)
  | metadata {answer : Answer} {file : File} (hc : c.await = .metadata answer file)
      (hok : .metadata ∉ file.faults) :
      Wakeup srv app c .ready ⟨srv.sendHead c { answer with
        response := answer.response.pushContentLength file.contents.length }, app, []⟩
  | metadataFault {answer : Answer} {file : File} (hc : c.await = .metadata answer file)
      (hbad : .metadata ∈ file.faults) : Wakeup srv app c .ready (c.leave app .os)
  | wrotePart {rest : Bytes} {next : AfterWrite} {n : Nat} (hc : c.await = .write rest next)
      (hpos : 0 < n) (hlt : n < rest.length) :
      Wakeup srv app c (.wrote n)
        ⟨c.suspend (.write (rest.drop n) next), app, [next.effect (rest.take n)]⟩
  | wroteAll {rest : Bytes} {next : AfterWrite} (hc : c.await = .write rest next)
      (hpos : 0 < rest.length) :
      Wakeup srv app c (.wrote rest.length)
        ((srv.afterWrite app c next).after [next.effect rest])
  | writeError {rest : Bytes} {next : AfterWrite} (hc : c.await = .write rest next) :
      Wakeup srv app c .writeError (c.leave app .os)
  | seek {sending : Sending} {file : File} (hc : c.await = .seek sending file)
      (hok : .seek ∉ file.faults) :
      Wakeup srv app c .ready ⟨c.suspend (.readFile sending (file.seekTo 0)), app, []⟩
  | seekFault {sending : Sending} {file : File} (hc : c.await = .seek sending file)
      (hbad : .seek ∈ file.faults) : Wakeup srv app c .ready (c.leave app .os)
  | chunk {sending : Sending} {file : File} {n : Nat} (hc : c.await = .readFile sending file)
      (hpos : 0 < n) (hle : n ≤ file.unread.length) (hsize : n ≤ spooledBodyChunkSize) :
      Wakeup srv app c (.fileRead n) ⟨c.suspend
        (.write (file.unread.take n) (.chunk sending (file.advance n))), app, []⟩
  | fileEnd {sending : Sending} {file : File} (hc : c.await = .readFile sending file)
      (hend : file.unread = []) (hok : file.faultsAtLimit = false) :
      Wakeup srv app c (.fileRead 0) (srv.finishRequest app c sending)
  | fileFault {sending : Sending} {file : File} (hc : c.await = .readFile sending file)
      (hend : file.unread = []) (hbad : file.faultsAtLimit = true) :
      Wakeup srv app c (.fileRead 0) (c.leave app .os)

/-- `Wakeup` says everything `resume` can do. -/
theorem resume_cases {srv : Server σ} {app : σ} {c : Conn} {event : Event} {p : Poll σ}
    (h : c.resume srv app event = some p) : c.Wakeup srv app event p := by
  unfold resume at h
  split at h
  case h_1 hc => cases h; exact .start hc
  case h_2 data hc =>
    split at h <;> cases h
    by_cases hd : data = []
    · rw [if_pos hd, hd]; exact .eof (Or.inl hc)
    · rw [if_neg hd]
      have := List.length_pos_iff.mpr hd
      exact .header hc hd (by omega)
  case h_3 hc => cases h; exact .readError (Or.inl hc)
  case h_4 hc =>
    split at h <;> cases h
    rename_i h0
    exact .elapsed hc h0
  case h_5 consumed bodyEnd data hc =>
    split at h <;> cases h
    by_cases hd : data = []
    · rw [if_pos hd, hd]; exact .eof (Or.inr ⟨_, _, hc⟩)
    · rw [if_neg hd]
      have := List.length_pos_iff.mpr hd
      exact .body hc hd (by omega)
  case h_6 hc => cases h; exact .readError (Or.inr ⟨_, _, hc⟩)
  case h_7 answer file hc =>
    cases h
    by_cases hm : .metadata ∈ file.faults
    · rw [if_pos hm]; exact .metadataFault hc hm
    · rw [if_neg hm]; exact .metadata hc hm
  case h_8 rest next n hc =>
    split at h <;> cases h
    rename_i hn
    by_cases heq : n = rest.length
    · rw [if_pos heq, heq, List.take_length]
      exact .wroteAll hc (heq ▸ hn.1)
    · rw [if_neg heq]
      exact .wrotePart hc hn.1 (by omega)
  case h_9 hc => cases h; exact .writeError hc
  case h_10 sending file hc =>
    cases h
    by_cases hs : .seek ∈ file.faults
    · rw [if_pos hs]; exact .seekFault hc hs
    · rw [if_neg hs]; exact .seek hc hs
  case h_11 sending file n hc =>
    split at h <;> cases h
    rename_i hn
    obtain ⟨hsize, hle, hzero⟩ := hn
    by_cases h0 : n = 0
    · subst h0
      rw [if_pos rfl]
      by_cases hf : file.faultsAtLimit = true
      · rw [if_pos hf]; exact .fileFault hc (hzero rfl) hf
      · rw [if_neg hf]; exact .fileEnd hc (hzero rfl) (by simpa using hf)
    · rw [if_neg h0]
      exact .chunk hc (by omega) hle hsize
  case h_12 => cases h

/-- ...and everything in it does happen. -/
theorem Wakeup.resume {srv : Server σ} {app : σ} {c : Conn} {event : Event} {p : Poll σ}
    (h : c.Wakeup srv app event p) : c.resume srv app event = some p := by
  cases h with
  | start hc => simp [Conn.resume, hc]
  | header hc hne hlen =>
    simp only [Conn.resume, hc, if_neg hne]
    exact if_pos (by omega)
  | body hc hne hlen =>
    simp only [Conn.resume, hc, if_neg hne]
    exact if_pos (by omega)
  | eof hc => obtain hc | ⟨k, n, hc⟩ := hc <;> simp [Conn.resume, hc]
  | readError hc => obtain hc | ⟨k, n, hc⟩ := hc <;> simp [Conn.resume, hc]
  | elapsed hc h0 => simp [Conn.resume, hc, h0]
  | metadata hc hok => simp [Conn.resume, hc, hok]
  | metadataFault hc hbad => simp [Conn.resume, hc, hbad]
  | @wrotePart rest next n hc hpos hlt =>
    simp only [Conn.resume, hc, if_neg hlt.ne]
    exact if_pos ⟨hpos, hlt.le⟩
  | wroteAll hc hpos => simp [Conn.resume, hc, hpos]
  | writeError hc => simp [Conn.resume, hc]
  | seek hc hok => simp [Conn.resume, hc, hok]
  | seekFault hc hbad => simp [Conn.resume, hc, hbad]
  | chunk hc hpos hle hsize =>
    simp only [Conn.resume, hc, if_neg hpos.ne']
    exact if_pos ⟨hsize, hle, fun h => absurd h hpos.ne'⟩
  | fileEnd hc hend hok => simp [Conn.resume, hc, hend, hok]
  | fileFault hc hend hbad => simp [Conn.resume, hc, hend, hbad]

end Conn

/-- The task as a machine, on its own with its handler. -/
def Server.machine {σ : Type} (srv : Server σ) : Machine (Conn × σ) Event Effect where
  step := fun (c, app) e => (c.resume srv app e).map fun p => ((p.conn, p.app), p.effects)

theorem Server.machine_step {σ : Type} {srv : Server σ} {c c' : Conn} {app app' : σ}
    {e : Event} {os : List Effect} (h : srv.machine.step (c, app) e = some ((c', app'), os)) :
    c.Wakeup srv app e ⟨c', app', os⟩ := by
  simp only [Server.machine, Option.map_eq_some_iff] at h
  obtain ⟨p, hp, heq⟩ := h
  cases heq
  exact Conn.resume_cases hp

theorem Conn.Wakeup.step {σ : Type} {srv : Server σ} {c : Conn} {app : σ} {e : Event}
    {p : Poll σ} (h : c.Wakeup srv app e p) :
    srv.machine.step (c, app) e = some ((p.conn, p.app), p.effects) := by
  simp only [Server.machine, h.resume, Option.map_some]

end HelixRack
