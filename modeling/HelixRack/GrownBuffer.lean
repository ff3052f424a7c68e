/-
# A buffer that a body has grown

`buf` is resized to hold a declared body and never shrinks again.  `grown_after_body` is the
whole first exchange of a connection, for any server: one request with a body, answered in
full, after which the task waits for the next header block with nothing buffered and with all
the room the body needed.  What a single read can then bring in is the subject of the modules
that import this one.
-/
import HelixRack.Boundaries

namespace HelixRack

namespace Server

variable {σ : Type} {srv : Server σ} {c : Conn} {app : σ}

/-! ## 1. The loop's top, outcome by outcome -/

theorem nextRequest_pending (hs : c.Sized) (hp : srv.Pending c.received)
    (hcap : c.filled < maxBufCapacity) :
    ∃ c', (∀ app, srv.nextRequest app c = ⟨c', app, []⟩) ∧ c'.await = .readHeader ∧
      c'.received = c.received ∧ c'.filled = c.filled ∧ c.buf.length ≤ c'.buf.length ∧
      c'.requestsServed = c.requestsServed ∧ c'.Sized := by
  obtain ⟨out, hp⟩ := hp
  obtain ⟨buf, heq, hrec, hlt, hle, -⟩ := awaitHeader_of_lt hs hcap
  refine ⟨{ c with buf, await := .readHeader }, fun app => ?_, rfl, hrec, rfl, hle, rfl,
    ⟨hlt.le, hs.capacity_le.trans hle⟩⟩
  have hparse : srv.parse c.received = .incomplete out := hp
  rw [nextRequest, hparse]
  simp only [heq]

theorem nextRequest_capped (hp : srv.Pending c.received) (hcap : maxBufCapacity ≤ c.filled) :
    srv.nextRequest app c =
      ⟨c.suspend (.write requestHeaderFieldsTooLarge .headerRejected), app, []⟩ := by
  obtain ⟨out, hp⟩ := hp
  have hparse : srv.parse c.received = .incomplete out := hp
  rw [nextRequest, hparse]
  simp only [awaitHeader_of_ge hcap]

theorem nextRequest_framed {consumed bodyLen : Nat} {request : Request}
    (hp : srv.parse c.received = .complete consumed request)
    (hl : contentLength request.headers = .ok bodyLen) (hle : bodyLen ≤ maxBodyCapacity) :
    srv.nextRequest app c =
      (srv.fillBody app (c.growTo (consumed + bodyLen)) consumed (consumed + bodyLen)).after
        [.requestStart] := by
  rw [nextRequest, hp]
  simp only [hl, startRequest_of_le hle]

theorem fillBody_of_lt {consumed bodyEnd : Nat} (h : c.filled < bodyEnd) :
    srv.fillBody app c consumed bodyEnd =
      ⟨c.suspend (.readBody consumed bodyEnd), app, []⟩ := if_pos h

/-- A whole request in the buffer is handed to the handler, and the response is framed. -/
theorem fillBody_answered {consumed bodyEnd : Nat} {request : Request}
    {headers : List (String × String)} {response : HandlerResponse} {app' : σ}
    (h : bodyEnd ≤ c.filled) (hp : srv.parse c.received = .complete consumed request)
    (hh : parsedHeaders request.headers = some headers)
    (hc : srv.handler app
        (parsedRequest request headers ((c.buf.take bodyEnd).drop consumed))
      = (some response, app')) :
    let req := parsedRequest request headers ((c.buf.take bodyEnd).drop consumed)
    let framed := srv.frameResponse c (.start bodyEnd req response)
    srv.fillBody app c consumed bodyEnd =
      ⟨framed.1, app', .call consumed req (some response) :: framed.2⟩ := by
  rw [fillBody, if_neg (by omega), answerRequest, hp]
  simp only [hh, callHandler, hc]

/-! ## 2. A response without a body goes out in one write -/

/-- The response as it is serialized when its body is empty and in memory. -/
def emptyBodyHead (response : HandlerResponse) : Bytes :=
  let stripped := { response with headers := stripConnection response.headers }
  serializeHead (if hasFraming stripped.headers then stripped else stripped.pushContentLength 0)

theorem frameResponse_empty (srv : Server σ) {response : HandlerResponse} {bodyEnd : Nat}
    {request : ParsedRequest} (hb : response.body = .inMemory [])
    (hk : c.requestsServed + 1 < srv.maxKeepalive) :
    ∃ c' next, srv.frameResponse c (.start bodyEnd request response) = (c', []) ∧
      c'.buf = c.buf ∧ c'.filled = c.filled ∧ c'.requestsServed = c.requestsServed + 1 ∧
      c'.await = .write (emptyBodyHead response) next ∧
      (∀ bytes, next.effect bytes = .sent bytes) ∧
      ∀ c'' app'', srv.afterWrite app'' c'' next = srv.finishRequest app'' c''
        { bodyEnd, isLastAllowedRequest := false, body := .inMemory [] } := by
  have hlast : decide (c.requestsServed + 1 ≥ srv.maxKeepalive) = false := by
    rw [decide_eq_false_iff_not]; omega
  have hframe : ∃ r, ensureFraming (Answer.start bodyEnd request response).response = .framed r ∧
      r.body = .inMemory [] ∧ serializeHead r = emptyBodyHead response := by
    by_cases hf : hasFraming (stripConnection response.headers) = true
    · refine ⟨{ response with headers := stripConnection response.headers }, ?_, hb, ?_⟩
      · rw [ensureFraming, Answer.start, if_pos hf]
      · simp [emptyBodyHead, hf]
    · refine ⟨HandlerResponse.pushContentLength
        { response with headers := stripConnection response.headers } 0, ?_, hb, ?_⟩
      · rw [ensureFraming, Answer.start, if_neg hf]
        simp only [hb, List.length_nil]
      · simp [emptyBodyHead, hf]
  obtain ⟨r, hfr, hrb, hser⟩ := hframe
  let sending : Sending := { bodyEnd, isLastAllowedRequest := false, body := .inMemory [] }
  let writing : AfterWrite → Conn := fun next =>
    { c with requestsServed := c.requestsServed + 1, await := .write (emptyBodyHead response) next }
  have hsend : ∀ next, (∀ bytes, next.effect bytes = .sent bytes) →
      (∀ c'' app'', srv.afterWrite app'' c'' next = srv.finishRequest app'' c'' sending) →
      srv.frameResponse c (.start bodyEnd request response) = (writing next, []) →
      ∃ c' next, srv.frameResponse c (.start bodyEnd request response) = (c', []) ∧
        c'.buf = c.buf ∧ c'.filled = c.filled ∧ c'.requestsServed = c.requestsServed + 1 ∧
        c'.await = .write (emptyBodyHead response) next ∧
        (∀ bytes, next.effect bytes = .sent bytes) ∧
        ∀ c'' app'', srv.afterWrite app'' c'' next = srv.finishRequest app'' c'' sending :=
    fun next h1 h2 h3 => ⟨writing next, next, h3, rfl, rfl, rfl, rfl, h1, h2⟩
  by_cases hh : (Answer.start bodyEnd request response).isHead = true
  · refine hsend (.finish sending) (fun _ => rfl) (fun _ _ => rfl) ?_
    simp only [frameResponse, hfr, sendHead, hlast, hrb, Bool.false_eq_true, if_false, hser]
    rw [if_pos hh]
    rfl
  · cases hcw : srv.combineWrite with
    | true =>
      refine hsend (.finish sending) (fun _ => rfl) (fun _ _ => rfl) ?_
      simp only [frameResponse, hfr, sendHead, hlast, hrb, Bool.false_eq_true, if_false, hser]
      rw [if_neg hh]
      simp only [hcw, List.append_nil]
      rfl
    | false =>
      refine hsend (.body sending) (fun _ => rfl) (fun _ _ => ?_) ?_
      · simp [afterWrite, writeBody, sending]
      · simp only [frameResponse, hfr, sendHead, hlast, hrb, Bool.false_eq_true, if_false, hser]
        rw [if_neg hh]
        simp only [hcw]
        rfl

/-- A wholly buffered request is answered without another read. -/
theorem nextRequest_answered (srv : Server σ) (app : σ) {consumed bodyLen : Nat} {request : Request}
    {headers : List (String × String)} {response : HandlerResponse} {app' : σ} (hs : c.Sized)
    (hp : srv.parse c.received = .complete consumed request)
    (hl : contentLength request.headers = .ok bodyLen) (hle : bodyLen ≤ maxBodyCapacity)
    (hwhole : consumed + bodyLen ≤ c.filled)
    (hh : parsedHeaders request.headers = some headers)
    (hc : srv.handler app
        (parsedRequest request headers ((c.received.drop consumed).take bodyLen))
      = (some response, app'))
    (hb : response.body = .inMemory []) (hk : c.requestsServed + 1 < srv.maxKeepalive) :
    ∃ c' next, srv.nextRequest app c = ⟨c', app', [.requestStart, .call consumed
        (parsedRequest request headers ((c.received.drop consumed).take bodyLen))
        (some response)]⟩ ∧
      c'.Sized ∧ c'.received = c.received ∧ c'.requestsServed = c.requestsServed + 1 ∧
      c'.await = .write (emptyBodyHead response) next ∧
      (∀ bytes, next.effect bytes = .sent bytes) ∧
      ∀ c'' app'', srv.afterWrite app'' c'' next = srv.finishRequest app'' c''
        { bodyEnd := consumed + bodyLen, isLastAllowedRequest := false,
          body := .inMemory [] } := by
  have hgrown : (c.growTo (consumed + bodyLen)).received = c.received :=
    Conn.growTo_received hs.filled_le _
  have hbody : ((c.growTo (consumed + bodyLen)).buf.take (consumed + bodyLen)).drop consumed
      = (c.received.drop consumed).take bodyLen := by
    rw [← hgrown]
    exact Conn.buf_slice hwhole
  have hp' : srv.parse (c.growTo (consumed + bodyLen)).received = .complete consumed request := by
    rw [hgrown, hp]
  have hcall := fillBody_answered (c := c.growTo (consumed + bodyLen)) hwhole hp' hh
    (by rw [hbody]; exact hc)
  rw [hbody] at hcall
  obtain ⟨c', next, hframe, hbuf, hfill, hserved, hawait, heff, hafter⟩ :=
    frameResponse_empty srv (c := c.growTo (consumed + bodyLen)) hb hk
  have hs' : (c.growTo (consumed + bodyLen)).Sized := hs.growTo _
  refine ⟨c', next, ?_, ⟨?_, ?_⟩, ?_, hserved, hawait, heff, hafter⟩
  · rw [nextRequest_framed hp hl hle, hcall, hframe]
    rfl
  · rw [hfill, hbuf]; exact hs'.filled_le
  · rw [hbuf]; exact hs'.capacity_le
  · rw [Conn.received, hbuf, hfill]; exact hgrown

/-! ## 3. The whole exchange, step by step -/

/-- The task waits for a header block with nothing buffered. -/
structure Idle (c : Conn) : Prop extends c.Sized where
  await : c.await = .readHeader
  filled : c.filled = 0

theorem Idle.received (h : Idle c) : c.received = [] := by
  rw [Conn.received, h.filled, List.take_zero]

theorem Idle.not_ended (h : Idle c) : ¬ c.await.Ended := by
  rw [h.await]
  rintro ⟨x, hx⟩
  cases hx

theorem start_idle (app : σ) (hnil : srv.Pending []) :
    ∃ c, srv.machine.step (Conn.new, app) .poll = some ((c, app), []) ∧ Idle c ∧
      c.requestsServed = 0 := by
  have hpos : (0 : Nat) < maxBufCapacity := by decide
  obtain ⟨c, heq, hawait, -, hfilled, -, hserved, hs⟩ :=
    nextRequest_pending Conn.new_sized hnil hpos
  refine ⟨c, ?_, { hs with await := hawait, filled := hfilled }, hserved⟩
  have hw : Conn.new.Wakeup srv app .poll (srv.nextRequest app Conn.new) := .start rfl
  rw [hw.step, heq]

/-- The head arrives: the request counts as started, and there is room for its body. -/
theorem read_head (app : σ) {head : Bytes} {bodyLen : Nat} {request : Request} (hi : Idle c)
    (hp : srv.parse head = .complete head.length request)
    (hl : contentLength request.headers = .ok bodyLen) (hpos : 0 < bodyLen)
    (hle : bodyLen ≤ maxBodyCapacity) (hroom : head.length ≤ c.buf.length) :
    ∃ c', srv.machine.step (c, app) (.read head) = some ((c', app), [.requestStart]) ∧
      c'.Sized ∧ c'.await = .readBody head.length (head.length + bodyLen) ∧
      c'.received = head ∧ c'.filled = head.length ∧
      head.length + bodyLen ≤ c'.buf.length ∧ c'.requestsServed = c.requestsServed := by
  have hlen : c.filled + head.length ≤ c.buf.length := by rw [hi.filled]; omega
  have hs : (c.fill head).Sized := hi.toSized.fill hlen
  have hrec : (c.fill head).received = head := by
    rw [Conn.fill_received hlen, hi.received, List.nil_append]
  have hfilled : (c.fill head).filled = head.length := by
    rw [Conn.fill_filled, hi.filled, Nat.zero_add]
  have hne : head ≠ [] := List.length_pos_iff.mp (parse_pos hp)
  have hw : c.Wakeup srv app (.read head) (srv.nextRequest app (c.fill head)) :=
    .header hi.await hne hlen
  rw [← hrec] at hp
  rw [hw.step, nextRequest_framed hp hl hle, hrec, fillBody_of_lt]
  · refine ⟨_, rfl, (hs.growTo _).suspend _, rfl, ?_, hfilled, ?_, rfl⟩
    · exact (Conn.growTo_received hs.filled_le _).trans hrec
    · change _ ≤ ((c.fill head).growTo (head.length + bodyLen)).buf.length
      rw [Conn.growTo_buf_length]
      exact Nat.le_max_right _ _
  · rw [Conn.growTo_filled, hfilled]
    omega

/-- The body arrives: the handler is called, and its response is framed. -/
theorem read_body {head body : Bytes} {request : Request} {headers : List (String × String)}
    {response : HandlerResponse} {app' : σ} (hs : c.Sized)
    (hawait : c.await = .readBody head.length (head.length + body.length))
    (hrec : c.received = head) (hfilled : c.filled = head.length)
    (hroom : head.length + body.length ≤ c.buf.length)
    (hp : srv.parse head = .complete head.length request) (hne : body ≠ [])
    (hh : parsedHeaders request.headers = some headers)
    (hc : srv.handler app (parsedRequest request headers body) = (some response, app'))
    (hb : response.body = .inMemory []) (hk : c.requestsServed + 1 < srv.maxKeepalive) :
    ∃ c' next, srv.machine.step (c, app) (.read body) = some ((c', app'),
        [.call head.length (parsedRequest request headers body) (some response)]) ∧
      c'.Sized ∧ c'.filled = head.length + body.length ∧ c'.buf.length = c.buf.length ∧
      c'.requestsServed = c.requestsServed + 1 ∧
      c'.await = .write (emptyBodyHead response) next ∧
      (∀ bytes, next.effect bytes = .sent bytes) ∧
      ∀ c'' app'', srv.afterWrite app'' c'' next = srv.finishRequest app'' c''
        { bodyEnd := head.length + body.length, isLastAllowedRequest := false,
          body := .inMemory [] } := by
  have hlen : c.filled + body.length ≤ c.buf.length := by rw [hfilled]; exact hroom
  have hs' : (c.fill body).Sized := hs.fill hlen
  have hrec' : (c.fill body).received = head ++ body := by
    rw [Conn.fill_received hlen, hrec]
  have hend : head.length + body.length ≤ (c.fill body).filled := by
    rw [Conn.fill_filled, hfilled]
  have hw : c.Wakeup srv app (.read body) (srv.fillBody app (c.fill body) head.length
      (head.length + body.length)) := .body hawait hne (by rw [hfilled])
  have hbody : ((c.fill body).buf.take (head.length + body.length)).drop head.length
      = body := by
    have htake : (c.fill body).buf.take (head.length + body.length) = head ++ body := by
      rw [← hrec', Conn.received, Conn.fill_filled, hfilled]
    rw [htake, List.drop_left]
  have hp' : srv.parse (c.fill body).received = .complete head.length request := by
    rw [hrec']; exact parse_append_of_complete hp body
  rw [← hbody] at hc
  have hcall := fillBody_answered hend hp' hh hc
  rw [hbody] at hcall
  obtain ⟨c', next, hframe, hbuf, hfill, hserved, hawait', heff, hafter⟩ :=
    frameResponse_empty srv (c := c.fill body) hb hk
  refine ⟨c', next, ?_, ⟨?_, ?_⟩, ?_, ?_, hserved, hawait', heff, hafter⟩
  · rw [hw.step, hcall, hframe]
  · rw [hfill, hbuf]; exact hs'.filled_le
  · rw [hbuf]; exact hs'.capacity_le
  · rw [hfill, Conn.fill_filled, hfilled]
  · rw [hbuf, Conn.fill_buf_length hlen]

/-- The response is out: the request is shifted away, and the room it took stays. -/
theorem write_response (app : σ) {next : AfterWrite} {bytes : Bytes} (hnil : srv.Pending [])
    (hs : c.Sized) (hne : bytes ≠ []) (hawait : c.await = .write bytes next)
    (heff : ∀ bytes, next.effect bytes = .sent bytes)
    (hafter : ∀ c'' app'', srv.afterWrite app'' c'' next = srv.finishRequest app'' c''
      { bodyEnd := c.filled, isLastAllowedRequest := false, body := .inMemory [] }) :
    ∃ c', srv.machine.step (c, app) (.wrote bytes.length) =
        some ((c', app), [.sent bytes, .requestFinish]) ∧
      Idle c' ∧ c.buf.length ≤ c'.buf.length ∧ c'.requestsServed = c.requestsServed := by
  have hw : c.Wakeup srv app (.wrote bytes.length)
      ((srv.afterWrite app c next).after [next.effect bytes]) :=
    .wroteAll hawait (List.length_pos_iff.mpr hne)
  have hrec : (c.shift c.filled).received = [] := by
    rw [Conn.shift_received hs.filled_le, ← Conn.length_received hs.filled_le, List.drop_length]
  have hfilled : (c.shift c.filled).filled = 0 := by rw [Conn.shift_filled, Nat.sub_self]
  have hcap : (c.shift c.filled).filled < maxBufCapacity := by rw [hfilled]; decide
  rw [← hrec] at hnil
  obtain ⟨c', heq, hawait', -, hf', hlen, hserved, hs'⟩ :=
    nextRequest_pending (hs.shift c.filled) hnil hcap
  refine ⟨c', ?_, { hs' with await := hawait', filled := hf'.trans hfilled }, ?_, hserved⟩
  · rw [hw.step, hafter, finishRequest, if_neg Bool.false_ne_true, heq, heff]
    rfl
  · rwa [Conn.shift_buf_length hs.filled_le] at hlen

/-- A client sends one request with a body, in two reads; the response is about to be
written. -/
theorem answered_after_body (app : σ) {head body : Bytes} {request : Request}
    {headers : List (String × String)} {response : HandlerResponse} {app' : σ}
    (hnil : srv.Pending []) (hp : srv.parse head = .complete head.length request)
    (hl : contentLength request.headers = .ok body.length) (hne : body ≠ [])
    (hle : body.length ≤ maxBodyCapacity) (hhead : head.length ≤ initialBufCapacity)
    (hh : parsedHeaders request.headers = some headers)
    (hc : srv.handler app (parsedRequest request headers body) = (some response, app'))
    (hb : response.body = .inMemory []) (hk : 1 < srv.maxKeepalive) :
    ∃ c next, srv.machine.run (Conn.new, app) [.poll, .read head, .read body] =
      some ((c, app'), [.requestStart,
        .call head.length (parsedRequest request headers body) (some response)]) ∧
      c.Sized ∧ c.filled = head.length + body.length ∧
      head.length + body.length ≤ c.buf.length ∧ c.requestsServed = 1 ∧
      c.await = .write (emptyBodyHead response) next ∧
      (∀ bytes, next.effect bytes = .sent bytes) ∧
      (∀ c'' app'', srv.afterWrite app'' c'' next = srv.finishRequest app'' c''
        { bodyEnd := c.filled, isLastAllowedRequest := false, body := .inMemory [] }) ∧
      ∀ P, srv.AtStarts P head → srv.machine.Along (srv.HeaderReadsMeet P) (Conn.new, app)
        [.poll, .read head, .read body] := by
  have hbody : 0 < body.length := List.length_pos_iff.mpr hne
  obtain ⟨c1, hstart, hi1, hserved1⟩ := start_idle app hnil
  have hroom1 : head.length ≤ c1.buf.length := hhead.trans hi1.capacity_le
  obtain ⟨c2, hread, hs2, hawait2, hrec2, hfilled2, hroom2, hserved2⟩ :=
    read_head app hi1 hp hl hbody hle hroom1
  have hk2 : c2.requestsServed + 1 < srv.maxKeepalive := by
    rw [hserved2, hserved1]; exact hk
  obtain ⟨c3, next, hcall, hs3, hfilled3, hlen3, hserved3, hawait3, heff, hafter⟩ :=
    read_body hs2 hawait2 hrec2 hfilled2 hroom2 hp hne hh hc hb hk2
  rw [← hfilled3] at hafter
  refine ⟨c3, next, ?_, hs3, hfilled3, by omega, by omega, hawait3, heff, hafter,
    fun P hP => ?_⟩
  · exact Machine.run_cons hstart (Machine.run_cons hread (Machine.run_cons hcall rfl))
  · -- the one header read is that of `head`, into an empty buffer
    have hq0 : srv.HeaderReadsMeet P (Conn.new, app) .poll := by
      intro data hc
      cases hc
    have hq1 : srv.HeaderReadsMeet P (c1, app) (.read head) := by
      intro data _ he
      cases he
      rw [hi1.received, List.nil_append]
      exact hP
    have hq2 : srv.HeaderReadsMeet P (c2, app) (.read body) := by
      intro data hc
      rw [hawait2] at hc
      cases hc
    exact .cons hq0 hstart (.cons hq1 hread (.cons hq2 hcall .nil))

/-- **The room a body took stays.**  When the client has taken the (empty) response in one
piece, the connection waits for the next header block with nothing buffered, and its buffer
is as long as the request was. -/
theorem grown_after_body (app : σ) {head body : Bytes} {request : Request}
    {headers : List (String × String)} {response : HandlerResponse} {app' : σ}
    (hnil : srv.Pending []) (hp : srv.parse head = .complete head.length request)
    (hl : contentLength request.headers = .ok body.length) (hne : body ≠ [])
    (hle : body.length ≤ maxBodyCapacity) (hhead : head.length ≤ initialBufCapacity)
    (hh : parsedHeaders request.headers = some headers)
    (hc : srv.handler app (parsedRequest request headers body) = (some response, app'))
    (hb : response.body = .inMemory []) (hk : 1 < srv.maxKeepalive) :
    ∃ c, srv.machine.run (Conn.new, app)
        [.poll, .read head, .read body, .wrote (emptyBodyHead response).length] =
      some ((c, app'), [.requestStart,
        .call head.length (parsedRequest request headers body) (some response),
        .sent (emptyBodyHead response), .requestFinish]) ∧
      Idle c ∧ head.length + body.length ≤ c.buf.length ∧ c.requestsServed = 1 ∧
      ∀ P, srv.AtStarts P head → srv.machine.Along (srv.HeaderReadsMeet P) (Conn.new, app)
        [.poll, .read head, .read body, .wrote (emptyBodyHead response).length] := by
  obtain ⟨c3, next, hrun, hs3, hfilled3, hroom3, hserved3, hawait3, heff, hafter, halong⟩ :=
    answered_after_body app hnil hp hl hne hle hhead hh hc hb hk
  obtain ⟨c4, hwrite, hi4, hlen4, hserved4⟩ :=
    write_response app' hnil hs3 (serializeHead_ne_nil _) hawait3 heff hafter
  refine ⟨c4, ?_, hi4, by omega, by omega, fun P hP => ?_⟩
  · exact Machine.run_append hrun (Machine.run_cons hwrite (Machine.run_nil _ _))
  · refine (halong P hP).snoc hrun ?_
    intro data hc
    rw [hawait3] at hc
    cases hc

end Server

/-! ## 4. A connection with a grown buffer

A server for the inputs on which the room left by an earlier body matters: an upload, whose
body grows the buffer past the header cap, and a request whose header block is larger than
that cap. -/

namespace Upload

/-- 200000 bytes of body. -/
@[irreducible] def body : Bytes := List.replicate 200000 120

def head : Bytes := asBytes "POST / HTTP/1.1\r\nContent-Length: 200000\r\n\r\n"

def request : Request :=
  { method := some "POST", path := some "/",
    headers := [⟨"Content-Length", asBytes "200000"⟩] }

/-- A header value of 100000 bytes. -/
@[irreducible] def padding : String := String.ofList (List.replicate 100000 'x')

def largeHeadFront : Bytes := asBytes "GET / HTTP/1.1\r\nContent-Length: 10485760\r\nX: "

def largeHead : Bytes := largeHeadFront ++ asBytes padding ++ asBytes "\r\n\r\n"

def largeRequest : Request :=
  { method := some "GET", path := some "/",
    headers := [⟨"Content-Length", asBytes "10485760"⟩, ⟨"X", asBytes padding⟩] }

def code : List (Bytes × Request) := [(head, request), (largeHead, largeRequest)]

theorem length_body : body.length = 200000 := by
  rw [body, List.length_replicate]

theorem length_asBytes_replicate (n : Nat) :
    (asBytes (String.ofList (List.replicate n 'x'))).length = n := by
  have hx : 'x'.utf8Size = 1 := by decide
  simp [asBytes_ofList, hx]

theorem length_padding : (asBytes padding).length = 100000 := by
  unfold padding
  exact length_asBytes_replicate 100000

/-- The response of the only route. -/
def response : HandlerResponse := { status := 200, headers := [], body := .inMemory [] }

theorem head_cons : ∃ rest, head = 80 :: rest := ⟨head.tail, by decide⟩

theorem largeHead_cons : ∃ rest, largeHead = 71 :: rest :=
  ⟨largeHeadFront.tail ++ asBytes padding ++ asBytes "\r\n\r\n", rfl⟩

theorem head_not_prefix_largeHead : ¬ head <+: largeHead := by
  obtain ⟨a, ha⟩ := head_cons
  obtain ⟨b, hb⟩ := largeHead_cons
  rw [ha, hb, List.cons_prefix_cons]
  exact fun h => absurd h.1 (by decide)

theorem largeHead_not_prefix_head : ¬ largeHead <+: head := by
  obtain ⟨a, ha⟩ := head_cons
  obtain ⟨b, hb⟩ := largeHead_cons
  rw [ha, hb, List.cons_prefix_cons]
  exact fun h => absurd h.1 (by decide)

theorem code_prefixFree : IncrementalParser.PrefixFree code :=
  .pair head_not_prefix_largeHead largeHead_not_prefix_head

theorem code_ne_nil : ∀ w ∈ code, w.1 ≠ [] := by
  intro w hw
  simp only [code, List.mem_cons, List.not_mem_nil, or_false] at hw
  rcases hw with rfl | rfl
  · obtain ⟨a, ha⟩ := head_cons
    simp [ha]
  · obtain ⟨b, hb⟩ := largeHead_cons
    simp [hb]

def server : Server Unit where
  httparse := fun _ => .ofCode code code_prefixFree code_ne_nil
  handler := fun app _ => (some response, app)
  maxKeepalive := 100
  combineWrite := false

theorem parse_eq (bytes : Bytes) :
    server.parse bytes = IncrementalParser.codeParse code bytes := rfl

theorem parse_head : server.parse head = .complete head.length request :=
  IncrementalParser.codeParse_item code_prefixFree List.mem_cons_self

theorem parse_largeHead : server.parse largeHead = .complete largeHead.length largeRequest := by
  rw [parse_eq]
  exact IncrementalParser.codeParse_item code_prefixFree (List.mem_cons_of_mem _ List.mem_cons_self)

/-- A proper beginning of the large header block is pending. -/
theorem pending_of_prefix {bytes : Bytes} (h : bytes <+: largeHead) (hne : bytes ≠ largeHead) :
    server.Pending bytes := by
  refine ⟨default, IncrementalParser.codeParse_pending ?_
    (w := (largeHead, largeRequest)) (by simp [code]) h⟩
  intro w hw hwb
  simp only [code, List.mem_cons, List.not_mem_nil, or_false] at hw
  rcases hw with rfl | rfl
  · exact head_not_prefix_largeHead (hwb.trans h)
  · exact hne (h.eq_of_length (le_antisymm h.length_le hwb.length_le))

theorem pending_nil : server.Pending [] :=
  IncrementalParser.ofCode_pending_nil code_prefixFree code_ne_nil List.mem_cons_self

theorem length_largeHead : largeHead.length = 100049 := by
  have h1 : largeHeadFront.length = 45 := by decide
  have h2 : (asBytes "\r\n\r\n").length = 4 := by decide
  simp only [largeHead, List.length_append, length_padding, h1, h2]

theorem contentLength_request : contentLength request.headers = .ok body.length := by
  rw [length_body]
  exact contentLength_declared (by decide) (by decide)

theorem contentLength_largeRequest :
    contentLength largeRequest.headers = .ok maxBodyCapacity := by
  refine contentLength_declared (by decide) fun header hmem => ?_
  rw [List.mem_singleton.mp hmem]
  decide

theorem parsedHeaders_request :
    parsedHeaders request.headers = some [("Content-Length", "200000")] := by
  simp [request, parsedHeaders, fromUtf8_asBytes]

theorem parsedHeaders_largeRequest :
    parsedHeaders largeRequest.headers =
      some [("Content-Length", "10485760"), ("X", padding)] := by
  simp [largeRequest, parsedHeaders, fromUtf8_asBytes]

/-- The events of the upload. -/
def events : List Event :=
  [.poll, .read head, .read body, .wrote (Server.emptyBodyHead response).length]

/-- What an observer sees of it. -/
def effects : List Effect :=
  [.requestStart,
    .call head.length (parsedRequest request [("Content-Length", "200000")] body)
      (some response),
    .sent (Server.emptyBodyHead response), .requestFinish]

theorem body_ne_nil : body ≠ [] := by
  rw [← List.length_pos_iff, length_body]
  decide

theorem body_le : body.length ≤ maxBodyCapacity := by
  rw [length_body]
  decide

/-- Before the last event, the response is about to be written. -/
theorem run_responding : ∃ c rest next os,
    server.machine.run (Conn.new, ()) [.poll, .read head, .read body] = some ((c, ()), os) ∧
    c.await = .write rest next ∧
    ∀ P, server.AtStarts P head → server.machine.Along (server.HeaderReadsMeet P)
      (Conn.new, ()) [.poll, .read head, .read body] := by
  obtain ⟨c, next, hrun, -, -, -, -, hawait, -, -, halong⟩ :=
    Server.answered_after_body () pending_nil parse_head contentLength_request body_ne_nil
      body_le (by decide) parsedHeaders_request rfl rfl (by decide)
  exact ⟨c, _, next, _, hrun, hawait, halong⟩

/-- After the upload, the connection waits in a buffer of more than 200000 bytes. -/
theorem run_events : ∃ c, server.machine.run (Conn.new, ()) events = some ((c, ()), effects) ∧
    Server.Idle c ∧ 200000 ≤ c.buf.length ∧ c.requestsServed = 1 ∧
    ∀ P, server.AtStarts P head →
      server.machine.Along (server.HeaderReadsMeet P) (Conn.new, ()) events := by
  have hbody : body.length = 200000 := length_body
  obtain ⟨c, hrun, hidle, hlen, hserved, halong⟩ :=
    Server.grown_after_body () pending_nil parse_head contentLength_request body_ne_nil
      body_le (by decide) parsedHeaders_request rfl rfl (by decide)
  exact ⟨c, hrun, hidle, by omega, hserved, halong⟩

end Upload

end HelixRack
