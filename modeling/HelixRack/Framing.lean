/-
# Requests are cut by `Content-Length` alone

`handle` finds the end of a request from `content_length` and nothing else: a
`Transfer-Encoding` field is an ordinary header to it.  This module says what follows for a
whole connection.  `Served` is the cut of a byte stream into the requests the handler gets,
each with exactly the declared number of bytes as its body and the next one right behind;
`served_of_run` shows that the calls of every run are the cut of the bytes it has read.

The last section compares this with a client that sends a chunked body.
-/
import HelixRack.GrownBuffer

namespace HelixRack

/-! ## 1. What a run reads and what it calls the handler with -/

/-- The bytes a socket read brings in. -/
def Event.data : Event → Bytes
  | .read data => data
  | _ => []

/-- Everything read in the course of a run. -/
def delivered (es : List Event) : Bytes := es.flatMap Event.data

/-- The handler's calls, each with the length of its header block. -/
def calls (os : List Effect) : List (Nat × ParsedRequest) :=
  os.filterMap fun
    | .call consumed request _ => some (consumed, request)
    | _ => none

theorem delivered_snoc (es : List Event) (e : Event) :
    delivered (es ++ [e]) = delivered es ++ e.data := by
  simp [delivered]

@[simp] theorem calls_nil : calls [] = [] := rfl

theorem calls_append (os os' : List Effect) : calls (os ++ os') = calls os ++ calls os' :=
  List.filterMap_append

@[simp] theorem calls_call (n : Nat) (request : ParsedRequest)
    (response : Option HandlerResponse) (os : List Effect) :
    calls (.call n request response :: os) = (n, request) :: calls os := rfl

@[simp] theorem calls_start (os : List Effect) : calls (.requestStart :: os) = calls os := rfl
@[simp] theorem calls_finish (os : List Effect) : calls (.requestFinish :: os) = calls os := rfl

@[simp] theorem calls_write (next : AfterWrite) (bytes : Bytes) (os : List Effect) :
    calls (next.effect bytes :: os) = calls os := by
  cases next <;> rfl

@[simp] theorem calls_dropGuard (a : Await) : calls a.dropGuard = [] := by
  unfold Await.dropGuard
  split <;> rfl

namespace Server

variable {σ : Type} (srv : Server σ)

/-! ## 2. The cut of a stream -/

/-- `Served called b s`: cutting `called` off the front of `b`, request by request, leaves
`s`.  A body is the declared number of bytes behind the header block. -/
inductive Served : List (Nat × ParsedRequest) → Bytes → Bytes → Prop
  | nil (b : Bytes) : Served [] b b
  | cons {b s : Bytes} {consumed bodyLen : Nat} {request : Request}
      {headers : List (String × String)} {rest : List (Nat × ParsedRequest)}
      (block : srv.parse b = .complete consumed request)
      (declared : contentLength request.headers = .ok bodyLen)
      (whole : consumed + bodyLen ≤ b.length)
      (utf8 : parsedHeaders request.headers = some headers)
      (tail : Served rest (b.drop (consumed + bodyLen)) s) :
      Served ((consumed, parsedRequest request headers ((b.drop consumed).take bodyLen)) :: rest)
        b s

variable {srv}

/-- Bytes that arrive later do not change a body that is there. -/
theorem slice_append {b : Bytes} {consumed bodyLen : Nat} (h : consumed + bodyLen ≤ b.length)
    (more : Bytes) :
    ((b ++ more).drop consumed).take bodyLen = (b.drop consumed).take bodyLen := by
  have hlen : bodyLen ≤ (b.drop consumed).length := by
    rw [List.length_drop]
    omega
  rw [List.drop_append_of_le_length (by omega), List.take_append_of_le_length hlen]

/-- ...and are behind everything that was cut. -/
theorem Served.append_bytes {called : List (Nat × ParsedRequest)} {b s : Bytes}
    (h : srv.Served called b s) (more : Bytes) : srv.Served called (b ++ more) (s ++ more) := by
  induction h with
  | nil b => exact .nil _
  | @cons b s consumed bodyLen request headers rest block declared whole utf8 tail ih =>
    have hbody := slice_append whole more
    have hwhole : consumed + bodyLen ≤ (b ++ more).length := by
      rw [List.length_append]
      omega
    rw [← List.drop_append_of_le_length whole] at ih
    rw [← hbody]
    exact .cons (parse_append_of_complete block more) declared hwhole utf8 ih

/-- Cuts compose. -/
theorem Served.trans {called called' : List (Nat × ParsedRequest)} {b s t : Bytes}
    (h : srv.Served called b s) (h' : srv.Served called' s t) :
    srv.Served (called ++ called') b t := by
  induction h with
  | nil b => exact h'
  | cons block declared whole utf8 tail ih => exact .cons block declared whole utf8 (ih h')

end Server

/-! ## 3. A wakeup cuts a piece of the stream -/

/-- How much of the buffer belongs to a request the handler has been called for. -/
def Await.answered : Await → Nat
  | .metadata answer _ => answer.bodyEnd
  | .seek sending _ | .readFile sending _ => sending.bodyEnd
  | .write _ (.body sending) | .write _ (.chunk sending _) | .write _ (.finish sending) =>
    sending.bodyEnd
  | .spawned | .readHeader | .readBody _ _ | .ended _ | .write _ .headerRejected
  | .write _ .requestRejected => 0

/-- The buffered bytes behind the requests the handler has been called for. -/
def Conn.unserved (c : Conn) : Bytes := c.received.drop c.await.answered

namespace Server

variable {σ : Type} {srv : Server σ} {c : Conn} {app : σ}

/-- The calls of `p` are cut off the front of `b`, and, while the task lives, what they leave
is what the task has not served yet. -/
def Cuts (srv : Server σ) (b : Bytes) (p : Poll σ) : Prop :=
  ∃ s, srv.Served (calls p.effects) b s ∧ (¬ p.conn.await.Ended → s = p.conn.unserved)

theorem Cuts.of_ended {b : Bytes} {p : Poll σ} (h : p.conn.await.Ended)
    (hc : calls p.effects = []) : srv.Cuts b p := by
  refine ⟨b, ?_, fun hn => absurd h hn⟩
  rw [hc]
  exact .nil b

theorem Cuts.of_quiet {p : Poll σ} (hc : calls p.effects = []) :
    srv.Cuts p.conn.unserved p := by
  refine ⟨p.conn.unserved, ?_, fun _ => rfl⟩
  rw [hc]
  exact .nil _

theorem Cuts.after {b : Bytes} {p : Poll σ} (h : srv.Cuts b p) {os : List Effect}
    (hc : calls os = []) : srv.Cuts b (p.after os) := by
  obtain ⟨s, hs, hrest⟩ := h
  refine ⟨s, ?_, hrest⟩
  rw [Poll.after_effects, calls_append, hc]
  exact hs

theorem frameResponse_unserved (answer : Answer) :
    (srv.frameResponse c answer).1.await.Ended ∨
      (srv.frameResponse c answer).1.unserved = c.received.drop answer.bodyEnd := by
  unfold frameResponse
  split
  · right
    simp only [sendHead]
    split
    · rfl
    · split <;> rfl
  · exact Or.inr rfl
  · exact Or.inl ⟨_, rfl⟩

theorem frameResponse_calls (answer : Answer) : calls (srv.frameResponse c answer).2 = [] := by
  unfold frameResponse
  split <;> rfl

/-- A request that is wholly buffered is cut off when the handler is called for it. -/
theorem fillBody_cuts {consumed bodyLen : Nat} {request : Request} (hs : c.Sized)
    (hp : srv.parse c.received = .complete consumed request)
    (hl : contentLength request.headers = .ok bodyLen) :
    srv.Cuts c.received (srv.fillBody app c consumed (consumed + bodyLen)) := by
  unfold fillBody
  split
  · exact .of_quiet (p := ⟨c.suspend (.readBody consumed (consumed + bodyLen)), app, []⟩) rfl
  · rename_i hfilled
    have hle : consumed + bodyLen ≤ c.filled := not_lt.mp hfilled
    have hwhole : consumed + bodyLen ≤ c.received.length := by
      rw [Conn.length_received hs.filled_le]
      exact hle
    have hbody := Conn.buf_slice hle
    rw [answerRequest, hp]
    simp only
    cases hh : parsedHeaders request.headers with
    | none =>
      exact .of_quiet (p := ⟨c.suspend (.write badRequestResponse .requestRejected), app, []⟩)
        rfl
    | some headers =>
      simp only [hbody, callHandler]
      split
      · exact ⟨_, .cons hp hl hwhole hh (.nil _), fun hn => absurd ⟨_, rfl⟩ hn⟩
      · refine ⟨c.received.drop (consumed + bodyLen), ?_, fun hn => ?_⟩
        · simp only [calls_call, frameResponse_calls]
          exact .cons hp hl hwhole hh (.nil _)
        · rcases frameResponse_unserved _ with hend | hrest
          · exact absurd hend hn
          · exact hrest.symm

theorem nextRequest_cuts (hs : c.Sized) :
    srv.Cuts c.received (srv.nextRequest app c) := by
  refine nextRequest_elim srv app c ?invalid ?pending ?malformed ?tooLarge ?framed
  case invalid => exact .of_ended ⟨_, rfl⟩ rfl
  case pending =>
    intro _
    rcases Nat.lt_or_ge c.filled maxBufCapacity with h | h
    · obtain ⟨buf, heq, hrec, -⟩ := awaitHeader_of_lt hs h
      refine ⟨c.received, .nil _, fun _ => ?_⟩
      rw [heq]
      exact hrec.symm
    · rw [awaitHeader_of_ge h]
      exact ⟨c.received, .nil _, fun _ => rfl⟩
  case malformed => exact fun _ => .of_ended ⟨_, rfl⟩ rfl
  case tooLarge => exact fun _ _ _ => ⟨c.received, .nil _, fun _ => rfl⟩
  case framed =>
    intro consumed request bodyLen hp hl _
    refine Cuts.after ?_ rfl
    have hgrown : (c.growTo (consumed + bodyLen)).received = c.received :=
      Conn.growTo_received hs.filled_le _
    rw [← hgrown] at hp ⊢
    exact fillBody_cuts (hs.growTo _) hp hl

theorem finishRequest_cuts {sending : Sending} (hs : c.Sized) :
    srv.Cuts (c.received.drop sending.bodyEnd) (srv.finishRequest app c sending) := by
  refine Cuts.after ?_ rfl
  split
  · exact .of_ended ⟨_, rfl⟩ rfl
  · rw [← Conn.shift_received hs.filled_le]
    exact nextRequest_cuts (hs.shift _)

theorem afterWrite_cuts {rest : Bytes} {next : AfterWrite} (hs : c.Sized)
    (hc : c.await = .write rest next) : srv.Cuts c.unserved (srv.afterWrite app c next) := by
  rw [Conn.unserved, hc]
  cases next with
  | headerRejected => exact .of_ended ⟨_, rfl⟩ rfl
  | requestRejected => exact .of_ended ⟨_, rfl⟩ rfl
  | body sending =>
    simp only [afterWrite, writeBody]
    split
    · split
      · exact finishRequest_cuts hs
      · exact ⟨_, .nil _, fun _ => rfl⟩
    · split
      · exact .of_ended ⟨_, rfl⟩ rfl
      · exact ⟨_, .nil _, fun _ => rfl⟩
  | chunk sending file => exact ⟨_, .nil _, fun _ => rfl⟩
  | finish sending => exact finishRequest_cuts hs

/-- **A wakeup cuts its calls off the bytes that were not served**, the ones it reads
included. -/
theorem wakeup_cuts {e : Event} {p : Poll σ} (hi : c.Inv srv) (hw : c.Wakeup srv app e p) :
    srv.Cuts (c.unserved ++ e.data) p := by
  have hs := hi.toSized
  have ha := hi.atAwait
  have hleave : ∀ (b : Bytes) (e : Exit), srv.Cuts b (c.leave app e) :=
    fun b e => .of_ended ⟨e, rfl⟩ (calls_dropGuard _)
  have hdata : e.data = [] → c.unserved ++ e.data = c.unserved := fun h => by
    rw [h, List.append_nil]
  cases hw with
  | start hc =>
    rw [hdata rfl, Conn.unserved, hc]
    exact nextRequest_cuts hs
  | @header data hc hne hlen =>
    have hb : c.unserved ++ Event.data (.read data) = (c.fill data).received := by
      rw [Conn.fill_received hlen, Conn.unserved, hc]
      rfl
    rw [hb]
    exact nextRequest_cuts (hs.fill hlen)
  | @body consumed bodyEnd data hc hne hlen =>
    rw [hc] at ha
    obtain ⟨⟨request, bodyLen, hp, hl, -, rfl⟩, -, hle, -⟩ := ha
    have hroom : c.filled + data.length ≤ c.buf.length := hlen.trans hle
    have hb : c.unserved ++ Event.data (.read data) = (c.fill data).received := by
      rw [Conn.fill_received hroom, Conn.unserved, hc]
      rfl
    have hp' : srv.parse (c.fill data).received = .complete consumed request := by
      rw [Conn.fill_received hroom]
      exact parse_append_of_complete hp data
    rw [hb]
    exact fillBody_cuts (hs.fill hroom) hp' hl
  | wroteAll hc hpos =>
    rw [hdata rfl]
    exact (afterWrite_cuts hs hc).after (calls_write _ _ _)
  | fileEnd hc hend hok =>
    rw [hdata rfl, Conn.unserved, hc]
    exact finishRequest_cuts hs
  | metadata hc hok =>
    rw [hdata rfl, Conn.unserved, hc]
    refine ⟨_, .nil _, fun _ => ?_⟩
    simp only [sendHead]
    split
    · rfl
    · split <;> rfl
  | @wrotePart rest next n hc hpos hlt =>
    rw [hdata rfl, Conn.unserved, hc]
    refine ⟨c.received.drop (Await.write rest next).answered, ?_, fun _ => ?_⟩
    · rw [calls_write]
      exact .nil _
    · cases next <;> rfl
  | seek hc hok | chunk hc hpos hle hsize =>
    rw [hdata rfl, Conn.unserved, hc]
    exact ⟨_, .nil _, fun _ => rfl⟩
  | eof | readError | elapsed | metadataFault | writeError | seekFault | fileFault =>
    exact hleave _ _

/-! ## 4. The cut of a whole run -/

/-- A task that has ended wakes up no more. -/
theorem not_ended_of_wakeup {e : Event} {p : Poll σ} (hw : c.Wakeup srv app e p) :
    ¬ c.await.Ended := by
  rintro ⟨x, hx⟩
  cases hw with
  | eof hc | readError hc =>
    rcases hc with hc | ⟨k, n, hc⟩ <;> rw [hx] at hc <;> cases hc
  | start hc | header hc | body hc | elapsed hc | metadata hc | metadataFault hc | wrotePart hc
  | wroteAll hc | writeError hc | seek hc | seekFault hc | chunk hc | fileEnd hc | fileFault hc =>
    rw [hx] at hc
    cases hc

/-- The calls of a run are the cut of what it has read. -/
theorem served_of_run {app app' : σ} {es : List Event} {c : Conn} {os : List Effect}
    (h : srv.machine.run (Conn.new, app) es = some ((c, app'), os)) :
    ∃ s, srv.Served (calls os) (delivered es) s ∧ (¬ c.await.Ended → s = c.unserved) := by
  refine Machine.run_induction (P := fun es s os => ∃ rest,
    srv.Served (calls os) (delivered es) rest ∧ (¬ s.1.await.Ended → rest = s.1.unserved))
    ⟨[], .nil [], fun _ => rfl⟩ ?_ h
  rintro es ⟨c, app⟩ os e ⟨c', app'⟩ o hrun ⟨rest, hserved, hrest⟩ hst
  have hw := machine_step hst
  obtain ⟨s, hcut, hs⟩ := wakeup_cuts (run_inv hrun) hw
  have hlive := hrest (not_ended_of_wakeup hw)
  refine ⟨s, ?_, hs⟩
  rw [calls_append, delivered_snoc]
  rw [← hlive] at hcut
  exact (hserved.append_bytes e.data).trans hcut

/-! ## 5. `Transfer-Encoding` -/

def isTransferEncoding (header : Header) : Bool :=
  eqIgnoreAsciiCase header.name "transfer-encoding"

theorem contentLengthFrom_filter (found : Option Nat) (headers : List Header) :
    contentLengthFrom found (headers.filter fun header => !isTransferEncoding header)
      = contentLengthFrom found headers := by
  induction headers generalizing found with
  | nil => rfl
  | cons header rest ih =>
    cases hte : isTransferEncoding header with
    | true =>
      -- no field name is both
      have hcl : eqIgnoreAsciiCase header.name "content-length" = false := by
        simp only [isTransferEncoding, eqIgnoreAsciiCase, beq_iff_eq] at hte
        simp only [eqIgnoreAsciiCase, hte]
        decide
      rw [contentLengthFrom_skip hcl, List.filter_cons_of_neg (by simp [hte])]
      exact ih found
    | false =>
      rw [List.filter_cons_of_pos (by simp [hte])]
      simp only [contentLengthFrom, ih]

end Server

/-- The chunked coding of a payload, without extensions and trailers. -/
inductive ChunkedBody : Bytes → Bytes → Prop
  | last : ChunkedBody (asBytes "0\r\n\r\n") []
  | chunk {data wire payload : Bytes} (nonempty : data ≠ [])
      (rest : ChunkedBody wire payload) :
      ChunkedBody (asBytes (String.ofList (Nat.toDigits 16 data.length)) ++ asBytes "\r\n" ++
        data ++ asBytes "\r\n" ++ wire) (data ++ payload)

/-! A request whose chunked body holds what looks like a second request. -/

namespace Smuggled

def head : Bytes :=
  asBytes "POST / HTTP/1.1\r\nContent-Length: 4\r\nTransfer-Encoding: chunked\r\n\r\n"

def request : Request :=
  { method := some "POST", path := some "/",
    headers := [⟨"Content-Length", asBytes "4"⟩, ⟨"Transfer-Encoding", asBytes "chunked"⟩] }

/-- The payload of the chunked body. -/
def inner : Bytes := asBytes "GET /admin HTTP/1.1\r\n\r\n"

def innerRequest : Request :=
  { method := some "GET", path := some "/admin", headers := [] }

def wire : Bytes := asBytes "17\r\n" ++ inner ++ asBytes "\r\n" ++ asBytes "0\r\n\r\n"

def code : List (Bytes × Request) := [(head, request), (inner, innerRequest)]

def response : HandlerResponse := { status := 200, headers := [], body := .inMemory [] }

theorem code_prefixFree : IncrementalParser.PrefixFree code :=
  .pair (by decide) (by decide)

def server : Server Unit where
  httparse := fun _ => .ofCode code code_prefixFree (by decide)
  handler := fun app _ => (some response, app)
  maxKeepalive := 100
  combineWrite := false

theorem parse_head : server.parse head = .complete head.length request :=
  IncrementalParser.codeParse_item code_prefixFree List.mem_cons_self

theorem parse_inner : server.parse inner = .complete inner.length innerRequest :=
  IncrementalParser.codeParse_item code_prefixFree
    (List.mem_cons_of_mem _ List.mem_cons_self)

theorem pending_nil : server.Pending [] :=
  IncrementalParser.ofCode_pending_nil code_prefixFree (by decide) List.mem_cons_self

theorem wire_chunked : ChunkedBody wire inner := by
  have hcode : asBytes (String.ofList (Nat.toDigits 16 inner.length)) ++ asBytes "\r\n"
      = asBytes "17\r\n" := by decide
  have h : ChunkedBody (asBytes (String.ofList (Nat.toDigits 16 inner.length)) ++
      asBytes "\r\n" ++ inner ++ asBytes "\r\n" ++ asBytes "0\r\n\r\n") (inner ++ []) :=
    .chunk (by decide) .last
  rw [List.append_nil, hcode] at h
  exact h

theorem contentLength_request : contentLength request.headers = .ok 4 :=
  contentLength_declared (by decide) (by decide)

/-- The bytes that stand where the second request should start. -/
theorem drop_head : (head ++ wire).drop (head.length + 4)
    = inner ++ (asBytes "\r\n" ++ asBytes "0\r\n\r\n") := by decide

/-- One read and one write later, the handler has been called twice: with the chunk's size
line as a body, and with the payload as a request. -/
theorem run_events : ∃ c n os, server.machine.run (Conn.new, ())
      [.poll, .read (head ++ wire), .wrote n] = some ((c, ()), os) ∧
    (calls os).map (fun call => call.2.body) = [asBytes "17\r\n", []] := by
  obtain ⟨c1, hstart, hi1, hserved1⟩ := Server.start_idle () pending_nil
  -- the first request is answered, with the size line for its body
  have hroom : c1.filled + (head ++ wire).length ≤ c1.buf.length := by
    have hlen : 0 + (head ++ wire).length ≤ initialBufCapacity := by decide
    rw [hi1.filled]
    exact hlen.trans hi1.capacity_le
  have hs1 : (c1.fill (head ++ wire)).Sized := hi1.toSized.fill hroom
  have hrec1 : (c1.fill (head ++ wire)).received = head ++ wire := by
    rw [Conn.fill_received hroom, hi1.received, List.nil_append]
  have hfilled1 : (c1.fill (head ++ wire)).filled = (head ++ wire).length := by
    rw [Conn.fill_filled, hi1.filled, Nat.zero_add]
  have hp1 : server.parse (c1.fill (head ++ wire)).received = .complete head.length request := by
    rw [hrec1]
    exact Server.parse_append_of_complete parse_head wire
  have hh1 : parsedHeaders request.headers =
      some [("Content-Length", "4"), ("Transfer-Encoding", "chunked")] := by
    simp [request, parsedHeaders, fromUtf8_asBytes]
  obtain ⟨c2, next, hreq1, hs2, hrec2, hserved2, hawait2, heff2, hafter2⟩ :=
    Server.nextRequest_answered server () hs1 hp1 contentLength_request (by decide)
      (by rw [hfilled1]; decide) hh1 rfl rfl
      (by rw [Conn.fill_requestsServed, hserved1]; decide)
  have hw1 : c1.Wakeup server () (.read (head ++ wire))
      (server.nextRequest () (c1.fill (head ++ wire))) :=
    .header hi1.await (by decide) hroom
  have hst1 := hw1.step
  rw [hreq1, hrec1] at hst1
  -- the loop goes on behind those four bytes
  have hrest : (c2.shift (head.length + 4)).received
      = inner ++ (asBytes "\r\n" ++ asBytes "0\r\n\r\n") := by
    rw [Conn.shift_received hs2.filled_le, hrec2, hrec1, drop_head]
  have hs2' : (c2.shift (head.length + 4)).Sized := hs2.shift _
  have hp2 : server.parse (c2.shift (head.length + 4)).received
      = .complete inner.length innerRequest := by
    rw [hrest]
    exact Server.parse_append_of_complete parse_inner _
  have hfilled2 : inner.length + 0 ≤ (c2.shift (head.length + 4)).filled := by
    rw [← Conn.length_received hs2'.filled_le, hrest]
    decide
  obtain ⟨c3, next', hreq2, -⟩ :=
    Server.nextRequest_answered server () hs2' hp2 rfl (Nat.zero_le _)
      hfilled2 rfl rfl rfl (by rw [Conn.shift_requestsServed, hserved2,
        Conn.fill_requestsServed, hserved1]; decide)
  have hw2 : c2.Wakeup server () (.wrote (Server.emptyBodyHead response).length)
      ((server.afterWrite () c2 next).after [next.effect (Server.emptyBodyHead response)]) :=
    .wroteAll hawait2 (List.length_pos_iff.mpr (serializeHead_ne_nil _))
  have hst2 := hw2.step
  rw [hafter2, Server.finishRequest, if_neg Bool.false_ne_true, hreq2] at hst2
  refine ⟨c3, _, _, Machine.run_cons hstart (Machine.run_cons hst1
    (Machine.run_cons hst2 (Machine.run_nil _ _))), ?_⟩
  rw [hrest]
  cases next <;> rfl

end Smuggled

namespace Server

variable {σ : Type} {srv : Server σ}

/-- **Requests are cut by `Content-Length` alone.**  In every run, the handler is called with
exactly the declared bytes behind each header block (none without a declared length), the
next block is looked for right behind them, and `Transfer-Encoding` fields change nothing. -/
theorem requests_cut_by_contentLength {app app' : σ} {es : List Event} {c : Conn}
    {os : List Effect} (h : srv.machine.run (Conn.new, app) es = some ((c, app'), os)) :
    (∃ s, srv.Served (calls os) (delivered es) s ∧ (¬ c.await.Ended → s = c.unserved)) ∧
      ∀ headers : List Header,
        contentLength (headers.filter fun header => !isTransferEncoding header)
          = contentLength headers :=
  ⟨served_of_run h, contentLengthFrom_filter none⟩

theorem requests_cut_smuggled : ∃ c n os,
    Smuggled.server.machine.run (Conn.new, ())
      [.poll, .read (Smuggled.head ++ Smuggled.wire), .wrote n] = some ((c, ()), os) ∧
    (calls os).map (fun call => call.2.body) = [asBytes "17\r\n", []] ∧
    (∃ s, Smuggled.server.Served (calls os) (Smuggled.head ++ Smuggled.wire) s ∧
      (¬ c.await.Ended → s = c.unserved)) ∧
    contentLength (Smuggled.request.headers.filter fun header => !isTransferEncoding header)
      = .ok 4 := by
  obtain ⟨c, n, os, hrun, hbodies⟩ := Smuggled.run_events
  obtain ⟨hserved, hfilter⟩ := requests_cut_by_contentLength hrun
  have hdelivered : delivered [.poll, .read (Smuggled.head ++ Smuggled.wire), .wrote n]
      = Smuggled.head ++ Smuggled.wire := List.append_nil _
  rw [hdelivered] at hserved
  exact ⟨c, n, os, hrun, hbodies, hserved, (hfilter _).trans Smuggled.contentLength_request⟩

end Server

/-- **Not what the chunked coding says.**  The stream is one request with a chunked body; the
handler is called with another body, and once more with a piece of the payload. -/
theorem chunked_body_not_honoured :
    ¬ ∀ (σ : Type) (srv : Server σ) (app app' : σ) (head wire payload : Bytes)
      (request : Request) (es : List Event) (c : Conn) (os : List Effect),
      srv.parse head = .complete head.length request →
      ⟨"Transfer-Encoding", asBytes "chunked"⟩ ∈ request.headers →
      ChunkedBody wire payload → delivered es = head ++ wire →
      srv.machine.run (Conn.new, app) es = some ((c, app'), os) →
      (calls os).map (fun call => call.2.body) <+: [payload] := by
  intro hall
  obtain ⟨c, n, os, hrun, hbodies⟩ := Smuggled.run_events
  have hprefix := hall Unit Smuggled.server () () Smuggled.head Smuggled.wire Smuggled.inner
    Smuggled.request _ c os Smuggled.parse_head
    (List.mem_cons_of_mem _ List.mem_cons_self) Smuggled.wire_chunked (by simp [delivered,
      Event.data]) hrun
  rw [hbodies] at hprefix
  exact absurd hprefix.length_le (by decide)

end HelixRack
