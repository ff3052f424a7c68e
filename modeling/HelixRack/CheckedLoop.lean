/-
# The read loop with its checks

The definitions of `Connection` compute with natural numbers and lists that have no bounds.  Here
is the loop once more, with everything that Rust checks at run time, or that the loop takes for
granted, as a step that can fail: sums, products and differences of `usize`, the ranges of slices
and of `copy_within`, a read into an empty slice, a second parse that differs from the first.
`resume_agrees` says that none of it fails in the states of a run.  The one exception is an
allocation: a body that needs a buffer beyond `isize::MAX` bytes is more than a `Vec` can hold.
-/
import HelixRack.Finished
import HelixRack.Checks

namespace HelixRack

/-! ## 1. Checked operations -/

inductive Fault where
  /-- A sum or a product that is no `usize`. -/
  | overflow
  /-- A difference below 0. -/
  | underflow
  /-- A range that is not inside the buffer. -/
  | outOfRange
  /-- A read into an empty slice: its 0 would be taken for EOF. -/
  | emptyRead
  /-- The second parse does not find what the first has found. -/
  | reparse
  /-- `Vec::resize` beyond `isize::MAX` bytes. -/
  | capacityOverflow
  deriving DecidableEq, Repr

/-- `isize::MAX`, which no `Vec<u8>` is longer than. -/
def isizeMax : Nat := 2 ^ 63 - 1

namespace Checked

/-- `a + b`. -/
def add (a b : Nat) : Except Fault Nat :=
  if a + b ≤ usizeMax then .ok (a + b) else .error .overflow

/-- `a * b`. -/
def mul (a b : Nat) : Except Fault Nat :=
  if a * b ≤ usizeMax then .ok (a * b) else .error .overflow

/-- `a - b`. -/
def sub (a b : Nat) : Except Fault Nat :=
  if b ≤ a then .ok (a - b) else .error .underflow

/-- `&buf[start..stop]`. -/
def slice (buf : Bytes) (start stop : Nat) : Except Fault Bytes :=
  if start ≤ stop ∧ stop ≤ buf.length then .ok ((buf.take stop).drop start)
  else .error .outOfRange

/-- `buf.copy_within(start..stop, 0)`. -/
def copyWithin (buf : Bytes) (start stop : Nat) : Except Fault Bytes :=
  if start ≤ stop ∧ stop ≤ buf.length then .ok (HelixRack.copyWithin buf start stop)
  else .error .outOfRange

/-- `buf.resize(n, 0)`. -/
def resize (buf : Bytes) (n : Nat) : Except Fault Bytes :=
  if n ≤ isizeMax then .ok (HelixRack.resize buf n) else .error .capacityOverflow

/-- `socket.read(room)` is issued. -/
def readInto (room : Bytes) : Except Fault Unit :=
  if room = [] then .error .emptyRead else .ok ()

variable {a b n start stop : Nat} {buf room : Bytes}

theorem add_ok (h : a + b ≤ usizeMax) : add a b = .ok (a + b) := if_pos h
theorem mul_ok (h : a * b ≤ usizeMax) : mul a b = .ok (a * b) := if_pos h
theorem sub_ok (h : b ≤ a) : sub a b = .ok (a - b) := if_pos h

theorem slice_ok (h : start ≤ stop) (h' : stop ≤ buf.length) :
    slice buf start stop = .ok ((buf.take stop).drop start) := if_pos ⟨h, h'⟩

theorem copyWithin_ok (h : start ≤ stop) (h' : stop ≤ buf.length) :
    copyWithin buf start stop = .ok (HelixRack.copyWithin buf start stop) := if_pos ⟨h, h'⟩

theorem resize_ok (h : n ≤ isizeMax) : resize buf n = .ok (HelixRack.resize buf n) := if_pos h

theorem readInto_slice (h : start < stop) (h' : stop ≤ buf.length) :
    readInto ((buf.take stop).drop start) = .ok () := by
  refine if_neg fun hnil => ?_
  have hlength := congrArg List.length hnil
  rw [List.length_drop, List.length_take, List.length_nil] at hlength
  omega

theorem ok_bind {α β : Type} (x : α) (f : α → Except Fault β) : (Except.ok x >>= f) = f x := rfl

/-! ## 2. The loop -/

section Loop

variable {σ : Type} (srv : Server σ)

/-- From `Status::Partial` to the read. -/
def awaitHeader (c : Conn) : Except Fault Conn :=
  if c.filled ≥ maxBufCapacity then
    return c.suspend (.write requestHeaderFieldsTooLarge .headerRejected)
  else do
    let buf ← if c.filled = c.buf.length then do
        let doubled ← mul c.buf.length 2
        resize c.buf (min doubled maxBufCapacity)
      else pure c.buf
    readInto (← slice buf c.filled buf.length)
    return { c with buf, await := .readHeader }

/-- From `requests_served += 1` to the first write of the response. -/
def sendHead (c : Conn) (answer : Answer) : Except Fault Conn := do
  let served ← add c.requestsServed 1
  return { srv.sendHead c answer with requestsServed := served }

def frameResponse (c : Conn) (answer : Answer) : Except Fault (Conn × List Effect) :=
  match ensureFraming answer.response with
  | .framed response => do
    let c ← sendHead srv c { answer with response }
    return (c, [])
  | .awaitMetadata file => return (c.suspend (.metadata answer file), [])
  | .failed => return (c.exit .os, [.requestFinish])

def callHandler (app : σ) (c : Conn) (consumed bodyEnd : Nat) (request : ParsedRequest) :
    Except Fault (Poll σ) :=
  match srv.handler app request with
  | (none, app') => return ⟨c.exit .panicked, app', [.call consumed request none, .requestFinish]⟩
  | (some response, app') => do
    let (c', os) ← frameResponse srv c (.start bodyEnd request response)
    return ⟨c', app', .call consumed request (some response) :: os⟩

/-- The second parse must be complete again, and as long as the first. -/
def answerRequest (app : σ) (c : Conn) (consumed bodyEnd : Nat) : Except Fault (Poll σ) := do
  let bytes ← slice c.buf 0 c.filled
  match srv.parse bytes with
  | .invalid | .incomplete _ => throw .reparse
  | .complete n request =>
    if n ≠ consumed then throw .reparse
    else match parsedHeaders request.headers with
      | none => return ⟨c.suspend (.write badRequestResponse .requestRejected), app, []⟩
      | some headers => do
        let body ← slice c.buf consumed bodyEnd
        callHandler srv app c consumed bodyEnd (parsedRequest request headers body)

def fillBody (app : σ) (c : Conn) (consumed bodyEnd : Nat) : Except Fault (Poll σ) :=
  if c.filled < bodyEnd then do
    readInto (← slice c.buf c.filled bodyEnd)
    return ⟨c.suspend (.readBody consumed bodyEnd), app, []⟩
  else answerRequest srv app c consumed bodyEnd

def startRequest (app : σ) (c : Conn) (consumed bodyLen : Nat) : Except Fault (Poll σ) :=
  if bodyLen > maxBodyCapacity then
    return ⟨c.suspend (.write payloadTooLargeResponse .requestRejected), app, []⟩
  else do
    let bodyEnd ← add consumed bodyLen
    let buf ← if c.buf.length < bodyEnd then resize c.buf bodyEnd else pure c.buf
    fillBody srv app { c with buf } consumed bodyEnd

def nextRequest (app : σ) (c : Conn) : Except Fault (Poll σ) := do
  let bytes ← slice c.buf 0 c.filled
  match srv.parse bytes with
  | .invalid => return ⟨c.exit (.invalidData .httparse), app, []⟩
  | .incomplete _ => return ⟨← awaitHeader c, app, []⟩
  | .complete consumed request =>
    match contentLength request.headers with
    | .error e => return ⟨c.exit (.invalidData e), app, []⟩
    | .ok bodyLen => return (← startRequest srv app c consumed bodyLen).after [.requestStart]

def finishRequest (app : σ) (c : Conn) (sending : Sending) : Except Fault (Poll σ) :=
  if sending.isLastAllowedRequest then return ⟨c.exit .ok, app, [.requestFinish]⟩
  else do
    let buf ← copyWithin c.buf sending.bodyEnd c.filled
    let filled ← sub c.filled sending.bodyEnd
    return (← nextRequest srv app { c with buf, filled }).after [.requestFinish]

def writeBody (app : σ) (c : Conn) (sending : Sending) : Except Fault (Poll σ) :=
  match sending.body with
  | .inMemory bytes =>
    if bytes = [] then finishRequest srv app c sending
    else return ⟨c.suspend (.write bytes (.finish sending)), app, []⟩
  | .spooled file =>
    if .cloneForWrite ∈ file.faults then return ⟨c.exit .os, app, [.requestFinish]⟩
    else return ⟨c.suspend (.seek sending file), app, []⟩

def afterWrite (app : σ) (c : Conn) : AfterWrite → Except Fault (Poll σ)
  | .headerRejected => return ⟨c.exit .ok, app, []⟩
  | .requestRejected => return ⟨c.exit .ok, app, [.requestFinish]⟩
  | .body sending => writeBody srv app c sending
  | .chunk sending file => return ⟨c.suspend (.readFile sending file), app, []⟩
  | .finish sending => finishRequest srv app c sending

/-- `filled += read`, behind a read that has brought these bytes. -/
def fill (c : Conn) (data : Bytes) : Except Fault Conn := do
  let filled ← add c.filled data.length
  return { c with buf := overwriteAt c.buf c.filled data, filled }

/-- One wakeup. -/
def resume (app : σ) (c : Conn) (event : Event) : Except Fault (Option (Poll σ)) :=
  match c.await, event with
  | .spawned, .poll => some <$> nextRequest srv app c
  | .readHeader, .read data =>
    if data.length ≤ c.buf.length - c.filled then
      if data = [] then return some (c.leave app .ok)
      else do return some (← nextRequest srv app (← fill c data))
    else return none
  | .readBody consumed bodyEnd, .read data =>
    if data.length ≤ bodyEnd - c.filled then
      if data = [] then return some (c.leave app .ok)
      else do return some (← fillBody srv app (← fill c data) consumed bodyEnd)
    else return none
  | .metadata answer file, .ready =>
    if .metadata ∈ file.faults then return some (c.leave app .os)
    else do
      let response := answer.response.pushContentLength file.contents.length
      return some ⟨← sendHead srv c { answer with response }, app, []⟩
  | .write rest next, .wrote n =>
    if 0 < n ∧ n ≤ rest.length then do
      let p ← if n = rest.length then afterWrite srv app c next
        else pure ⟨c.suspend (.write (rest.drop n) next), app, []⟩
      return some (p.after [next.effect (rest.take n)])
    else return none
  | .readFile sending file, .fileRead n =>
    if n ≤ spooledBodyChunkSize ∧ n ≤ file.unread.length ∧ (n = 0 → file.unread = []) then
      if n = 0 then
        if file.faultsAtLimit then return some (c.leave app .os)
        else some <$> finishRequest srv app c sending
      else return some ⟨c.suspend
        (.write (file.unread.take n) (.chunk sending (file.advance n))), app, []⟩
    else return none
  -- no number of the loop is touched
  | _, event => return c.resume srv app event

end Loop

/-! ## 3. No check fails -/

section Agrees

variable {σ : Type} {srv : Server σ} {c : Conn} {app : σ}

/-- The checked code agrees with the plain one, in a buffer that a `Vec` can hold; or the buffer
would have to grow beyond that, for a request in the first `bound` bytes. -/
def Agrees (bound : Nat) (x : Except Fault (Poll σ)) (p : Poll σ) : Prop :=
  (x = .ok p ∧ p.conn.buf.length ≤ isizeMax) ∨
    (x = .error .capacityOverflow ∧ isizeMax < bound + maxBodyCapacity)

theorem Agrees.mono {bound bound' : Nat} {x : Except Fault (Poll σ)} {p : Poll σ}
    (h : Agrees bound x p) (hle : bound ≤ bound') : Agrees bound' x p := by
  rcases h with h | ⟨hfault, hlong⟩
  · exact Or.inl h
  · exact Or.inr ⟨hfault, by omega⟩

theorem Agrees.after {bound : Nat} {x : Except Fault (Poll σ)} {p : Poll σ}
    (h : Agrees bound x p) (os : List Effect) :
    Agrees bound (do return (← x).after os) (p.after os) := by
  rcases h with ⟨rfl, hfit⟩ | ⟨rfl, hlong⟩
  · exact Or.inl ⟨rfl, hfit⟩
  · exact Or.inr ⟨rfl, hlong⟩

theorem awaitHeader_eq (hs : c.Sized) : awaitHeader c = .ok (Server.awaitHeader c) := by
  have hfilled := hs.filled_le
  have hsize : 8192 ≤ c.buf.length := hs.capacity_le
  have hcap : maxBufCapacity = 65536 := rfl
  have husize : usizeMax = 18446744073709551615 := rfl
  have hisize : isizeMax = 9223372036854775807 := rfl
  unfold awaitHeader Server.awaitHeader
  split
  · rfl
  · rename_i hlt
    by_cases hfull : c.filled = c.buf.length
    · have hdoubled : mul c.buf.length 2 = .ok (c.buf.length * 2) := mul_ok (by omega)
      have hgrown : resize c.buf (min (c.buf.length * 2) maxBufCapacity) =
        .ok (HelixRack.resize c.buf (min (c.buf.length * 2) maxBufCapacity)) := resize_ok (by omega)
      have hroom : c.filled < (HelixRack.resize c.buf
          (min (c.buf.length * 2) maxBufCapacity)).length := by
        rw [length_resize]
        omega
      simp only [if_pos hfull, hdoubled, hgrown, ok_bind,
        slice_ok hroom.le (Nat.le_refl _), readInto_slice hroom (Nat.le_refl _)]
      rfl
    · have hroom : c.filled < c.buf.length := by omega
      simp only [if_neg hfull, pure_bind, slice_ok hroom.le (Nat.le_refl _), ok_bind,
        readInto_slice hroom (Nat.le_refl _)]
      rfl

theorem sendHead_eq (hb : c.requestsServed < usizeMax) (answer : Answer) :
    sendHead srv c answer = .ok (srv.sendHead c answer) := by
  rw [sendHead, add_ok (by omega)]
  rfl

theorem frameResponse_eq (hb : c.requestsServed < usizeMax) (answer : Answer) :
    frameResponse srv c answer = .ok (srv.frameResponse c answer) := by
  unfold frameResponse Server.frameResponse
  cases ensureFraming answer.response with
  | framed response =>
    simp only [sendHead_eq hb]
    rfl
  | awaitMetadata file => rfl
  | failed => rfl

theorem callHandler_eq (hb : c.requestsServed < usizeMax) (consumed bodyEnd : Nat)
    (request : ParsedRequest) : callHandler srv app c consumed bodyEnd request =
      .ok (srv.callHandler app c consumed bodyEnd request) := by
  unfold callHandler Server.callHandler
  cases srv.handler app request with
  | mk response app' =>
    cases response with
    | none => rfl
    | some response =>
      simp only [frameResponse_eq hb]
      rfl

/-- The second parse finds what the first has found, and the body is in the buffer. -/
theorem answerRequest_eq {consumed bodyEnd : Nat} (hs : c.Sized)
    (hf : srv.Framed c.received consumed bodyEnd) (hle : bodyEnd ≤ c.filled)
    (hb : c.requestsServed < usizeMax) : answerRequest srv app c consumed bodyEnd =
      .ok (srv.answerRequest app c consumed bodyEnd) := by
  have hend := hf.consumed_le
  obtain ⟨request, hp⟩ := hf.complete
  have hbytes : slice c.buf 0 c.filled = .ok c.received :=
    slice_ok (Nat.zero_le _) hs.filled_le
  have hbody : slice c.buf consumed bodyEnd = .ok ((c.buf.take bodyEnd).drop consumed) :=
    slice_ok hend.2 (hle.trans hs.filled_le)
  unfold answerRequest Server.answerRequest
  rw [hbytes, ok_bind]
  simp only [hp, ne_eq, not_true_eq_false, if_false]
  cases parsedHeaders request.headers with
  | none => rfl
  | some headers =>
    simp only [hbody, ok_bind]
    exact callHandler_eq hb _ _ _

theorem fillBody_eq {consumed bodyEnd : Nat} (hs : c.Sized)
    (hf : srv.Framed c.received consumed bodyEnd) (hle : bodyEnd ≤ c.buf.length)
    (hb : c.requestsServed < usizeMax) : fillBody srv app c consumed bodyEnd =
      .ok (srv.fillBody app c consumed bodyEnd) := by
  unfold fillBody Server.fillBody
  split
  · rename_i hlt
    simp only [slice_ok hlt.le hle, ok_bind, readInto_slice hlt hle]
    rfl
  · exact answerRequest_eq hs hf (by omega) hb

theorem startRequest_agrees {consumed bodyLen : Nat} {request : Request} (hs : c.Sized)
    (hfit : c.buf.length ≤ isizeMax) (hp : srv.parse c.received = .complete consumed request)
    (hl : contentLength request.headers = .ok bodyLen) (hb : c.requestsServed < usizeMax) :
    Agrees c.filled (startRequest srv app c consumed bodyLen)
      (srv.startRequest app c consumed bodyLen) := by
  have hconsumed := Server.parse_le hp
  rw [Conn.length_received hs.filled_le] at hconsumed
  have hfilled := hs.filled_le
  have hcap : maxBodyCapacity < 2 ^ 32 := by decide
  have hisize : isizeMax = 2 ^ 63 - 1 := rfl
  have husize : usizeMax = 2 ^ 64 - 1 := rfl
  rcases Nat.lt_or_ge maxBodyCapacity bodyLen with hlong | hshort
  · rw [startRequest, Server.startRequest, if_pos hlong, if_pos hlong]
    exact Or.inl ⟨rfl, hfit⟩
  have hframed : srv.Framed (c.growTo (consumed + bodyLen)).received consumed
      (consumed + bodyLen) := by
    rw [Conn.growTo_received hs.filled_le]
    exact ⟨request, bodyLen, hp, hl, hshort, rfl⟩
  have hgrown := Conn.growTo_buf_length (c := c) (consumed + bodyLen)
  have hfill : fillBody srv app (c.growTo (consumed + bodyLen)) consumed (consumed + bodyLen) =
      .ok (srv.fillBody app (c.growTo (consumed + bodyLen)) consumed (consumed + bodyLen)) :=
    fillBody_eq (hs.growTo _) hframed (by omega) hb
  have hbuf : (srv.fillBody app (c.growTo (consumed + bodyLen)) consumed
      (consumed + bodyLen)).conn.buf = (c.growTo (consumed + bodyLen)).buf :=
    (Server.fillBody_buf _ _).1
  rw [Server.startRequest_of_le hshort, startRequest, if_neg (by omega), add_ok (by omega), ok_bind]
  by_cases hgrow : c.buf.length < consumed + bodyLen
  · rcases Nat.lt_or_ge isizeMax (consumed + bodyLen) with hover | hok
    · refine Or.inr ⟨?_, by omega⟩
      rw [if_pos hgrow, resize, if_neg (by omega)]
      rfl
    · refine Or.inl ⟨?_, by rw [hbuf]; omega⟩
      rw [if_pos hgrow, resize_ok hok, ok_bind, ← hfill, Conn.growTo, if_pos hgrow]
  · refine Or.inl ⟨?_, by rw [hbuf]; omega⟩
    rw [if_neg hgrow, pure_bind, ← hfill, Conn.growTo, if_neg hgrow]

theorem nextRequest_agrees (hs : c.Sized) (hfit : c.buf.length ≤ isizeMax)
    (hb : c.requestsServed < usizeMax) :
    Agrees c.filled (nextRequest srv app c) (srv.nextRequest app c) := by
  have hbytes : slice c.buf 0 c.filled = .ok c.received :=
    slice_ok (Nat.zero_le _) hs.filled_le
  unfold nextRequest Server.nextRequest
  rw [hbytes, ok_bind]
  cases hp : srv.parse c.received with
  | invalid => exact Or.inl ⟨rfl, hfit⟩
  | incomplete out =>
    refine Or.inl ⟨?_, ?_⟩
    · simp only [awaitHeader_eq hs]
      rfl
    · rcases Nat.lt_or_ge c.filled maxBufCapacity with hlt | hge
      · obtain ⟨buf, heq, -, -, -, hle⟩ := Server.awaitHeader_of_lt hs hlt
        have hcap : maxBufCapacity ≤ isizeMax := by decide
        simp only [heq]
        omega
      · simp only [Server.awaitHeader_of_ge hge]
        exact hfit
  | complete consumed request =>
    cases hl : contentLength request.headers with
    | error e => exact Or.inl ⟨by simp only [hl]; rfl, by simp only [hl]; exact hfit⟩
    | ok bodyLen =>
      simp only [hl]
      exact (startRequest_agrees hs hfit hp hl hb).after _

theorem finishRequest_agrees {sending : Sending} (hs : c.Sized) (hr : c.Replying srv sending)
    (hfit : c.buf.length ≤ isizeMax) (hk : srv.maxKeepalive ≤ usizeMax) :
    Agrees c.filled (finishRequest srv app c sending) (srv.finishRequest app c sending) := by
  unfold finishRequest Server.finishRequest
  split
  · exact Or.inl ⟨rfl, hfit⟩
  · rename_i hlast
    have hserved : c.requestsServed < srv.maxKeepalive := by
      rw [hr.isLast, decide_eq_true_iff] at hlast
      omega
    have hnext : Agrees (c.shift sending.bodyEnd).filled
        (nextRequest srv app (c.shift sending.bodyEnd))
        (srv.nextRequest app (c.shift sending.bodyEnd)) := by
      refine nextRequest_agrees (hs.shift _) ?_ (lt_of_lt_of_le hserved hk)
      rw [Conn.shift_buf_length hs.filled_le]
      exact hfit
    simp only [copyWithin_ok hr.bodyEnd_le hs.filled_le, sub_ok hr.bodyEnd_le, ok_bind]
    exact (hnext.mono (Nat.sub_le _ _)).after _

theorem afterWrite_agrees {next : AfterWrite} (hs : c.Sized) (hn : c.WriteInv srv next)
    (hfit : c.buf.length ≤ isizeMax) (hk : srv.maxKeepalive ≤ usizeMax) :
    Agrees c.filled (afterWrite srv app c next) (srv.afterWrite app c next) := by
  cases next with
  | headerRejected => exact Or.inl ⟨rfl, hfit⟩
  | requestRejected => exact Or.inl ⟨rfl, hfit⟩
  | body sending =>
    simp only [afterWrite, Server.afterWrite, writeBody, Server.writeBody]
    cases sending.body with
    | inMemory bytes =>
      by_cases hnil : bytes = []
      · simp only [if_pos hnil]
        exact finishRequest_agrees hs hn hfit hk
      · simp only [if_neg hnil]
        exact Or.inl ⟨rfl, hfit⟩
    | spooled file =>
      by_cases hclone : FileOp.cloneForWrite ∈ file.faults
      · simp only [if_pos hclone]
        exact Or.inl ⟨rfl, hfit⟩
      · simp only [if_neg hclone]
        exact Or.inl ⟨rfl, hfit⟩
  | chunk sending file => exact Or.inl ⟨rfl, hfit⟩
  | finish sending => exact finishRequest_agrees hs hn hfit hk

/-- As `Agrees`, for a wakeup, which the event may not belong to. -/
def Resumes (bound : Nat) (x : Except Fault (Option (Poll σ))) (q : Option (Poll σ)) : Prop :=
  (x = .ok q ∧ ∀ p, q = some p → p.conn.buf.length ≤ isizeMax) ∨
    (x = .error .capacityOverflow ∧ isizeMax < bound + maxBodyCapacity)

theorem Agrees.resumes {bound : Nat} {x : Except Fault (Poll σ)} {p : Poll σ}
    (h : Agrees bound x p) : Resumes bound (some <$> x) (some p) := by
  rcases h with ⟨rfl, hfit⟩ | ⟨rfl, hlong⟩
  · refine Or.inl ⟨rfl, ?_⟩
    rintro _ ⟨⟩
    exact hfit
  · exact Or.inr ⟨rfl, hlong⟩

theorem map_after (x : Except Fault (Poll σ)) (os : List Effect) :
    (do let p ← x; return some (p.after os)) = some <$> (do return (← x).after os) := by
  cases x <;> rfl

theorem Resumes.of_none {bound : Nat} :
    Resumes bound (.ok none) (none : Option (Poll σ)) := Or.inl ⟨rfl, nofun⟩

/-- The wakeup computes nothing, and leaves the buffer. -/
theorem Resumes.of_buf {bound : Nat} {p : Poll σ} (hfit : c.buf.length ≤ isizeMax)
    (hbuf : p.conn.buf = c.buf) : Resumes bound (.ok (some p)) (some p) := by
  refine Or.inl ⟨rfl, ?_⟩
  rintro _ ⟨⟩
  rw [hbuf]
  exact hfit

theorem fill_eq {data : Bytes} (hlen : c.filled + data.length ≤ c.buf.length)
    (hfit : c.buf.length ≤ isizeMax) : fill c data = .ok (c.fill data) := by
  have hmax : isizeMax ≤ usizeMax := by decide
  rw [fill, add_ok (by omega)]
  rfl

theorem fill_fits {data : Bytes} (hlen : c.filled + data.length ≤ c.buf.length)
    (hfit : c.buf.length ≤ isizeMax) : (c.fill data).buf.length ≤ isizeMax := by
  rw [Conn.fill_buf_length hlen]
  exact hfit

theorem budget_le (hk : srv.maxKeepalive ≤ usizeMax) : srv.budget ≤ usizeMax :=
  max_le (by decide) hk

/-- **No check fails** in a wakeup, but for an allocation that no `Vec` could make. -/
theorem resume_agrees (hi : c.Inv srv) (hfit : c.buf.length ≤ isizeMax)
    (hk : srv.maxKeepalive ≤ usizeMax) (e : Event) :
    Resumes (c.filled + e.data.length) (resume srv app c e) (c.resume srv app e) := by
  have hs := hi.toSized
  have ha := hi.atAwait
  have hbudget := budget_le hk
  have hfilled := hs.filled_le
  unfold resume
  split
  · rename_i hc
    rw [hc] at ha
    simp only [Conn.resume, hc]
    exact (nextRequest_agrees hs hfit (lt_of_lt_of_le ha.2 hbudget)).resumes
  · rename_i data hc
    rw [hc] at ha
    simp only [Conn.resume, hc]
    split
    · rename_i hroom
      have hlen : c.filled + data.length ≤ c.buf.length := by omega
      by_cases hnil : data = []
      · simp only [if_pos hnil]
        exact .of_buf hfit rfl
      · simp only [if_neg hnil, fill_eq hlen hfit, ok_bind]
        exact (nextRequest_agrees (hs.fill hlen) (fill_fits hlen hfit)
          (lt_of_lt_of_le ha.2.2.2 hbudget)).resumes
    · exact .of_none
  · rename_i consumed bodyEnd data hc
    rw [hc] at ha
    obtain ⟨hf, hlt, hle, hserved⟩ := ha
    simp only [Conn.resume, hc]
    split
    · rename_i hroom
      have hlen : c.filled + data.length ≤ c.buf.length := by omega
      by_cases hnil : data = []
      · simp only [if_pos hnil]
        exact .of_buf hfit rfl
      · have hframed : srv.Framed (c.fill data).received consumed bodyEnd := by
          rw [Conn.fill_received hlen]
          exact hf.append data
        have hfill : fillBody srv app (c.fill data) consumed bodyEnd =
            .ok (srv.fillBody app (c.fill data) consumed bodyEnd) := by
          refine fillBody_eq (hs.fill hlen) hframed ?_ (lt_of_lt_of_le hserved hbudget)
          rw [Conn.fill_buf_length hlen]
          exact hle
        simp only [if_neg hnil, fill_eq hlen hfit, ok_bind, hfill]
        refine .of_buf (c := c.fill data) (fill_fits hlen hfit) (Server.fillBody_buf _ _).1
    · exact .of_none
  · rename_i answer file hc
    rw [hc] at ha
    simp only [Conn.resume, hc]
    split
    · exact .of_buf hfit rfl
    · simp only [sendHead_eq (lt_of_lt_of_le ha.2 hbudget), ok_bind]
      exact .of_buf hfit rfl
  · rename_i rest next n hc
    rw [hc] at ha
    simp only [Conn.resume, hc]
    split
    · by_cases hall : n = rest.length
      · simp only [if_pos hall, map_after]
        exact (((afterWrite_agrees hs ha.2 hfit hk).mono (Nat.le_add_right _ _)).after _).resumes
      · simp only [if_neg hall]
        exact .of_buf hfit rfl
    · exact .of_none
  · rename_i sending file n hc
    rw [hc] at ha
    simp only [Conn.resume, hc]
    split
    · by_cases hzero : n = 0
      · simp only [if_pos hzero]
        cases file.faultsAtLimit with
        | true => exact .of_buf hfit rfl
        | false =>
          exact ((finishRequest_agrees hs ha hfit hk).mono (Nat.le_add_right _ _)).resumes
      · simp only [if_neg hzero]
        exact .of_buf hfit rfl
    · exact .of_none
  · refine Or.inl ⟨rfl, fun p hp => ?_⟩
    rename_i hstart hheader hbody hmetadata hwrite hfile
    cases Conn.resume_cases hp with
    | start hc => exact (hstart hc rfl).elim
    | header hc => exact (hheader _ hc rfl).elim
    | body hc => exact (hbody _ _ _ hc rfl).elim
    | eof hc =>
      rcases hc with hc | ⟨k, n, hc⟩
      · exact (hheader _ hc rfl).elim
      · exact (hbody _ _ _ hc rfl).elim
    | metadata hc | metadataFault hc => exact (hmetadata _ _ hc rfl).elim
    | wrotePart hc | wroteAll hc => exact (hwrite _ _ _ hc rfl).elim
    | chunk hc | fileEnd hc | fileFault hc => exact (hfile _ _ _ hc rfl).elim
    | readError | elapsed | writeError | seek | seekFault => exact hfit

end Agrees

end Checked

end HelixRack
