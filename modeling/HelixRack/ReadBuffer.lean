/-
# The invariant of the read buffer

What `buf[..filled]` holds at each await point of `handle`: nothing at first, an unfinished
header block while the header is read, a complete one from then until the response is out.
`Conn.Inv` says so, and `resume_inv` shows that every wakeup keeps it.  Everything proved
about whole runs of the task starts from here.
-/
import HelixRack.Connection

namespace HelixRack

/-! ## 1. The buffer under the connection's own operations -/

namespace Conn

variable (c : Conn)

@[simp] theorem suspend_buf (a : Await) : (c.suspend a).buf = c.buf := rfl
@[simp] theorem suspend_filled (a : Await) : (c.suspend a).filled = c.filled := rfl
@[simp] theorem suspend_await (a : Await) : (c.suspend a).await = a := rfl
@[simp] theorem suspend_requestsServed (a : Await) :
    (c.suspend a).requestsServed = c.requestsServed := rfl
@[simp] theorem suspend_received (a : Await) : (c.suspend a).received = c.received := rfl
@[simp] theorem exit_buf (e : Exit) : (c.exit e).buf = c.buf := rfl
@[simp] theorem exit_filled (e : Exit) : (c.exit e).filled = c.filled := rfl
@[simp] theorem exit_await (e : Exit) : (c.exit e).await = .ended e := rfl
@[simp] theorem fill_filled (data : Bytes) : (c.fill data).filled = c.filled + data.length := rfl
@[simp] theorem fill_requestsServed (data : Bytes) :
    (c.fill data).requestsServed = c.requestsServed := rfl
@[simp] theorem shift_filled (k : Nat) : (c.shift k).filled = c.filled - k := rfl
@[simp] theorem shift_requestsServed (k : Nat) :
    (c.shift k).requestsServed = c.requestsServed := rfl

variable {c}

theorem length_received (h : c.filled ≤ c.buf.length) : c.received.length = c.filled := by
  rw [received, List.length_take]
  omega

theorem fill_received {data : Bytes} (h : c.filled + data.length ≤ c.buf.length) :
    (c.fill data).received = c.received ++ data := take_overwriteAt h

theorem fill_buf_length {data : Bytes} (h : c.filled + data.length ≤ c.buf.length) :
    (c.fill data).buf.length = c.buf.length := length_overwriteAt h

theorem shift_received (h : c.filled ≤ c.buf.length) (k : Nat) :
    (c.shift k).received = c.received.drop k := take_copyWithin h

theorem shift_buf_length (h : c.filled ≤ c.buf.length) (k : Nat) :
    (c.shift k).buf.length = c.buf.length := length_copyWithin h

/-- The body slice `buf[consumed..body_end]` lies in what was received. -/
theorem buf_slice {consumed bodyLen : Nat} (h : consumed + bodyLen ≤ c.filled) :
    (c.buf.take (consumed + bodyLen)).drop consumed = (c.received.drop consumed).take bodyLen := by
  rw [received, List.drop_take, List.drop_take, List.take_take]
  congr 1
  omega

/-- `buf.resize(n, 0)` where that does not shrink the buffer. -/
def growTo (c : Conn) (n : Nat) : Conn :=
  { c with buf := if c.buf.length < n then resize c.buf n else c.buf }

@[simp] theorem growTo_filled (n : Nat) : (c.growTo n).filled = c.filled := rfl
@[simp] theorem growTo_requestsServed (n : Nat) :
    (c.growTo n).requestsServed = c.requestsServed := rfl
@[simp] theorem growTo_await (n : Nat) : (c.growTo n).await = c.await := rfl

theorem growTo_buf_length (n : Nat) : (c.growTo n).buf.length = max c.buf.length n := by
  simp only [growTo]
  split
  · rw [length_resize]; omega
  · omega

theorem growTo_received (h : c.filled ≤ c.buf.length) (n : Nat) :
    (c.growTo n).received = c.received := by
  simp only [received, growTo]
  split
  · exact take_resize h (by omega)
  · rfl

end Conn

/-! ## 2. What the buffer starts with -/

namespace Server

variable {σ : Type} (srv : Server σ)

/-- The bytes are the beginning of a header block. -/
def Pending (bytes : Bytes) : Prop := (srv.httparse maxHeaders).Pending bytes

/-- The bytes start with a header block of `consumed` bytes which declares an acceptable body
that ends at `bodyEnd`. -/
def Framed (bytes : Bytes) (consumed bodyEnd : Nat) : Prop :=
  ∃ request bodyLen, srv.parse bytes = .complete consumed request ∧
    contentLength request.headers = .ok bodyLen ∧ bodyLen ≤ maxBodyCapacity ∧
    bodyEnd = consumed + bodyLen

/-- How many requests one connection is answered: `requests_served >= max_keepalive` is
tested after a request was served, so a `max_keepalive` of 0 acts as 1. -/
def budget : Nat := max 1 srv.maxKeepalive

variable {srv}

theorem parse_append_of_complete {bytes : Bytes} {n : Nat} {request : Request}
    (h : srv.parse bytes = .complete n request) (more : Bytes) :
    srv.parse (bytes ++ more) = .complete n request :=
  (srv.httparse maxHeaders).complete_append more h

theorem parse_append_of_invalid {bytes : Bytes} (h : srv.parse bytes = .invalid)
    (more : Bytes) : srv.parse (bytes ++ more) = .invalid :=
  (srv.httparse maxHeaders).invalid_append more h

theorem parse_pos {bytes : Bytes} {n : Nat} {request : Request}
    (h : srv.parse bytes = .complete n request) : 0 < n :=
  (srv.httparse maxHeaders).complete_pos h

theorem parse_le {bytes : Bytes} {n : Nat} {request : Request}
    (h : srv.parse bytes = .complete n request) : n ≤ bytes.length :=
  (srv.httparse maxHeaders).complete_le h

theorem Pending.not_complete {bytes : Bytes} (h : srv.Pending bytes) {n : Nat}
    {request : Request} : srv.parse bytes ≠ .complete n request := by
  obtain ⟨out, h⟩ := h
  rw [parse, h]
  exact fun h => by cases h

theorem Pending.not_invalid {bytes : Bytes} (h : srv.Pending bytes) :
    srv.parse bytes ≠ .invalid := by
  obtain ⟨out, h⟩ := h
  rw [parse, h]
  exact fun h => by cases h

theorem Framed.append {bytes : Bytes} {consumed bodyEnd : Nat}
    (h : srv.Framed bytes consumed bodyEnd) (more : Bytes) :
    srv.Framed (bytes ++ more) consumed bodyEnd := by
  obtain ⟨request, bodyLen, hp, hrest⟩ := h
  exact ⟨request, bodyLen, parse_append_of_complete hp more, hrest⟩

theorem Framed.consumed_le {bytes : Bytes} {consumed bodyEnd : Nat}
    (h : srv.Framed bytes consumed bodyEnd) : 0 < consumed ∧ consumed ≤ bodyEnd := by
  obtain ⟨request, bodyLen, hp, -, -, rfl⟩ := h
  exact ⟨parse_pos hp, Nat.le_add_right _ _⟩

theorem Framed.complete {bytes : Bytes} {consumed bodyEnd : Nat}
    (h : srv.Framed bytes consumed bodyEnd) :
    ∃ request, srv.parse bytes = .complete consumed request := by
  obtain ⟨request, -, hp, -⟩ := h
  exact ⟨request, hp⟩

theorem one_le_budget : 1 ≤ srv.budget := Nat.le_max_left _ _

theorem maxKeepalive_le_budget : srv.maxKeepalive ≤ srv.budget := Nat.le_max_right _ _

end Server

/-! ## 3. The invariant -/

namespace Conn

variable {σ : Type} (srv : Server σ) (c : Conn)

/-- A request is answered: its body is buffered, and its response is under way. -/
structure Answering (bodyEnd : Nat) : Prop where
  framed : ∃ consumed, srv.Framed c.received consumed bodyEnd
  bodyEnd_le : bodyEnd ≤ c.filled

/-- ...with the head serialized, so that the request counts as served. -/
structure Replying (sending : Sending) : Prop extends c.Answering srv sending.bodyEnd where
  isLast : sending.isLastAllowedRequest = decide (c.requestsServed ≥ srv.maxKeepalive)
  served_le : c.requestsServed ≤ srv.budget

/-- What holds of the buffer while a `write_all` is pending. -/
def WriteInv : AfterWrite → Prop
  | .headerRejected => srv.Pending c.received ∧ maxBufCapacity ≤ c.filled
  | .requestRejected => ∃ n request, srv.parse c.received = .complete n request
  | .body sending | .chunk sending _ | .finish sending => c.Replying srv sending

/-- What holds of the buffer at each await point. -/
def AwaitInv : Await → Prop
  | .spawned => c.filled = 0 ∧ c.requestsServed < srv.budget
  | .readHeader => srv.Pending c.received ∧ c.filled < maxBufCapacity ∧
      c.filled < c.buf.length ∧ c.requestsServed < srv.budget
  | .readBody consumed bodyEnd => srv.Framed c.received consumed bodyEnd ∧
      c.filled < bodyEnd ∧ bodyEnd ≤ c.buf.length ∧ c.requestsServed < srv.budget
  | .metadata answer _ => c.Answering srv answer.bodyEnd ∧ c.requestsServed < srv.budget
  | .write rest next => rest ≠ [] ∧ c.WriteInv srv next
  | .seek sending _ | .readFile sending _ => c.Replying srv sending
  | .ended _ => True

/-- `filled` is within the buffer, and the buffer never shrinks below its first size. -/
structure Sized : Prop where
  filled_le : c.filled ≤ c.buf.length
  capacity_le : initialBufCapacity ≤ c.buf.length

/-- **The loop invariant of the read buffer.** -/
structure Inv : Prop extends c.Sized where
  atAwait : c.AwaitInv srv c.await

variable {srv c}

theorem Sized.suspend (h : c.Sized) (a : Await) : (c.suspend a).Sized := ⟨h.1, h.2⟩

theorem Sized.fill (h : c.Sized) {data : Bytes} (hd : c.filled + data.length ≤ c.buf.length) :
    (c.fill data).Sized := by
  refine ⟨?_, ?_⟩
  · rw [fill_filled, fill_buf_length hd]; exact hd
  · rw [fill_buf_length hd]; exact h.capacity_le

theorem Sized.shift (h : c.Sized) (k : Nat) : (c.shift k).Sized := by
  have hlen := shift_buf_length h.filled_le k
  refine ⟨?_, by rw [hlen]; exact h.capacity_le⟩
  have := h.filled_le
  rw [hlen, shift_filled]
  omega

theorem Sized.growTo (h : c.Sized) (n : Nat) : (c.growTo n).Sized := by
  have h1 := h.filled_le
  have h2 := h.capacity_le
  refine ⟨?_, ?_⟩ <;> rw [growTo_buf_length]
  · rw [growTo_filled]; omega
  · omega

theorem Answering.suspend {bodyEnd : Nat} (h : c.Answering srv bodyEnd) (a : Await) :
    (c.suspend a).Answering srv bodyEnd := ⟨h.framed, h.bodyEnd_le⟩

theorem Replying.suspend {sending : Sending} (h : c.Replying srv sending) (a : Await) :
    (c.suspend a).Replying srv sending :=
  { h.toAnswering.suspend a with isLast := h.isLast, served_le := h.served_le }

theorem WriteInv.suspend {next : AfterWrite} (h : c.WriteInv srv next) (a : Await) :
    (c.suspend a).WriteInv srv next := by
  cases next with
  | headerRejected => exact h
  | requestRejected => exact h
  | body sending => exact Replying.suspend h a
  | chunk sending file => exact Replying.suspend h a
  | finish sending => exact Replying.suspend h a

theorem Sized.inv_suspend (h : c.Sized) {a : Await} (ha : (c.suspend a).AwaitInv srv a) :
    (c.suspend a).Inv srv := { h.suspend a with atAwait := ha }

theorem Sized.inv_exit (h : c.Sized) (e : Exit) : (c.exit e).Inv srv :=
  h.inv_suspend trivial

theorem new_sized : Conn.new.Sized where
  filled_le := Nat.zero_le _
  capacity_le := by rw [Conn.new, List.length_replicate]

theorem new_inv : Conn.new.Inv srv :=
  { new_sized with atAwait := ⟨rfl, Server.one_le_budget⟩ }

end Conn

/-! ## 4. Every wakeup keeps it -/

namespace Server

variable {σ : Type} {srv : Server σ} {c : Conn} {app : σ}

theorem awaitHeader_of_ge (h : maxBufCapacity ≤ c.filled) :
    awaitHeader c = c.suspend (.write requestHeaderFieldsTooLarge .headerRejected) := by
  rw [awaitHeader, if_pos h]

/-- Below the cap the task goes back to reading, and there is room to read into. -/
theorem awaitHeader_of_lt (hs : c.Sized) (h : c.filled < maxBufCapacity) :
    ∃ buf, awaitHeader c = { c with buf, await := .readHeader } ∧
      buf.take c.filled = c.received ∧ c.filled < buf.length ∧ c.buf.length ≤ buf.length ∧
      buf.length ≤ max c.buf.length maxBufCapacity := by
  have h1 := hs.filled_le
  have h2 : 8192 ≤ c.buf.length := hs.capacity_le
  have h3 : c.filled < 65536 := h
  have hmax : maxBufCapacity = 65536 := rfl
  rw [awaitHeader, if_neg (by omega)]
  refine ⟨_, rfl, ?_⟩
  split
  · rw [length_resize]
    exact ⟨take_resize h1 (by omega), by omega, by omega, by omega⟩
  · exact ⟨rfl, by omega, by omega, by omega⟩

theorem startRequest_of_le {consumed bodyLen : Nat} (h : bodyLen ≤ maxBodyCapacity) :
    srv.startRequest app c consumed bodyLen =
      srv.fillBody app (c.growTo (consumed + bodyLen)) consumed (consumed + bodyLen) := by
  rw [startRequest, if_neg (by omega)]
  rfl

/-- **What the body loop and the second parse can come to**, for whatever is to be shown of it. -/
@[elab_as_elim]
theorem fillBody_elim (srv : Server σ) (app : σ) (c : Conn) (consumed bodyEnd : Nat)
    {motive : Poll σ → Prop}
    (read : c.filled < bodyEnd → motive ⟨c.suspend (.readBody consumed bodyEnd), app, []⟩)
    (invalid : motive ⟨c.exit (.invalidData .httparse), app, [.requestFinish]⟩)
    (badRequest : motive ⟨c.suspend (.write badRequestResponse .requestRejected), app, []⟩)
    (panicked : ∀ request app',
      motive ⟨c.exit .panicked, app', [.call consumed request none, .requestFinish]⟩)
    (called : ∀ request response app', bodyEnd ≤ c.filled →
      motive ⟨(srv.frameResponse c (.start bodyEnd request response)).1, app',
        .call consumed request (some response) ::
          (srv.frameResponse c (.start bodyEnd request response)).2⟩) :
    motive (srv.fillBody app c consumed bodyEnd) := by
  unfold fillBody
  split
  · rename_i hlt
    exact read hlt
  · rename_i hfilled
    unfold answerRequest
    split
    · exact invalid
    all_goals
      split
      · exact badRequest
      · unfold callHandler
        split
        · exact panicked _ _
        · exact called _ _ _ (not_lt.mp hfilled)

/-- **What the top of the inner loop can come to.** -/
@[elab_as_elim]
theorem nextRequest_elim (srv : Server σ) (app : σ) (c : Conn) {motive : Poll σ → Prop}
    (invalid : motive ⟨c.exit (.invalidData .httparse), app, []⟩)
    (pending : srv.Pending c.received → motive ⟨awaitHeader c, app, []⟩)
    (malformed : ∀ e, motive ⟨c.exit (.invalidData e), app, []⟩)
    (tooLarge : ∀ consumed request, srv.parse c.received = .complete consumed request →
      motive (Poll.after [.requestStart]
        ⟨c.suspend (.write payloadTooLargeResponse .requestRejected), app, []⟩))
    (framed : ∀ consumed request bodyLen, srv.parse c.received = .complete consumed request →
      contentLength request.headers = .ok bodyLen → bodyLen ≤ maxBodyCapacity →
      motive ((srv.fillBody app (c.growTo (consumed + bodyLen)) consumed
        (consumed + bodyLen)).after [.requestStart])) :
    motive (srv.nextRequest app c) := by
  unfold nextRequest
  split
  · exact invalid
  · rename_i out hp
    exact pending ⟨out, hp⟩
  · rename_i consumed request hp
    split
    · exact malformed _
    · rename_i bodyLen hl
      rcases Nat.lt_or_ge maxBodyCapacity bodyLen with hlong | hle
      · rw [startRequest, if_pos hlong]
        exact tooLarge consumed request hp
      · rw [startRequest_of_le hle]
        exact framed consumed request bodyLen hp hl hle

theorem awaitHeader_inv (hs : c.Sized) (hp : srv.Pending c.received)
    (hb : c.requestsServed < srv.budget) : (awaitHeader c).Inv srv := by
  rcases Nat.lt_or_ge c.filled maxBufCapacity with h | h
  · obtain ⟨buf, heq, hrec, hlt, hle, -⟩ := awaitHeader_of_lt hs h
    rw [heq]
    refine { filled_le := hlt.le, capacity_le := hs.capacity_le.trans hle, atAwait := ?_ }
    exact ⟨by rw [Conn.received, hrec]; exact hp, h, hlt, hb⟩
  · rw [awaitHeader_of_ge h]
    exact hs.inv_suspend ⟨by decide, hp, h⟩

theorem sendHead_inv {answer : Answer} (hs : c.Sized) (ha : c.Answering srv answer.bodyEnd)
    (hb : c.requestsServed < srv.budget) : (srv.sendHead c answer).Inv srv := by
  have hreply : ∀ (a : Await) (body : ResponseBody),
      ({ c with requestsServed := c.requestsServed + 1, await := a } : Conn).Replying srv
        { bodyEnd := answer.bodyEnd,
          isLastAllowedRequest := decide (c.requestsServed + 1 ≥ srv.maxKeepalive), body } :=
    fun a body => { framed := ha.framed, bodyEnd_le := ha.bodyEnd_le, isLast := rfl,
                    served_le := hb }
  refine { filled_le := hs.filled_le, capacity_le := hs.capacity_le, atAwait := ?_ }
  simp only [sendHead]
  split
  · exact ⟨serializeHead_ne_nil _, hreply _ _⟩
  · split
    · exact ⟨by simp [serializeHead_ne_nil], hreply _ _⟩
    · exact ⟨serializeHead_ne_nil _, hreply _ _⟩

theorem frameResponse_inv {answer : Answer} (hs : c.Sized)
    (ha : c.Answering srv answer.bodyEnd) (hb : c.requestsServed < srv.budget) :
    (srv.frameResponse c answer).1.Inv srv := by
  unfold frameResponse
  split
  · exact sendHead_inv hs ha hb
  · exact hs.inv_suspend ⟨ha.suspend _, hb⟩
  · exact hs.inv_exit _

theorem fillBody_inv {consumed bodyEnd : Nat} (hs : c.Sized)
    (hf : srv.Framed c.received consumed bodyEnd) (hle : bodyEnd ≤ c.buf.length)
    (hb : c.requestsServed < srv.budget) :
    (srv.fillBody app c consumed bodyEnd).conn.Inv srv := by
  refine fillBody_elim srv app c consumed bodyEnd ?read ?invalid ?badRequest ?panicked ?called
  case read =>
    intro hlt
    exact hs.inv_suspend ⟨hf, hlt, hle, hb⟩
  case invalid => exact hs.inv_exit _
  case badRequest => exact hs.inv_suspend ⟨by decide, consumed, hf.complete⟩
  case panicked =>
    intro request app'
    exact hs.inv_exit _
  case called =>
    intro request response app' hend
    exact frameResponse_inv hs ⟨⟨consumed, hf⟩, hend⟩ hb

/-- Wherever the inner loop starts from, the task stops at a good await point. -/
theorem nextRequest_inv (hs : c.Sized) (hb : c.requestsServed < srv.budget) :
    (srv.nextRequest app c).conn.Inv srv := by
  refine nextRequest_elim srv app c ?invalid ?pending ?malformed ?tooLarge ?framed
  case invalid => exact hs.inv_exit _
  case pending =>
    intro hp
    exact awaitHeader_inv hs hp hb
  case malformed =>
    intro e
    exact hs.inv_exit _
  case tooLarge =>
    intro consumed request hp
    rw [Poll.after_conn]
    exact hs.inv_suspend ⟨by decide, consumed, request, hp⟩
  case framed =>
    intro consumed request bodyLen hp hl hle
    refine fillBody_inv (hs.growTo _) ?_ ?_ hb
    · rw [Conn.growTo_received hs.filled_le]
      exact ⟨request, bodyLen, hp, hl, hle, rfl⟩
    · rw [Conn.growTo_buf_length]
      exact Nat.le_max_right _ _

theorem finishRequest_inv {sending : Sending} (hs : c.Sized) (hr : c.Replying srv sending) :
    (srv.finishRequest app c sending).conn.Inv srv := by
  rw [finishRequest, Poll.after_conn]
  split
  · exact hs.inv_exit _
  · rename_i hlast
    refine nextRequest_inv (hs.shift _) ?_
    have h : ¬ c.requestsServed ≥ srv.maxKeepalive := by
      rw [hr.isLast, decide_eq_true_iff] at hlast
      exact hlast
    exact lt_of_lt_of_le (Nat.lt_of_not_le h) maxKeepalive_le_budget

theorem writeBody_inv {sending : Sending} (hs : c.Sized) (hr : c.Replying srv sending) :
    (srv.writeBody app c sending).conn.Inv srv := by
  unfold writeBody
  split
  · split
    · exact finishRequest_inv hs hr
    · rename_i hne
      exact hs.inv_suspend ⟨hne, hr.suspend _⟩
  · split
    · exact hs.inv_exit _
    · exact hs.inv_suspend (hr.suspend _)

theorem afterWrite_inv {next : AfterWrite} (hs : c.Sized) (hn : c.WriteInv srv next) :
    (srv.afterWrite app c next).conn.Inv srv := by
  cases next with
  | headerRejected => exact hs.inv_exit _
  | requestRejected => exact hs.inv_exit _
  | body sending => exact writeBody_inv hs hn
  | chunk sending file => exact hs.inv_suspend (Conn.Replying.suspend hn _)
  | finish sending => exact finishRequest_inv hs hn

end Server

namespace Conn

variable {σ : Type} {srv : Server σ} {c : Conn} {app : σ}

/-- **Every wakeup keeps the invariant.** -/
theorem Wakeup.inv {event : Event} {p : Poll σ} (hi : c.Inv srv)
    (h : c.Wakeup srv app event p) : p.conn.Inv srv := by
  have hs := hi.toSized
  have ha := hi.atAwait
  cases h with
  | start hc =>
    rw [hc] at ha
    exact Server.nextRequest_inv hs ha.2
  | header hc hne hlen =>
    rw [hc] at ha
    exact Server.nextRequest_inv (hs.fill hlen) ha.2.2.2
  | body hc hne hlen =>
    rw [hc] at ha
    obtain ⟨hf, hlt, hle, hb⟩ := ha
    have hroom := hlen.trans hle
    refine Server.fillBody_inv (hs.fill hroom) ?_ ?_ hb
    · rw [fill_received hroom]; exact hf.append _
    · rw [fill_buf_length hroom]; exact hle
  | metadata hc hok =>
    rw [hc] at ha
    exact Server.sendHead_inv hs ha.1 ha.2
  | wrotePart hc hpos hlt =>
    rw [hc] at ha
    refine hs.inv_suspend ⟨?_, ha.2.suspend _⟩
    rw [ne_eq, List.drop_eq_nil_iff]
    omega
  | wroteAll hc hpos =>
    rw [hc] at ha
    exact Server.afterWrite_inv hs ha.2
  | seek hc hok =>
    rw [hc] at ha
    exact hs.inv_suspend (ha.suspend _)
  | chunk hc hpos hle hsize =>
    rw [hc] at ha
    refine hs.inv_suspend ⟨?_, ha.suspend _⟩
    rw [← List.length_pos_iff, List.length_take]
    omega
  | fileEnd hc hend hok =>
    rw [hc] at ha
    exact Server.finishRequest_inv hs ha
  | eof | readError | elapsed | metadataFault | writeError | seekFault | fileFault =>
    exact hs.inv_exit _

end Conn

/-- **Every state a run of the task reaches satisfies the invariant.** -/
theorem Server.run_inv {σ : Type} {srv : Server σ} {app app' : σ} {es : List Event} {c : Conn}
    {os : List Effect} (h : srv.machine.run (Conn.new, app) es = some ((c, app'), os)) :
    c.Inv srv :=
  Machine.run_invariant (I := fun s : Conn × σ => s.1.Inv srv) Conn.new_inv
    (fun _ _ _ _ hi hst => (Server.machine_step hst).inv hi) h

/-! ## 5. What the code between two await points leaves alone

Only a read and the shift change what has been received, and only the two `resize`s change
the buffer's length.  The handler is only called on the request the buffer starts with. -/

namespace Server

variable {σ : Type} {srv : Server σ} {c : Conn} {app : σ}

@[simp] theorem sendHead_buf (answer : Answer) : (srv.sendHead c answer).buf = c.buf := rfl
@[simp] theorem sendHead_filled (answer : Answer) :
    (srv.sendHead c answer).filled = c.filled := rfl

theorem frameResponse_buf (answer : Answer) :
    (srv.frameResponse c answer).1.buf = c.buf ∧
      (srv.frameResponse c answer).1.filled = c.filled := by
  unfold frameResponse
  split <;> exact ⟨rfl, rfl⟩

theorem fillBody_buf (consumed bodyEnd : Nat) :
    (srv.fillBody app c consumed bodyEnd).conn.buf = c.buf ∧
      (srv.fillBody app c consumed bodyEnd).conn.filled = c.filled := by
  refine fillBody_elim srv app c consumed bodyEnd ?read ?invalid ?badRequest ?panicked ?called
  case read => exact fun _ => ⟨rfl, rfl⟩
  case invalid => exact ⟨rfl, rfl⟩
  case badRequest => exact ⟨rfl, rfl⟩
  case panicked => exact fun _ _ => ⟨rfl, rfl⟩
  case called =>
    intro request response app' _
    exact frameResponse_buf _

theorem fillBody_received (consumed bodyEnd : Nat) :
    (srv.fillBody app c consumed bodyEnd).conn.received = c.received := by
  have h : (srv.fillBody app c consumed bodyEnd).conn.buf = c.buf ∧
      (srv.fillBody app c consumed bodyEnd).conn.filled = c.filled := fillBody_buf _ _
  rw [Conn.received, h.1, h.2, Conn.received]

/-- How the loop's top leaves the buffer: the same bytes, in a buffer that has grown to the
header cap or to the declared body at most. -/
theorem nextRequest_received (hs : c.Sized) :
    (srv.nextRequest app c).conn.received = c.received := by
  refine nextRequest_elim srv app c ?invalid ?pending ?malformed ?tooLarge ?framed
  case invalid => rfl
  case pending =>
    intro _
    rcases Nat.lt_or_ge c.filled maxBufCapacity with h | h
    · obtain ⟨buf, heq, hrec, -⟩ := awaitHeader_of_lt hs h
      rw [heq]
      exact hrec
    · rw [awaitHeader_of_ge h]
      rfl
  case malformed => exact fun _ => rfl
  case tooLarge => exact fun _ _ _ => rfl
  case framed =>
    intro consumed request bodyLen _ _ _
    rw [Poll.after_conn, fillBody_received, Conn.growTo_received hs.filled_le]

theorem nextRequest_buf_length (srv : Server σ) (app : σ) (hs : c.Sized) :
    (srv.nextRequest app c).conn.buf.length ≤ max c.buf.length maxBufCapacity ∨
      ∃ consumed bodyEnd, srv.Framed c.received consumed bodyEnd ∧
        (srv.nextRequest app c).conn.buf.length ≤ max c.buf.length bodyEnd := by
  refine nextRequest_elim srv app c ?invalid ?pending ?malformed ?tooLarge ?framed
  case invalid => exact Or.inl (Nat.le_max_left _ _)
  case pending =>
    intro _
    rcases Nat.lt_or_ge c.filled maxBufCapacity with h | h
    · obtain ⟨buf, heq, -, -, -, hle⟩ := awaitHeader_of_lt hs h
      rw [heq]
      exact Or.inl hle
    · rw [awaitHeader_of_ge h]
      exact Or.inl (Nat.le_max_left _ _)
  case malformed => exact fun _ => Or.inl (Nat.le_max_left _ _)
  case tooLarge => exact fun _ _ _ => Or.inl (Nat.le_max_left _ _)
  case framed =>
    intro consumed request bodyLen hp hl hle
    refine Or.inr ⟨consumed, consumed + bodyLen, ⟨request, bodyLen, hp, hl, hle, rfl⟩, ?_⟩
    rw [Poll.after_conn, (fillBody_buf _ _).1, Conn.growTo_buf_length]

theorem frameResponse_effects (answer : Answer) {e : Effect}
    (h : e ∈ (srv.frameResponse c answer).2) : e = .requestFinish := by
  unfold frameResponse at h
  split at h
  · cases h
  · cases h
  · exact List.mem_singleton.mp h

/-- The handler's call reports the header block it was made for. -/
theorem fillBody_call {consumed bodyEnd n : Nat} {request : ParsedRequest}
    {response : Option HandlerResponse} :
    .call n request response ∈ (srv.fillBody app c consumed bodyEnd).effects → n = consumed := by
  refine fillBody_elim srv app c consumed bodyEnd ?read ?invalid ?badRequest ?panicked ?called
  case read => exact fun _ h => absurd h List.not_mem_nil
  case invalid =>
    intro h
    cases List.mem_singleton.mp h
  case badRequest => exact fun h => absurd h List.not_mem_nil
  case panicked =>
    intro request' app' h
    simp only [List.mem_cons, Effect.call.injEq, reduceCtorEq, List.not_mem_nil, or_false] at h
    exact h.1
  case called =>
    intro request' response' app' _ h
    rcases List.mem_cons.mp h with h | h
    · simp only [Effect.call.injEq] at h
      exact h.1
    · cases frameResponse_effects _ h

theorem nextRequest_call {n : Nat} {request : ParsedRequest}
    {response : Option HandlerResponse} :
    .call n request response ∈ (srv.nextRequest app c).effects →
      ∃ r, srv.parse c.received = .complete n r := by
  refine nextRequest_elim srv app c ?invalid ?pending ?malformed ?tooLarge ?framed
  case invalid => exact fun h => absurd h List.not_mem_nil
  case pending => exact fun _ h => absurd h List.not_mem_nil
  case malformed => exact fun _ h => absurd h List.not_mem_nil
  case tooLarge =>
    intro consumed request' _ h
    cases List.mem_singleton.mp h
  case framed =>
    intro consumed request' bodyLen hp _ _ h
    rw [Poll.after_effects] at h
    rcases List.mem_append.mp h with h | h
    · cases List.mem_singleton.mp h
    · rw [fillBody_call h]
      exact ⟨request', hp⟩

end Server

end HelixRack
