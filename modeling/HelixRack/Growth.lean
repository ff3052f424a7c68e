/-
# How far a connection's buffer grows

`buf` is never made smaller while a connection lives.  It is doubled up to `MAX_BUF_CAPACITY`
while a head comes in, and otherwise grows only when a request is started, by no more than the body
that the request declares (`Begins.room`).  No more requests are started than `max_keepalive`
allows to be answered (`Begins.budget`).  So there is a bound for every client
(`buffer_within_budget`), whatever the sizes and the order of its reads.
-/
import HelixRack.Isolation

namespace HelixRack

/-! ## 1. The requests a task starts -/

/-- How many requests were counted in. -/
def started (os : List Effect) : Nat := os.count .requestStart

@[simp] theorem started_nil : started [] = 0 := rfl
@[simp] theorem started_start : started [.requestStart] = 1 := rfl
@[simp] theorem started_finish : started [.requestFinish] = 0 := rfl

theorem started_append (os os' : List Effect) :
    started (os ++ os') = started os + started os' := List.count_append

@[simp] theorem started_write (next : AfterWrite) (bytes : Bytes) :
    started [next.effect bytes] = 0 := by
  cases next <;> rfl

@[simp] theorem started_dropGuard (a : Await) : started a.dropGuard = 0 := by
  rcases dropGuard_cases a with h | h <;> rw [h] <;> rfl

/-- How many requests a task has started, as its await point tells. -/
def Conn.begun (c : Conn) : Nat :=
  match c.await with
  | .readBody _ _ | .metadata _ _ | .write _ .requestRejected => c.requestsServed + 1
  | _ => c.requestsServed

/-! ## 2. What a wakeup starts -/

namespace Server

variable {σ : Type} {srv : Server σ} {c : Conn} {app : σ} {room k : Nat}

/-- What a piece of the task starts, from a buffer of `room` bytes and with `k` requests started
before it. -/
structure Begins (srv : Server σ) (room k : Nat) (p : Poll σ) : Prop where
  room : p.conn.buf.length ≤ max room maxBufCapacity + maxBodyCapacity * started p.effects
  count : ¬ p.conn.await.Ended → p.conn.begun = k + started p.effects
  budget : k + started p.effects ≤ srv.budget

namespace Begins

variable {p : Poll σ}

theorem after (h : srv.Begins room k p) {os : List Effect} (hos : started os = 0) :
    srv.Begins room k (p.after os) := by
  have hstarted : started (p.after os).effects = started p.effects := by
    rw [Poll.after_effects, started_append, hos, Nat.zero_add]
  refine ⟨?_, ?_, ?_⟩ <;> rw [hstarted]
  · exact h.room
  · exact h.count
  · exact h.budget

/-- Nothing is started, and the buffer stays. -/
theorem quiet (hroom : p.conn.buf.length ≤ max room maxBufCapacity) (hk : k ≤ srv.budget)
    (hstarted : started p.effects = 0) (hcount : ¬ p.conn.await.Ended → p.conn.begun = k) :
    srv.Begins room k p := by
  refine ⟨?_, ?_, ?_⟩ <;> rw [hstarted]
  · exact hroom.trans (Nat.le_add_right _ _)
  · exact hcount
  · exact hk

end Begins

theorem sendHead_begun (answer : Answer) :
    (srv.sendHead c answer).begun = c.requestsServed + 1 := by
  obtain ⟨bytes, next, heq, sending, -, -, hcase⟩ := sendHead_cases srv c answer
  rw [heq]
  rcases hcase with ⟨-, -, rfl⟩ | ⟨-, rfl, -⟩ | ⟨-, -, rfl⟩ <;> rfl

/-- From `request_start` on, one more is started until it is answered. -/
theorem fillBody_begun (srv : Server σ) (app : σ) (c : Conn) (consumed bodyEnd : Nat) :
    (srv.fillBody app c consumed bodyEnd).conn.buf = c.buf ∧
      started (srv.fillBody app c consumed bodyEnd).effects = 0 ∧
      (¬ (srv.fillBody app c consumed bodyEnd).conn.await.Ended →
        (srv.fillBody app c consumed bodyEnd).conn.begun = c.requestsServed + 1) := by
  refine ⟨(fillBody_buf _ _).1, ?_⟩
  refine fillBody_elim srv app c consumed bodyEnd ?read ?invalid ?badRequest ?panicked ?called
  case read => exact fun _ => ⟨rfl, fun _ => rfl⟩
  case invalid => exact ⟨rfl, fun hn => absurd ⟨_, rfl⟩ hn⟩
  case badRequest => exact ⟨rfl, fun _ => rfl⟩
  case panicked => exact fun _ _ => ⟨rfl, fun hn => absurd ⟨_, rfl⟩ hn⟩
  case called =>
    intro request response app' _
    unfold frameResponse
    split
    · exact ⟨rfl, fun _ => sendHead_begun _⟩
    · exact ⟨rfl, fun _ => rfl⟩
    · exact ⟨rfl, fun hn => absurd ⟨_, rfl⟩ hn⟩

/-- At the top of the inner loop one request may be started, and the buffer made room for its
body. -/
theorem nextRequest_begins (app : σ) (hs : c.Sized) (hb : c.requestsServed < srv.budget) :
    srv.Begins c.buf.length c.requestsServed (srv.nextRequest app c) := by
  refine nextRequest_elim srv app c ?invalid ?pending ?malformed ?tooLarge ?framed
  case invalid =>
    exact .quiet (Nat.le_max_left _ _) hb.le rfl fun hn => absurd ⟨_, rfl⟩ hn
  case pending =>
    intro _
    rcases Nat.lt_or_ge c.filled maxBufCapacity with h | h
    · obtain ⟨buf, heq, -, -, -, hle⟩ := awaitHeader_of_lt hs h
      rw [heq]
      exact .quiet hle hb.le rfl fun _ => rfl
    · rw [awaitHeader_of_ge h]
      exact .quiet (Nat.le_max_left _ _) hb.le rfl fun _ => rfl
  case malformed =>
    exact fun _ => .quiet (Nat.le_max_left _ _) hb.le rfl fun hn => absurd ⟨_, rfl⟩ hn
  case tooLarge =>
    intro _ _ _
    exact ⟨(Nat.le_max_left _ _).trans (Nat.le_add_right _ _), fun _ => rfl, hb⟩
  case framed =>
    intro consumed request bodyLen hp _ hle
    obtain ⟨hbuf, hstarted, hbegun⟩ := fillBody_begun srv app (c.growTo (consumed + bodyLen))
      consumed (consumed + bodyLen)
    have hone : started ((srv.fillBody app (c.growTo (consumed + bodyLen)) consumed
        (consumed + bodyLen)).after [.requestStart]).effects = 1 := by
      rw [Poll.after_effects, started_append, started_start, hstarted]
    -- the head lies in the buffer, so there is only the body to make room for
    have hconsumed : consumed ≤ c.buf.length := by
      have hlen := parse_le hp
      rw [Conn.length_received hs.filled_le] at hlen
      exact hlen.trans hs.filled_le
    refine ⟨?_, ?_, ?_⟩ <;> rw [hone]
    · rw [Poll.after_conn, hbuf, Conn.growTo_buf_length]
      omega
    · exact hbegun
    · exact hb

theorem finishRequest_begins {sending : Sending} (hs : c.Sized) (hr : c.Replying srv sending) :
    srv.Begins c.buf.length c.requestsServed (srv.finishRequest app c sending) := by
  unfold finishRequest
  refine Begins.after ?_ rfl
  split
  · exact .quiet (Nat.le_max_left _ _) hr.served_le rfl fun hn => absurd ⟨_, rfl⟩ hn
  · rename_i hmore
    have hb : (c.shift sending.bodyEnd).requestsServed < srv.budget := by
      rw [hr.isLast, decide_eq_true_eq] at hmore
      rw [Conn.shift_requestsServed]
      exact (not_le.mp hmore).trans_le maxKeepalive_le_budget
    have hnext := nextRequest_begins app (hs.shift sending.bodyEnd) hb
    rw [Conn.shift_buf_length hs.filled_le] at hnext
    exact hnext

theorem afterWrite_begins {next : AfterWrite} (hs : c.Sized) (hn : c.WriteInv srv next)
    {rest : Bytes} (hc : c.await = .write rest next) (hk : c.begun ≤ srv.budget) :
    srv.Begins c.buf.length c.begun (srv.afterWrite app c next) := by
  have hstays : ∀ {p : Poll σ}, p.conn.buf = c.buf → started p.effects = 0 →
      (¬ p.conn.await.Ended → p.conn.begun = c.begun) → srv.Begins c.buf.length c.begun p := by
    intro p hbuf hstarted hcount
    exact .quiet (by rw [hbuf]; exact Nat.le_max_left _ _) hk hstarted hcount
  cases next with
  | headerRejected | requestRejected => exact hstays rfl rfl fun hn => absurd ⟨_, rfl⟩ hn
  | chunk sending file => exact hstays rfl rfl fun _ => by rw [Conn.begun, Conn.begun, hc]; rfl
  | finish sending =>
    have hbegun : c.begun = c.requestsServed := by rw [Conn.begun, hc]
    rw [hbegun]
    exact finishRequest_begins hs hn
  | body sending =>
    have hbegun : c.begun = c.requestsServed := by rw [Conn.begun, hc]
    simp only [afterWrite, writeBody]
    split
    · split
      · rw [hbegun]
        exact finishRequest_begins hs hn
      · exact hstays rfl rfl fun _ => by rw [hbegun]; rfl
    · split
      · exact hstays rfl rfl fun hn => absurd ⟨_, rfl⟩ hn
      · exact hstays rfl rfl fun _ => by rw [hbegun]; rfl

/-- **What a wakeup starts.** -/
theorem wakeup_begins {e : Event} {p : Poll σ} (hi : c.Inv srv) (hk : c.begun ≤ srv.budget)
    (hw : c.Wakeup srv app e p) : srv.Begins c.buf.length c.begun p := by
  have hs := hi.toSized
  have ha := hi.atAwait
  have hstays : ∀ {p : Poll σ}, p.conn.buf = c.buf → started p.effects = 0 →
      (¬ p.conn.await.Ended → p.conn.begun = c.begun) → srv.Begins c.buf.length c.begun p := by
    intro p hbuf hstarted hcount
    exact .quiet (by rw [hbuf]; exact Nat.le_max_left _ _) hk hstarted hcount
  have hleave : ∀ x, srv.Begins c.buf.length c.begun (c.leave app x) :=
    fun x => hstays rfl (started_dropGuard _) fun hn => absurd ⟨_, rfl⟩ hn
  cases hw with
  | start hc =>
    rw [hc] at ha
    have hbegun : c.begun = c.requestsServed := by rw [Conn.begun, hc]
    rw [hbegun]
    exact nextRequest_begins app hs ha.2
  | @header data hc hne hlen =>
    rw [hc] at ha
    have hbegun : c.begun = c.requestsServed := by rw [Conn.begun, hc]
    have hnext := nextRequest_begins app (hs.fill hlen) ha.2.2.2
    rw [Conn.fill_buf_length hlen] at hnext
    rw [hbegun]
    exact hnext
  | @body consumed bodyEnd data hc hne hlen =>
    rw [hc] at ha
    have hbegun : c.begun = c.requestsServed + 1 := by rw [Conn.begun, hc]
    obtain ⟨hbuf, hstarted, hcount⟩ := fillBody_begun srv app (c.fill data) consumed bodyEnd
    refine .quiet ?_ hk hstarted fun hn => (hcount hn).trans hbegun.symm
    rw [hbuf, Conn.fill_buf_length (hlen.trans ha.2.2.1)]
    exact Nat.le_max_left _ _
  | metadata hc hok =>
    exact hstays rfl rfl fun _ => (sendHead_begun _).trans (by rw [Conn.begun, hc])
  | @wrotePart rest next n hc hpos hlt =>
    refine hstays rfl (started_write _ _) fun _ => ?_
    rw [Conn.begun, Conn.begun, hc]
    cases next <;> rfl
  | wroteAll hc hpos =>
    rw [hc] at ha
    exact (afterWrite_begins hs ha.2 hc hk).after (started_write _ _)
  | seek hc hok | chunk hc hpos hle hsize =>
    exact hstays rfl rfl fun _ => by rw [Conn.begun, Conn.begun, hc]; rfl
  | @fileEnd sending file hc hend hok =>
    rw [hc] at ha
    have hbegun : c.begun = c.requestsServed := by rw [Conn.begun, hc]
    rw [hbegun]
    exact finishRequest_begins hs ha
  | eof | readError | elapsed | metadataFault | writeError | seekFault | fileFault =>
    exact hleave _

/-! ## 3. The buffers of a system -/

/-- The buffer of a run, and the requests that were started in it. -/
theorem run_begins {app' : σ} {es : List Event} {os : List Effect}
    (h : srv.machine.run (Conn.new, app) es = some ((c, app'), os)) :
    c.buf.length ≤ maxBufCapacity + maxBodyCapacity * started os ∧
      (¬ c.await.Ended → c.begun = started os) ∧ started os ≤ srv.budget := by
  refine Machine.run_induction (P := fun _ s os =>
    s.1.buf.length ≤ maxBufCapacity + maxBodyCapacity * started os ∧
      (¬ s.1.await.Ended → s.1.begun = started os) ∧ started os ≤ srv.budget) ?_ ?_ h
  · refine ⟨?_, fun _ => rfl, Nat.zero_le _⟩
    rw [Conn.new, List.length_replicate]
    decide
  rintro es ⟨c, app⟩ os e ⟨c', app'⟩ o hrun ⟨hroom, hcount, hbudget⟩ hst
  have hw := machine_step hst
  have hbefore : c.buf.length ≤ maxBufCapacity + maxBodyCapacity * started os := hroom
  have hbegun : c.begun = started os := hcount (not_ended_of_wakeup hw)
  have hstep := wakeup_begins (run_inv hrun) (hbegun.le.trans hbudget) hw
  have hwithin : started os + started o ≤ srv.budget := hbegun ▸ hstep.budget
  refine ⟨?_, fun hlive => ?_, ?_⟩ <;> rw [started_append]
  · have hnext : c'.buf.length ≤ max c.buf.length maxBufCapacity +
        maxBodyCapacity * started o := hstep.room
    have hsum := Nat.mul_add maxBodyCapacity (started os) (started o)
    change c'.buf.length ≤ _
    omega
  · rw [← hbegun]
    exact hstep.count hlive
  · exact hwithin

theorem Alone.begins {es : List Event} {gone : Prop} {app' : σ} {os : List Effect}
    (h : srv.Alone app es gone c app' os) :
    c.buf.length ≤ maxBufCapacity + maxBodyCapacity * started os ∧ started os ≤ srv.budget := by
  cases h with
  | running stays run =>
    obtain ⟨hroom, -, hbudget⟩ := run_begins run
    exact ⟨hroom, hbudget⟩
  | dropped goes run live =>
    obtain ⟨hroom, -, hbudget⟩ := run_begins run
    rw [started_append, started_dropGuard, Nat.add_zero]
    exact ⟨hroom, hbudget⟩

/-- **Memory is bounded for every client.**  Whatever comes in on the connections of a system, and
in what pieces: the read buffer of each holds at most the header cap and one body for each request
that it has started, and it starts no more of them than one connection is answered. -/
theorem buffer_within_budget {labels : List Label} {s : System σ} {los : List (Label × Effect)}
    (h : srv.serve.logged.run (.new app) labels = some (s, los)) {i : Nat} {c : Conn}
    (hi : s.conns[i]? = some c) :
    c.buf.length ≤ maxBufCapacity + maxBodyCapacity * started (effectsAt i los) ∧
      started (effectsAt i los) ≤ max 1 srv.maxKeepalive := by
  obtain ⟨left, halone⟩ := alone_replayed h hi
  exact halone.begins

/-- A buffer that has grown past the header cap. -/
theorem buffer_within_budget_upload : ∃ c s los,
    Upload.server.serve.logged.run (.new ()) ([.accept] ++ Upload.events.map (.wake 0)) =
        some (s, los) ∧ s.conns[0]? = some c ∧
      c.buf.length ≤ maxBufCapacity + maxBodyCapacity * started Upload.effects ∧
      started Upload.effects ≤ max 1 Upload.server.maxKeepalive := by
  obtain ⟨c, hrun, -⟩ := Upload.run_events
  obtain ⟨s, los, hserve, hconns, heffects⟩ := serve_one hrun
  have hget : s.conns[0]? = some c := by rw [hconns, List.getElem?_cons_zero]
  have hbound := buffer_within_budget hserve hget
  rw [heffects] at hbound
  exact ⟨c, s, los, hserve, hget, hbound⟩

end Server

end HelixRack
