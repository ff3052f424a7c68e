/-
# The keep-alive budget

A connection answers `max_keepalive` requests and no more, and only the last response says
`Connection: close`, whatever the handler puts into its header lists.  The header lists are those
of `finalHeaders`: everything a task sends is a beginning of the wire images built from them
(`Server.run_sends`), also where a write, a file or the handler fails.

Once the last response is under way, the task is past its last look at the buffer: no read, no
parse and no call of the handler comes behind it.  That nothing is parsed is said by exchanging
the parser, and the handler with it: the rest of the run stays the same.
-/
import HelixRack.Sync

namespace HelixRack

/-! ## 1. The `Connection` header -/

/-- The condition of the `retain` in `handle`. -/
def isConnection (header : String × String) : Bool :=
  eqIgnoreAsciiCase (trim header.1) "connection"

theorem filter_stripConnection (headers : List (String × String)) :
    (stripConnection headers).filter isConnection = [] := by
  refine List.filter_eq_nil_iff.mpr fun header hmem hconn => ?_
  have hkept : (!isConnection header) = true :=
    List.of_mem_filter (p := fun header => !isConnection header) hmem
  rw [hconn] at hkept
  cases hkept

/-- **Who says `Connection`**: the engine, once, on the last response. -/
theorem filter_finalHeaders (last : Bool) (response : HandlerResponse) :
    (finalHeaders last response).filter isConnection =
      if last then [("Connection", "close")] else [] := by
  have hlength : isConnection ("Content-Length", toString response.body.bytes.length) = false :=
    show eqIgnoreAsciiCase (trim "Content-Length") "connection" = false by decide
  have hclose : isConnection ("Connection", "close") = true := by decide
  have hframed : (framedHeaders response).filter isConnection = [] := by
    by_cases h : hasFraming (stripConnection response.headers) = true
    · rw [framedHeaders_of_hasFraming h]
      exact filter_stripConnection _
    · rw [framedHeaders_of_not h, List.filter_append, filter_stripConnection, List.nil_append,
        List.filter_cons_of_neg (Bool.not_eq_true _ ▸ hlength), List.filter_nil]
  unfold finalHeaders
  cases last with
  | true =>
    rw [if_pos rfl, if_pos rfl, List.filter_append, hframed, List.nil_append,
      List.filter_cons_of_pos hclose, List.filter_nil]
  | false =>
    rw [if_neg Bool.false_ne_true, if_neg Bool.false_ne_true]
    exact hframed

/-! ## 2. The handler's calls -/

/-- The budget of a task at an await point, with so many requests served: another one may come,
or a response is under way that knows whether it is the last. -/
def Await.WithinBudget (budget served : Nat) : Await → Prop
  | .spawned | .readHeader | .readBody _ _ | .metadata _ _ | .write _ .headerRejected
  | .write _ .requestRejected => served < budget
  | .write _ (.body sending) | .write _ (.chunk sending _) | .write _ (.finish sending)
  | .seek sending _ | .readFile sending _ =>
    served ≤ budget ∧ sending.isLastAllowedRequest = decide (served ≥ budget)
  | .ended _ => True

/-- What a piece of the task does with the budget, where the handler was called `k` times before
it. -/
structure Budgeted {σ : Type} (srv : Server σ) (k : Nat) (p : Poll σ) : Prop where
  within : p.conn.await.WithinBudget srv.maxKeepalive p.conn.requestsServed
  calls_le : k + (calls p.effects).length ≤ srv.maxKeepalive
  count : ¬ p.conn.await.Ended → p.conn.served = k + (calls p.effects).length

theorem Budgeted.after {σ : Type} {srv : Server σ} {k : Nat} {p : Poll σ} (h : Budgeted srv k p)
    {os : List Effect} (hos : calls os = []) : Budgeted srv k (p.after os) := by
  have hcalls : calls (p.after os).effects = calls p.effects := by
    rw [Poll.after_effects, calls_append, hos, List.nil_append]
  refine ⟨h.within, ?_, fun hopen => ?_⟩
  · rw [hcalls]
    exact h.calls_le
  · rw [hcalls]
    exact h.count hopen

namespace Server

variable {σ : Type} {srv : Server σ} {c : Conn} {app : σ}

/-- No call, and an await point within the budget. -/
theorem budgeted_of_no_call {k : Nat} {p : Poll σ} (hcalls : calls p.effects = [])
    (hk : k ≤ srv.maxKeepalive)
    (hwithin : p.conn.await.WithinBudget srv.maxKeepalive p.conn.requestsServed)
    (hcount : ¬ p.conn.await.Ended → p.conn.served = k) : Budgeted srv k p := by
  refine ⟨hwithin, ?_, fun hopen => ?_⟩
  · rw [hcalls]
    exact hk
  · rw [hcalls, hcount hopen]
    rfl

theorem sendHead_within {answer : Answer} (h : c.requestsServed < srv.maxKeepalive) :
    (srv.sendHead c answer).await.WithinBudget srv.maxKeepalive
      (srv.sendHead c answer).requestsServed := by
  simp only [sendHead]
  split
  · exact ⟨h, rfl⟩
  · split <;> exact ⟨h, rfl⟩

theorem frameResponse_within (answer : Answer) (h : c.requestsServed < srv.maxKeepalive) :
    (srv.frameResponse c answer).1.await.WithinBudget srv.maxKeepalive
        (srv.frameResponse c answer).1.requestsServed ∧
      (¬ (srv.frameResponse c answer).1.await.Ended →
        (srv.frameResponse c answer).1.served = c.requestsServed + 1) := by
  unfold frameResponse
  split
  · exact ⟨sendHead_within h, fun _ => (sendHead_sends srv c _).2.1⟩
  · exact ⟨h, fun _ => rfl⟩
  · exact ⟨trivial, fun hopen => absurd ⟨_, rfl⟩ hopen⟩

theorem fillBody_budgeted {consumed bodyEnd : Nat} (h : c.requestsServed < srv.maxKeepalive) :
    Budgeted srv c.requestsServed (srv.fillBody app c consumed bodyEnd) := by
  refine fillBody_elim srv app c consumed bodyEnd ?read ?invalid ?badRequest ?panicked ?called
  case read => exact fun _ => budgeted_of_no_call rfl h.le h fun _ => rfl
  case invalid => exact budgeted_of_no_call rfl h.le trivial fun hopen => absurd ⟨_, rfl⟩ hopen
  case badRequest => exact budgeted_of_no_call rfl h.le h fun _ => rfl
  case panicked => exact fun _ _ => ⟨trivial, h, fun hopen => absurd ⟨_, rfl⟩ hopen⟩
  case called =>
    intro request response app' _
    obtain ⟨hwithin, hserved⟩ :=
      frameResponse_within (.start bodyEnd request response) h
    refine ⟨hwithin, ?_, fun hopen => ?_⟩
    · rw [calls_call, frameResponse_calls]
      exact h
    · rw [calls_call, frameResponse_calls]
      exact hserved hopen

/-- From the top of the inner loop, at most one call comes. -/
theorem nextRequest_budgeted (h : c.requestsServed < srv.maxKeepalive) :
    Budgeted srv c.requestsServed (srv.nextRequest app c) := by
  refine nextRequest_elim srv app c ?invalid ?pending ?malformed ?tooLarge ?framed
  case invalid => exact budgeted_of_no_call rfl h.le trivial fun hopen => absurd ⟨_, rfl⟩ hopen
  case pending =>
    intro _
    unfold awaitHeader
    split
    · exact budgeted_of_no_call rfl h.le h fun _ => rfl
    · exact budgeted_of_no_call rfl h.le h fun _ => rfl
  case malformed =>
    exact fun _ => budgeted_of_no_call rfl h.le trivial fun hopen => absurd ⟨_, rfl⟩ hopen
  case tooLarge => exact fun _ _ _ => budgeted_of_no_call rfl h.le h fun _ => rfl
  case framed =>
    intro consumed request bodyLen _ _ _
    exact (fillBody_budgeted (c := c.growTo (consumed + bodyLen)) h).after rfl

/-- Behind the last response there is nothing. -/
theorem finishRequest_of_last {sending : Sending} (h : sending.isLastAllowedRequest = true) :
    srv.finishRequest app c sending = ⟨c.exit .ok, app, [.requestFinish]⟩ := by
  rw [finishRequest, if_pos h]
  rfl

theorem finishRequest_budgeted {sending : Sending} (hle : c.requestsServed ≤ srv.maxKeepalive)
    (hlast : sending.isLastAllowedRequest = decide (c.requestsServed ≥ srv.maxKeepalive)) :
    Budgeted srv c.requestsServed (srv.finishRequest app c sending) := by
  cases hl : sending.isLastAllowedRequest with
  | true =>
    rw [finishRequest_of_last hl]
    exact budgeted_of_no_call rfl hle trivial fun hopen => absurd ⟨_, rfl⟩ hopen
  | false =>
    rw [hl] at hlast
    have hlt : c.requestsServed < srv.maxKeepalive :=
      Nat.lt_of_not_le (of_decide_eq_false hlast.symm)
    rw [finishRequest, hl, if_neg Bool.false_ne_true]
    exact Budgeted.after (nextRequest_budgeted (c := c.shift sending.bodyEnd) hlt) rfl

theorem afterWrite_budgeted {rest : Bytes} {next : AfterWrite}
    (hk : c.requestsServed ≤ srv.maxKeepalive)
    (h : (Await.write rest next).WithinBudget srv.maxKeepalive c.requestsServed) :
    Budgeted srv c.requestsServed (srv.afterWrite app c next) := by
  cases next with
  | headerRejected | requestRejected =>
    exact budgeted_of_no_call rfl hk trivial fun hopen => absurd ⟨_, rfl⟩ hopen
  | body sending =>
    simp only [afterWrite, writeBody]
    split
    · split
      · exact finishRequest_budgeted h.1 h.2
      · exact budgeted_of_no_call rfl hk h fun _ => rfl
    · split
      · exact budgeted_of_no_call rfl hk trivial fun hopen => absurd ⟨_, rfl⟩ hopen
      · exact budgeted_of_no_call rfl hk h fun _ => rfl
  | chunk sending file => exact budgeted_of_no_call rfl hk h fun _ => rfl
  | finish sending => exact finishRequest_budgeted h.1 h.2

theorem wakeup_budgeted {e : Event} {p : Poll σ} (hw : c.Wakeup srv app e p)
    (hk : c.served ≤ srv.maxKeepalive)
    (h : c.await.WithinBudget srv.maxKeepalive c.requestsServed) : Budgeted srv c.served p := by
  have hleave : ∀ e : Exit, Budgeted srv c.served (c.leave app e) := fun e =>
    budgeted_of_no_call (calls_dropGuard _) hk trivial fun hopen => absurd ⟨e, rfl⟩ hopen
  cases hw with
  | start hc =>
    rw [hc] at h
    rw [Conn.served, hc]
    exact nextRequest_budgeted h
  | @header data hc hne hlen =>
    rw [hc] at h
    rw [Conn.served, hc]
    exact nextRequest_budgeted (c := c.fill data) h
  | @body consumed bodyEnd data hc hne hlen =>
    rw [hc] at h
    rw [Conn.served, hc]
    exact fillBody_budgeted (c := c.fill data) h
  | @metadata answer file hc hok =>
    rw [hc] at h
    refine budgeted_of_no_call rfl hk (sendHead_within h) fun _ => ?_
    rw [(sendHead_sends srv c _).2.1, Conn.served, hc]
  | @wrotePart rest next n hc hpos hlt =>
    have hserved : c.served = c.requestsServed := by rw [Conn.served, hc]
    rw [hc] at h
    refine budgeted_of_no_call (calls_write next _ []) hk ?_ fun _ => hserved.symm
    cases next <;> exact h
  | @wroteAll rest next hc hpos =>
    have hserved : c.served = c.requestsServed := by rw [Conn.served, hc]
    rw [hc] at h
    rw [hserved] at hk ⊢
    exact (afterWrite_budgeted hk h).after (calls_write next _ [])
  | seek hc hok | chunk hc hpos hle hsize =>
    have hserved : c.served = c.requestsServed := by rw [Conn.served, hc]
    rw [hc] at h
    exact budgeted_of_no_call rfl hk h fun _ => hserved.symm
  | fileEnd hc hend hok =>
    rw [hc] at h
    rw [Conn.served, hc]
    exact finishRequest_budgeted h.1 h.2
  | eof | readError | elapsed | metadataFault | writeError | seekFault | fileFault =>
    exact hleave _

/-- Over a whole run: the calls stay within the budget, and the open task knows their number. -/
theorem run_budgeted {app' : σ} {es : List Event} {os : List Effect}
    (hk : 1 ≤ srv.maxKeepalive)
    (h : srv.machine.run (Conn.new, app) es = some ((c, app'), os)) :
    Budgeted srv 0 ⟨c, app', os⟩ := by
  refine Machine.run_induction (P := fun _ s os => Budgeted srv 0 ⟨s.1, s.2, os⟩)
    ?_ ?_ h
  · have hone : 0 < srv.maxKeepalive := hk
    exact ⟨hone, Nat.zero_le _, fun _ => rfl⟩
  rintro es ⟨c, app⟩ os e ⟨c', app'⟩ o - ih hst
  have hw := machine_step hst
  have hserved : c.served = 0 + (calls os).length := ih.count (not_ended_of_wakeup hw)
  have hle : c.served ≤ srv.maxKeepalive := by
    rw [hserved]
    exact ih.calls_le
  have hstep := wakeup_budgeted hw hle ih.within
  have hlength : 0 + (calls (os ++ o)).length = c.served + (calls o).length := by
    rw [calls_append, List.length_append, hserved]
    omega
  refine ⟨hstep.within, ?_, fun hopen => ?_⟩
  · rw [hlength]
    exact hstep.calls_le
  · rw [hlength]
    exact hstep.count hopen

end Server

/-! ## 3. Behind the last call -/

/-- The response under way is the last one of the connection, or the task is over. -/
def Await.LastResponse (budget served : Nat) : Await → Prop
  | .metadata _ _ => budget ≤ served + 1
  | .write _ (.body sending) | .write _ (.chunk sending _) | .write _ (.finish sending)
  | .seek sending _ | .readFile sending _ => sending.isLastAllowedRequest = true
  | .ended _ => True
  | .spawned | .readHeader | .readBody _ _ | .write _ .headerRejected
  | .write _ .requestRejected => False

/-- The events that end a socket read. -/
def Event.ofRead : Event → Bool
  | .read _ | .readError | .elapsed => true
  | .poll | .wrote _ | .writeError | .ready | .fileRead _ => false

/-- What a wakeup does with the last response under way: it neither reads nor calls, it writes
this response only, and with another parser and another handler it does the same. -/
structure WindsDown {σ : Type} (srv : Server σ) (c : Conn) (app : σ) (e : Event)
    (p : Poll σ) : Prop where
  last : p.conn.await.LastResponse srv.maxKeepalive p.conn.requestsServed
  app_eq : p.app = app
  calls_eq : calls p.effects = []
  rejected : rejectedBytes p.effects = []
  noRead : e.ofRead = false
  alike : ∀ srv' : Server σ, srv'.maxKeepalive = srv.maxKeepalive →
    srv'.combineWrite = srv.combineWrite → c.resume srv' app e = some p

namespace Server

variable {σ : Type} {srv : Server σ} {c : Conn} {app : σ}

theorem sendHead_congr {srv' : Server σ} (hmax : srv'.maxKeepalive = srv.maxKeepalive)
    (hcombine : srv'.combineWrite = srv.combineWrite) (answer : Answer) :
    srv'.sendHead c answer = srv.sendHead c answer := by
  unfold sendHead
  rw [hmax, hcombine]

theorem sendHead_last {answer : Answer} (h : srv.maxKeepalive ≤ c.requestsServed + 1) :
    (srv.sendHead c answer).await.LastResponse srv.maxKeepalive
      (srv.sendHead c answer).requestsServed := by
  have hlast : decide (c.requestsServed + 1 ≥ srv.maxKeepalive) = true := decide_eq_true h
  simp only [sendHead, hlast]
  split
  · exact rfl
  · split <;> exact rfl

theorem afterWrite_last (app : σ) {rest : Bytes} {next : AfterWrite}
    (h : (Await.write rest next).LastResponse srv.maxKeepalive c.requestsServed) :
    ∃ a os, (∀ srv' : Server σ, srv'.afterWrite app c next = ⟨c.suspend a, app, os⟩) ∧
      a.LastResponse srv.maxKeepalive c.requestsServed ∧ calls os = [] ∧ rejectedBytes os = [] := by
  cases next with
  | headerRejected | requestRejected => cases h
  | chunk sending file => exact ⟨.readFile sending file, [], fun _ => rfl, h, rfl, rfl⟩
  | finish sending =>
    exact ⟨.ended .ok, [.requestFinish], fun _ => finishRequest_of_last h, trivial, rfl, rfl⟩
  | body sending =>
    simp only [afterWrite, writeBody]
    cases hb : sending.body with
    | inMemory bytes =>
      by_cases hnil : bytes = []
      · exact ⟨.ended .ok, [.requestFinish],
          fun _ => (if_pos hnil).trans (finishRequest_of_last h), trivial, rfl, rfl⟩
      · exact ⟨.write bytes (.finish sending), [], fun _ => if_neg hnil, h, rfl, rfl⟩
    | spooled file =>
      by_cases hclone : .cloneForWrite ∈ file.faults
      · exact ⟨.ended .os, [.requestFinish], fun _ => if_pos hclone, trivial, rfl, rfl⟩
      · exact ⟨.seek sending file, [], fun _ => if_neg hclone, h, rfl, rfl⟩

theorem wakeup_last {e : Event} {p : Poll σ} (hw : c.Wakeup srv app e p)
    (h : c.await.LastResponse srv.maxKeepalive c.requestsServed) : WindsDown srv c app e p := by
  have hrejected : ∀ {rest : Bytes} {next : AfterWrite} (bytes : Bytes),
      c.await = .write rest next →
      rejectedBytes [next.effect bytes] = [] := by
    intro rest next bytes hc
    rw [hc] at h
    cases next with
    | headerRejected | requestRejected => cases h
    | body sending | chunk sending file | finish sending => rfl
  have hleave : ∀ {e : Event} (x : Exit), e.ofRead = false →
      (∀ srv' : Server σ, c.Wakeup srv' app e (c.leave app x)) →
      WindsDown srv c app e (c.leave app x) := by
    intro e x hread halike
    refine ⟨trivial, rfl, calls_dropGuard _, ?_, hread, fun srv' _ _ => (halike srv').resume⟩
    simp only [Conn.leave, Await.dropGuard]
    split <;> rfl
  cases hw with
  | start hc | header hc | body hc | elapsed hc =>
    rw [hc] at h
    cases h
  | eof hc | readError hc =>
    rcases hc with hc | ⟨k, n, hc⟩ <;> rw [hc] at h <;> cases h
  | metadata hc hok =>
    rw [hc] at h
    refine ⟨sendHead_last h, rfl, rfl, rfl, rfl, fun srv' hmax hcombine => ?_⟩
    rw [← sendHead_congr hmax hcombine]
    exact (Conn.Wakeup.metadata hc hok).resume
  | @wrotePart rest next n hc hpos hlt =>
    refine ⟨?_, rfl, calls_write next _ [], hrejected _ hc, rfl,
      fun _ _ _ => (Conn.Wakeup.wrotePart hc hpos hlt).resume⟩
    rw [hc] at h
    cases next <;> exact h
  | @wroteAll rest next hc hpos =>
    have hnext := h
    rw [hc] at hnext
    obtain ⟨a, os, heq, hlast, hcalls, hrej⟩ := afterWrite_last app hnext
    rw [heq srv]
    refine ⟨hlast, rfl, ?_, ?_, rfl, fun srv' _ _ => ?_⟩
    · rw [Poll.after_effects, calls_append, calls_write next _ [], hcalls]
      rfl
    · rw [Poll.after_effects, rejectedBytes_append, hrejected _ hc, hrej, List.append_nil]
    · rw [← heq srv']
      exact (Conn.Wakeup.wroteAll hc hpos).resume
  | seek hc hok =>
    rw [hc] at h
    exact ⟨h, rfl, rfl, rfl, rfl, fun _ _ _ => (Conn.Wakeup.seek hc hok).resume⟩
  | chunk hc hpos hle hsize =>
    rw [hc] at h
    exact ⟨h, rfl, rfl, rfl, rfl, fun _ _ _ => (Conn.Wakeup.chunk hc hpos hle hsize).resume⟩
  | fileEnd hc hend hok =>
    rw [hc] at h
    rw [finishRequest_of_last h]
    refine ⟨trivial, rfl, rfl, rfl, rfl, fun srv' _ _ => ?_⟩
    have hexit : srv'.finishRequest app c _ = _ := finishRequest_of_last h
    rw [← hexit]
    exact (Conn.Wakeup.fileEnd hc hend hok).resume
  | writeError hc => exact hleave _ rfl fun _ => .writeError hc
  | metadataFault hc hbad => exact hleave _ rfl fun _ => .metadataFault hc hbad
  | seekFault hc hbad => exact hleave _ rfl fun _ => .seekFault hc hbad
  | fileFault hc hend hbad => exact hleave _ rfl fun _ => .fileFault hc hend hbad

/-- ...and all further wakeups. -/
theorem run_last {app' : σ} {c' : Conn} {es : List Event} {os : List Effect}
    (hlast : c.await.LastResponse srv.maxKeepalive c.requestsServed)
    (h : srv.machine.run (c, app) es = some ((c', app'), os)) :
    c'.await.LastResponse srv.maxKeepalive c'.requestsServed ∧ app' = app ∧ calls os = [] ∧
      rejectedBytes os = [] ∧ (∀ e ∈ es, e.ofRead = false) ∧
      ∀ srv' : Server σ, srv'.maxKeepalive = srv.maxKeepalive →
        srv'.combineWrite = srv.combineWrite →
        srv'.machine.run (c, app) es = some ((c', app'), os) := by
  induction es generalizing c os with
  | nil =>
    cases h
    exact ⟨hlast, rfl, rfl, rfl, (fun _ hmem => by cases hmem), fun _ _ _ => rfl⟩
  | cons e es ih =>
    obtain ⟨⟨c₁, app₁⟩, o, os', hst, hr, rfl⟩ := Machine.run_cons_inv h
    obtain ⟨hlast₁, happ, hcalls, hrejected, hread, halike⟩ := wakeup_last (machine_step hst) hlast
    cases happ
    obtain ⟨hlast', happ', hcalls', hrejected', hreads', halike'⟩ := ih hlast₁ hr
    refine ⟨hlast', happ', ?_, ?_, ?_, fun srv' hmax hcombine => ?_⟩
    · rw [calls_append, hcalls, hcalls', List.append_nil]
    · rw [rejectedBytes_append, hrejected, hrejected', List.append_nil]
    · intro e' hmem
      rcases List.mem_cons.mp hmem with rfl | hmem
      · exact hread
      · exact hreads' e' hmem
    · have hstep : srv'.machine.step (c, app₁) e = some ((c₁, app₁), o) :=
        (Conn.resume_cases (halike srv' hmax hcombine)).step
      exact Machine.run_cons hstep (halike' srv' hmax hcombine)

end Server

/-! ## 4. A connection with one exchange -/

namespace Server

variable {σ : Type} {c : Conn}

/-- When a response is out, the connection closes if this was its last request. -/
theorem wrote_last (srv : Server σ) (app : σ) {bytes : Bytes} {sending : Sending} (hne : bytes ≠ [])
    (hawait : c.await = .write bytes (.finish sending))
    (hlast : sending.isLastAllowedRequest = true) :
    srv.machine.step (c, app) (.wrote bytes.length) =
      some ((c.exit .ok, app), [.sent bytes, .requestFinish]) := by
  have hw : c.Wakeup srv app (.wrote bytes.length)
      ((srv.afterWrite app c (.finish sending)).after [.sent bytes]) :=
    .wroteAll hawait (List.length_pos_iff.mpr hne)
  rw [hw.step, afterWrite, finishRequest_of_last hlast]
  rfl

end Server

namespace Single

/-- A response that would keep the connection open. -/
def persistent : HandlerResponse :=
  { status := 200, headers := [(" CONNECTION ", "keep-alive")], body := .inMemory [] }

/-- A budget of one request: what came behind it stays unread. -/
theorem run_last (response : HandlerResponse) {content : Bytes} (more : Bytes)
    (hroom : (head ++ more).length ≤ initialBufCapacity)
    (hbody : response.body = .inMemory content) :
    ∃ c : Conn, (server 1 response).machine.run (Conn.new, ())
        [.poll, .read (head ++ more), .wrote (wire 1 0 (parsed, response)).length] =
          some ((c, ()), effects 1 response) ∧
      c.await = .ended .ok ∧ c.received = head ++ more := by
  have hnil : (server 1 response).Pending [] := pending_nil
  obtain ⟨c1, hstart, hi1, hserved1⟩ := Server.start_idle () hnil
  obtain ⟨c2, hread, -, hrec2, -, hawait2⟩ := Server.read_answered (server 1 response) () ()
    response hi1 (hroom.trans hi1.capacity_le) (by decide) parse_head rfl rfl rfl rfl (by decide)
    hbody
  rw [hserved1] at hawait2
  have hwrote := Server.wrote_last (server 1 response) () (wire_ne_nil _ _ _) hawait2 rfl
  have hrun := Machine.run_cons hstart (Machine.run_cons hread (Machine.run_cons hwrote
    (Machine.run_nil _ _)))
  rw [List.append_nil] at hrun
  exact ⟨c2.exit .ok, hrun, rfl, hrec2⟩

end Single

/-! ## 5. The budget of a connection -/

namespace Server

variable {σ : Type} {srv : Server σ} {c : Conn} {app : σ}

/-- With the budget used up, the response under way is the last one. -/
theorem lastResponse_of_calls {os : List Effect} (h : Budgeted srv 0 ⟨c, app, os⟩)
    (hcalls : (calls os).length = srv.maxKeepalive) :
    c.await.LastResponse srv.maxKeepalive c.requestsServed := by
  have hwithin : c.await.WithinBudget srv.maxKeepalive c.requestsServed := h.within
  by_cases hended : c.await.Ended
  · obtain ⟨x, hx⟩ := hended
    rw [hx]
    trivial
  have hserved : c.served = srv.maxKeepalive := by
    have hcount : c.served = 0 + (calls os).length := h.count hended
    omega
  unfold Conn.served at hserved
  cases hc : c.await with
  | ended x => exact absurd ⟨x, hc⟩ hended
  | metadata answer file =>
    rw [hc] at hserved
    exact hserved.ge
  | spawned | readHeader | readBody k n =>
    rw [hc] at hserved hwithin
    exact absurd hserved hwithin.ne
  | seek sending file | readFile sending file =>
    rw [hc] at hserved hwithin
    exact hwithin.2.trans (decide_eq_true hserved.ge)
  | write rest next =>
    rw [hc] at hserved hwithin
    cases next with
    | headerRejected | requestRejected => exact absurd hserved hwithin.ne
    | body sending | chunk sending file | finish sending =>
      exact hwithin.2.trans (decide_eq_true hserved.ge)

theorem ended_of_last {budget served : Nat} {a : Await}
    (h : a.LastResponse budget served) (hidle : a.replying = false) : a.Ended := by
  cases a with
  | ended x => exact ⟨x, rfl⟩
  | metadata answer file | seek sending file | readFile sending file => cases hidle
  | spawned | readHeader | readBody k n => cases h
  | write rest next =>
    cases next with
    | headerRejected | requestRejected => cases h
    | body sending | chunk sending file | finish sending => cases hidle

theorem length_answered_le (os : List Effect) : (answered os).length ≤ (calls os).length := by
  induction os with
  | nil => exact Nat.le_refl _
  | cons o os ih =>
    have hanswered : answered (o :: os) = answered [o] ++ answered os := answered_append [o] os
    have hcalls : calls (o :: os) = calls [o] ++ calls os := calls_append [o] os
    have hone : (answered [o]).length ≤ (calls [o]).length := by
      cases o with
      | call n request response =>
        cases response with
        | none => exact Nat.zero_le _
        | some response => exact Nat.le_refl _
      | requestStart | requestFinish | sent bytes | rejected bytes => exact Nat.le_refl _
    rw [hanswered, hcalls, List.length_append, List.length_append]
    exact Nat.add_le_add hone ih

theorem sent_prefix_of_run {app' : σ} {es : List Event} {os : List Effect}
    (h : srv.machine.run (Conn.new, app) es = some ((c, app'), os)) :
    sentBytes os <+: wires srv.maxKeepalive 0 (answered os) := by
  rcases run_sends h with ⟨hbytes, -⟩ | ⟨-, hsent⟩
  · rw [hbytes]
    exact List.prefix_append _ _
  · exact hsent

/-- **The keep-alive budget.**  In every run the handler is called at most `max_keepalive` times.
What is sent is a beginning of the wire images of its responses, and the header list of the `k`-th
(from 0) says `Connection: close` once if it is the last the budget allows, and nothing about the
connection if it is not, whatever header list the handler gave.  From the last call on, the task
reads nothing, calls nothing and writes nothing but this response; its steps are those it makes
with any other parser and any other handler.  When the response is out, it has ended. -/
theorem keepalive_budget {app' : σ} {es : List Event} {os : List Effect}
    (hk : 1 ≤ srv.maxKeepalive)
    (h : srv.machine.run (Conn.new, app) es = some ((c, app'), os)) :
    (calls os).length ≤ srv.maxKeepalive ∧
      sentBytes os <+: wires srv.maxKeepalive 0 (answered os) ∧
      (∀ k exchange, (answered os)[k]? = some exchange →
        (finalHeaders (decide (k + 1 ≥ srv.maxKeepalive)) exchange.2).filter isConnection =
          if k + 1 = srv.maxKeepalive then [("Connection", "close")] else []) ∧
      ((calls os).length = srv.maxKeepalive →
        (c.await.replying = false → c.await.Ended ∧ ∀ e, srv.machine.step (c, app') e = none) ∧
        ∀ {es' : List Event} {c' : Conn} {app'' : σ} {os' : List Effect},
          srv.machine.run (c, app') es' = some ((c', app''), os') →
          calls os' = [] ∧ app'' = app' ∧ (∀ e ∈ es', e.ofRead = false) ∧
          rejectedBytes os' = [] ∧
          sentBytes os ++ sentBytes os' <+: wires srv.maxKeepalive 0 (answered os) ∧
          ∀ srv' : Server σ, srv'.maxKeepalive = srv.maxKeepalive →
            srv'.combineWrite = srv.combineWrite →
            srv'.machine.run (c, app') es' = some ((c', app''), os')) := by
  have hbudget := run_budgeted hk h
  have hle : (calls os).length ≤ srv.maxKeepalive := by
    have hcalls := hbudget.calls_le
    rw [Nat.zero_add] at hcalls
    exact hcalls
  refine ⟨hle, sent_prefix_of_run h, ?_, fun hcalls => ⟨fun hidle => ?_, ?_⟩⟩
  · intro k exchange hget
    have hlt : k < srv.maxKeepalive := by
      have hanswered : k < (answered os).length := (List.getElem?_eq_some_iff.mp hget).1
      have hlength := length_answered_le os
      omega
    rw [filter_finalHeaders]
    by_cases hlast : k + 1 = srv.maxKeepalive
    · rw [if_pos hlast, if_pos (decide_eq_true hlast.ge)]
    · have hmore : ¬ k + 1 ≥ srv.maxKeepalive := by omega
      rw [if_neg hlast, decide_eq_false hmore, if_neg Bool.false_ne_true]
  · have hended : c.await.Ended := ended_of_last (lastResponse_of_calls hbudget hcalls) hidle
    refine ⟨hended, fun e => ?_⟩
    cases hst : srv.machine.step (c, app') e with
    | none => rfl
    | some t =>
      obtain ⟨⟨c', app''⟩, o⟩ := t
      exact absurd hended (not_ended_of_wakeup (machine_step hst))
  · intro es' c' app'' os' h'
    obtain ⟨-, happ, hnocall, hrejected, hread, halike⟩ :=
      run_last (lastResponse_of_calls hbudget hcalls) h'
    refine ⟨hnocall, happ, hread, hrejected, ?_, halike⟩
    have hsent := sent_prefix_of_run (Machine.run_append h h')
    have hnone : answered os' = [] := by
      have hlength := length_answered_le os'
      rw [hnocall] at hlength
      exact List.length_eq_zero_iff.mp (Nat.le_zero.mp hlength)
    rw [sentBytes_append, answered_append, hnone, List.append_nil] at hsent
    exact hsent

theorem keepalive_budget_pipelined :
    ∃ c, (Single.server 1 Single.persistent).machine.run (Conn.new, ()) [.poll,
        .read (Single.head ++ Single.head),
        .wrote (wire 1 0 (Single.parsed, Single.persistent)).length] =
          some ((c, ()), Single.effects 1 Single.persistent) ∧
      (finalHeaders true Single.persistent).filter isConnection = [("Connection", "close")] ∧
      c.await.Ended ∧ ∀ e, (Single.server 1 Single.persistent).machine.step (c, ()) e = none := by
  obtain ⟨c, hrun, hended, -⟩ := Single.run_last Single.persistent Single.head
    (by decide) rfl
  obtain ⟨-, -, hheaders, hlast⟩ := keepalive_budget (Nat.le_refl 1) hrun
  have hquiet : c.await.replying = false := by
    rw [hended]
    rfl
  exact ⟨c, hrun, hheaders 0 (Single.parsed, Single.persistent) rfl, (hlast rfl).1 hquiet⟩

end Server

end HelixRack
