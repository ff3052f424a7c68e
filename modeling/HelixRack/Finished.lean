/-
# What has been received, answered and not

The loop keeps three numbers in step: `filled` bytes of the buffer count, `consumed` of them are
a header block, and the request ends at `body_end`.  `ReadLoop` says what they amount to in the
states of a run: everything received so far is the requests already answered, one behind the
other, and then `buf[..filled]`.  So the idle timer, which runs with `filled` at 0 only, runs when
every byte received belongs to an answered request.
-/
import HelixRack.Framing

namespace HelixRack

/-- The requests whose responses are out: as many as guards were dropped. -/
def finished (os : List Effect) : List (Nat × ParsedRequest) :=
  (calls os).take (os.count .requestFinish)

theorem finished_of_calls {os : List Effect} {done next : List (Nat × ParsedRequest)}
    (hcalls : calls os = done ++ next) (hcount : os.count .requestFinish = done.length) :
    finished os = done := by
  rw [finished, hcalls, hcount, List.take_left]

@[simp] theorem count_finish_write (next : AfterWrite) (bytes : Bytes) :
    [next.effect bytes].count .requestFinish = 0 := by
  cases next <;> rfl

namespace Server

variable {σ : Type} {srv : Server σ}

/-! ## 1. What a cut takes up -/

/-- A request takes up at least one byte. -/
theorem Served.length_le {called : List (Nat × ParsedRequest)} {b s : Bytes}
    (h : srv.Served called b s) : called.length + s.length ≤ b.length := by
  induction h with
  | nil b => exact Nat.le_of_eq (Nat.zero_add _)
  | @cons b s consumed bodyLen request headers rest block declared whole utf8 tail ih =>
    have hpos := parse_pos block
    rw [List.length_drop] at ih
    rw [List.length_cons]
    omega

theorem Served.eq_nil {called : List (Nat × ParsedRequest)} {b : Bytes}
    (h : srv.Served called b b) : called = [] := by
  have hlength := h.length_le
  exact List.length_eq_zero_iff.mp (by omega)

/-- What is cut off is the requests and nothing else. -/
theorem Served.split {called : List (Nat × ParsedRequest)} {b s : Bytes}
    (h : srv.Served called b s) : ∃ front, b = front ++ s ∧ srv.Served called front [] := by
  induction h with
  | nil b => exact ⟨[], rfl, .nil _⟩
  | @cons b s consumed bodyLen request headers rest block declared whole utf8 tail ih =>
    obtain ⟨front, hfront, hserved⟩ := ih
    have hlength : (b.take (consumed + bodyLen)).length = consumed + bodyLen :=
      List.length_take_of_le whole
    have hb : b = (b.take (consumed + bodyLen) ++ front) ++ s := by
      rw [List.append_assoc, ← hfront, List.take_append_drop]
    have hwhole : consumed + bodyLen ≤ (b.take (consumed + bodyLen) ++ front).length := by
      rw [List.length_append]
      omega
    refine ⟨b.take (consumed + bodyLen) ++ front, hb, ?_⟩
    have hblock : srv.parse (b.take (consumed + bodyLen) ++ front) =
        .complete consumed request := by
      rw [hb] at block
      exact IncrementalParser.complete_of_le block (by omega)
    have hbody : (b.drop consumed).take bodyLen =
        ((b.take (consumed + bodyLen) ++ front).drop consumed).take bodyLen := by
      rw [← slice_append hwhole s, ← hb]
    have hdrop : (b.take (consumed + bodyLen) ++ front).drop (consumed + bodyLen) = front :=
      List.drop_left' hlength
    rw [hbody]
    refine .cons hblock declared hwhole utf8 ?_
    rw [hdrop]
    exact hserved

/-! ## 2. How a wakeup moves the requests -/

variable {c : Conn} {app : σ}

theorem frameResponse_quiet {answer : Answer}
    (hlive : ¬ (srv.frameResponse c answer).1.await.Ended) :
    (srv.frameResponse c answer).2 = [] := by
  revert hlive
  unfold frameResponse
  split
  · exact fun _ => rfl
  · exact fun _ => rfl
  · exact fun hlive => absurd ⟨_, rfl⟩ hlive

theorem fillBody_effects {consumed bodyEnd : Nat} :
    ¬ (srv.fillBody app c consumed bodyEnd).conn.await.Ended →
      (srv.fillBody app c consumed bodyEnd).effects = [] ∨
        ∃ request response, (srv.fillBody app c consumed bodyEnd).effects =
          [.call consumed request response] := by
  refine fillBody_elim srv app c consumed bodyEnd ?read ?invalid ?badRequest ?panicked ?called
  case read => exact fun _ _ => Or.inl rfl
  case invalid => exact fun hlive => absurd ⟨_, rfl⟩ hlive
  case badRequest => exact fun _ => Or.inl rfl
  case panicked => exact fun _ _ hlive => absurd ⟨_, rfl⟩ hlive
  case called =>
    intro request response app' _ hlive
    refine Or.inr ⟨request, some response, ?_⟩
    exact congrArg (Effect.call consumed request (some response) :: ·) (frameResponse_quiet hlive)

/-- From the top of the inner loop, at most one call comes, and nothing is finished. -/
theorem nextRequest_effects :
    ¬ (srv.nextRequest app c).conn.await.Ended →
      (calls (srv.nextRequest app c).effects).length ≤ 1 ∧
        (srv.nextRequest app c).effects.count .requestFinish = 0 := by
  refine nextRequest_elim srv app c ?invalid ?pending ?malformed ?tooLarge ?framed
  case invalid => exact fun _ => ⟨Nat.zero_le 1, rfl⟩
  case pending => exact fun _ _ => ⟨Nat.zero_le 1, rfl⟩
  case malformed => exact fun _ _ => ⟨Nat.zero_le 1, rfl⟩
  case tooLarge => exact fun _ _ _ _ => ⟨Nat.zero_le 1, rfl⟩
  case framed =>
    intro consumed request bodyLen _ _ _ hlive
    rw [Poll.after_effects, calls_append, List.count_append]
    rcases fillBody_effects hlive with h | ⟨request', response, h⟩
    · rw [h]
      exact ⟨Nat.zero_le 1, rfl⟩
    · rw [h]
      exact ⟨Nat.le_refl 1, rfl⟩

/-- The task lives, has received `b` and finished nothing; if it has called the handler, then for
the request in front. -/
structure Opens (srv : Server σ) (b : Bytes) (p : Poll σ) : Prop where
  received : p.conn.received = b
  served : srv.Served (calls p.effects) b p.conn.unserved
  single : (calls p.effects).length ≤ 1
  unfinished : p.effects.count .requestFinish = 0

theorem fillBody_opens {consumed bodyLen : Nat} {request : Request} (hs : c.Sized)
    (hp : srv.parse c.received = .complete consumed request)
    (hl : contentLength request.headers = .ok bodyLen)
    (hlive : ¬ (srv.fillBody app c consumed (consumed + bodyLen)).conn.await.Ended) :
    srv.Opens c.received (srv.fillBody app c consumed (consumed + bodyLen)) := by
  have hcuts : srv.Cuts c.received (srv.fillBody app c consumed (consumed + bodyLen)) :=
    fillBody_cuts hs hp hl
  obtain ⟨s, hserved, hunserved⟩ := hcuts
  rw [hunserved hlive] at hserved
  rcases fillBody_effects hlive with heffects | ⟨request, response, heffects⟩
  · exact ⟨fillBody_received _ _, hserved, by rw [heffects]; exact Nat.zero_le 1,
      by rw [heffects]; rfl⟩
  · exact ⟨fillBody_received _ _, hserved, by rw [heffects]; exact Nat.le_refl 1,
      by rw [heffects]; rfl⟩

theorem nextRequest_opens (hs : c.Sized)
    (hlive : ¬ (srv.nextRequest app c).conn.await.Ended) :
    srv.Opens c.received (srv.nextRequest app c) := by
  have hcuts : srv.Cuts c.received (srv.nextRequest app c) := nextRequest_cuts hs
  obtain ⟨s, hserved, hunserved⟩ := hcuts
  rw [hunserved hlive] at hserved
  obtain ⟨hsingle, hunfinished⟩ := nextRequest_effects hlive
  exact ⟨nextRequest_received hs, hserved, hsingle, hunfinished⟩

/-- While the task lives: of the request under way and the ones called for, some are finished and
cut off what was received, and at most one is under way. -/
def Moves (srv : Server σ) (under : List (Nat × ParsedRequest)) (b : Bytes) (p : Poll σ) : Prop :=
  ¬ p.conn.await.Ended → ∃ done next, under ++ calls p.effects = done ++ next ∧
    p.effects.count .requestFinish = done.length ∧ srv.Served done b p.conn.received ∧
    srv.Served next p.conn.received p.conn.unserved ∧ next.length ≤ 1

theorem Moves.of_opens {b : Bytes} {p : Poll σ}
    (h : ¬ p.conn.await.Ended → srv.Opens b p) : srv.Moves [] b p := by
  intro hlive
  obtain ⟨hreceived, hserved, hsingle, hunfinished⟩ := h hlive
  refine ⟨[], calls p.effects, rfl, hunfinished, ?_, ?_, hsingle⟩
  · rw [hreceived]
    exact .nil b
  · rw [hreceived]
    exact hserved

/-- Nothing is called for and nothing finished. -/
theorem Moves.still {under : List (Nat × ParsedRequest)} {c' : Conn}
    (hreceived : c'.received = c.received) (hunserved : c'.unserved = c.unserved)
    (hserved : srv.Served under c.received c.unserved) (hsingle : under.length ≤ 1) :
    srv.Moves under c.received ⟨c', app, []⟩ := by
  intro _
  refine ⟨[], under, List.append_nil _, rfl, ?_, ?_, hsingle⟩
  · simp only [hreceived]
    exact .nil _
  · simp only [hreceived, hunserved]
    exact hserved

theorem Moves.of_ended {under : List (Nat × ParsedRequest)} {b : Bytes} {p : Poll σ}
    (h : p.conn.await.Ended) : srv.Moves under b p := fun hlive => absurd h hlive

theorem Moves.write {under : List (Nat × ParsedRequest)} {b : Bytes} {p : Poll σ}
    (h : srv.Moves under b p) (next : AfterWrite) (bytes : Bytes) :
    srv.Moves under b (p.after [next.effect bytes]) := by
  intro hlive
  obtain ⟨done, later, hcalls, hcount, hserved⟩ := h hlive
  refine ⟨done, later, ?_, ?_, hserved⟩
  · rw [Poll.after_effects, List.singleton_append, calls_write]
    exact hcalls
  · rw [Poll.after_effects, List.count_append, count_finish_write, Nat.zero_add]
    exact hcount

/-- The response is out: the request under way is finished. -/
theorem finishRequest_moves {sending : Sending} {under : List (Nat × ParsedRequest)}
    (hs : c.Sized) (hserved : srv.Served under c.received (c.received.drop sending.bodyEnd))
    (hone : under.length = 1) : srv.Moves under c.received (srv.finishRequest app c sending) := by
  unfold finishRequest
  split
  · exact .of_ended ⟨_, rfl⟩
  · intro hlive
    obtain ⟨hreceived, hnext, hsingle, hunfinished⟩ := nextRequest_opens (hs.shift _) hlive
    rw [Conn.shift_received hs.filled_le] at hreceived hnext
    refine ⟨under, calls (srv.nextRequest app (c.shift sending.bodyEnd)).effects, rfl, ?_, ?_, ?_,
      hsingle⟩
    · rw [Poll.after_effects, List.count_append, hunfinished, hone]
      rfl
    · rw [Poll.after_conn, hreceived]
      exact hserved
    · rw [Poll.after_conn, hreceived]
      exact hnext

/-- The buffer starts with a request that is being answered, so one is under way. -/
theorem under_of_answering {bodyEnd : Nat} {under : List (Nat × ParsedRequest)} (hs : c.Sized)
    (ha : c.Answering srv bodyEnd) (hserved : srv.Served under c.received (c.received.drop bodyEnd))
    (hsingle : under.length ≤ 1) : under.length = 1 := by
  cases under with
  | nil =>
    exfalso
    obtain ⟨consumed, hf⟩ := ha.framed
    have hpos := hf.consumed_le
    have hend := ha.bodyEnd_le
    have hlength := hserved.length_le
    obtain ⟨front, hfront, hnil⟩ := hserved.split
    cases hnil
    have hdrop := congrArg List.length hfront
    rw [List.nil_append, List.length_drop, Conn.length_received hs.filled_le] at hdrop
    omega
  | cons request rest =>
    rw [List.length_cons] at hsingle ⊢
    omega

theorem afterWrite_moves {rest : Bytes} {next : AfterWrite} {under : List (Nat × ParsedRequest)}
    (hs : c.Sized) (hc : c.await = .write rest next) (hn : c.WriteInv srv next)
    (hserved : srv.Served under c.received c.unserved) (hsingle : under.length ≤ 1) :
    srv.Moves under c.received (srv.afterWrite app c next) := by
  have hfinish : ∀ sending : Sending, c.Replying srv sending →
      c.unserved = c.received.drop sending.bodyEnd →
      srv.Moves under c.received (srv.finishRequest app c sending) := by
    intro sending hr hunserved
    rw [hunserved] at hserved
    exact finishRequest_moves hs hserved (under_of_answering hs hr.toAnswering hserved hsingle)
  have hunserved : c.unserved = c.received.drop (Await.write rest next).answered := by
    rw [Conn.unserved, hc]
  cases next with
  | headerRejected => exact .of_ended ⟨_, rfl⟩
  | requestRejected => exact .of_ended ⟨_, rfl⟩
  | body sending =>
    simp only [afterWrite, writeBody]
    split
    · split
      · exact hfinish sending hn hunserved
      · exact .still rfl hunserved.symm hserved hsingle
    · split
      · exact .of_ended ⟨_, rfl⟩
      · exact .still rfl hunserved.symm hserved hsingle
  | chunk sending file => exact .still rfl hunserved.symm hserved hsingle
  | finish sending => exact hfinish sending hn hunserved

/-- **A wakeup finishes what was under way, or leaves it under way.** -/
theorem wakeup_moves {e : Event} {p : Poll σ} {under : List (Nat × ParsedRequest)}
    (hi : c.Inv srv) (hserved : srv.Served under c.received c.unserved)
    (hsingle : under.length ≤ 1) (hw : c.Wakeup srv app e p) :
    srv.Moves under (c.received ++ e.data) p := by
  have hs := hi.toSized
  have ha := hi.atAwait
  have hdata : e.data = [] → c.received ++ e.data = c.received := fun h => by
    rw [h, List.append_nil]
  have hreading : c.await.answered = 0 → under = [] := by
    intro h
    rw [Conn.unserved, h, List.drop_zero] at hserved
    exact hserved.eq_nil
  cases hw with
  | start hc =>
    rw [hdata rfl, hreading (by rw [hc]; rfl)]
    exact .of_opens (nextRequest_opens hs)
  | @header data hc hne hlen =>
    have hfill : c.received ++ Event.data (.read data) = (c.fill data).received :=
      (Conn.fill_received hlen).symm
    rw [hfill, hreading (by rw [hc]; rfl)]
    exact .of_opens (nextRequest_opens (hs.fill hlen))
  | @body consumed bodyEnd data hc hne hlen =>
    rw [hc] at ha
    obtain ⟨⟨request, bodyLen, hp, hl, -, rfl⟩, -, hle, -⟩ := ha
    have hroom : c.filled + data.length ≤ c.buf.length := hlen.trans hle
    have hfill : c.received ++ Event.data (.read data) = (c.fill data).received :=
      (Conn.fill_received hroom).symm
    have hp' : srv.parse (c.fill data).received = .complete consumed request := by
      rw [Conn.fill_received hroom]
      exact parse_append_of_complete hp data
    rw [hfill, hreading (by rw [hc]; rfl)]
    exact .of_opens (fillBody_opens (hs.fill hroom) hp' hl)
  | wroteAll hc hpos =>
    rw [hdata rfl]
    rw [hc] at ha
    exact (afterWrite_moves hs hc ha.2 hserved hsingle).write _ _
  | @fileEnd sending file hc hend hok =>
    rw [hdata rfl]
    rw [hc] at ha
    rw [Conn.unserved, hc] at hserved
    exact finishRequest_moves hs hserved (under_of_answering hs ha.toAnswering hserved hsingle)
  | @metadata answer file hc hok =>
    rw [hdata rfl]
    refine .still rfl ?_ hserved hsingle
    rw [Conn.unserved, Conn.unserved, hc]
    simp only [sendHead]
    split
    · rfl
    · split <;> rfl
  | @wrotePart rest next n hc hpos hlt =>
    rw [hdata rfl]
    have hunserved : (c.suspend (.write (rest.drop n) next)).unserved = c.unserved := by
      rw [Conn.unserved, Conn.unserved, hc]
      cases next <;> rfl
    have hstill : srv.Moves under c.received ⟨c.suspend (.write (rest.drop n) next), app, []⟩ :=
      .still rfl hunserved hserved hsingle
    exact hstill.write next (rest.take n)
  | seek hc hok | chunk hc hpos hle hsize =>
    rw [hdata rfl]
    refine .still rfl ?_ hserved hsingle
    rw [Conn.unserved, Conn.unserved, hc]
    rfl
  | eof | readError | elapsed | metadataFault | writeError | seekFault | fileFault =>
    exact .of_ended ⟨_, rfl⟩

/-! ## 3. The requests of a run -/

/-- What a live task has finished and what it has under way. -/
theorem run_moves {app app' : σ} {es : List Event} {c : Conn} {os : List Effect}
    (h : srv.machine.run (Conn.new, app) es = some ((c, app'), os)) (hlive : ¬ c.await.Ended) :
    ∃ under, calls os = finished os ++ under ∧ srv.Served (finished os) (delivered es) c.received ∧
      srv.Served under c.received c.unserved ∧ under.length ≤ 1 := by
  have hrun : ¬ c.await.Ended → ∃ done under, calls os = done ++ under ∧
      os.count .requestFinish = done.length ∧ srv.Served done (delivered es) c.received ∧
      srv.Served under c.received c.unserved ∧ under.length ≤ 1 := by
    refine Machine.run_induction (P := fun es s os => ¬ s.1.await.Ended → ∃ done under,
      calls os = done ++ under ∧ os.count .requestFinish = done.length ∧
      srv.Served done (delivered es) s.1.received ∧
      srv.Served under s.1.received s.1.unserved ∧ under.length ≤ 1) ?_ ?_ h
    · exact fun _ => ⟨[], [], rfl, rfl, .nil _, .nil _, Nat.zero_le 1⟩
    · rintro es ⟨c, app⟩ os e ⟨c', app'⟩ o hrun ih hst hlive'
      have hw := machine_step hst
      obtain ⟨done, under, hcalls, hcount, hserved, hunder, hsingle⟩ := ih (not_ended_of_wakeup hw)
      obtain ⟨more, next, hmoves, hmore, hcut, hnext, hsingle'⟩ :=
        wakeup_moves (run_inv hrun) hunder hsingle hw hlive'
      refine ⟨done ++ more, next, ?_, ?_, ?_, hnext, hsingle'⟩
      · rw [calls_append, hcalls, List.append_assoc, hmoves, List.append_assoc]
      · rw [List.count_append, hcount, hmore, List.length_append]
      · rw [delivered_snoc]
        exact (hserved.append_bytes e.data).trans hcut
  obtain ⟨done, under, hcalls, hcount, hserved, hunder⟩ := hrun hlive
  rw [finished_of_calls hcalls hcount]
  exact ⟨under, hcalls, hserved, hunder⟩

/-- **The loop invariant of the read buffer**, for a task that lives after the events `es` with
the effects `os`. -/
structure ReadLoop (srv : Server σ) (es : List Event) (os : List Effect) (c : Conn) : Prop where
  filled_le : c.filled ≤ c.buf.length
  /-- The bytes received are the requests answered, one behind the other, and `buf[..filled]`;
  where the idle timer may run out, they are the requests answered. -/
  received : ∃ front, srv.Served (finished os) front [] ∧ delivered es = front ++ c.received ∧
    ∀ app p, c.resume srv app .elapsed = some p → delivered es = front

theorem filled_of_elapsed {p : Poll σ} (h : c.resume srv app .elapsed = some p) :
    c.filled = 0 := by
  cases Conn.resume_cases h with
  | elapsed hc h0 => exact h0

theorem run_readLoop {app app' : σ} {es : List Event} {c : Conn} {os : List Effect}
    (h : srv.machine.run (Conn.new, app) es = some ((c, app'), os)) (hlive : ¬ c.await.Ended) :
    srv.ReadLoop es os c := by
  obtain ⟨under, -, hserved, -⟩ := run_moves h hlive
  obtain ⟨front, hfront, hanswered⟩ := hserved.split
  refine ⟨(run_inv h).filled_le, front, hanswered, hfront, ?_⟩
  intro app p helapsed
  have hnil : c.received = [] := by
    rw [Conn.received, filled_of_elapsed helapsed, List.take_zero]
  rw [hfront, hnil, List.append_nil]

/-- The buffer holds no more than was received. -/
theorem run_filled_le {app app' : σ} {es : List Event} {c : Conn} {os : List Effect}
    (h : srv.machine.run (Conn.new, app) es = some ((c, app'), os)) (hlive : ¬ c.await.Ended) :
    c.filled ≤ (delivered es).length := by
  obtain ⟨hfilled, front, -, hfront, -⟩ := run_readLoop h hlive
  rw [hfront, List.length_append, Conn.length_received hfilled]
  exact Nat.le_add_left _ _

end Server

end HelixRack
