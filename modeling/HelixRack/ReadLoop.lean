/-
# The read loop is in range, and comes to an end

What `ReadLoop` says of the states of a run has two consequences for the runs themselves.

* `Server.checked` is the task with the checks of `CheckedLoop`.  Its runs are those of the plain
  task (`run_of_checked`, `checked_of_run`): no index, sum, product or difference is ever out of
  range, no read goes into an empty slice, no second parse differs from the first.
* `Server.heard` is the task on a finite stream of bytes in which anything else may happen as
  well.  Every wakeup there either calls the handler, which uses up bytes that were not served,
  or gets on with what is under way (`wakeup_progresses`), so that the loops terminate.
-/
import HelixRack.CheckedLoop
import HelixRack.Segmentation

namespace HelixRack

namespace Server

variable {σ : Type} (srv : Server σ)

/-! ## 1. The task with its checks -/

/-- The task, where a check that fails ends it. -/
def checked : Machine (Except Fault (Conn × σ)) Event Effect :=
  Machine.checked fun (c, app) e =>
    (Option.map fun p => ((p.conn, p.app), p.effects)) <$> Checked.resume srv app c e

variable {srv}

/-- A task that has ended fails no check. -/
theorem resume_of_ended {c : Conn} {app : σ} {e : Event} (h : c.await.Ended) :
    Checked.resume srv app c e = .ok (c.resume srv app e) := by
  obtain ⟨x, hx⟩ := h
  simp only [Checked.resume, hx]
  rfl

/-- The checks of a run are accounted for: a buffer beyond what a `Vec` can hold takes as many
bytes, less one body. -/
theorem checked_accounted (hk : srv.maxKeepalive ≤ usizeMax) (app : σ) :
    srv.machine.Accounted (fun (c, app) e =>
        (Option.map fun p => ((p.conn, p.app), p.effects)) <$> Checked.resume srv app c e)
      (Conn.new, app) (fun s => s.1.buf.length ≤ isizeMax) fun es f =>
        f = .capacityOverflow ∧ isizeMax < (delivered es).length + maxBodyCapacity := by
  rintro es ⟨c, app'⟩ os e hrun hfit
  have hresumes : Checked.Resumes (c.filled + e.data.length) (Checked.resume srv app' c e)
    (c.resume srv app' e) := Checked.resume_agrees (run_inv hrun) hfit hk e
  rcases hresumes with ⟨hok, hfits⟩ | ⟨hfault, hlong⟩
  · refine Or.inl ⟨by simp only [hok]; rfl, ?_⟩
    rintro ⟨c', app''⟩ o hstep
    simp only [machine, Option.map_eq_some_iff] at hstep
    obtain ⟨p, hp, heq⟩ := hstep
    cases heq
    exact hfits p hp
  · refine Or.inr ⟨_, by simp only [hfault]; rfl, rfl, ?_⟩
    by_cases hlive : c.await.Ended
    · rw [resume_of_ended hlive] at hfault
      cases hfault
    · have hfilled := run_filled_le hrun hlive
      rw [delivered_snoc, List.length_append]
      omega

theorem new_fits : Conn.new.buf.length ≤ isizeMax := by
  rw [Conn.new, List.length_replicate]
  decide

/-- **The checks pass**: a run with checks is a run of the task, unless the buffer outgrows what
a `Vec` can hold. -/
theorem run_of_checked (hk : srv.maxKeepalive ≤ usizeMax) {app : σ} {es : List Event}
    {r : Except Fault (Conn × σ)} {os : List Effect}
    (h : srv.checked.run (.ok (Conn.new, app)) es = some (r, os)) :
    (∃ s, r = .ok s ∧ srv.machine.run (Conn.new, app) es = some (s, os)) ∨
      r = .error .capacityOverflow ∧ isizeMax < (delivered es).length + maxBodyCapacity := by
  rcases Machine.run_checked (checked_accounted hk app) new_fits h with
    ⟨s, hr, hrun, -⟩ | ⟨f, hr, rfl, hlong⟩
  · exact Or.inl ⟨s, hr, hrun⟩
  · exact Or.inr ⟨hr, hlong⟩

/-- ...and a run of the task is one with checks. -/
theorem checked_of_run (hk : srv.maxKeepalive ≤ usizeMax) {app : σ} {es : List Event}
    {s : Conn × σ} {os : List Effect} (h : srv.machine.run (Conn.new, app) es = some (s, os))
    (hshort : (delivered es).length + maxBodyCapacity ≤ isizeMax) :
    srv.checked.run (.ok (Conn.new, app)) es = some (.ok s, os) := by
  refine Machine.checked_run (checked_accounted hk app) new_fits h ?_
  rintro pre ⟨post, rfl⟩ f ⟨-, hlong⟩
  rw [delivered, List.flatMap_append, List.length_append] at hshort
  rw [delivered] at hlong
  omega

/-! ## 2. A finite stream -/

/-- What is left of the client's stream after an event, if the event may happen: reads bring the
next bytes, or EOF at the end; writes and reads may fail, and the idle timer may run out. -/
def hear (rest : Bytes) : Event → Option Bytes
  | .read data => feed rest (.read data)
  | .poll | .readError | .elapsed | .wrote _ | .writeError | .ready | .fileRead _ => some rest

variable (srv) in
/-- The task on a finite stream. -/
def heard : Machine ((Conn × σ) × Bytes) Event Effect := srv.machine.within hear

theorem hear_eq {rest rest' : Bytes} {e : Event} (h : hear rest e = some rest') :
    rest = e.data ++ rest' := by
  cases e with
  | read data =>
    have hfeed : feed rest (.read data) = some rest' := h
    exact (feed_eq hfeed).1
  | poll | readError | elapsed | wrote n | writeError | ready | fileRead n =>
    cases h
    rfl

theorem hear_of_feed {rest rest' : Bytes} {e : Event} (h : feed rest e = some rest') :
    hear rest e = some rest' := by
  cases e with
  | read data => exact h
  | poll | wrote n | ready | fileRead n => exact h
  | readError | elapsed | writeError => cases h

/-! ## 3. What is left to write -/

/-- No longer than this is one of the engine's own responses. -/
def rejectionLimit : Nat :=
  requestHeaderFieldsTooLarge.length + payloadTooLargeResponse.length + badRequestResponse.length

/-- What is set aside for the response that may still end the connection. -/
def setAside : Await → Nat
  | .ended _ | .write _ .headerRejected | .write _ .requestRejected => 0
  | _ => rejectionLimit

variable (srv) in
/-- Bytes to be written before the handler is called again. -/
def toWrite (c : Conn) : Nat := (c.reply srv).bytes.length + setAside c.await

/-- If the handler is not called, no more than `limit` bytes are written, or left to write. -/
def Within (srv : Server σ) (limit : Nat) (p : Poll σ) : Prop :=
  calls p.effects = [] → (written p.effects).length + srv.toWrite p.conn ≤ limit

variable {c : Conn} {app : σ}

theorem Within.mono {limit limit' : Nat} {p : Poll σ} (h : srv.Within limit p)
    (hle : limit ≤ limit') : srv.Within limit' p := fun hcalls => (h hcalls).trans hle

theorem Within.exit {limit : Nat} {c : Conn} {e : Exit} {os : List Effect}
    (h : written os = []) : srv.Within limit ⟨c.exit e, app, os⟩ := by
  intro _
  have hzero : srv.toWrite (c.exit e) = 0 := rfl
  simp only [h, hzero]
  exact Nat.zero_le _

theorem Within.quiet {limit : Nat} {c : Conn} (h : srv.toWrite c ≤ limit) :
    srv.Within limit ⟨c, app, []⟩ := by
  intro _
  have hnone : (written []).length = 0 := rfl
  simp only [hnone]
  omega

theorem Within.called {limit consumed : Nat} {request : ParsedRequest}
    {response : Option HandlerResponse} {c : Conn} {os : List Effect} :
    srv.Within limit ⟨c, app, .call consumed request response :: os⟩ :=
  fun hcalls => absurd hcalls (List.cons_ne_nil _ _)

/-- Effects in front that write so much and call nothing. -/
theorem Within.after {limit : Nat} {p : Poll σ} (h : srv.Within limit p) {os : List Effect}
    (hos : calls os = []) : srv.Within ((written os).length + limit) (p.after os) := by
  intro hcalls
  rw [Poll.after_effects, calls_append, hos, List.nil_append] at hcalls
  have hlimit := h hcalls
  rw [Poll.after_effects, written_append, List.length_append, Poll.after_conn]
  omega

theorem Within.after_silent {limit : Nat} {p : Poll σ} (h : srv.Within limit p)
    {os : List Effect} (hos : calls os = []) (hnone : written os = []) :
    srv.Within limit (p.after os) := by
  have hafter := h.after hos
  rwa [hnone, List.length_nil, Nat.zero_add] at hafter

theorem toWrite_write (c : Conn) (bytes : Bytes) (next : AfterWrite) :
    srv.toWrite (c.suspend (.write bytes next)) =
      bytes.length + next.reply.bytes.length + setAside (.write bytes next) := by
  simp only [toWrite, Conn.reply, Conn.suspend, List.length_append]

/-- The bytes of a rejection are set aside, and nothing else is then. -/
theorem Within.reject {c : Conn} {bytes : Bytes} {next : AfterWrite}
    (hnext : next = .headerRejected ∨ next = .requestRejected)
    (hle : bytes.length ≤ rejectionLimit) :
    srv.Within rejectionLimit ⟨c.suspend (.write bytes next), app, []⟩ := by
  refine .quiet ?_
  rw [toWrite_write]
  rcases hnext with rfl | rfl
  · exact hle
  · exact hle

theorem fillBody_within {consumed bodyEnd : Nat} :
    srv.Within rejectionLimit (srv.fillBody app c consumed bodyEnd) := by
  refine fillBody_elim srv app c consumed bodyEnd ?read ?invalid ?badRequest ?panicked ?called
  case read => exact fun _ => .quiet (Nat.le_of_eq (Nat.zero_add _))
  case invalid => exact .exit rfl
  case badRequest => exact .reject (Or.inr rfl) (Nat.le_add_left _ _)
  case panicked => exact fun _ _ => .called
  case called => exact fun _ _ _ _ => .called

theorem nextRequest_within : srv.Within rejectionLimit (srv.nextRequest app c) := by
  refine nextRequest_elim srv app c ?invalid ?pending ?malformed ?tooLarge ?framed
  case invalid => exact .exit rfl
  case pending =>
    intro _
    unfold awaitHeader
    split
    · exact .reject (Or.inl rfl) (Nat.le_add_right_of_le (Nat.le_add_right _ _))
    · exact .quiet (Nat.le_of_eq (Nat.zero_add _))
  case malformed => exact fun _ => .exit rfl
  case tooLarge =>
    intro consumed request _
    refine Within.after_silent ?_ rfl rfl
    exact .reject (Or.inr rfl) (Nat.le_add_right_of_le (Nat.le_add_left _ _))
  case framed =>
    intro consumed request bodyLen _ _ _
    exact Within.after_silent fillBody_within rfl rfl

theorem finishRequest_within {sending : Sending} :
    srv.Within rejectionLimit (srv.finishRequest app c sending) := by
  refine Within.after_silent ?_ rfl rfl
  split
  · exact .exit rfl
  · exact nextRequest_within

theorem afterWrite_within {bytes : Bytes} {next : AfterWrite} :
    srv.Within (next.reply.bytes.length + setAside (.write bytes next))
      (srv.afterWrite app c next) := by
  cases next with
  | headerRejected => exact .exit rfl
  | requestRejected => exact .exit rfl
  | body sending =>
    have hfinish : srv.Within (rejectionLimit) (srv.finishRequest app c sending) :=
      finishRequest_within
    simp only [afterWrite, writeBody, AfterWrite.reply]
    cases sending.body with
    | inMemory content =>
      simp only [bodyReply]
      by_cases hnil : content = []
      · rw [if_pos hnil]
        exact hfinish.mono (Nat.le_add_left _ _)
      · rw [if_neg hnil]
        exact .quiet (Nat.le_of_eq (toWrite_write c content (.finish sending)))
    | spooled file =>
      by_cases hclone : FileOp.cloneForWrite ∈ file.faults
      · simp only [if_pos hclone]
        exact .exit rfl
      · simp only [bodyReply, hclone, false_or, if_false]
        exact .quiet (Nat.le_refl _)
  | chunk sending file => exact .quiet (Nat.le_refl _)
  | finish sending => exact finishRequest_within.mono (Nat.le_add_left _ _)

/-- The head and the body of a framed response are what it leaves to write. -/
theorem toWrite_sendHead (answer : Answer) :
    srv.toWrite (srv.sendHead c answer) =
      (srv.answerReply c.requestsServed answer).bytes.length + rejectionLimit := by
  obtain ⟨bytes, next, heq, sending, -, hb, hcase⟩ := sendHead_cases srv c answer
  rw [heq]
  rcases hcase with ⟨hh, hbytes, hnext⟩ | ⟨hh, hnext, content, hc, hbytes⟩ | ⟨hh, hbytes, hnext⟩
  · subst hnext
    simp only [toWrite, Conn.reply, AfterWrite.reply, answerReply, hh, hbytes, if_true, setAside]
  · subst hnext
    simp only [toWrite, Conn.reply, AfterWrite.reply, answerReply, hh, hbytes, hc, bodyReply,
      List.append_nil, Bool.false_eq_true, if_false, setAside]
  · subst hnext
    simp only [toWrite, Conn.reply, AfterWrite.reply, answerReply, hh, hbytes, hb,
      Bool.false_eq_true, if_false, setAside]

/-- **Without a call, what is written is taken off what is left to write.** -/
theorem wakeup_within {e : Event} {p : Poll σ} (hw : c.Wakeup srv app e p) :
    srv.Within (srv.toWrite c) p := by
  have hreading : c.await = .spawned ∨ c.await = .readHeader ∨ (∃ k n, c.await = .readBody k n) →
      rejectionLimit ≤ srv.toWrite c := by
    rintro (hc | hc | ⟨k, n, hc⟩)
    all_goals
      rw [toWrite, hc]
      exact Nat.le_add_left _ _
  have hwritten : ∀ (next : AfterWrite) (bytes : Bytes), written [next.effect bytes] = bytes :=
    fun next bytes => congrArg Outcome.bytes (observed_write next bytes)
  have hleave : ∀ x : Exit, srv.Within (srv.toWrite c) (c.leave app x) := by
    intro x
    refine .exit ?_
    unfold Await.dropGuard
    split <;> rfl
  cases hw with
  | start hc => exact nextRequest_within.mono (hreading (Or.inl hc))
  | header hc hne hlen => exact nextRequest_within.mono (hreading (Or.inr (Or.inl hc)))
  | body hc hne hlen => exact fillBody_within.mono (hreading (Or.inr (Or.inr ⟨_, _, hc⟩)))
  | @metadata answer file hc hok =>
    refine .quiet ?_
    rw [toWrite_sendHead, toWrite, Conn.reply, hc]
    simp only [if_neg hok, setAside]
    exact Nat.le_refl _
  | @wrotePart rest next n hc hpos hlt =>
    have hquiet : srv.Within (srv.toWrite (c.suspend (.write (rest.drop n) next)))
        ⟨c.suspend (.write (rest.drop n) next), app, []⟩ := .quiet (Nat.le_refl _)
    have hnone : calls [next.effect (rest.take n)] = [] := calls_write next _ []
    refine (hquiet.after hnone).mono ?_
    have hset : setAside (.write (rest.drop n) next) = setAside (.write rest next) := by
      cases next <;> rfl
    rw [toWrite_write, hset, toWrite, Conn.reply, hc, hwritten]
    simp only [List.length_append, List.length_take, List.length_drop]
    omega
  | @wroteAll rest next hc hpos =>
    have hthen : srv.Within (next.reply.bytes.length + setAside (.write rest next))
      (srv.afterWrite app c next) := afterWrite_within
    have hnone : calls [next.effect rest] = [] := calls_write next _ []
    refine (hthen.after hnone).mono ?_
    rw [toWrite, Conn.reply, hc, hwritten]
    simp only [List.length_append]
    omega
  | @seek sending file hc hok =>
    refine .quiet ?_
    rw [toWrite, toWrite, Conn.reply, Conn.reply, hc]
    simp only [Conn.suspend, if_neg hok, File.unread_seekTo_zero]
    exact Nat.le_refl _
  | @chunk sending file n hc hpos hle hsize =>
    refine .quiet ?_
    rw [toWrite_write, toWrite, Conn.reply, hc]
    simp only [AfterWrite.reply, File.unread_advance, List.length_take, List.length_drop, setAside]
    omega
  | fileEnd hc hend hok =>
    refine finishRequest_within.mono ?_
    rw [toWrite, hc]
    exact Nat.le_add_left _ _
  | eof | readError | elapsed | metadataFault | writeError | seekFault | fileFault =>
    exact hleave _

/-! ## 4. The loops terminate -/

/-- The bytes, buffered or still to come, of requests that the handler has not been called for. -/
def unsettled (c : Conn) (rest : Bytes) : Nat := c.unserved.length + rest.length

variable (srv) in
/-- What is left to do before the handler is called again. -/
def work (c : Conn) (rest : Bytes) : Nat := credit c.await + rest.length + 2 * srv.toWrite c

/-- **A wakeup gets on.**  A call uses up bytes that were unsettled; without one they do not
become more, and there is less to do. -/
theorem wakeup_progresses {e : Event} {p : Poll σ} {rest rest' : Bytes} (hi : c.Inv srv)
    (hrest : rest = e.data ++ rest') (hw : c.Wakeup srv app e p) (hlive : ¬ p.conn.await.Ended) :
    unsettled p.conn rest' < unsettled c rest ∨
      (unsettled p.conn rest' ≤ unsettled c rest ∧ srv.work p.conn rest' < srv.work c rest) := by
  obtain ⟨s, hserved, hunserved⟩ := wakeup_cuts hi hw
  rw [hunserved hlive] at hserved
  have hlength := hserved.length_le
  have hrest := congrArg List.length hrest
  rw [List.length_append] at hlength hrest
  by_cases hcalls : calls p.effects = []
  · right
    have hspent := wakeup_spends hw
    have hwritten := wakeup_within hw hcalls
    have hsize : (observed p.effects).size = 2 * (written p.effects).length := by
      rw [Outcome.size, observed, hcalls]
      exact Nat.zero_add _
    refine ⟨?_, ?_⟩
    · rw [unsettled, unsettled]
      omega
    · rw [work, work]
      omega
  · left
    have hcall : 0 < (calls p.effects).length := List.length_pos_iff.mpr hcalls
    rw [unsettled, unsettled]
    omega

/-- From a state with the invariant, every run on a finite stream is finite. -/
theorem heard_terminates (app : σ) (rest : Bytes) (hi : c.Inv srv) :
    srv.heard.Terminates ((c, app), rest) := by
  refine Machine.terminates_of_pair (fun s => unsettled s.1.1 s.2) (fun s => srv.work s.1.1 s.2)
    (I := fun s => s.1.1.Inv srv) (D := fun s => s.1.1.await.Ended) ?_ ?_ hi
  · rintro ⟨⟨c, app⟩, rest⟩ e hended
    cases hst : srv.heard.step ((c, app), rest) e with
    | none => rfl
    | some next =>
      obtain ⟨⟨⟨c', app'⟩, rest'⟩, o⟩ := next
      have hw := machine_step (Machine.step_within_iff.mp hst).2
      exact absurd hended (not_ended_of_wakeup hw)
  · rintro ⟨⟨c, app⟩, rest⟩ e ⟨⟨c', app'⟩, rest'⟩ o hi hst
    obtain ⟨hhear, hstep⟩ := Machine.step_within_iff.mp hst
    have hw := machine_step hstep
    by_cases hended : c'.await.Ended
    · exact Or.inl hended
    · exact Or.inr ⟨hw.inv hi, wakeup_progresses hi (hear_eq hhear) hw hended⟩

/-- ...and a task that has not ended goes on. -/
theorem heard_exists_step (app : σ) (rest : Bytes) (hi : c.Inv srv) (hlive : ¬ c.await.Ended) :
    ∃ e s o, srv.heard.step ((c, app), rest) e = some (s, o) := by
  have hgoes : ∃ e s' o, srv.fed.step ((c, app), rest) e = some (s', o) :=
    exists_step rest hi hlive
  obtain ⟨e, ⟨⟨c', app'⟩, rest'⟩, o, hst⟩ := hgoes
  obtain ⟨hfeed, hstep⟩ := Machine.step_within_iff.mp hst
  exact ⟨e, _, o, Machine.step_within_iff.mpr ⟨hear_of_feed hfeed, hstep⟩⟩

/-! ## 5. The loop invariant -/

/-- **The read loop is sound.**  In every live state of a run, the buffer holds what was received
behind the requests answered.  With its checks the task has the same runs, unless one needs a
buffer of more than `isize::MAX` bytes.  And on a finite stream there is no infinite run, while a
task that has not ended has a next event. -/
theorem read_loop_sound (hk : srv.maxKeepalive ≤ usizeMax) (app : σ) :
    (∀ es c app' os, srv.machine.run (Conn.new, app) es = some ((c, app'), os) →
      ¬ c.await.Ended → srv.ReadLoop es os c) ∧
    (∀ es r os, srv.checked.run (.ok (Conn.new, app)) es = some (r, os) →
      (∃ s, r = .ok s ∧ srv.machine.run (Conn.new, app) es = some (s, os)) ∨
        r = .error .capacityOverflow ∧ isizeMax < (delivered es).length + maxBodyCapacity) ∧
    (∀ es s os, srv.machine.run (Conn.new, app) es = some (s, os) →
      (delivered es).length + maxBodyCapacity ≤ isizeMax →
      srv.checked.run (.ok (Conn.new, app)) es = some (.ok s, os)) ∧
    (∀ stream, ¬ ∃ states : ℕ → (Conn × σ) × Bytes, states 0 = ((Conn.new, app), stream) ∧
      ∀ n, srv.heard.Next (states (n + 1)) (states n)) ∧
    ∀ stream es c app' rest os,
      srv.heard.run ((Conn.new, app), stream) es = some (((c, app'), rest), os) →
      ¬ c.await.Ended → ∃ e s o, srv.heard.step ((c, app'), rest) e = some (s, o) := by
  refine ⟨?_, ?_, ?_, ?_, ?_⟩
  · intro es c app' os hrun hlive
    exact run_readLoop hrun hlive
  · intro es r os hrun
    exact run_of_checked hk hrun
  · intro es s os hrun hshort
    exact checked_of_run hk hrun hshort
  · intro stream
    exact (heard_terminates app stream Conn.new_inv).no_infinite_run
  · intro stream es c app' rest os hrun hlive
    have hi := run_inv (Machine.run_within_iff.mp hrun).2
    exact heard_exists_step app' rest hi hlive

/-- An upload, with the checks. -/
theorem read_loop_sound_upload :
    ∃ c, Upload.server.checked.run (.ok (Conn.new, ())) Upload.events =
        some (.ok (c, ()), Upload.effects) ∧
      Upload.server.ReadLoop Upload.events Upload.effects c := by
  have hk : Upload.server.maxKeepalive ≤ usizeMax := by decide
  obtain ⟨c, hrun, hidle, -⟩ := Upload.run_events
  have hlive : ¬ c.await.Ended := by
    rintro ⟨x, hx⟩
    rw [hidle.await] at hx
    cases hx
  have hdelivered : delivered Upload.events = Upload.head ++ Upload.body := by
    simp only [delivered, Upload.events, List.flatMap_cons, List.flatMap_nil, Event.data,
      List.nil_append, List.append_nil]
  have hlength := congrArg List.length hdelivered
  have hhead : Upload.head.length ≤ 100 := by decide
  have hcap : 100 + 200000 + maxBodyCapacity ≤ isizeMax := by decide
  have hle : (delivered Upload.events).length ≤ 100 + 200000 := by
    rw [hlength, List.length_append, Upload.length_body]
    exact Nat.add_le_add_right hhead 200000
  have hshort := (Nat.add_le_add_right hle maxBodyCapacity).trans hcap
  have hsound := read_loop_sound hk ()
  exact ⟨c, hsound.2.2.1 _ _ _ hrun hshort, hsound.1 _ _ _ _ hrun hlive⟩

end Server

end HelixRack
