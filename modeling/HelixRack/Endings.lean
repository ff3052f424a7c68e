/-
# Why a connection ends

`handle` ends in a dozen places: through `?` on I/O, on a head it cannot read, on a size it will
not take, after the last allowed response, at EOF, when the idle timer runs out.  What the bytes
that were not served ask for is said here once, as a function of them (`verdict`), and then of
every state of every run:

* while the task waits for bytes, they are the beginning of a request and within the caps; while
  it writes a response of its own, they are what this very response is for, and the response goes
  out whole, once, and behind all others (`run_stands`);
* where the task has ended, it has a reason, and what an observer has seen tells which
  (`Reason`, `every_connection_stands`).
-/
import HelixRack.Isolation

namespace HelixRack

/-! ## 1. What the bytes in front ask for -/

/-- What is to be done with the front of the bytes that were not served. -/
inductive Verdict where
  /-- There is more to come. -/
  | wait
  /-- A whole request. -/
  | serve
  /-- The engine answers this itself, and closes. -/
  | refuse (response : Bytes)
  | malformed (error : InvalidData)
  deriving DecidableEq, Repr

namespace Server

variable {σ τ : Type}

def verdict (srv : Server σ) (bytes : Bytes) : Verdict :=
  match srv.parse bytes with
  | .invalid => .malformed .httparse
  | .incomplete _ =>
    if maxBufCapacity ≤ bytes.length then .refuse requestHeaderFieldsTooLarge else .wait
  | .complete consumed request =>
    match contentLength request.headers with
    | .error e => .malformed e
    | .ok bodyLen =>
      if maxBodyCapacity < bodyLen then .refuse payloadTooLargeResponse
      else if bytes.length < consumed + bodyLen then .wait
      else if parsedHeaders request.headers = none then .refuse badRequestResponse
      else .serve

variable {srv : Server σ} {bytes : Bytes}

theorem verdict_of_invalid (h : srv.parse bytes = .invalid) :
    srv.verdict bytes = .malformed .httparse := by
  simp only [verdict, h]

theorem verdict_of_pending (h : srv.Pending bytes) :
    srv.verdict bytes =
      if maxBufCapacity ≤ bytes.length then .refuse requestHeaderFieldsTooLarge else .wait := by
  obtain ⟨out, h⟩ := h
  have hparse : srv.parse bytes = .incomplete out := h
  simp only [verdict, hparse]

theorem verdict_of_malformed {consumed : Nat} {request : Request} {e : InvalidData}
    (h : srv.parse bytes = .complete consumed request)
    (hl : contentLength request.headers = .error e) : srv.verdict bytes = .malformed e := by
  simp only [verdict, h, hl]

theorem verdict_of_complete {consumed bodyLen : Nat} {request : Request}
    (h : srv.parse bytes = .complete consumed request)
    (hl : contentLength request.headers = .ok bodyLen) :
    srv.verdict bytes =
      if maxBodyCapacity < bodyLen then .refuse payloadTooLargeResponse
      else if bytes.length < consumed + bodyLen then .wait
      else if parsedHeaders request.headers = none then .refuse badRequestResponse
      else .serve := by
  simp only [verdict, h, hl]

/-! ## 2. What a piece of the task makes of it -/

/-- The handler has panicked. -/
def Panics (os : List Effect) : Prop := ∃ n request, .call n request none ∈ os

theorem Panics.append_right {os : List Effect} (h : Panics os) (os' : List Effect) :
    Panics (os' ++ os) := by
  obtain ⟨n, request, hmem⟩ := h
  exact ⟨n, request, List.mem_append_right _ hmem⟩

/-- A piece of the task does with `bytes` in front what they ask for, or a response of the handler
is under way; it ends the task on its own account only after the last response, or where `sound`
fails, or with the handler.  `k` requests were answered before it. -/
inductive Sits (srv : Server σ) (bytes : Bytes) (k : Nat) (sound : Prop) (p : Poll σ) : Prop
  | waits (stop : p.conn.await = .readHeader ∨ ∃ m n, p.conn.await = .readBody m n)
      (quiet : calls p.effects = []) (verdict : srv.verdict bytes = .wait)
  | refuses {owed : Bytes} (stop : p.conn.await = .write owed .headerRejected ∨
        p.conn.await = .write owed .requestRejected)
      (quiet : calls p.effects = []) (verdict : srv.verdict bytes = .refuse owed)
  | replies (stop : p.conn.await.replying = true)
  | malformed {error : InvalidData} (stop : p.conn.await = .ended (.invalidData error))
      (quiet : calls p.effects = []) (verdict : srv.verdict bytes = .malformed error)
  | spent (stop : p.conn.await = .ended .ok) (last : srv.maxKeepalive ≤ k)
  | file (stop : p.conn.await = .ended .os) (fault : ¬ sound)
  | panicked (stop : p.conn.await = .ended .panicked) (call : Panics p.effects)

variable {c : Conn} {app : σ} {k : Nat}

namespace Sits

variable {sound sound' : Prop} {p : Poll σ}

theorem mono (h : srv.Sits bytes k sound p) (hs : sound' → sound) : srv.Sits bytes k sound' p := by
  cases h with
  | waits stop quiet verdict => exact .waits stop quiet verdict
  | refuses stop quiet verdict => exact .refuses stop quiet verdict
  | replies stop => exact .replies stop
  | malformed stop quiet verdict => exact .malformed stop quiet verdict
  | spent stop last => exact .spent stop last
  | file stop fault => exact .file stop (mt hs fault)
  | panicked stop call => exact .panicked stop call

theorem after (h : srv.Sits bytes k sound p) {os : List Effect} (hos : calls os = []) :
    srv.Sits bytes k sound (p.after os) := by
  have hcalls : calls p.effects = [] → calls (p.after os).effects = [] := fun hquiet => by
    rw [Poll.after_effects, calls_append, hos, hquiet, List.append_nil]
  cases h with
  | waits stop quiet verdict => exact .waits stop (hcalls quiet) verdict
  | refuses stop quiet verdict => exact .refuses stop (hcalls quiet) verdict
  | replies stop => exact .replies stop
  | malformed stop quiet verdict => exact .malformed stop (hcalls quiet) verdict
  | spent stop last => exact .spent stop last
  | file stop fault => exact .file stop fault
  | panicked stop call => exact .panicked stop (call.append_right os)

end Sits

theorem sendHead_replying (answer : Answer) : (srv.sendHead c answer).await.replying = true := by
  simp only [sendHead]
  split
  · rfl
  · split <;> rfl

theorem fillBody_sits {consumed bodyLen : Nat} {request : Request} (hs : c.Sized)
    (hp : srv.parse c.received = .complete consumed request)
    (hl : contentLength request.headers = .ok bodyLen) (hle : bodyLen ≤ maxBodyCapacity) :
    srv.Sits c.received k (SoundCalls (srv.fillBody app c consumed (consumed + bodyLen)).effects)
      (srv.fillBody app c consumed (consumed + bodyLen)) := by
  have hverdict := verdict_of_complete hp hl
  rw [if_neg (not_lt.mpr hle), Conn.length_received hs.filled_le] at hverdict
  unfold fillBody
  split
  · rename_i hshort
    rw [if_pos hshort] at hverdict
    exact .waits (Or.inr ⟨_, _, rfl⟩) rfl hverdict
  · rename_i hwhole
    rw [if_neg hwhole] at hverdict
    rw [answerRequest, hp]
    simp only
    cases hh : parsedHeaders request.headers with
    | none =>
      rw [if_pos hh] at hverdict
      exact .refuses (Or.inr rfl) rfl hverdict
    | some headers =>
      simp only [callHandler]
      split
      · exact .panicked rfl ⟨_, _, List.mem_cons_self⟩
      · rename_i response app' _
        unfold frameResponse
        split
        · exact .replies (sendHead_replying _)
        · exact .replies rfl
        · rename_i hfailed
          refine .file rfl fun hsound => ?_
          have hbody : response.body.Sound := hsound _ _ _ List.mem_cons_self
          exact absurd hfailed (ensureFraming_ne_failed hbody)

theorem nextRequest_sits (hs : c.Sized) :
    srv.Sits c.received k (SoundCalls (srv.nextRequest app c).effects)
      (srv.nextRequest app c) := by
  cases hp : srv.parse c.received with
  | invalid =>
    have heq : srv.nextRequest app c = ⟨c.exit (.invalidData .httparse), app, []⟩ := by
      simp only [nextRequest, hp]
    rw [heq]
    exact .malformed rfl rfl (verdict_of_invalid hp)
  | incomplete out =>
    have heq : srv.nextRequest app c = ⟨awaitHeader c, app, []⟩ := by
      simp only [nextRequest, hp]
    have hpending : srv.Pending c.received := ⟨out, hp⟩
    have hverdict := verdict_of_pending hpending
    rw [Conn.length_received hs.filled_le] at hverdict
    rw [heq]
    rcases Nat.lt_or_ge c.filled maxBufCapacity with h | h
    · obtain ⟨buf, hawait, -⟩ := awaitHeader_of_lt hs h
      rw [if_neg (not_le.mpr h)] at hverdict
      refine .waits (Or.inl ?_) rfl hverdict
      rw [hawait]
    · rw [if_pos h] at hverdict
      refine .refuses (Or.inl ?_) rfl hverdict
      rw [awaitHeader_of_ge h]
      rfl
  | complete consumed request =>
    cases hl : contentLength request.headers with
    | error e =>
      have heq : srv.nextRequest app c = ⟨c.exit (.invalidData e), app, []⟩ := by
        simp only [nextRequest, hp, hl]
      rw [heq]
      exact .malformed rfl rfl (verdict_of_malformed hp hl)
    | ok bodyLen =>
      have heq : srv.nextRequest app c =
          (srv.startRequest app c consumed bodyLen).after [.requestStart] := by
        simp only [nextRequest, hp, hl]
      rw [heq]
      refine (Sits.after ?_ rfl).mono SoundCalls.of_after
      rcases Nat.lt_or_ge maxBodyCapacity bodyLen with hlong | hle
      · have hverdict := verdict_of_complete hp hl
        rw [if_pos hlong] at hverdict
        rw [startRequest, if_pos hlong]
        exact .refuses (Or.inr rfl) rfl hverdict
      · have hgrown : (c.growTo (consumed + bodyLen)).received = c.received :=
          Conn.growTo_received hs.filled_le _
        rw [startRequest_of_le hle]
        rw [← hgrown] at hp ⊢
        exact fillBody_sits (hs.growTo _) hp hl hle

theorem finishRequest_sits {sending : Sending} (hs : c.Sized) (hr : c.Replying srv sending) :
    srv.Sits (c.received.drop sending.bodyEnd) c.requestsServed
      (SoundCalls (srv.finishRequest app c sending).effects)
      (srv.finishRequest app c sending) := by
  unfold finishRequest
  refine (Sits.after ?_ rfl).mono SoundCalls.of_after
  split
  · rename_i hlast
    rw [hr.isLast, decide_eq_true_eq] at hlast
    exact .spent rfl hlast
  · rw [← Conn.shift_received hs.filled_le]
    exact nextRequest_sits (hs.shift _)

theorem writeBody_sits {sending : Sending} (hs : c.Sized) (hr : c.Replying srv sending) :
    srv.Sits (c.received.drop sending.bodyEnd) c.requestsServed
      (sending.body.Sound ∧ SoundCalls (srv.writeBody app c sending).effects)
      (srv.writeBody app c sending) := by
  unfold writeBody
  split
  · split
    · exact (finishRequest_sits hs hr).mono And.right
    · exact .replies rfl
  · rename_i file hbody
    split
    · rename_i hclone
      refine .file rfl fun hsound => ?_
      have hfile : file.Sound := by
        have hbodySound := hsound.1
        rw [hbody] at hbodySound
        exact hbodySound
      rw [hfile.1] at hclone
      cases hclone
    · exact .replies rfl

/-! ## 3. Where a task stands -/

/-- Why a task has ended with `e`: `rest` is what was not served of its stream, `os` what it has
done. -/
inductive Reason (srv : Server σ) (rest : Bytes) (e : Event) (os : List Effect) : Exit → Prop
  /-- A head that cannot be read. -/
  | malformed {error : InvalidData} (verdict : srv.verdict rest = .malformed error)
      (silent : rejectedBytes os = []) : Reason srv rest e os (.invalidData error)
  /-- One of the engine's own responses is out. -/
  | refused (verdict : srv.verdict rest = .refuse (rejectedBytes os)) : Reason srv rest e os .ok
  /-- The response to the last request is out. -/
  | spent (last : srv.maxKeepalive ≤ (answered os).length) (silent : rejectedBytes os = []) :
      Reason srv rest e os .ok
  | eof (event : e = .read []) (verdict : srv.verdict rest = .wait)
      (silent : rejectedBytes os = []) : Reason srv rest e os .ok
  | idle (event : e = .elapsed) (nothing : rest = []) (silent : rejectedBytes os = []) :
      Reason srv rest e os .ok
  | socket (event : e = .readError ∨ e = .writeError)
      (cut : rejectedBytes os = [] ∨
        ∃ owed, srv.verdict rest = .refuse (rejectedBytes os ++ owed)) :
      Reason srv rest e os .os
  /-- A file behind one of the responses does not work. -/
  | file (fault : ¬ SoundCalls os) (silent : rejectedBytes os = []) : Reason srv rest e os .os
  | panicked (call : Panics os) (silent : rejectedBytes os = []) : Reason srv rest e os .panicked

/-- A task is where its stream and its handler have brought it. -/
inductive Stands (srv : Server σ) (es : List Event) (os : List Effect) (c : Conn) : Prop
  | spawned (stop : c.await = .spawned) (silent : rejectedBytes os = [])
  | waits (stop : c.await = .readHeader ∨ ∃ m n, c.await = .readBody m n)
      (verdict : srv.verdict c.unserved = .wait) (silent : rejectedBytes os = [])
  | refuses {owed : Bytes} (stop : c.await = .write owed .headerRejected ∨
        c.await = .write owed .requestRejected)
      (verdict : srv.verdict c.unserved = .refuse (rejectedBytes os ++ owed))
  | replies (stop : c.await.replying = true) (silent : rejectedBytes os = [])
  | ended {pre : List Event} {e : Event} {rest : Bytes} {exit : Exit} (stop : c.await = .ended exit)
      (last : es = pre ++ [e]) (served : srv.Served (calls os) (delivered es) rest)
      (reason : srv.Reason rest e os exit)

namespace Stands

variable {es : List Event} {os : List Effect}

theorem of_waiting (h : srv.Stands es os c)
    (hc : c.await = .readHeader ∨ ∃ m n, c.await = .readBody m n) :
    srv.verdict c.unserved = .wait := by
  cases h with
  | waits stop verdict silent => exact verdict
  | spawned stop =>
    rcases hc with hc | ⟨m, n, hc⟩ <;> rw [stop] at hc <;> cases hc
  | refuses stop =>
    rcases stop with stop | stop <;> rcases hc with hc | ⟨m, n, hc⟩ <;> rw [stop] at hc <;> cases hc
  | replies stop =>
    rcases hc with hc | ⟨m, n, hc⟩ <;> rw [hc] at stop <;> cases stop
  | ended stop =>
    rcases hc with hc | ⟨m, n, hc⟩ <;> rw [stop] at hc <;> cases hc

theorem of_refusing (h : srv.Stands es os c) {owed : Bytes}
    (hc : c.await = .write owed .headerRejected ∨ c.await = .write owed .requestRejected) :
    srv.verdict c.unserved = .refuse (rejectedBytes os ++ owed) := by
  cases h with
  | refuses stop verdict =>
    rcases stop with stop | stop <;> rcases hc with hc | hc <;> rw [stop] at hc <;> cases hc <;>
      exact verdict
  | spawned stop | ended stop =>
    rcases hc with hc | hc <;> rw [stop] at hc <;> cases hc
  | waits stop =>
    rcases stop with stop | ⟨m, n, stop⟩ <;> rcases hc with hc | hc <;> rw [stop] at hc <;> cases hc
  | replies stop =>
    rcases hc with hc | hc <;> rw [hc] at stop <;> cases stop

theorem silent_of_open (h : srv.Stands es os c) (hopen : c.await.closing = false) :
    rejectedBytes os = [] := by
  cases h with
  | spawned stop silent | waits stop verdict silent | replies stop silent => exact silent
  | refuses stop =>
    rcases stop with stop | stop <;> rw [stop] at hopen <;> cases hopen
  | ended stop =>
    rw [stop] at hopen
    cases hopen

/-- A task that was ended by a panic has called a handler that panicked. -/
theorem panics (h : srv.Stands es os c) (hend : c.await = .ended .panicked) : Panics os := by
  cases h with
  | ended stop last served reason =>
    rw [stop] at hend
    cases hend
    cases reason with
    | panicked call silent => exact call
  | spawned stop =>
    rw [stop] at hend
    cases hend
  | waits stop =>
    rcases stop with stop | ⟨m, n, stop⟩ <;> rw [stop] at hend <;> cases hend
  | refuses stop =>
    rcases stop with stop | stop <;> rw [stop] at hend <;> cases hend
  | replies stop =>
    rw [hend] at stop
    cases stop

end Stands

/-- A piece of the task that leaves a live one. -/
theorem Sits.stands {es : List Event} {os : List Effect} {e : Event} {sound : Prop} {p : Poll σ}
    (h : srv.Sits (c.unserved ++ e.data) k sound p)
    (hserved : srv.Served (calls os) (delivered es) c.unserved)
    (hcuts : srv.Cuts (c.unserved ++ e.data) p) (hcount : k ≤ (answered os).length)
    (hsound : SoundCalls (os ++ p.effects) → sound)
    (hsilent : rejectedBytes (os ++ p.effects) = []) :
    srv.Stands (es ++ [e]) (os ++ p.effects) p.conn := by
  obtain ⟨s, hcut, hrest⟩ := hcuts
  have hwhole : srv.Served (calls (os ++ p.effects)) (delivered (es ++ [e])) s := by
    rw [calls_append, delivered_snoc]
    exact (hserved.append_bytes e.data).trans hcut
  -- where nothing was called for, nothing was cut off
  have hquiet : calls p.effects = [] → s = c.unserved ++ e.data := fun hnone => by
    rw [hnone] at hcut
    cases hcut
    rfl
  have hlive : ¬ p.conn.await.Ended → calls p.effects = [] →
      p.conn.unserved = c.unserved ++ e.data := fun hn hnone => by
    rw [← hrest hn, hquiet hnone]
  cases h with
  | waits stop quiet verdict =>
    refine .waits stop ?_ hsilent
    rw [hlive ?_ quiet, verdict]
    rintro ⟨x, hx⟩
    rcases stop with stop | ⟨m, n, stop⟩ <;> rw [stop] at hx <;> cases hx
  | refuses stop quiet verdict =>
    refine .refuses stop ?_
    rw [hlive ?_ quiet, verdict, hsilent, List.nil_append]
    rintro ⟨x, hx⟩
    rcases stop with stop | stop <;> rw [stop] at hx <;> cases hx
  | replies stop => exact .replies stop hsilent
  | malformed stop quiet verdict =>
    rw [← hquiet quiet] at verdict
    exact .ended stop rfl hwhole (.malformed verdict hsilent)
  | spent stop last =>
    have hmore : (answered os).length ≤ (answered (os ++ p.effects)).length := by
      rw [answered_append, List.length_append]
      exact Nat.le_add_right _ _
    exact .ended stop rfl hwhole (.spent (last.trans (hcount.trans hmore)) hsilent)
  | file stop fault => exact .ended stop rfl hwhole (.file (mt hsound fault) hsilent)
  | panicked stop call => exact .ended stop rfl hwhole (.panicked (call.append_right os) hsilent)

/-- While no file fails, none is about to. -/
theorem run_sound {app' : σ} {es : List Event} {os : List Effect}
    (h : srv.machine.run (Conn.new, app) es = some ((c, app'), os)) :
    SoundCalls os → c.await.Sound := by
  refine Machine.run_induction (P := fun _ s os => SoundCalls os → s.1.await.Sound)
    (fun _ => trivial) ?_ h
  rintro es ⟨c, app⟩ os e ⟨c', app'⟩ o - ih hst hs
  have hw := machine_step hst
  by_cases hended : c'.await.Ended
  · obtain ⟨x, hx⟩ := hended
    change c'.await.Sound
    rw [hx]
    trivial
  · rcases wakeup_sends hw with ⟨-, hsound⟩ | ⟨-, hend, -⟩
    · refine hsound ⟨ih hs.of_append.1, hs.of_append.2, ?_⟩
      rintro rfl
      cases hw with
      | writeError hc => exact hended ⟨_, rfl⟩
    · exact absurd hend hended

/-- **A wakeup leaves the task where its stream and its handler bring it.** -/
theorem wakeup_stands {es : List Event} {os : List Effect} {e : Event} {p : Poll σ}
    (hi : c.Inv srv) (hstands : srv.Stands es os c)
    (hserved : srv.Served (calls os) (delivered es) c.unserved)
    (hcount : c.served = (answered os).length) (hsound : SoundCalls os → c.await.Sound)
    (hw : c.Wakeup srv app e p) : srv.Stands (es ++ [e]) (os ++ p.effects) p.conn := by
  have hs := hi.toSized
  have ha := hi.atAwait
  have hcuts := wakeup_cuts hi hw
  have hsilent : c.await.closing = false → rejectedBytes (os ++ p.effects) = [] := fun hopen => by
    rw [rejectedBytes_append, hstands.silent_of_open hopen, wakeup_open hw hopen, List.append_nil]
  have hpiece : ∀ {bytes : Bytes} {k : Nat} {sound : Prop}, c.unserved ++ e.data = bytes →
      c.await.closing = false → srv.Sits bytes k sound p → k ≤ c.served →
      (SoundCalls (os ++ p.effects) → sound) → srv.Stands (es ++ [e]) (os ++ p.effects) p.conn := by
    rintro bytes k sound rfl hopen hsits hk hs'
    exact hsits.stands hserved hcuts (hk.trans hcount.le) hs' (hsilent hopen)
  have hafter : SoundCalls (os ++ p.effects) → SoundCalls p.effects := fun h => h.of_append.2
  have hbefore : SoundCalls (os ++ p.effects) → c.await.Sound := fun h => hsound h.of_append.1
  -- leaving calls nothing and writes nothing
  have hleft : p = c.leave app .ok ∨ p = c.leave app .os → e.data = [] →
      srv.Served (calls (os ++ p.effects)) (delivered (es ++ [e])) c.unserved ∧
        rejectedBytes (os ++ p.effects) = rejectedBytes os := by
    intro hp hdata
    have heffects : p.effects = c.await.dropGuard := by rcases hp with rfl | rfl <;> rfl
    rw [heffects, calls_append, calls_dropGuard, List.append_nil, delivered_snoc, hdata,
      List.append_nil, rejectedBytes_append]
    refine ⟨hserved, ?_⟩
    rcases dropGuard_cases c.await with hguard | hguard <;> rw [hguard] <;> exact List.append_nil _
  have hread : c.await = .readHeader ∨ (∃ m n, c.await = .readBody m n) →
      c.await.closing = false := by
    rintro (hc | ⟨m, n, hc⟩) <;> rw [hc] <;> rfl
  cases hw with
  | start hc =>
    have hb : c.unserved ++ Event.data .poll = c.received := by
      rw [Conn.unserved, hc]
      exact List.append_nil _
    exact hpiece hb (by rw [hc]; rfl) (nextRequest_sits hs) (Nat.zero_le _) hafter
  | @header data hc hne hlen =>
    have hb : c.unserved ++ Event.data (.read data) = (c.fill data).received := by
      rw [Conn.fill_received hlen, Conn.unserved, hc]
      rfl
    exact hpiece hb (by rw [hc]; rfl) (nextRequest_sits (hs.fill hlen)) (Nat.zero_le _) hafter
  | @body consumed bodyEnd data hc hne hlen =>
    rw [hc] at ha
    obtain ⟨⟨request, bodyLen, hp, hl, hle, rfl⟩, -, hbuf, -⟩ := ha
    have hroom : c.filled + data.length ≤ c.buf.length := hlen.trans hbuf
    have hb : c.unserved ++ Event.data (.read data) = (c.fill data).received := by
      rw [Conn.fill_received hroom, Conn.unserved, hc]
      rfl
    have hp' : srv.parse (c.fill data).received = .complete consumed request := by
      rw [Conn.fill_received hroom]
      exact parse_append_of_complete hp data
    exact hpiece hb (by rw [hc]; rfl) (fillBody_sits (hs.fill hroom) hp' hl hle) (Nat.zero_le _)
      hafter
  | eof hc =>
    obtain ⟨hserved', hsame⟩ := hleft (Or.inl rfl) rfl
    exact .ended rfl rfl hserved' (.eof rfl (hstands.of_waiting hc)
      (hsame.trans (hstands.silent_of_open (hread hc))))
  | readError hc =>
    obtain ⟨hserved', hsame⟩ := hleft (Or.inr rfl) rfl
    exact .ended rfl rfl hserved' (.socket (Or.inl rfl)
      (Or.inl (hsame.trans (hstands.silent_of_open (hread hc)))))
  | elapsed hc h0 =>
    obtain ⟨hserved', hsame⟩ := hleft (Or.inl rfl) rfl
    have hnothing : c.unserved = [] := by
      rw [Conn.unserved, Conn.received, h0, List.take_zero, List.drop_nil]
    exact .ended rfl rfl hserved' (.idle rfl hnothing
      (hsame.trans (hstands.silent_of_open (hread (Or.inl hc)))))
  | metadata hc hok =>
    exact .replies (sendHead_replying _) (hsilent (by rw [hc]; rfl))
  | @metadataFault answer file hc hbad =>
    obtain ⟨hserved', hsame⟩ := hleft (Or.inr rfl) rfl
    refine .ended rfl rfl hserved' (.file (fun h => ?_)
      (hsame.trans (hstands.silent_of_open (by rw [hc]; rfl))))
    have hfile := hbefore h
    rw [hc] at hfile
    rw [hfile.1.1] at hbad
    cases hbad
  | @wrotePart rest next n hc hpos hlt =>
    have hunserved : (c.suspend (.write (rest.drop n) next)).unserved = c.unserved := by
      rw [Conn.unserved, Conn.unserved, hc]
      cases next <;> rfl
    cases next with
    | headerRejected =>
      refine .refuses (Or.inl rfl) ?_
      rw [hunserved, hstands.of_refusing (Or.inl hc), rejectedBytes_append]
      simp [rejectedBytes, AfterWrite.effect]
    | requestRejected =>
      refine .refuses (Or.inr rfl) ?_
      rw [hunserved, hstands.of_refusing (Or.inr hc), rejectedBytes_append]
      simp [rejectedBytes, AfterWrite.effect]
    | body sending | chunk sending file | finish sending =>
      exact .replies rfl (hsilent (by rw [hc]; rfl))
  | @wroteAll rest next hc hpos =>
    have hb : c.unserved ++ Event.data (.wrote rest.length) = c.unserved := List.append_nil _
    rw [hc] at ha
    cases next with
    | headerRejected | requestRejected =>
      have hverdict : srv.verdict c.unserved = .refuse (rejectedBytes os ++ rest) :=
        hstands.of_refusing (by simp [hc])
      obtain ⟨s, hcut, -⟩ := hcuts
      have hs : s = c.unserved := by
        rw [hb] at hcut
        cases hcut
        rfl
      have hserved' := (hserved.append_bytes (Event.data (.wrote rest.length))).trans hcut
      rw [← calls_append, ← delivered_snoc, hs] at hserved'
      refine .ended rfl rfl hserved' (.refused ?_)
      rw [hverdict, rejectedBytes_append]
      simp [rejectedBytes, afterWrite, AfterWrite.effect]
    | chunk sending file => exact .replies rfl (hsilent (by rw [hc]; rfl))
    | body sending =>
      have hunserved : c.unserved = c.received.drop sending.bodyEnd := by
        rw [Conn.unserved, hc]
        rfl
      refine hpiece (hb.trans hunserved) (by rw [hc]; rfl) ((writeBody_sits hs ha.2).after rfl)
        (by rw [Conn.served, hc]) fun h => ⟨?_, (hafter h).of_after⟩
      have hsending := hbefore h
      rw [hc] at hsending
      exact hsending
    | finish sending =>
      have hunserved : c.unserved = c.received.drop sending.bodyEnd := by
        rw [Conn.unserved, hc]
        rfl
      exact hpiece (hb.trans hunserved) (by rw [hc]; rfl) ((finishRequest_sits hs ha.2).after rfl)
        (by rw [Conn.served, hc]) fun h => (hafter h).of_after
  | @writeError rest next hc =>
    obtain ⟨hserved', hsame⟩ := hleft (Or.inr rfl) rfl
    refine .ended rfl rfl hserved' (.socket (Or.inr rfl) ?_)
    rw [hsame]
    cases next with
    | headerRejected => exact Or.inr ⟨rest, hstands.of_refusing (Or.inl hc)⟩
    | requestRejected => exact Or.inr ⟨rest, hstands.of_refusing (Or.inr hc)⟩
    | body sending | chunk sending file | finish sending =>
      exact Or.inl (hstands.silent_of_open (by rw [hc]; rfl))
  | @seek sending file hc hok => exact .replies rfl (hsilent (by rw [hc]; rfl))
  | @seekFault sending file hc hbad =>
    obtain ⟨hserved', hsame⟩ := hleft (Or.inr rfl) rfl
    refine .ended rfl rfl hserved' (.file (fun h => ?_)
      (hsame.trans (hstands.silent_of_open (by rw [hc]; rfl))))
    have hfile := hbefore h
    rw [hc] at hfile
    rw [hfile.1] at hbad
    cases hbad
  | chunk hc hpos hle hsize => exact .replies rfl (hsilent (by rw [hc]; rfl))
  | @fileEnd sending file hc hend hok =>
    rw [hc] at ha
    have hb : c.unserved ++ Event.data (.fileRead 0) = c.received.drop sending.bodyEnd := by
      rw [Conn.unserved, hc]
      exact List.append_nil _
    exact hpiece hb (by rw [hc]; rfl) (finishRequest_sits hs ha) (by rw [Conn.served, hc]) hafter
  | @fileFault sending file hc hend hbad =>
    obtain ⟨hserved', hsame⟩ := hleft (Or.inr rfl) rfl
    refine .ended rfl rfl hserved' (.file (fun h => ?_)
      (hsame.trans (hstands.silent_of_open (by rw [hc]; rfl))))
    have hfile := hbefore h
    rw [hc] at hfile
    rw [File.Sound.faultsAtLimit hfile] at hbad
    cases hbad

/-- **Every state of a run is explained.** -/
theorem run_stands {app' : σ} {es : List Event} {os : List Effect}
    (h : srv.machine.run (Conn.new, app) es = some ((c, app'), os)) : srv.Stands es os c := by
  refine Machine.run_induction (P := fun es s os => srv.Stands es os s.1) (.spawned rfl rfl) ?_ h
  rintro es ⟨c, app⟩ os e ⟨c', app'⟩ o hrun ih hst
  have hw := machine_step hst
  have hlive := not_ended_of_wakeup hw
  obtain ⟨rest, hserved, hrest⟩ := served_of_run hrun
  rw [hrest hlive] at hserved
  have hcount : c.served = (answered os).length := by
    rcases run_sends hrun with ⟨-, hcount⟩ | ⟨hended, -⟩
    · exact hcount
    · exact absurd hended hlive
  exact wakeup_stands (run_inv hrun) ih hserved hcount (run_sound hrun) hw

/-- A head with a body that is too long: the task answers it itself. -/
theorem read_tooLarge (app : σ) {head : Bytes} {bodyLen : Nat} {request : Request} (hi : Idle c)
    (hp : srv.parse head = .complete head.length request)
    (hl : contentLength request.headers = .ok bodyLen) (hlong : maxBodyCapacity < bodyLen)
    (hroom : head.length ≤ c.buf.length) :
    ∃ c', srv.machine.step (c, app) (.read head) = some ((c', app), [.requestStart]) ∧
      c'.await = .write payloadTooLargeResponse .requestRejected := by
  have hlen : c.filled + head.length ≤ c.buf.length := by rw [hi.filled]; omega
  have hrec : (c.fill head).received = head := by
    rw [Conn.fill_received hlen, hi.received, List.nil_append]
  have hne : head ≠ [] := List.length_pos_iff.mp (parse_pos hp)
  have hw : c.Wakeup srv app (.read head) (srv.nextRequest app (c.fill head)) :=
    .header hi.await hne hlen
  have heq : srv.nextRequest app (c.fill head) = (srv.startRequest app (c.fill head)
      head.length bodyLen).after [.requestStart] := by
    simp only [nextRequest, hrec, hp, hl]
  rw [hw.step, heq, startRequest, if_pos hlong]
  exact ⟨_, rfl, rfl⟩

end Server

/-! A request that declares one byte too many. -/

namespace Oversized

def head : Bytes := asBytes "POST / HTTP/1.1\r\nContent-Length: 10485761\r\n\r\n"

def request : Request :=
  { method := some "POST", path := some "/",
    headers := [⟨"Content-Length", asBytes "10485761"⟩] }

def code : List (Bytes × Request) := [(head, request)]

def server : Server Unit where
  httparse := fun _ => .ofCode code (.singleton _) (by decide)
  handler := fun app _ => (some Upload.response, app)
  maxKeepalive := 100
  combineWrite := false

theorem parse_head : server.parse head = .complete head.length request :=
  IncrementalParser.codeParse_item (.singleton (head, request)) List.mem_cons_self

theorem pending_nil : server.Pending [] :=
  IncrementalParser.ofCode_pending_nil (.singleton _) (by decide) List.mem_cons_self

theorem contentLength_request : contentLength request.headers = .ok 10485761 :=
  contentLength_declared (by decide) nofun

def events : List Event := [.poll, .read head, .wrote payloadTooLargeResponse.length]

def effects : List Effect := [.requestStart, .rejected payloadTooLargeResponse, .requestFinish]

theorem run_events : ∃ c, server.machine.run (Conn.new, ()) events = some ((c, ()), effects) ∧
    c.await = .ended .ok := by
  obtain ⟨c1, hstart, hi1, -⟩ := Server.start_idle () pending_nil
  have hfits : head.length ≤ initialBufCapacity := by decide
  obtain ⟨c2, hread, hawait⟩ := Server.read_tooLarge () hi1 parse_head contentLength_request
    (by decide) (hfits.trans hi1.capacity_le)
  have hw : c2.Wakeup server () (.wrote payloadTooLargeResponse.length)
      ((server.afterWrite () c2 .requestRejected).after
        [AfterWrite.requestRejected.effect payloadTooLargeResponse]) :=
    .wroteAll hawait (by decide)
  exact ⟨_, Machine.run_cons hstart (Machine.run_cons hread (Machine.run_cons hw.step
    (Machine.run_nil _ _))), rfl⟩

end Oversized

/-! ## 4. In a system -/

namespace Server

variable {σ τ : Type} {srv : Server σ} {app : σ} {handler : Handler τ}

theorem Reason.of_withHandler {rest : Bytes} {e : Event} {os : List Effect} {exit : Exit}
    (h : (srv.withHandler handler).Reason rest e os exit) : srv.Reason rest e os exit := by
  cases h with
  | malformed verdict silent => exact .malformed verdict silent
  | refused verdict => exact .refused verdict
  | spent last silent => exact .spent last silent
  | eof event verdict silent => exact .eof event verdict silent
  | idle event nothing silent => exact .idle event nothing silent
  | socket event cut => exact .socket event cut
  | file fault silent => exact .file fault silent
  | panicked call silent => exact .panicked call silent

theorem Stands.of_withHandler {es : List Event} {os : List Effect} {c : Conn}
    (h : (srv.withHandler handler).Stands es os c) : srv.Stands es os c := by
  cases h with
  | spawned stop silent => exact .spawned stop silent
  | waits stop verdict silent => exact .waits stop verdict silent
  | refuses stop verdict => exact .refuses stop verdict
  | replies stop silent => exact .replies stop silent
  | ended stop last served reason =>
    exact .ended stop last served.of_withHandler reason.of_withHandler

theorem Alone.stands {es : List Event} {gone : Prop} {c : Conn} {app' : σ} {os : List Effect}
    (h : srv.Alone app es gone c app' os) :
    srv.Stands es os c ∨ c.await = .ended .dropped ∧ gone := by
  cases h with
  | running stays run => exact Or.inl (run_stands run)
  | dropped goes run live => exact Or.inr ⟨rfl, goes⟩

end Server

end HelixRack
