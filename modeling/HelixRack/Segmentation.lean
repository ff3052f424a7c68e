/-
# How the stream is cut makes no difference

`Conn.future` is what the reference still makes of a task: the rest of the response under way,
and then the outcome on the bytes that are buffered behind it and on those still to arrive.
Every wakeup takes its calls and its bytes off the front of the future (`wakeup_foretold`), so
that a run, whatever its reads and writes are, spells out the outcome on the whole stream
(`run_foretold`).  That such runs come to an end is the business of `wakeup_spends`, which
bounds their length, and `exists_step`, by which a task that has not ended goes on.
-/
import HelixRack.Reference

namespace HelixRack

/-! ## 1. The future of a task -/

/-- What is left of a response after the pending `write_all`. -/
def AfterWrite.reply : AfterWrite → Reply
  | .body sending => bodyReply sending.body
  | .chunk _ file => ⟨file.unread, !file.faultsAtLimit⟩
  | .finish _ => ⟨[], true⟩
  | .headerRejected | .requestRejected => ⟨[], false⟩

/-- The response that follows the head of a framed `answer`. -/
def Server.answerReply {σ : Type} (srv : Server σ) (k : Nat) (answer : Answer) : Reply :=
  let body : Reply := if answer.isHead then ⟨[], true⟩ else bodyReply answer.response.body
  { body with bytes := srv.replyHead k answer ++ body.bytes }

namespace Conn

variable {σ : Type} (srv : Server σ)

/-- What is left of the response under way. -/
def reply (c : Conn) : Reply :=
  match c.await with
  | .spawned | .readHeader | .readBody _ _ => ⟨[], true⟩
  | .metadata answer file =>
    if .metadata ∈ file.faults then ⟨[], false⟩
    else srv.answerReply c.requestsServed
      { answer with response := answer.response.pushContentLength file.contents.length }
  | .write rest next => ⟨rest ++ next.reply.bytes, next.reply.complete⟩
  | .seek _ file =>
    if .seek ∈ file.faults then ⟨[], false⟩
    else ⟨file.contents.take file.readLimit, !file.faultsAtLimit⟩
  | .readFile _ file => ⟨file.unread, !file.faultsAtLimit⟩
  | .ended _ => ⟨[], false⟩

/-- What is still to come when `rest` is still to arrive. -/
def future (c : Conn) (app : σ) (rest : Bytes) : Outcome :=
  (c.reply srv).followedBy (srv.reference (srv.maxKeepalive - c.served) app (c.unserved ++ rest))

end Conn

namespace Reply

@[simp] theorem complete_followedBy (next : Outcome) :
    (⟨[], true⟩ : Reply).followedBy next = next := rfl

@[simp] theorem incomplete_followedBy (next : Outcome) :
    (⟨[], false⟩ : Reply).followedBy next = .empty := rfl

/-- The front of a reply can be taken off. -/
theorem followedBy_append (bytes bytes' : Bytes) (complete : Bool) (next : Outcome) :
    (⟨bytes ++ bytes', complete⟩ : Reply).followedBy next =
      .written bytes ++ (⟨bytes', complete⟩ : Reply).followedBy next := by
  simp only [followedBy, Outcome.written_append, Outcome.append_assoc]

end Reply

namespace Server

variable {σ : Type} {srv : Server σ} {c : Conn} {app : σ}

/-- `before` is what `p` has done and what is still to come of it. -/
def Foretold (srv : Server σ) (rest : Bytes) (before : Outcome) (p : Poll σ) : Prop :=
  before = observed p.effects ++ p.conn.future srv p.app rest

theorem Foretold.after {rest : Bytes} {before : Outcome} {p : Poll σ}
    (h : srv.Foretold rest before p) (os : List Effect) :
    srv.Foretold rest (observed os ++ before) (p.after os) := by
  rw [Foretold, Poll.after_effects, observed_append, Outcome.append_assoc, h]
  rfl

theorem Foretold.after_silent {rest : Bytes} {before : Outcome} {p : Poll σ}
    (h : srv.Foretold rest before p) {os : List Effect} (hos : observed os = .empty) :
    srv.Foretold rest before (p.after os) := by
  have hafter := h.after os
  rwa [hos, Outcome.empty_append] at hafter

/-- Nothing called for, nothing written: the future stays. -/
theorem Foretold.still {rest : Bytes} {before : Outcome} {c : Conn}
    (h : before = c.future srv app rest) : srv.Foretold rest before ⟨c, app, []⟩ := h

/-- No more is to come of a task that has ended. -/
theorem Foretold.exit {rest : Bytes} {c : Conn} {e : Exit} {os : List Effect}
    (h : observed os = .empty) : srv.Foretold rest .empty ⟨c.exit e, app, os⟩ := by
  rw [Foretold, h]
  rfl

/-! ## 2. The response step -/

theorem sendHead_future (answer : Answer) (rest : Bytes) :
    (srv.sendHead c answer).future srv app rest =
      (srv.answerReply c.requestsServed answer).followedBy
        (srv.reference (srv.maxKeepalive - (c.requestsServed + 1)) app
          (c.received.drop answer.bodyEnd ++ rest)) := by
  obtain ⟨bytes, next, heq, sending, hend, hb, hcase⟩ := sendHead_cases srv c answer
  have hunserved : ∀ next : AfterWrite, (Await.write bytes next).answered = sending.bodyEnd →
      ({ c with requestsServed := c.requestsServed + 1, await := .write bytes next } :
        Conn).unserved = c.received.drop answer.bodyEnd := by
    intro next hnext
    rw [Conn.unserved, hnext, hend]
    rfl
  rw [heq]
  rcases hcase with ⟨hh, hbytes, hnext⟩ | ⟨hh, hnext, content, hc, hbytes⟩ | ⟨hh, hbytes, hnext⟩
  · subst hnext
    rw [Conn.future, hunserved _ rfl]
    simp only [Conn.reply, AfterWrite.reply, answerReply, hh, hbytes, if_true]
    rfl
  · subst hnext
    rw [Conn.future, hunserved _ rfl]
    simp only [Conn.reply, AfterWrite.reply, answerReply, hh, hbytes, hc, bodyReply,
      List.append_nil, Bool.false_eq_true, if_false]
    rfl
  · subst hnext
    rw [Conn.future, hunserved _ rfl]
    simp only [Conn.reply, AfterWrite.reply, answerReply, hh, hbytes, hb, Bool.false_eq_true,
      if_false]
    rfl

/-- A response that can be framed is answered with its head and its body. -/
theorem respond_framed (k bodyEnd : Nat) (request : ParsedRequest) {response : HandlerResponse}
    (h : framingFails response = false) :
    srv.answerReply k { bodyEnd, isHead := isHead request,
                        response := { response with headers := framedHeaders response } }
      = respond (decide (k + 1 ≥ srv.maxKeepalive)) request response := by
  simp only [respond, h, Bool.false_eq_true, if_false, answerReply, replyHead_framed]

theorem framingFails_of_framed {response r : HandlerResponse}
    (h : ensureFraming { response with headers := stripConnection response.headers }
      = .framed r) : framingFails response = false := by
  unfold ensureFraming at h
  split at h
  · rename_i hf
    have hf' : hasFraming (stripConnection response.headers) = true := hf
    rw [framingFails, hf']
    rfl
  · split at h
    · rename_i bytes hb
      have hb' : response.body = .inMemory bytes := hb
      simp only [framingFails, hb', Bool.and_false]
    · split at h <;> cases h

theorem framingFails_of_metadata {response : HandlerResponse} {file : File}
    (h : ensureFraming { response with headers := stripConnection response.headers }
      = .awaitMetadata file) :
    framingFails response = decide (.metadata ∈ file.faults) := by
  unfold ensureFraming at h
  split at h
  · cases h
  · rename_i hf
    have hf' : hasFraming (stripConnection response.headers) = false := by simpa using hf
    split at h
    · cases h
    · rename_i file' hb
      have hb' : response.body = .spooled file' := hb
      split at h
      · cases h
      · rename_i hclone
        cases h
        simp only [framingFails, hf', hb', hclone, false_or, Bool.not_false, Bool.true_and]

theorem framingFails_of_failed {response : HandlerResponse}
    (h : ensureFraming { response with headers := stripConnection response.headers }
      = .failed) : framingFails response = true := by
  unfold ensureFraming at h
  split at h
  · cases h
  · rename_i hf
    have hf' : hasFraming (stripConnection response.headers) = false := by simpa using hf
    split at h
    · cases h
    · rename_i file hb
      have hb' : response.body = .spooled file := hb
      split at h
      · rename_i hclone
        simp only [framingFails, hf', hb', hclone, true_or, Bool.not_false, Bool.true_and,
          decide_true]
      · cases h

/-- From the handler's answer on, the response and what lies behind the request. -/
theorem frameResponse_future (bodyEnd : Nat) (request : ParsedRequest)
    (response : HandlerResponse) (rest : Bytes) :
    observed (srv.frameResponse c (.start bodyEnd request response)).2 ++
        (srv.frameResponse c (.start bodyEnd request response)).1.future srv app rest =
      (respond (decide (c.requestsServed + 1 ≥ srv.maxKeepalive)) request response).followedBy
        (srv.reference (srv.maxKeepalive - (c.requestsServed + 1)) app
          (c.received.drop bodyEnd ++ rest)) := by
  unfold frameResponse
  split
  · rename_i r hr
    have hframed := ensureFraming_framed hr
    subst hframed
    rw [← respond_framed c.requestsServed bodyEnd request (framingFails_of_framed hr)]
    exact sendHead_future _ rest
  · rename_i file hr
    obtain ⟨-, hpush⟩ := ensureFraming_metadata hr
    have hfails := framingFails_of_metadata hr
    have hserved : (c.suspend (.metadata (.start bodyEnd request response) file)).served
        = c.requestsServed + 1 := rfl
    have hunserved : (c.suspend (.metadata (.start bodyEnd request response) file)).unserved
        = c.received.drop bodyEnd := rfl
    rw [observed_nil, Outcome.empty_append, Conn.future, hserved, hunserved]
    by_cases hm : FileOp.metadata ∈ file.faults
    · rw [decide_eq_true hm] at hfails
      simp only [respond, hfails, if_true, Conn.reply, Conn.suspend, if_pos hm]
    · rw [decide_eq_false hm] at hfails
      rw [← respond_framed c.requestsServed bodyEnd request hfails]
      simp only [Conn.reply, Conn.suspend, if_neg hm, Answer.start, hpush]
  · rename_i hr
    simp only [respond, framingFails_of_failed hr, if_true]
    rfl

/-! ## 3. From one await point to the next -/

theorem reference_pending {n : Nat} {stream : Bytes} (h : srv.Pending stream) :
    srv.reference n app stream = .empty := by
  obtain ⟨out, hp⟩ := h
  have hparse : srv.parse stream = .incomplete out := hp
  cases n with
  | zero => rfl
  | succ n => rw [reference, hparse]

theorem reference_invalid {n : Nat} {stream : Bytes}
    (h : srv.parse stream = .invalid) : srv.reference n app stream = .empty := by
  cases n with
  | zero => rfl
  | succ n => rw [reference, h]

theorem reference_short {n consumed bodyEnd : Nat} {stream : Bytes}
    (h : srv.Framed stream consumed bodyEnd) (hlt : stream.length < bodyEnd) :
    srv.reference n app stream = .empty := by
  obtain ⟨request, bodyLen, hp, hl, hle, rfl⟩ := h
  cases n with
  | zero => rfl
  | succ n =>
    rw [reference, hp]
    simp only [hl, if_neg (not_lt.mpr hle), if_pos hlt]

/-- With the body buffered, the task does what the reference does with the request. -/
theorem fillBody_foretold {consumed bodyLen : Nat} {request : Request} (hs : c.Sized)
    (hk : c.requestsServed < srv.maxKeepalive)
    (hp : srv.parse c.received = .complete consumed request)
    (hl : contentLength request.headers = .ok bodyLen) (hle : bodyLen ≤ maxBodyCapacity)
    (rest : Bytes) :
    srv.Foretold rest
      (srv.reference (srv.maxKeepalive - c.requestsServed) app (c.received ++ rest))
      (srv.fillBody app c consumed (consumed + bodyLen)) := by
  unfold fillBody
  split
  · exact .still rfl
  · rename_i hfilled
    have hend : consumed + bodyLen ≤ c.filled := not_lt.mp hfilled
    have hwhole : consumed + bodyLen ≤ c.received.length := by
      rw [Conn.length_received hs.filled_le]
      exact hend
    have hlong : ¬ (c.received ++ rest).length < consumed + bodyLen := by
      rw [List.length_append]
      omega
    obtain ⟨left, hleft⟩ : ∃ left, srv.maxKeepalive - c.requestsServed = left + 1 :=
      ⟨srv.maxKeepalive - c.requestsServed - 1, by omega⟩
    have hnext : left = srv.maxKeepalive - (c.requestsServed + 1) := by omega
    have hlast : decide (left = 0) = decide (c.requestsServed + 1 ≥ srv.maxKeepalive) :=
      decide_eq_decide.mpr (by omega)
    rw [hleft, reference, parse_append_of_complete hp rest, answerRequest, hp]
    simp only [hl, if_neg (not_lt.mpr hle), if_neg hlong, Conn.buf_slice hend,
      slice_append hwhole, List.drop_append_of_le_length hwhole]
    cases hh : parsedHeaders request.headers with
    | none => exact .still rfl
    | some headers =>
      simp only [callHandler]
      cases hcall : srv.handler app
          (parsedRequest request headers ((c.received.drop consumed).take bodyLen)) with
      | mk answer app' =>
        cases answer with
        | none => rfl
        | some response =>
          simp only
          rw [Foretold, observed_cons, Outcome.append_assoc, hlast, hnext]
          exact congrArg _ (frameResponse_future _ _ _ rest).symm

theorem nextRequest_foretold (hs : c.Sized) (hk : c.requestsServed < srv.maxKeepalive)
    {rest : Bytes} (hcap : srv.Pending c.received → c.filled < maxBufCapacity) :
    srv.Foretold rest
      (srv.reference (srv.maxKeepalive - c.requestsServed) app (c.received ++ rest))
      (srv.nextRequest app c) := by
  obtain ⟨left, hleft⟩ : ∃ left, srv.maxKeepalive - c.requestsServed = left + 1 :=
    ⟨srv.maxKeepalive - c.requestsServed - 1, by omega⟩
  cases hp : srv.parse c.received with
  | invalid =>
    rw [hleft, reference, parse_append_of_invalid hp rest, nextRequest, hp]
    exact .exit rfl
  | incomplete out =>
    obtain ⟨buf, heq, hrec, -⟩ := awaitHeader_of_lt hs (hcap ⟨out, hp⟩)
    rw [nextRequest, hp]
    simp only
    rw [heq]
    refine .still ?_
    rw [← hrec]
    rfl
  | complete consumed request =>
    rw [nextRequest, hp]
    simp only
    cases hl : contentLength request.headers with
    | error e =>
      rw [hleft, reference, parse_append_of_complete hp rest]
      simp only [hl]
      exact .exit rfl
    | ok bodyLen =>
      refine Foretold.after_silent ?_ observed_start
      rcases Nat.lt_or_ge maxBodyCapacity bodyLen with hb | hb
      · rw [hleft, reference, parse_append_of_complete hp rest, startRequest, if_pos hb]
        simp only [hl, if_pos hb]
        exact .still rfl
      · have hgrown : (c.growTo (consumed + bodyLen)).received = c.received :=
          Conn.growTo_received hs.filled_le _
        rw [startRequest_of_le hb, ← hgrown]
        rw [← hgrown] at hp
        exact fillBody_foretold (hs.growTo _) hk hp hl hb rest

/-- Behind a request, the task is where the reference is. -/
theorem finishRequest_foretold {sending : Sending} {rest : Bytes} (hs : c.Sized)
    (hr : c.Replying srv sending) (hcap : srv.AtStarts srv.WithinCap (c.received ++ rest)) :
    srv.Foretold rest
      (srv.reference (srv.maxKeepalive - c.requestsServed) app
        (c.received.drop sending.bodyEnd ++ rest))
      (srv.finishRequest app c sending) := by
  refine Foretold.after_silent ?_ observed_finish
  have hlast := hr.isLast
  split
  · rename_i h
    rw [h, eq_comm, decide_eq_true_eq] at hlast
    have hzero : srv.maxKeepalive - c.requestsServed = 0 := by omega
    rw [hzero]
    exact .exit rfl
  · rename_i h
    rw [Bool.not_eq_true] at h
    rw [h, eq_comm, decide_eq_false_iff_not] at hlast
    have hk : c.requestsServed < srv.maxKeepalive := by omega
    obtain ⟨consumed, hf⟩ := hr.framed
    have hle : sending.bodyEnd ≤ c.received.length := by
      rw [Conn.length_received hs.filled_le]
      exact hr.bodyEnd_le
    have hle' : sending.bodyEnd ≤ (c.received ++ rest).length := by
      rw [List.length_append]
      omega
    have hbehind := (hcap.drop (hf.append rest) hle').here
    rw [List.drop_append_of_le_length hle, ← Conn.shift_received hs.filled_le] at hbehind
    have hpending : srv.Pending (c.shift sending.bodyEnd).received →
        (c.shift sending.bodyEnd).filled < maxBufCapacity := by
      intro hp
      rw [← Conn.length_received (hs.shift _).filled_le]
      exact hbehind.pending_lt hp
    rw [← Conn.shift_received hs.filled_le]
    exact nextRequest_foretold (hs.shift _) hk hpending

theorem afterWrite_foretold {bytes rest : Bytes} {next : AfterWrite} (hs : c.Sized)
    (hc : c.await = .write bytes next) (hn : c.WriteInv srv next)
    (hcap : srv.AtStarts srv.WithinCap (c.received ++ rest)) :
    srv.Foretold rest
      (next.reply.followedBy
        (srv.reference (srv.maxKeepalive - c.requestsServed) app (c.unserved ++ rest)))
      (srv.afterWrite app c next) := by
  rw [Conn.unserved, hc]
  cases next with
  | headerRejected => exact .exit rfl
  | requestRejected => exact .exit rfl
  | body sending =>
    simp only [afterWrite, writeBody, AfterWrite.reply]
    cases hb : sending.body with
    | inMemory content =>
      simp only [bodyReply]
      by_cases hnil : content = []
      · subst hnil
        exact finishRequest_foretold hs hn hcap
      · rw [if_neg hnil]
        refine .still ?_
        have hreply : (c.suspend (.write content (.finish sending))).reply srv
            = ⟨content, true⟩ := by
          simp only [Conn.reply, Conn.suspend, AfterWrite.reply, List.append_nil]
        rw [Conn.future, hreply]
        rfl
    | spooled file =>
      by_cases hclone : FileOp.cloneForWrite ∈ file.faults
      · simp only [bodyReply, if_pos hclone, if_pos (Or.inl hclone)]
        exact .exit rfl
      · simp only [bodyReply, hclone, false_or, if_false]
        refine .still ?_
        rw [Conn.future]
        rfl
  | chunk sending file => exact .still rfl
  | finish sending => exact finishRequest_foretold hs hn hcap

/-! ## 4. A wakeup -/

theorem answered_of_write (bytes bytes' : Bytes) (next : AfterWrite) :
    (Await.write bytes next).answered = (Await.write bytes' next).answered := by
  cases next <;> rfl

/-- While a request is being read, everything is still to come. -/
theorem future_of_reading {rest : Bytes}
    (h : c.await = .spawned ∨ c.await = .readHeader ∨ ∃ k n, c.await = .readBody k n) :
    c.future srv app rest =
      srv.reference (srv.maxKeepalive - c.requestsServed) app (c.received ++ rest) := by
  rcases h with hc | hc | ⟨k, n, hc⟩
  all_goals
    simp only [Conn.future, Conn.reply, Conn.served, Conn.unserved, hc]
    rfl

/-- **A wakeup takes its calls and its bytes off the front of the future.** -/
theorem wakeup_foretold {e : Event} {p : Poll σ} {rest rest' : Bytes} (hk : 1 ≤ srv.maxKeepalive)
    (hi : c.Inv srv) (hcap : srv.AtStarts srv.WithinCap (c.received ++ rest))
    (hfeed : feed rest e = some rest') (hw : c.Wakeup srv app e p) :
    srv.Foretold rest' (c.future srv app rest) p := by
  have hs := hi.toSized
  have ha := hi.atAwait
  have hbudget : srv.budget = srv.maxKeepalive := Nat.max_eq_right hk
  obtain ⟨hrest, heof, hread, helapsed, hwrite⟩ := feed_eq hfeed
  have hpending : srv.Pending (c.received ++ e.data) →
      (c.received ++ e.data).length < maxBufCapacity := by
    intro hp
    have hhere := hcap.here
    rw [hrest, ← List.append_assoc] at hhere
    exact hhere.pending_lt hp
  have hleave : ∀ x : Exit, c.future srv app rest = .empty →
      srv.Foretold rest' (c.future srv app rest) (c.leave app x) := by
    intro x hempty
    rw [hempty]
    refine .exit ?_
    unfold Await.dropGuard
    split <;> rfl
  cases hw with
  | start hc =>
    rw [hc, Conn.AwaitInv, hbudget] at ha
    rw [show rest = rest' from hrest] at hcap ⊢
    rw [future_of_reading (Or.inl hc)]
    refine nextRequest_foretold hs ha.2 ?_
    intro hp
    rw [← Conn.length_received hs.filled_le]
    exact hcap.here.pending_lt hp
  | @header data hc hne hlen =>
    rw [hc, Conn.AwaitInv, hbudget] at ha
    have hstream : c.received ++ rest = (c.fill data).received ++ rest' := by
      rw [Conn.fill_received hlen, List.append_assoc]
      exact congrArg _ hrest
    rw [future_of_reading (Or.inr (Or.inl hc)), hstream]
    refine nextRequest_foretold (hs.fill hlen) ha.2.2.2 ?_
    intro hp
    rw [← Conn.length_received (hs.fill hlen).filled_le, Conn.fill_received hlen]
    rw [Conn.fill_received hlen] at hp
    exact hpending hp
  | @body consumed bodyEnd data hc hne hlen =>
    rw [hc, Conn.AwaitInv, hbudget] at ha
    obtain ⟨⟨request, bodyLen, hp, hl, hle, rfl⟩, -, hroom, hserved⟩ := ha
    have hlen' : c.filled + data.length ≤ c.buf.length := hlen.trans hroom
    have hstream : c.received ++ rest = (c.fill data).received ++ rest' := by
      rw [Conn.fill_received hlen', List.append_assoc]
      exact congrArg _ hrest
    have hp' : srv.parse (c.fill data).received = .complete consumed request := by
      rw [Conn.fill_received hlen']
      exact parse_append_of_complete hp data
    rw [future_of_reading (Or.inr (Or.inr ⟨_, _, hc⟩)), hstream]
    exact fillBody_foretold (hs.fill hlen') hserved hp' hl hle rest'
  | eof hc =>
    have hnil := heof rfl
    refine hleave _ ?_
    rw [future_of_reading (Or.inr hc), hnil, List.append_nil]
    rcases hc with hc | ⟨consumed, bodyEnd, hc⟩
    · rw [hc] at ha
      exact reference_pending ha.1
    · rw [hc] at ha
      refine reference_short ha.1 ?_
      rw [Conn.length_received hs.filled_le]
      exact ha.2.1
  | readError hc => exact absurd rfl hread
  | elapsed hc h0 => exact absurd rfl helapsed
  | writeError hc => exact absurd rfl hwrite
  | metadata hc hok =>
    rw [show rest = rest' from hrest]
    refine .still ?_
    rw [sendHead_future]
    simp only [Conn.future, Conn.reply, Conn.served, Conn.unserved, hc, if_neg hok]
    rfl
  | metadataFault hc hbad =>
    refine hleave _ ?_
    simp only [Conn.future, Conn.reply, hc, if_pos hbad, Reply.incomplete_followedBy]
  | @wrotePart bytes next n hc hpos hlt =>
    rw [show rest = rest' from hrest]
    have hfuture : c.future srv app rest' = .written (bytes.take n) ++
        (c.suspend (.write (bytes.drop n) next)).future srv app rest' := by
      simp only [Conn.future, Conn.reply, hc, Conn.suspend]
      rw [← Reply.followedBy_append, ← List.append_assoc, List.take_append_drop]
      simp only [Conn.served, Conn.unserved, hc, answered_of_write (bytes.drop n) bytes]
      rfl
    rw [hfuture, ← observed_write next]
    rfl
  | @wroteAll bytes next hc hpos =>
    rw [show rest = rest' from hrest] at hcap ⊢
    have hn := ha
    rw [hc] at hn
    have hfuture : c.future srv app rest' = .written bytes ++ next.reply.followedBy
        (srv.reference (srv.maxKeepalive - c.requestsServed) app (c.unserved ++ rest')) := by
      simp only [Conn.future, Conn.reply, Conn.served, hc]
      rw [Reply.followedBy_append]
    rw [hfuture, ← observed_write next]
    exact (afterWrite_foretold hs hc hn.2 hcap).after _
  | seek hc hok =>
    rw [show rest = rest' from hrest]
    refine .still ?_
    simp only [Conn.future, Conn.reply, Conn.served, Conn.unserved, hc, Conn.suspend, if_neg hok,
      File.unread_seekTo_zero, File.faultsAtLimit_seekTo]
    rfl
  | seekFault hc hbad =>
    refine hleave _ ?_
    simp only [Conn.future, Conn.reply, hc, if_pos hbad, Reply.incomplete_followedBy]
  | chunk hc hpos hle hsize =>
    rw [show rest = rest' from hrest]
    refine .still ?_
    simp only [Conn.future, Conn.reply, Conn.served, Conn.unserved, hc, Conn.suspend,
      AfterWrite.reply, File.unread_advance, File.faultsAtLimit_advance, List.take_append_drop]
    rfl
  | @fileEnd sending file hc hend hok =>
    rw [show rest = rest' from hrest] at hcap ⊢
    rw [hc] at ha
    have hfuture : c.future srv app rest' = srv.reference (srv.maxKeepalive - c.requestsServed)
        app (c.received.drop sending.bodyEnd ++ rest') := by
      simp only [Conn.future, Conn.reply, Conn.served, Conn.unserved, hc, hend, hok]
      rfl
    rw [hfuture]
    exact finishRequest_foretold hs ha hcap
  | fileFault hc hend hbad =>
    refine hleave _ ?_
    simp only [Conn.future, Conn.reply, hc, hend, hbad, Bool.not_true,
      Reply.incomplete_followedBy]

/-- The bytes from the current request start on stay the same, or a request is cut off
them. -/
theorem wakeup_stream {P : Bytes → Prop} {e : Event} {p : Poll σ} {rest rest' : Bytes}
    (hi : c.Inv srv) (hrest : rest = e.data ++ rest')
    (h : srv.AtStarts P (c.received ++ rest)) (hw : c.Wakeup srv app e p) :
    srv.AtStarts P (p.conn.received ++ rest') := by
  have hs := hi.toSized
  have ha := hi.atAwait
  subst hrest
  cases hw with
  | start hc =>
    rw [nextRequest_received hs]
    exact h
  | header hc hne hlen =>
    rw [nextRequest_received (hs.fill hlen), Conn.fill_received hlen, List.append_assoc]
    exact h
  | body hc hne hlen =>
    rw [hc] at ha
    obtain ⟨-, -, hroom, -⟩ := ha
    rw [fillBody_received, Conn.fill_received (hlen.trans hroom), List.append_assoc]
    exact h
  | wroteAll hc hpos =>
    rw [hc] at ha
    exact afterWrite_starts app _ hs ha.2 h
  | fileEnd hc hend hok =>
    rw [hc] at ha
    exact finishRequest_starts app _ hs ha h
  | metadata | wrotePart | seek | chunk | eof | readError | elapsed | metadataFault
  | writeError | seekFault | fileFault => exact h

/-! ## 5. A run -/

/-- **A run spells out the outcome on the whole stream**: what it has shown so far, and then
the future of the task it has come to. -/
theorem run_foretold {app app' : σ} {stream rest : Bytes} {es : List Event} {c : Conn}
    {os : List Effect} (hk : 1 ≤ srv.maxKeepalive) (hcap : srv.AtStarts srv.WithinCap stream)
    (h : srv.fed.run ((Conn.new, app), stream) es = some (((c, app'), rest), os)) :
    srv.reference srv.maxKeepalive app stream = observed os ++ c.future srv app' rest ∧
      c.Inv srv ∧ srv.AtStarts srv.WithinCap (c.received ++ rest) := by
  refine Machine.run_induction (P := fun _ s os =>
    srv.reference srv.maxKeepalive app stream = observed os ++ s.1.1.future srv s.1.2 s.2 ∧
      s.1.1.Inv srv ∧ srv.AtStarts srv.WithinCap (s.1.1.received ++ s.2)) ?_ ?_ h
  · have hnew : Conn.new.await = .spawned := rfl
    have hreceived : Conn.new.received = [] := List.take_zero
    have hserved : srv.maxKeepalive - Conn.new.requestsServed = srv.maxKeepalive := rfl
    simp only
    refine ⟨?_, Conn.new_inv, ?_⟩
    · rw [future_of_reading (Or.inl hnew), hreceived, hserved, observed_nil,
        Outcome.empty_append, List.nil_append]
    · rw [hreceived, List.nil_append]
      exact hcap
  · rintro es ⟨⟨c, app₁⟩, rest⟩ os e ⟨⟨c', app₂⟩, rest'⟩ o - ⟨hout, hi, hstarts⟩ hst
    obtain ⟨hfeed, hstep⟩ := Machine.step_within_iff.mp hst
    have hw := machine_step hstep
    have hforetold := wakeup_foretold hk hi hstarts hfeed hw
    refine ⟨?_, hw.inv hi, wakeup_stream hi (feed_eq hfeed).1 hstarts hw⟩
    rw [hout, hforetold, observed_append, Outcome.append_assoc]

/-! ## 6. Every run comes to an end -/

/-- Wakeups that need no byte to be read or written and no call, from an await point on. -/
def credit : Await → Nat
  | .ended _ => 0
  | .readHeader | .readBody _ _ | .write _ .headerRejected | .write _ .requestRejected
  | .write _ (.chunk _ _) | .write _ (.finish _) => 1
  | .spawned | .write _ (.body _) | .readFile _ _ => 2
  | .metadata _ _ | .seek _ _ => 3

theorem frameResponse_credit (answer : Answer) :
    credit (srv.frameResponse c answer).1.await ≤ 3 := by
  unfold frameResponse
  split
  · rename_i response hr
    obtain ⟨bytes, next, heq, -⟩ := sendHead_cases srv c { answer with response }
    rw [heq]
    cases next <;> simp [credit]
  · exact Nat.le_refl _
  · exact Nat.zero_le _

theorem fillBody_credit {consumed bodyEnd : Nat} :
    credit (srv.fillBody app c consumed bodyEnd).conn.await ≤
      1 + (observed (srv.fillBody app c consumed bodyEnd).effects).size := by
  refine fillBody_elim srv app c consumed bodyEnd ?read ?invalid ?badRequest ?panicked ?called
  case read => exact fun _ => Nat.le_refl _
  case invalid => exact Nat.zero_le _
  case badRequest => exact Nat.le_refl _
  case panicked => exact fun _ _ => Nat.zero_le _
  case called =>
    -- the call pays for the wakeups that frame and open the response
    intro request response app' _
    rw [observed_cons, Outcome.size_append, observed_call, Outcome.size_called]
    refine (frameResponse_credit _).trans ?_
    omega

theorem nextRequest_credit :
    credit (srv.nextRequest app c).conn.await ≤
      1 + (observed (srv.nextRequest app c).effects).size := by
  refine nextRequest_elim srv app c ?invalid ?pending ?malformed ?tooLarge ?framed
  case invalid => exact Nat.zero_le _
  case pending =>
    intro _
    simp only [awaitHeader]
    split
    · exact Nat.le_refl _
    · exact Nat.le_refl _
  case malformed => exact fun _ => Nat.zero_le _
  case tooLarge => exact fun _ _ _ => Nat.le_refl _
  case framed =>
    intro consumed request bodyLen _ _ _
    rw [Poll.after_effects, observed_append, observed_start, Outcome.empty_append,
      Poll.after_conn]
    exact fillBody_credit

theorem finishRequest_credit {sending : Sending} :
    credit (srv.finishRequest app c sending).conn.await ≤
      1 + (observed (srv.finishRequest app c sending).effects).size := by
  rw [finishRequest, Poll.after_effects, observed_append, observed_finish,
    Outcome.empty_append, Poll.after_conn]
  split
  · exact Nat.zero_le _
  · exact nextRequest_credit

theorem afterWrite_credit (bytes : Bytes) {next : AfterWrite} :
    credit (srv.afterWrite app c next).conn.await ≤
      credit (.write bytes next) + 1 + (observed (srv.afterWrite app c next).effects).size := by
  have hfinish : ∀ sending : Sending, credit (srv.finishRequest app c sending).conn.await ≤
      1 + 1 + (observed (srv.finishRequest app c sending).effects).size := by
    intro sending
    refine finishRequest_credit.trans ?_
    omega
  cases next with
  | headerRejected => exact Nat.zero_le _
  | requestRejected => exact Nat.zero_le _
  | body sending =>
    simp only [afterWrite, writeBody]
    split
    · split
      · refine (hfinish _).trans ?_
        exact Nat.add_le_add_right (Nat.le_succ 2) _
      · exact Nat.le_add_left 1 2
    · split
      · exact Nat.zero_le _
      · exact Nat.le_refl 3
  | chunk sending file => exact Nat.le_refl 2
  | finish sending => exact hfinish _

/-- **A wakeup is paid for** by a byte it reads or writes, by a call, or out of the credit. -/
theorem wakeup_spends {e : Event} {p : Poll σ} (hw : c.Wakeup srv app e p) :
    1 + credit p.conn.await ≤ credit c.await + e.data.length + (observed p.effects).size := by
  have hleave : ∀ x : Exit, 1 ≤ credit c.await →
      1 + credit (c.leave app x).conn.await ≤
        credit c.await + e.data.length + (observed (c.leave app x).effects).size := by
    intro x hpos
    have hzero : credit (c.leave app x).conn.await = 0 := rfl
    omega
  have hwritten : ∀ (next : AfterWrite) (bytes : Bytes),
      (observed [next.effect bytes]).size = 2 * bytes.length := by
    intro next bytes
    rw [observed_write, Outcome.size_written]
  cases hw with
  | start hc =>
    have hcredit : credit c.await = 2 := by rw [hc, credit]
    have hnext : credit (srv.nextRequest app c).conn.await ≤
      1 + (observed (srv.nextRequest app c).effects).size := nextRequest_credit
    omega
  | @header data hc hne hlen =>
    have hcredit : credit c.await = 1 := by rw [hc, credit]
    have hdata : 1 ≤ (Event.data (.read data)).length := List.length_pos_iff.mpr hne
    have hnext : credit (srv.nextRequest app (c.fill data)).conn.await ≤
      1 + (observed (srv.nextRequest app (c.fill data)).effects).size := nextRequest_credit
    omega
  | @body consumed bodyEnd data hc hne hlen =>
    have hcredit : credit c.await = 1 := by rw [hc, credit]
    have hdata : 1 ≤ (Event.data (.read data)).length := List.length_pos_iff.mpr hne
    have hnext : credit (srv.fillBody app (c.fill data) consumed bodyEnd).conn.await ≤
      1 + (observed (srv.fillBody app (c.fill data) consumed bodyEnd).effects).size :=
        fillBody_credit
    omega
  | eof hc | readError hc =>
    refine hleave _ ?_
    rcases hc with hc | ⟨k, n, hc⟩ <;> rw [hc] <;> exact Nat.le_refl 1
  | elapsed hc h0 =>
    refine hleave _ ?_
    rw [hc]
    exact Nat.le_refl 1
  | @metadata answer file hc hok =>
    have hcredit : credit c.await = 3 := by rw [hc, credit]
    obtain ⟨bytes, next, heq, -⟩ := sendHead_cases srv c
      { answer with response := answer.response.pushContentLength file.contents.length }
    have hnext : credit (.write bytes next) ≤ 2 := by
      cases next <;> simp [credit]
    rw [heq]
    simp only
    omega
  | @wrotePart bytes next n hc hpos hlt =>
    have hcredit : credit c.await = credit (.write (bytes.drop n) next) := by
      rw [hc]
      cases next <;> rfl
    have hlen : (bytes.take n).length = n := List.length_take_of_le hlt.le
    simp only [Conn.suspend_await, hwritten, hlen]
    omega
  | @wroteAll bytes next hc hpos =>
    have hcredit : credit c.await = credit (.write bytes next) := by rw [hc]
    have hnext : credit (srv.afterWrite app c next).conn.await ≤ credit (.write bytes next) + 1 +
      (observed (srv.afterWrite app c next).effects).size := afterWrite_credit bytes
    rw [Poll.after_effects, observed_append, Outcome.size_append, hwritten, Poll.after_conn]
    omega
  | writeError hc =>
    refine hleave _ ?_
    rw [hc]
    rename_i next
    cases next <;> simp [credit]
  | @seek sending file hc hok =>
    have hcredit : credit c.await = 3 := by rw [hc, credit]
    have hnext : credit (c.suspend (.readFile sending (file.seekTo 0))).await = 2 := rfl
    simp only
    omega
  | @chunk sending file n hc hpos hle hsize =>
    have hcredit : credit c.await = 2 := by rw [hc, credit]
    have hnext : credit (c.suspend
      (.write (file.unread.take n) (.chunk sending (file.advance n)))).await = 1 := rfl
    simp only
    omega
  | @fileEnd sending file hc hend hok =>
    have hcredit : credit c.await = 2 := by rw [hc, credit]
    have hnext : credit (srv.finishRequest app c sending).conn.await ≤
      1 + (observed (srv.finishRequest app c sending).effects).size := finishRequest_credit
    omega
  | metadataFault hc hbad | seekFault hc hbad =>
    refine hleave _ ?_
    rw [hc]
    exact Nat.le_add_left 1 2
  | fileFault hc hend hbad =>
    refine hleave _ ?_
    rw [hc]
    exact Nat.le_succ 1

/-- The events of a run are paid for by the stream and the outcome. -/
theorem run_length_le {app app' : σ} {stream rest : Bytes} {es : List Event} {c : Conn}
    {os : List Effect}
    (h : srv.fed.run ((Conn.new, app), stream) es = some (((c, app'), rest), os)) :
    es.length + rest.length ≤ 2 + stream.length + (observed os).size := by
  have hcredit : es.length + credit c.await + rest.length ≤
      2 + stream.length + (observed os).size := by
    refine Machine.run_induction (P := fun es s os =>
      es.length + credit s.1.1.await + s.2.length ≤ 2 + stream.length + (observed os).size)
      ?_ ?_ h
    · have hnew : credit Conn.new.await = 2 := rfl
      simp only [List.length_nil, observed_nil, Outcome.size_empty]
      omega
    · rintro es ⟨⟨c, app₁⟩, rest⟩ os e ⟨⟨c', app₂⟩, rest'⟩ o - ih hst
      obtain ⟨hfeed, hstep⟩ := Machine.step_within_iff.mp hst
      have hspent := wakeup_spends (machine_step hstep)
      have hrest := congrArg List.length (feed_eq hfeed).1
      rw [List.length_append] at hrest
      simp only [List.length_append, List.length_singleton, observed_append,
        Outcome.size_append] at ih hspent ⊢
      omega
  omega

theorem fed_step {rest rest' : Bytes} {e : Event} {p : Poll σ} (hfeed : feed rest e = some rest')
    (hw : c.Wakeup srv app e p) :
    ∃ e s' o, srv.fed.step ((c, app), rest) e = some (s', o) :=
  ⟨e, ((p.conn, p.app), rest'), p.effects, Machine.step_within_iff.mpr ⟨hfeed, hw.step⟩⟩

/-- **A task that has not ended goes on.** -/
theorem exists_step (rest : Bytes) (hi : c.Inv srv) (hlive : ¬ c.await.Ended) :
    ∃ e s' o, srv.fed.step ((c, app), rest) e = some (s', o) := by
  have ha := hi.atAwait
  cases hc : c.await with
  | spawned => exact fed_step rfl (.start hc)
  | readHeader =>
    rw [hc] at ha
    obtain ⟨-, -, hroom, -⟩ := ha
    cases rest with
    | nil => exact fed_step feed_eof (.eof (Or.inl hc))
    | cons b rest =>
      have hfeed : feed (b :: rest) (.read [b]) = some rest :=
        feed_read [b] rest (List.cons_ne_nil _ _)
      exact fed_step hfeed (.header hc (List.cons_ne_nil _ _) hroom)
  | readBody consumed bodyEnd =>
    rw [hc] at ha
    obtain ⟨-, hroom, -⟩ := ha
    cases rest with
    | nil => exact fed_step feed_eof (.eof (Or.inr ⟨_, _, hc⟩))
    | cons b rest =>
      have hfeed : feed (b :: rest) (.read [b]) = some rest :=
        feed_read [b] rest (List.cons_ne_nil _ _)
      exact fed_step hfeed (.body hc (List.cons_ne_nil _ _) hroom)
  | metadata answer file =>
    by_cases hm : FileOp.metadata ∈ file.faults
    · exact fed_step rfl (.metadataFault hc hm)
    · exact fed_step rfl (.metadata hc hm)
  | write bytes next =>
    rw [hc] at ha
    exact fed_step rfl (.wroteAll hc (List.length_pos_iff.mpr ha.1))
  | seek sending file =>
    by_cases hm : FileOp.seek ∈ file.faults
    · exact fed_step rfl (.seekFault hc hm)
    · exact fed_step rfl (.seek hc hm)
  | readFile sending file =>
    by_cases hend : file.unread = []
    · cases hfault : file.faultsAtLimit with
      | true => exact fed_step rfl (.fileFault hc hend hfault)
      | false => exact fed_step rfl (.fileEnd hc hend hfault)
    · have hle : 1 ≤ file.unread.length := List.length_pos_iff.mpr hend
      exact fed_step rfl (.chunk hc Nat.one_pos hle (by decide))
  | ended x => exact absurd ⟨x, hc⟩ hlive

/-! ## 7. Reading byte by byte -/

/-- Any beginning of a header block can be read byte by byte; at the cap the 431 is due. -/
theorem deliver_pending (app : σ) {block : Bytes} (hp : srv.Pending block)
    (hlen : block.length ≤ maxBufCapacity) (more : Bytes) :
    ∃ c, srv.fed.run ((Conn.new, app), block ++ more)
          (.poll :: block.map fun b => .read [b]) = some (((c, app), more), []) ∧
      c.Inv srv ∧ c.received = block ∧
      c.await = if block.length < maxBufCapacity then .readHeader
        else .write requestHeaderFieldsTooLarge .headerRejected := by
  induction block using List.reverseRecOn generalizing more with
  | nil =>
    have hzero : Conn.new.received = [] := List.take_zero
    have hnil : srv.Pending Conn.new.received := by
      rw [hzero]
      exact hp
    obtain ⟨c, heq, hawait, hreceived, -⟩ :=
      nextRequest_pending Conn.new_sized hnil (by decide)
    have hw : Conn.new.Wakeup srv app .poll (srv.nextRequest app Conn.new) := .start rfl
    have hinv := hw.inv Conn.new_inv
    have hstep := hw.step
    rw [heq] at hinv hstep
    refine ⟨c, ?_, hinv, hreceived.trans hzero, hawait⟩
    exact Machine.run_cons (Machine.step_within_iff.mpr ⟨rfl, hstep⟩) (Machine.run_nil _ _)
  | append_singleton block b ih =>
    rw [List.length_append, List.length_singleton] at hlen
    obtain ⟨c, hrun, hi, hreceived, hawait⟩ :=
      ih (IncrementalParser.Pending.of_append hp) (by omega) (b :: more)
    rw [if_pos (by omega)] at hawait
    have hs := hi.toSized
    have hroom : c.filled + [b].length ≤ c.buf.length := by
      have ha := hi.atAwait
      rw [hawait] at ha
      exact ha.2.2.1
    have hw : c.Wakeup srv app (.read [b]) (srv.nextRequest app (c.fill [b])) :=
      .header hawait (List.cons_ne_nil _ _) hroom
    have hfill : (c.fill [b]).received = block ++ [b] := by
      rw [Conn.fill_received hroom, hreceived]
    have hfilled : (c.fill [b]).filled = block.length + 1 := by
      rw [← Conn.length_received (hs.fill hroom).filled_le, hfill, List.length_append]
      rfl
    have hp' : srv.Pending (c.fill [b]).received := by
      rw [hfill]
      exact hp
    have hnext : ∃ c', srv.nextRequest app (c.fill [b]) = ⟨c', app, []⟩ ∧
        c'.received = block ++ [b] ∧
        c'.await = if (block ++ [b]).length < maxBufCapacity then .readHeader
          else .write requestHeaderFieldsTooLarge .headerRejected := by
      rw [List.length_append, List.length_singleton]
      rcases Nat.lt_or_ge (block.length + 1) maxBufCapacity with h | h
      · obtain ⟨c', heq, hawait', hreceived', -⟩ :=
          nextRequest_pending (hs.fill hroom) hp' (by rw [hfilled]; exact h)
        exact ⟨c', heq app, hreceived'.trans hfill, by rw [if_pos h]; exact hawait'⟩
      · refine ⟨_, nextRequest_capped hp' (by rw [hfilled]; exact h), hfill, ?_⟩
        rw [if_neg (not_lt.mpr h)]
        rfl
    obtain ⟨c', heq, hreceived', hawait'⟩ := hnext
    have hinv := hw.inv hi
    have hstep := hw.step
    rw [heq] at hinv hstep
    have hfeed : feed (b :: more) (.read [b]) = some more :=
      feed_read [b] more (List.cons_ne_nil _ _)
    refine ⟨c', ?_, hinv, hreceived', hawait'⟩
    have hlast : srv.fed.run ((c, app), b :: more) [.read [b]] = some (((c', app), more), []) :=
      Machine.run_cons (Machine.step_within_iff.mpr ⟨hfeed, hstep⟩) (Machine.run_nil _ _)
    have hall := Machine.run_append hrun hlast
    rw [List.append_assoc, List.map_append]
    exact hall

/-- A block that reaches the cap unfinished ends the connection with a 431. -/
theorem deliver_capped (app : σ) {block : Bytes}
    (hp : srv.Pending block) (hlen : block.length = maxBufCapacity) (more : Bytes) :
    ∃ es c, srv.fed.run ((Conn.new, app), block ++ more) es =
        some (((c, app), more), [.rejected requestHeaderFieldsTooLarge]) ∧ c.await.Ended := by
  obtain ⟨c, hrun, -, -, hawait⟩ := deliver_pending app hp hlen.le more
  rw [hlen, if_neg (lt_irrefl _)] at hawait
  have hpos : 0 < requestHeaderFieldsTooLarge.length := by decide
  have hw : c.Wakeup srv app (.wrote requestHeaderFieldsTooLarge.length)
      ⟨c.exit .ok, app, [.rejected requestHeaderFieldsTooLarge]⟩ := .wroteAll hawait hpos
  have hlast : srv.fed.run ((c, app), more) [.wrote requestHeaderFieldsTooLarge.length]
      = some (((c.exit .ok, app), more), [.rejected requestHeaderFieldsTooLarge]) :=
    Machine.run_cons (Machine.step_within_iff.mpr ⟨rfl, hw.step⟩) (Machine.run_nil _ _)
  exact ⟨_, c.exit .ok, Machine.run_append hrun hlast, .ok, rfl⟩

/-! ## 8. The connection loop and the reference -/

/-- **Segmentation independence.**  On a stream within the cap, however it is cut into reads
and whatever the sizes of writes and file reads are, a task shows what the reference makes of
the stream: a part of it at any time, all of it in the end.  It does come to an end: until
then there is a next event, and the stream and the reference bound the number of events. -/
theorem segmentation_independent {app app' : σ} {stream rest : Bytes} {es : List Event}
    {c : Conn} {os : List Effect} (hk : 1 ≤ srv.maxKeepalive)
    (hcap : srv.AtStarts srv.WithinCap stream)
    (h : srv.fed.run ((Conn.new, app), stream) es = some (((c, app'), rest), os)) :
    (∃ later, srv.reference srv.maxKeepalive app stream = observed os ++ later) ∧
      (c.await.Ended → observed os = srv.reference srv.maxKeepalive app stream) ∧
      (¬ c.await.Ended → ∃ e s' o, srv.fed.step ((c, app'), rest) e = some (s', o)) ∧
      es.length ≤ 2 + stream.length + (srv.reference srv.maxKeepalive app stream).size := by
  obtain ⟨hout, hi, -⟩ := run_foretold hk hcap h
  refine ⟨⟨_, hout⟩, ?_, exists_step rest hi, ?_⟩
  · rintro ⟨x, hx⟩
    have hover : c.future srv app' rest = .empty := by
      simp only [Conn.future, Conn.reply, hx, Reply.incomplete_followedBy]
    rw [hout, hover, Outcome.append_empty]
  · have hlength := run_length_le h
    rw [hout, Outcome.size_append]
    omega

/-- An upload in two reads, and EOF after the response. -/
theorem segmentation_independent_upload :
    ∃ c, Upload.server.fed.run ((Conn.new, ()), Upload.head ++ Upload.body)
        (Upload.events ++ [.read []]) = some (((c, ()), []), Upload.effects) ∧
      c.await.Ended ∧
      observed Upload.effects =
        Upload.server.reference Upload.server.maxKeepalive () (Upload.head ++ Upload.body) := by
  obtain ⟨c, hrun, hidle, -⟩ := Upload.run_events
  have heof : c.Wakeup Upload.server () (.read []) (c.leave () .ok) :=
    .eof (Or.inl hidle.await)
  have heffects : (c.leave () .ok).effects = [] := by
    simp only [Conn.leave, Await.dropGuard, hidle.await]
    rfl
  have hstep := heof.step
  rw [heffects] at hstep
  have hends := Machine.run_append hrun (Machine.run_cons hstep (Machine.run_nil _ _))
  rw [List.append_nil, List.append_nil] at hends
  have hne : Upload.head ≠ [] := by decide
  have hallowed : (Upload.events ++ [Event.read []]).foldlM feed (Upload.head ++ Upload.body)
      = some [] := by
    have hhead := feed_read Upload.head Upload.body hne
    have hbody := feed_read Upload.body [] Upload.body_ne_nil
    have hlast : [Event.read []].foldlM feed [] = some [] := feeds_cons feed_eof rfl
    rw [List.append_nil] at hbody
    exact feeds_cons rfl (feeds_cons hhead (feeds_cons hbody (feeds_cons rfl hlast)))
  have hcap : Upload.server.AtStarts Upload.server.WithinCap (Upload.head ++ Upload.body) := by
    have hparse := parse_append_of_complete Upload.parse_head Upload.body
    intro s hs
    cases hs with
    | here => exact withinCap_of_complete hparse (by decide)
    | next hf hle hs' =>
      have hwhole : Upload.server.Framed (Upload.head ++ Upload.body) Upload.head.length
          (Upload.head.length + Upload.body.length) :=
        ⟨_, _, hparse, Upload.contentLength_request, Upload.body_le, rfl⟩
      rw [hf.unique hwhole, ← List.length_append, List.drop_length] at hs'
      rw [requestStart_nil hs']
      exact withinCap_nil
  have hended : (c.leave () .ok).conn.await.Ended := ⟨.ok, rfl⟩
  have hk : 1 ≤ Upload.server.maxKeepalive := by decide
  have hfed := Machine.run_within_iff.mpr ⟨hallowed, hends⟩
  exact ⟨_, hfed, hended, (segmentation_independent hk hcap hfed).2.1 hended⟩

/-- A malformed stream has no request start but its own. -/
theorem atStarts_of_invalid {P : Bytes → Prop} {stream : Bytes}
    (h : srv.parse stream = .invalid) (hP : P stream) : srv.AtStarts P stream := by
  intro s hs
  cases hs with
  | here => exact hP
  | next hf _ _ =>
    obtain ⟨request, hcomplete⟩ := hf.complete
    rw [h] at hcomplete
    cases hcomplete

/-- The first 65536 bytes of the large header block and a byte that no header value may have. -/
def malformed : Bytes := Upload.largeHead.take maxBufCapacity ++ [0]

theorem zero_not_mem_largeHead : (0 : UInt8) ∉ Upload.largeHead := by
  have hpadding : ∀ n, (0 : UInt8) ∉ asBytes (String.ofList (List.replicate n 'x')) := by
    intro n
    refine not_mem_asBytes (c := '\x00') (fun hmem => ?_) (by decide)
    rw [String.toList_ofList] at hmem
    exact absurd (List.eq_of_mem_replicate hmem) (by decide)
  have hfront : (0 : UInt8) ∉ Upload.largeHeadFront := by decide
  have hend : (0 : UInt8) ∉ asBytes "\r\n\r\n" := by decide
  intro hmem
  simp only [Upload.largeHead, List.mem_append] at hmem
  rcases hmem with (hmem | hmem) | hmem
  · exact hfront hmem
  · unfold Upload.padding at hmem
    exact hpadding _ hmem
  · exact hend hmem

theorem parse_malformed : Upload.server.parse malformed = .invalid := by
  have hcap : maxBufCapacity = 65536 := rfl
  have hlarge : Upload.largeHead.length = 100049 := Upload.length_largeHead
  have hhead : Upload.head.length ≤ 100 := by decide
  have hlen : malformed.length = 65537 := by
    rw [malformed, List.length_append, List.length_take, List.length_singleton]
    omega
  have hfirst : malformed.head? = some 71 := by
    obtain ⟨rest, hrest⟩ := Upload.largeHead_cons
    rw [malformed, List.head?_append, List.head?_take, if_neg (by omega), hrest]
    rfl
  rw [Upload.parse_eq, IncrementalParser.codeParse_invalid_iff]
  constructor
  · intro w hw hpre
    simp only [Upload.code, List.mem_cons, List.not_mem_nil, or_false] at hw
    rcases hw with rfl | rfl
    · obtain ⟨rest, hrest⟩ := Upload.head_cons
      obtain ⟨more, hmore⟩ := hpre
      simp only [hrest] at hmore
      rw [← hmore] at hfirst
      cases hfirst
    · have hle := hpre.length_le
      simp only at hle
      omega
  · intro w hw hpre
    simp only [Upload.code, List.mem_cons, List.not_mem_nil, or_false] at hw
    rcases hw with rfl | rfl
    · have hle := hpre.length_le
      simp only at hle
      omega
    · have hzero : (0 : UInt8) ∈ malformed :=
        List.mem_append_right _ (List.mem_singleton_self 0)
      exact zero_not_mem_largeHead (hpre.subset hzero)

theorem pending_cut : Upload.server.Pending (Upload.largeHead.take maxBufCapacity) ∧
    (Upload.largeHead.take maxBufCapacity).length = maxBufCapacity := by
  have hcap : maxBufCapacity = 65536 := rfl
  have hlarge : Upload.largeHead.length = 100049 := Upload.length_largeHead
  have hlen : (Upload.largeHead.take maxBufCapacity).length = maxBufCapacity := by
    rw [List.length_take]
    omega
  refine ⟨?_, hlen⟩
  refine Upload.pending_of_prefix (List.take_prefix _ _) fun heq => ?_
  rw [heq] at hlen
  omega

/-- Without a word about malformed blocks the reference is wrong: one that is not seen to be
malformed within the cap is answered with a 431. -/
theorem malformed_block_answered :
    ¬ ∀ (σ : Type) (srv : Server σ) (app app' : σ) (stream rest : Bytes) (es : List Event)
      (c : Conn) (os : List Effect), 1 ≤ srv.maxKeepalive →
      srv.AtStarts (fun s => (∀ n request, srv.parse s = .complete n request →
        n ≤ maxBufCapacity) ∧ (srv.Pending s → s.length < maxBufCapacity)) stream →
      srv.fed.run ((Conn.new, app), stream) es = some (((c, app'), rest), os) →
      c.await.Ended → observed os = srv.reference srv.maxKeepalive app stream := by
  intro hall
  have hparse := parse_malformed
  obtain ⟨hpending, hlen⟩ := pending_cut
  obtain ⟨es, c, hrun, hended⟩ := deliver_capped () hpending hlen [0]
  have hproviso : (∀ n request, Upload.server.parse malformed = .complete n request →
      n ≤ maxBufCapacity) ∧ (Upload.server.Pending malformed →
        malformed.length < maxBufCapacity) := by
    constructor
    · intro n request h
      rw [hparse] at h
      cases h
    · intro hp
      exact absurd hparse hp.not_invalid
  have hkeep : 1 ≤ Upload.server.maxKeepalive := by decide
  have hstarts : Upload.server.AtStarts (fun s => (∀ n request,
      Upload.server.parse s = .complete n request → n ≤ maxBufCapacity) ∧
      (Upload.server.Pending s → s.length < maxBufCapacity)) malformed :=
    atStarts_of_invalid hparse hproviso
  have hclaim := hall Unit Upload.server () () malformed [0] es c _ hkeep
    hstarts hrun hended
  rw [reference_invalid hparse] at hclaim
  have hbytes : requestHeaderFieldsTooLarge = [] := congrArg Outcome.bytes hclaim
  exact absurd hbytes (by decide)

end Server

end HelixRack
