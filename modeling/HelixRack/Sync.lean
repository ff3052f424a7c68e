/-
# The response stream stays in sync

Between a handler's call and the end of its response, part of the response is on the socket
and the rest is due.  `Conn.due` is that rest, read off the await point; a wakeup moves bytes
from what is due to what is sent and adds nothing but the responses it calls the handler for
(`wakeup_sends`).  Over a run this makes the bytes sent the wire images of the answered requests,
one after the other, or a beginning of them, where a failure ends the task (`run_sends`).  Where
nothing fails, what is due is owed, and a client that knows which of the requests were `HEAD`s
reads exactly these responses (`client_in_sync`).
-/
import HelixRack.Client
import HelixRack.Framing

namespace HelixRack

/-! ## 1. What goes on the wire for a request -/

/-- The requests the handler answered, with its responses. -/
def answered (os : List Effect) : List (ParsedRequest × HandlerResponse) :=
  os.filterMap fun
    | .call _ request (some response) => some (request, response)
    | _ => none

/-- The bytes of handlers' responses. -/
def sentBytes (os : List Effect) : Bytes :=
  os.flatMap fun
    | .sent bytes => bytes
    | _ => []

/-- The bytes of the engine's own responses. -/
def rejectedBytes (os : List Effect) : Bytes :=
  os.flatMap fun
    | .rejected bytes => bytes
    | _ => []

/-- Everything written to the socket. -/
def written (os : List Effect) : Bytes :=
  os.flatMap fun
    | .sent bytes | .rejected bytes => bytes
    | _ => []

/-- The header list after the `Connection` filter and `ensure_framing`. -/
def framedHeaders (response : HandlerResponse) : List (String × String) :=
  let kept := stripConnection response.headers
  if hasFraming kept then kept
  else kept ++ [("Content-Length", toString response.body.bytes.length)]

theorem framedHeaders_of_hasFraming {response : HandlerResponse}
    (h : hasFraming (stripConnection response.headers) = true) :
    framedHeaders response = stripConnection response.headers := if_pos h

theorem framedHeaders_of_not {response : HandlerResponse}
    (h : ¬ hasFraming (stripConnection response.headers) = true) :
    framedHeaders response = stripConnection response.headers ++
      [("Content-Length", toString response.body.bytes.length)] := if_neg h

/-- The header list of a response on the wire; the last one closes the connection. -/
def finalHeaders (last : Bool) (response : HandlerResponse) : List (String × String) :=
  if last then framedHeaders response ++ [("Connection", "close")] else framedHeaders response

/-- The response to the `k`-th request (from 0), as a client should see it. -/
def clientView (maxKeepalive k : Nat) (exchange : ParsedRequest × HandlerResponse) :
    ClientResponse :=
  { status := exchange.2.status.toNat
    headers := finalHeaders (decide (k + 1 ≥ maxKeepalive)) exchange.2
    body := if isHead exchange.1 then [] else exchange.2.body.bytes }

/-- ...and on the wire. -/
def wire (maxKeepalive k : Nat) (exchange : ParsedRequest × HandlerResponse) : Bytes :=
  serializeHead
      { exchange.2 with headers := finalHeaders (decide (k + 1 ≥ maxKeepalive)) exchange.2 } ++
    (clientView maxKeepalive k exchange).body

/-- The responses to the requests from the `k`-th on. -/
def wires (maxKeepalive k : Nat) (exchanges : List (ParsedRequest × HandlerResponse)) : Bytes :=
  (exchanges.zipIdx k).flatMap fun (exchange, i) => wire maxKeepalive i exchange

@[simp] theorem wires_nil (m k : Nat) : wires m k [] = [] := rfl

@[simp] theorem wires_singleton (m k : Nat) (exchange : ParsedRequest × HandlerResponse) :
    wires m k [exchange] = wire m k exchange := by
  simp [wires]

theorem wires_append (m k : Nat) (l l' : List (ParsedRequest × HandlerResponse)) :
    wires m k (l ++ l') = wires m k l ++ wires m (k + l.length) l' := by
  simp [wires, List.zipIdx_append]

theorem wires_cons (m k : Nat) (x : ParsedRequest × HandlerResponse)
    (l : List (ParsedRequest × HandlerResponse)) :
    wires m k (x :: l) = wire m k x ++ wires m (k + 1) l := by
  have h := wires_append m k [x] l
  rwa [wires_singleton] at h

@[simp] theorem answered_nil : answered [] = [] := rfl
@[simp] theorem sentBytes_nil : sentBytes [] = [] := rfl
@[simp] theorem rejectedBytes_nil : rejectedBytes [] = [] := rfl

@[simp] theorem answered_call (n : Nat) (request : ParsedRequest) (response : HandlerResponse) :
    answered [.call n request (some response)] = [(request, response)] := rfl

@[simp] theorem sentBytes_call (n : Nat) (request : ParsedRequest)
    (response : Option HandlerResponse) : sentBytes [.call n request response] = [] := rfl

theorem answered_append (os os' : List Effect) :
    answered (os ++ os') = answered os ++ answered os' := List.filterMap_append

theorem sentBytes_append (os os' : List Effect) :
    sentBytes (os ++ os') = sentBytes os ++ sentBytes os' := List.flatMap_append

theorem rejectedBytes_append (os os' : List Effect) :
    rejectedBytes (os ++ os') = rejectedBytes os ++ rejectedBytes os' := List.flatMap_append

theorem written_append (os os' : List Effect) :
    written (os ++ os') = written os ++ written os' := List.flatMap_append

@[simp] theorem sentBytes_sent (bytes : Bytes) : sentBytes [.sent bytes] = bytes :=
  List.append_nil bytes

theorem written_of_rejected_nil {os : List Effect} (h : rejectedBytes os = []) :
    written os = sentBytes os := by
  induction os with
  | nil => rfl
  | cons o os ih =>
    rw [rejectedBytes, List.flatMap_cons, List.append_eq_nil_iff] at h
    rw [written, sentBytes, List.flatMap_cons, List.flatMap_cons]
    refine congrArg₂ _ ?_ (ih h.2)
    cases o with
    | rejected bytes => exact h.1
    | requestStart | requestFinish | call _ _ _ | sent bytes => rfl

theorem written_of_sent_nil {os : List Effect} (h : sentBytes os = []) :
    written os = rejectedBytes os := by
  induction os with
  | nil => rfl
  | cons o os ih =>
    rw [sentBytes, List.flatMap_cons, List.append_eq_nil_iff] at h
    rw [written, rejectedBytes, List.flatMap_cons, List.flatMap_cons]
    refine congrArg₂ _ ?_ (ih h.2)
    cases o with
    | sent bytes => exact h.1
    | requestStart | requestFinish | call _ _ _ | rejected bytes => rfl

@[simp] theorem answered_write (next : AfterWrite) (bytes : Bytes) :
    answered [next.effect bytes] = [] := by
  cases next <;> rfl

/-! ## 2. What is owed at an await point -/

/-- The head that is serialized for a framed response when `k` requests were served before. -/
def Server.replyHead {σ : Type} (srv : Server σ) (k : Nat) (answer : Answer) : Bytes :=
  serializeHead (if decide (k + 1 ≥ srv.maxKeepalive) then
    answer.response.pushHeader "Connection" "close" else answer.response)

/-- The bytes of a response that come after the pending `write_all`. -/
def AfterWrite.owed : AfterWrite → Bytes
  | .body sending => sending.body.bytes
  | .chunk _ file => file.unread
  | .finish _ | .headerRejected | .requestRejected => []

/-- The bytes of a response that are still to be written. -/
def Conn.owed {σ : Type} (srv : Server σ) (c : Conn) : Bytes :=
  match c.await with
  | .metadata answer file => srv.replyHead c.requestsServed
        { answer with response := answer.response.pushContentLength file.contents.length } ++
      (if answer.isHead then [] else answer.response.body.bytes)
  | .write rest next => sentBytes [next.effect rest] ++ next.owed
  | .seek _ file => file.contents
  | .readFile _ file => file.unread
  | .spawned | .readHeader | .readBody _ _ | .ended _ => []

/-- The same, as far as it depends on nothing that can still fail: the rest of a file that is
being read is due although the operating system may not give it. -/
def AfterWrite.due : AfterWrite → Bytes
  | .body sending => sending.body.bytes
  | .chunk _ file => file.contents.drop file.cursor
  | .finish _ | .headerRejected | .requestRejected => []

def Conn.due {σ : Type} (srv : Server σ) (c : Conn) : Bytes :=
  match c.await with
  | .metadata answer file => srv.replyHead c.requestsServed
        { answer with response := answer.response.pushContentLength file.contents.length } ++
      (if answer.isHead then [] else answer.response.body.bytes)
  | .write rest next => sentBytes [next.effect rest] ++ next.due
  | .seek _ file => file.contents
  | .readFile _ file => file.contents.drop file.cursor
  | .spawned | .readHeader | .readBody _ _ | .ended _ => []

/-- How many requests the handler has answered. -/
def Conn.served (c : Conn) : Nat :=
  match c.await with
  | .metadata _ _ => c.requestsServed + 1
  | _ => c.requestsServed

/-- A handler's response is under way. -/
def Await.replying : Await → Bool
  | .metadata _ _ | .seek _ _ | .readFile _ _ | .write _ (.body _) | .write _ (.chunk _ _)
  | .write _ (.finish _) => true
  | .spawned | .readHeader | .readBody _ _ | .ended _ | .write _ .headerRejected
  | .write _ .requestRejected => false

/-- One of the engine's own responses is under way, or the task is over. -/
def Await.closing : Await → Bool
  | .write _ .headerRejected | .write _ .requestRejected | .ended _ => true
  | .spawned | .readHeader | .readBody _ _ | .metadata _ _ | .seek _ _ | .readFile _ _
  | .write _ (.body _) | .write _ (.chunk _ _) | .write _ (.finish _) => false

/-- Where no response is under way, nothing is left of one. -/
theorem Conn.rest_of_not_replying {σ : Type} {srv : Server σ} {c : Conn}
    (h : c.await.replying = false) : c.due srv = [] ∧ c.owed srv = [] := by
  unfold due owed
  cases hc : c.await with
  | spawned | readHeader | readBody k n | ended x => exact ⟨rfl, rfl⟩
  | metadata answer file | seek sending file | readFile sending file =>
    rw [hc] at h
    cases h
  | write rest next =>
    rw [hc] at h
    cases next with
    | headerRejected | requestRejected => exact ⟨rfl, rfl⟩
    | body sending | chunk sending file | finish sending => cases h

theorem Server.Idle.not_replying {c : Conn} (h : Server.Idle c) : c.await.replying = false := by
  rw [h.await]
  rfl

theorem Conn.due_of_not_replying {σ : Type} {srv : Server σ} {c : Conn}
    (h : c.await.replying = false) : c.due srv = [] := (rest_of_not_replying h).1

theorem Conn.owed_of_not_replying {σ : Type} {srv : Server σ} {c : Conn}
    (h : c.await.replying = false) : c.owed srv = [] := (rest_of_not_replying h).2

/-- No file operation fails from here on. -/
def AfterWrite.Sound : AfterWrite → Prop
  | .body sending => sending.body.Sound
  | .chunk _ file => file.Sound
  | .finish _ | .headerRejected | .requestRejected => True

def Await.Sound : Await → Prop
  | .metadata answer file => file.Sound ∧ answer.response.body.Sound
  | .write _ next => next.Sound
  | .seek _ file | .readFile _ file => file.Sound
  | .spawned | .readHeader | .readBody _ _ | .ended _ => True

/-- Where nothing can fail, what is due is owed. -/
theorem Conn.due_eq_owed {σ : Type} {srv : Server σ} {c : Conn} (h : c.await.Sound) :
    c.due srv = c.owed srv := by
  unfold due owed
  split
  case h_2 rest next hc =>
    rw [hc] at h
    refine congrArg _ ?_
    cases next with
    | chunk sending file => exact (File.Sound.unread_eq h).symm
    | body sending | finish sending | headerRejected | requestRejected => rfl
  case h_4 sending file hc =>
    rw [hc] at h
    exact (File.Sound.unread_eq h).symm
  all_goals rfl

/-- The files in the responses work. -/
def SoundCalls (os : List Effect) : Prop :=
  ∀ n request response, .call n request (some response) ∈ os → response.body.Sound

theorem SoundCalls.of_append {os os' : List Effect} (h : SoundCalls (os ++ os')) :
    SoundCalls os ∧ SoundCalls os' :=
  ⟨fun n request response hmem => h n request response (List.mem_append_left _ hmem),
    fun n request response hmem => h n request response (List.mem_append_right _ hmem)⟩

theorem SoundCalls.of_after {σ : Type} {os : List Effect} {p : Poll σ}
    (h : SoundCalls (p.after os).effects) : SoundCalls p.effects := h.of_append.2

namespace Server

variable {σ : Type} {srv : Server σ} {c : Conn} {app : σ}

/-! ## 3. The response step -/

/-- The response that `ensure_framing` is through with is the one on the wire. -/
theorem replyHead_framed (k bodyEnd : Nat) (toHead : Bool) (response : HandlerResponse) :
    srv.replyHead k { bodyEnd, isHead := toHead,
                      response := { response with headers := framedHeaders response } }
      = serializeHead { response with
          headers := finalHeaders (decide (k + 1 ≥ srv.maxKeepalive)) response } := by
  unfold replyHead finalHeaders
  split <;> rfl

/-- What `sendHead` leaves to be written: the head, and the body with it or behind it, if
there is to be one. -/
theorem sendHead_cases (srv : Server σ) (c : Conn) (answer : Answer) :
    ∃ bytes next, srv.sendHead c answer =
        { c with requestsServed := c.requestsServed + 1, await := .write bytes next } ∧
      ∃ sending : Sending, sending.bodyEnd = answer.bodyEnd ∧
        sending.body = answer.response.body ∧
        ((answer.isHead = true ∧ bytes = srv.replyHead c.requestsServed answer ∧
            next = .finish sending) ∨
          (answer.isHead = false ∧ next = .finish sending ∧
            ∃ content, answer.response.body = .inMemory content ∧
              bytes = srv.replyHead c.requestsServed answer ++ content) ∨
          (answer.isHead = false ∧ bytes = srv.replyHead c.requestsServed answer ∧
            next = .body sending)) := by
  have hbody : (if decide (c.requestsServed + 1 ≥ srv.maxKeepalive) = true then
      answer.response.pushHeader "Connection" "close" else answer.response).body
        = answer.response.body := by
    split <;> rfl
  unfold sendHead
  cases hh : answer.isHead with
  | true => exact ⟨_, _, rfl, _, rfl, hbody, Or.inl ⟨rfl, rfl, rfl⟩⟩
  | false =>
    simp only [hbody, Bool.false_eq_true, if_false]
    split
    · rename_i content _ hb
      exact ⟨_, _, rfl, _, rfl, rfl, Or.inr (Or.inl ⟨trivial, rfl, content, hb, rfl⟩)⟩
    · exact ⟨_, _, rfl, _, rfl, rfl, Or.inr (Or.inr ⟨trivial, rfl, rfl⟩)⟩

theorem ensureFraming_framed {response r : HandlerResponse}
    (h : ensureFraming { response with headers := stripConnection response.headers }
      = .framed r) : r = { response with headers := framedHeaders response } := by
  unfold ensureFraming at h
  split at h
  · rename_i hf
    cases h
    rw [framedHeaders_of_hasFraming hf]
  · rename_i hf
    split at h
    · rename_i bytes hb
      cases h
      have hlen : response.body.bytes = bytes := congrArg ResponseBody.bytes hb
      rw [framedHeaders_of_not hf, hlen]
      rfl
    · split at h <;> cases h

theorem ensureFraming_metadata {response : HandlerResponse} {file : File}
    (h : ensureFraming { response with headers := stripConnection response.headers }
      = .awaitMetadata file) :
    response.body = .spooled file ∧
      HandlerResponse.pushContentLength
          { response with headers := stripConnection response.headers } file.contents.length
        = { response with headers := framedHeaders response } := by
  unfold ensureFraming at h
  split at h
  · cases h
  · rename_i hf
    split at h
    · cases h
    · rename_i file' hb
      split at h
      · cases h
      · cases h
        have hlen : response.body.bytes = file.contents := congrArg ResponseBody.bytes hb
        refine ⟨hb, ?_⟩
        rw [framedHeaders_of_not hf, hlen]
        rfl

/-- `try_clone` fails for a file that does not work only. -/
theorem ensureFraming_ne_failed {response : HandlerResponse} (h : response.body.Sound) :
    ensureFraming response ≠ .failed := by
  intro hfail
  unfold ensureFraming at hfail
  split at hfail
  · cases hfail
  · split at hfail
    · cases hfail
    · rename_i file hb
      rw [hb] at h
      split at hfail
      · rename_i hmem
        rw [h.1] at hmem
        cases hmem
      · cases hfail

/-- What was due and what the handler is called for in `p` is sent or due after it. -/
structure Delivers (srv : Server σ) (k : Nat) (before : Bytes) (p : Poll σ) : Prop where
  bytes : before ++ wires srv.maxKeepalive k (answered p.effects) =
    sentBytes p.effects ++ p.conn.due srv
  count : p.conn.served = k + (answered p.effects).length

/-- The outcome of a piece of the task: it delivers, or something fails, which ends the task with
no more than a beginning of the bytes sent.  If `sound`, nothing fails, now or later. -/
def Sends (srv : Server σ) (k : Nat) (before : Bytes) (sound : Prop) (p : Poll σ) : Prop :=
  (Delivers srv k before p ∧ (sound → p.conn.await.Sound)) ∨
    (¬ sound ∧ p.conn.await.Ended ∧
      sentBytes p.effects <+: before ++ wires srv.maxKeepalive k (answered p.effects))

namespace Sends

variable {k : Nat} {before : Bytes} {sound sound' : Prop} {p : Poll σ}

theorem mono (h : Sends srv k before sound p) (hs : sound' → sound) :
    Sends srv k before sound' p := by
  rcases h with ⟨hdel, hsound⟩ | ⟨hnot, hended, hsent⟩
  · exact Or.inl ⟨hdel, fun h => hsound (hs h)⟩
  · exact Or.inr ⟨fun h => hnot (hs h), hended, hsent⟩

theorem after (h : Sends srv k before sound p) (os : List Effect) (hos : answered os = []) :
    Sends srv k (sentBytes os ++ before) sound (p.after os) := by
  have hanswered : answered (p.after os).effects = answered p.effects := by
    rw [Poll.after_effects, answered_append, hos, List.nil_append]
  rcases h with ⟨⟨hbytes, hcount⟩, hsound⟩ | ⟨hnot, hended, hsent⟩
  · refine Or.inl ⟨⟨?_, ?_⟩, hsound⟩
    · rw [hanswered, Poll.after_effects, Poll.after_conn, sentBytes_append, List.append_assoc,
        hbytes, List.append_assoc]
    · rw [hanswered]
      exact hcount
  · refine Or.inr ⟨hnot, hended, ?_⟩
    rw [hanswered, Poll.after_effects, sentBytes_append, List.append_assoc]
    exact (List.prefix_append_right_inj _).mpr hsent

/-- Nothing called for, nothing sent: what is due stays. -/
theorem still {c : Conn} (hbytes : before = c.due srv) (hcount : c.served = k)
    (hsound : sound → c.await.Sound) : Sends srv k before sound ⟨c, app, []⟩ := by
  refine Or.inl ⟨⟨?_, hcount⟩, hsound⟩
  rw [answered_nil, wires_nil, List.append_nil, sentBytes_nil, List.nil_append, hbytes]

/-- The task has ended on a failure. -/
theorem fault (hnot : ¬ sound) (hended : p.conn.await.Ended) (hsent : sentBytes p.effects = []) :
    Sends srv k before sound p := by
  refine Or.inr ⟨hnot, hended, ?_⟩
  rw [hsent]
  exact List.nil_prefix

end Sends

/-- What was owed and what the handler is called for in `p` is sent or owed after it. -/
structure Conserves (srv : Server σ) (k : Nat) (before : Bytes) (p : Poll σ) : Prop where
  bytes : before ++ wires srv.maxKeepalive k (answered p.effects) =
    sentBytes p.effects ++ p.conn.owed srv
  count : p.conn.served = k + (answered p.effects).length
  sound : p.conn.await.Sound

theorem Sends.conserves {k : Nat} {before : Bytes} {sound : Prop} {p : Poll σ}
    (h : Sends srv k before sound p) (hs : sound) : Conserves srv k before p := by
  rcases h with ⟨⟨hbytes, hcount⟩, hsound⟩ | ⟨hnot, -⟩
  · exact ⟨by rw [hbytes, Conn.due_eq_owed (hsound hs)], hcount, hsound hs⟩
  · exact absurd hs hnot

theorem sendHead_sends (srv : Server σ) (c : Conn) (answer : Answer) :
    (srv.sendHead c answer).due srv = srv.replyHead c.requestsServed answer ++
        (if answer.isHead then [] else answer.response.body.bytes) ∧
      (srv.sendHead c answer).served = c.requestsServed + 1 ∧
      (answer.response.body.Sound → (srv.sendHead c answer).await.Sound) := by
  obtain ⟨bytes, next, heq, sending, -, hb, hcase⟩ := sendHead_cases srv c answer
  rw [heq]
  rcases hcase with ⟨hh, hbytes, hnext⟩ | ⟨hh, hnext, content, hc, hbytes⟩ | ⟨hh, hbytes, hnext⟩
  all_goals rw [hbytes, hnext]
  · simp only [Conn.due, AfterWrite.effect, AfterWrite.due, sentBytes_sent, hh, if_true]
    exact ⟨trivial, rfl, fun _ => trivial⟩
  · simp only [Conn.due, AfterWrite.effect, AfterWrite.due, sentBytes_sent, hh, hc,
      List.append_nil, ResponseBody.bytes, Bool.false_eq_true, if_false]
    exact ⟨trivial, rfl, fun _ => trivial⟩
  · simp only [Conn.due, AfterWrite.effect, AfterWrite.due, sentBytes_sent, hh, hb,
      Bool.false_eq_true, if_false]
    refine ⟨trivial, rfl, fun h => ?_⟩
    have hsound : sending.body.Sound := by
      rw [hb]
      exact h
    exact hsound

/-- From the handler's response on, its wire image is due, unless the file cannot be
duplicated. -/
theorem frameResponse_sends (srv : Server σ) (c : Conn) (bodyEnd : Nat) (request : ParsedRequest)
    (response : HandlerResponse) :
    (∃ c', srv.frameResponse c (.start bodyEnd request response) = (c', []) ∧
      c'.due srv = wire srv.maxKeepalive c.requestsServed (request, response) ∧
      c'.served = c.requestsServed + 1 ∧ (response.body.Sound → c'.await.Sound)) ∨
    (¬ response.body.Sound ∧
      srv.frameResponse c (.start bodyEnd request response) = (c.exit .os, [.requestFinish])) := by
  unfold frameResponse
  split
  · rename_i r hr
    have hframed := ensureFraming_framed hr
    subst hframed
    obtain ⟨hdue, hserved, hsound⟩ := sendHead_sends srv c
      { bodyEnd, isHead := isHead request,
        response := { response with headers := framedHeaders response } }
    refine Or.inl ⟨_, rfl, hdue.trans ?_, hserved, hsound⟩
    simp only [replyHead_framed, wire, clientView]
  · rename_i file hr
    obtain ⟨hbody, hpush⟩ := ensureFraming_metadata hr
    refine Or.inl ⟨_, rfl, ?_, rfl, fun h => ?_⟩
    · simp only [Conn.due, Conn.suspend, Answer.start, hpush, replyHead_framed, wire, clientView]
    · have hfile : file.Sound := by
        rw [hbody] at h
        exact h
      exact ⟨hfile, h⟩
  · rename_i hr
    refine Or.inr ⟨fun h => ?_, rfl⟩
    have hkept : (Answer.start bodyEnd request response).response.body.Sound := h
    exact ensureFraming_ne_failed hkept hr

theorem fillBody_sends (srv : Server σ) (app : σ) (c : Conn) (consumed bodyEnd : Nat) :
    Sends srv c.requestsServed [] (SoundCalls (srv.fillBody app c consumed bodyEnd).effects)
      (srv.fillBody app c consumed bodyEnd) := by
  refine fillBody_elim srv app c consumed bodyEnd ?read ?invalid ?badRequest ?panicked ?called
  case read => exact fun _ => .still rfl rfl fun _ => trivial
  case invalid => exact Or.inl ⟨⟨rfl, rfl⟩, fun _ => trivial⟩
  case badRequest => exact .still rfl rfl fun _ => trivial
  case panicked => exact fun _ _ => Or.inl ⟨⟨rfl, rfl⟩, fun _ => trivial⟩
  case called =>
    intro request response app' _
    rcases frameResponse_sends srv c bodyEnd request response with
      ⟨c', heq, hdue, hserved, hsound⟩ | ⟨hnot, heq⟩
    · rw [heq]
      refine Or.inl ⟨⟨?_, hserved⟩, fun hs => hsound (hs _ _ _ List.mem_cons_self)⟩
      rw [hdue]
      simp only [answered_call, wires_singleton, sentBytes_call, List.nil_append]
    · rw [heq]
      exact .fault (fun hs => hnot (hs _ _ _ List.mem_cons_self)) ⟨_, rfl⟩ rfl

/-- From the top of the inner loop, the response to the next request is all that is due. -/
theorem nextRequest_sends (srv : Server σ) (app : σ) (c : Conn) :
    Sends srv c.requestsServed [] (SoundCalls (srv.nextRequest app c).effects)
      (srv.nextRequest app c) := by
  refine nextRequest_elim srv app c ?invalid ?pending ?malformed ?tooLarge ?framed
  case invalid => exact .still rfl rfl fun _ => trivial
  case pending =>
    intro _
    unfold awaitHeader
    split
    · exact .still rfl rfl fun _ => trivial
    · exact .still rfl rfl fun _ => trivial
  case malformed => exact fun _ => .still rfl rfl fun _ => trivial
  case tooLarge => exact fun _ _ _ => Or.inl ⟨⟨rfl, rfl⟩, fun _ => trivial⟩
  case framed =>
    intro consumed request bodyLen _ _ _
    refine Sends.after ?_ [.requestStart] rfl
    exact (fillBody_sends srv app (c.growTo (consumed + bodyLen)) consumed
      (consumed + bodyLen)).mono SoundCalls.of_after

theorem finishRequest_sends (srv : Server σ) (app : σ) (c : Conn) (sending : Sending) :
    Sends srv c.requestsServed [] (SoundCalls (srv.finishRequest app c sending).effects)
      (srv.finishRequest app c sending) := by
  unfold finishRequest
  refine Sends.after ?_ [.requestFinish] rfl
  split
  · exact .still rfl rfl fun _ => trivial
  · exact (nextRequest_sends srv app (c.shift sending.bodyEnd)).mono SoundCalls.of_after

theorem afterWrite_sends (srv : Server σ) (app : σ) (c : Conn) (next : AfterWrite) :
    Sends srv c.requestsServed next.due
      (next.Sound ∧ SoundCalls (srv.afterWrite app c next).effects)
      (srv.afterWrite app c next) := by
  cases next with
  | headerRejected => exact .still rfl rfl fun _ => trivial
  | requestRejected => exact Or.inl ⟨⟨rfl, rfl⟩, fun _ => trivial⟩
  | body sending =>
    simp only [afterWrite, writeBody]
    cases hb : sending.body with
    | inMemory bytes =>
      simp only [AfterWrite.due, hb]
      by_cases hnil : bytes = []
      · subst hnil
        exact (finishRequest_sends srv app c sending).mono And.right
      · rw [if_neg hnil]
        refine .still ?_ rfl fun _ => trivial
        simp only [Conn.due, Conn.suspend, AfterWrite.effect, AfterWrite.due, sentBytes_sent,
          List.append_nil, ResponseBody.bytes]
    | spooled file =>
      have hfile : AfterWrite.Sound (.body sending) → file.Sound := by
        intro hsound
        rw [AfterWrite.Sound, hb] at hsound
        exact hsound
      simp only [AfterWrite.due, hb]
      by_cases hclone : .cloneForWrite ∈ file.faults
      · refine .fault (fun hs => ?_) ?_ ?_
        · rw [(hfile hs.1).1] at hclone
          cases hclone
        · rw [if_pos hclone]
          exact ⟨_, rfl⟩
        · rw [if_pos hclone]
          rfl
      · rw [if_neg hclone]
        exact .still rfl rfl fun hs => hfile hs.1
  | chunk sending file => exact .still rfl rfl And.left
  | finish sending => exact (finishRequest_sends srv app c sending).mono And.right

/-! ## 4. A wakeup conserves what is owed -/

/-- **A wakeup delivers**: what was due, and the responses it calls the handler for, are sent or
due after it.  Only a failure stops it, and ends the task. -/
theorem wakeup_sends {e : Event} {p : Poll σ} (hw : c.Wakeup srv app e p) :
    Sends srv c.served (c.due srv) (c.await.Sound ∧ SoundCalls p.effects ∧ e ≠ .writeError) p := by
  have hdropped : answered c.await.dropGuard = [] ∧ sentBytes c.await.dropGuard = [] := by
    unfold Await.dropGuard
    split <;> exact ⟨rfl, rfl⟩
  -- nothing was due where the task was waiting for bytes
  have hleave : ∀ {sound : Prop} (e : Exit), c.due srv = [] → c.served = c.requestsServed →
      Sends srv c.served (c.due srv) sound (c.leave app e) := by
    intro sound e hdue hserved
    refine Or.inl ⟨⟨?_, ?_⟩, fun _ => trivial⟩
    · simp only [Conn.leave, hdropped.1, hdropped.2, hdue]
      rfl
    · simp only [Conn.leave, hdropped.1, hserved]
      rfl
  have hfault : ∀ {sound : Prop} (e : Exit), ¬ sound →
      Sends srv c.served (c.due srv) sound (c.leave app e) :=
    fun e hnot => .fault hnot ⟨e, rfl⟩ hdropped.2
  have hat : ∀ {a : Await}, c.await = a →
      (c.await.Sound ∧ SoundCalls p.effects ∧ e ≠ .writeError) → a.Sound := by
    rintro a rfl hs
    exact hs.1
  cases hw with
  | start hc =>
    have h := nextRequest_sends srv app c
    simp only [Conn.due, Conn.served, hc]
    exact h.mono fun hs => hs.2.1
  | @header data hc hne hlen =>
    have h := nextRequest_sends srv app (c.fill data)
    simp only [Conn.due, Conn.served, hc]
    exact h.mono fun hs => hs.2.1
  | @body consumed bodyEnd data hc hne hlen =>
    have h := fillBody_sends srv app (c.fill data) consumed bodyEnd
    simp only [Conn.due, Conn.served, hc]
    exact h.mono fun hs => hs.2.1
  | eof hc | readError hc =>
    rcases hc with hc | ⟨k, n, hc⟩ <;>
      exact hleave _ (by simp only [Conn.due, hc]) (by simp only [Conn.served, hc])
  | elapsed hc h0 => exact hleave _ (by simp only [Conn.due, hc]) (by simp only [Conn.served, hc])
  | @metadata answer file hc hok =>
    obtain ⟨hdue, hserved, hawait⟩ := sendHead_sends srv c
      { answer with response := answer.response.pushContentLength file.contents.length }
    refine .still ?_ ?_ fun hs => ?_
    · rw [hdue, Conn.due, hc]
      rfl
    · rw [hserved, Conn.served, hc]
    · exact hawait (hat hc hs).2
  | @metadataFault answer file hc hbad =>
    refine hfault _ fun hs => ?_
    have hsound : file.Sound := (hat hc hs).1
    rw [hsound.1] at hbad
    cases hbad
  | @wrotePart rest next n hc hpos hlt =>
    refine Or.inl ⟨⟨?_, ?_⟩, fun hs => ?_⟩
    · have hsplit : sentBytes [next.effect rest] =
          sentBytes [next.effect (rest.take n)] ++ sentBytes [next.effect (rest.drop n)] := by
        cases next <;> simp [AfterWrite.effect, sentBytes]
      simp only [Conn.due, hc, Conn.suspend, answered_write, wires_nil, List.append_nil, hsplit,
        List.append_assoc]
    · simp only [Conn.served, hc, Conn.suspend, answered_write, List.length_nil, Nat.add_zero]
    · have hsound : next.Sound := hat hc hs
      exact hsound
  | @wroteAll rest next hc hpos =>
    have h := (afterWrite_sends srv app c next).after [next.effect rest] (answered_write next rest)
    have hdue : c.due srv = sentBytes [next.effect rest] ++ next.due := by rw [Conn.due, hc]
    have hserved : c.served = c.requestsServed := by rw [Conn.served, hc]
    rw [hdue, hserved]
    exact h.mono fun hs => ⟨hat hc hs, hs.2.1.of_after⟩
  | writeError hc => exact hfault _ fun hs => hs.2.2 rfl
  | @seek sending file hc hok =>
    refine .still ?_ ?_ fun hs => ?_
    · simp only [Conn.due, hc, Conn.suspend, File.seekTo, List.drop_zero]
    · simp only [Conn.served, hc, Conn.suspend]
    · have hsound : file.Sound := hat hc hs
      exact hsound
  | @seekFault sending file hc hbad =>
    refine hfault _ fun hs => ?_
    have hsound : file.Sound := hat hc hs
    rw [hsound.1] at hbad
    cases hbad
  | @chunk sending file n hc hpos hle hsize =>
    refine .still ?_ ?_ fun hs => ?_
    · obtain ⟨more, hmore⟩ := file.unread_prefix
      have hdrop : file.contents.drop (file.cursor + n) = (file.contents.drop file.cursor).drop n :=
        (List.drop_drop).symm
      have htake : (file.contents.drop file.cursor).take n = file.unread.take n := by
        rw [← hmore, List.take_append_of_le_length hle]
      simp only [Conn.due, hc, Conn.suspend, AfterWrite.due, AfterWrite.effect, sentBytes_sent,
        File.advance, hdrop, ← htake, List.take_append_drop]
    · simp only [Conn.served, hc, Conn.suspend]
    · have hsound : file.Sound := hat hc hs
      exact hsound
  | @fileEnd sending file hc hend hok =>
    have h := finishRequest_sends srv app c sending
    simp only [Conn.due, Conn.served, hc, File.drop_of_unread_nil hend hok]
    exact h.mono fun hs => hs.2.1
  | @fileFault sending file hc hend hbad =>
    refine hfault _ fun hs => ?_
    have hsound : file.Sound := hat hc hs
    rw [hsound.faultsAtLimit] at hbad
    cases hbad

/-- **A wakeup conserves what is owed**, where no write and no file operation fails. -/
theorem wakeup_conserves {e : Event} {p : Poll σ} (hw : c.Wakeup srv app e p)
    (he : e ≠ .writeError) (hsound : c.await.Sound) (hs : SoundCalls p.effects) :
    Conserves srv c.served (c.owed srv) p := by
  rw [← Conn.due_eq_owed hsound]
  exact (wakeup_sends hw).conserves ⟨hsound, hs, he⟩

/-- What was sent in the course of a run and is due at its end are the responses on the wire; a
task that ended on a failure has sent a beginning of them. -/
theorem run_sends {app' : σ} {es : List Event} {os : List Effect}
    (h : srv.machine.run (Conn.new, app) es = some ((c, app'), os)) :
    (wires srv.maxKeepalive 0 (answered os) = sentBytes os ++ c.due srv ∧
        c.served = (answered os).length) ∨
      (c.await.Ended ∧ sentBytes os <+: wires srv.maxKeepalive 0 (answered os)) := by
  refine Machine.run_induction (P := fun _ s os =>
    (wires srv.maxKeepalive 0 (answered os) = sentBytes os ++ s.1.due srv ∧
        s.1.served = (answered os).length) ∨
      (s.1.await.Ended ∧ sentBytes os <+: wires srv.maxKeepalive 0 (answered os)))
    (Or.inl ⟨rfl, rfl⟩) ?_ h
  rintro es ⟨c, app⟩ os e ⟨c', app'⟩ o - ih hst
  have hw := machine_step hst
  rcases ih with ⟨hbytes, hcount⟩ | ⟨hended, -⟩
  · have hwires : wires srv.maxKeepalive 0 (answered (os ++ o)) = sentBytes os ++ (c.due srv ++
        wires srv.maxKeepalive c.served (answered o)) := by
      rw [answered_append, wires_append, hbytes, Nat.zero_add, ← hcount, List.append_assoc]
    rcases wakeup_sends hw with ⟨⟨hstep, hserved⟩, -⟩ | ⟨-, hended, hsent⟩
    · refine Or.inl ⟨?_, ?_⟩
      · rw [hwires, hstep, sentBytes_append, List.append_assoc]
      · rw [hserved, hcount, answered_append, List.length_append]
    · refine Or.inr ⟨hended, ?_⟩
      rw [hwires, sentBytes_append]
      exact (List.prefix_append_right_inj _).mpr hsent
  · exact absurd hended (not_ended_of_wakeup hw)

/-- What was owed at the end of a run, and what was sent in its course, are the responses on
the wire. -/
theorem run_conserves {app' : σ} {es : List Event} {os : List Effect}
    (h : srv.machine.run (Conn.new, app) es = some ((c, app'), os)) (hes : .writeError ∉ es)
    (hs : SoundCalls os) :
    wires srv.maxKeepalive 0 (answered os) = sentBytes os ++ c.owed srv ∧
      c.served = (answered os).length ∧ c.await.Sound := by
  refine Machine.run_induction (P := fun es s os => .writeError ∉ es → SoundCalls os →
    wires srv.maxKeepalive 0 (answered os) = sentBytes os ++ s.1.owed srv ∧
      s.1.served = (answered os).length ∧ s.1.await.Sound)
    (fun _ _ => ⟨rfl, rfl, trivial⟩) ?_ h hes hs
  rintro es ⟨c, app⟩ os e ⟨c', app'⟩ o - ih hst hes hs
  have hw := machine_step hst
  obtain ⟨hbytes, hcount, hsound⟩ :=
    ih (fun hmem => hes (List.mem_append_left _ hmem)) hs.of_append.1
  have he : e ≠ .writeError := by
    rintro rfl
    exact hes (List.mem_append_right _ List.mem_cons_self)
  have hstep := wakeup_conserves hw he hsound hs.of_append.2
  refine ⟨?_, ?_, hstep.sound⟩
  · rw [answered_append, wires_append, hbytes, Nat.zero_add, ← hcount, List.append_assoc,
      hstep.bytes, sentBytes_append, List.append_assoc]
  · rw [hstep.count, hcount, answered_append, List.length_append]

/-! ## 5. The engine's own responses come last -/

theorem fillBody_rejected {consumed bodyEnd : Nat} :
    rejectedBytes (srv.fillBody app c consumed bodyEnd).effects = [] := by
  refine fillBody_elim srv app c consumed bodyEnd ?read ?invalid ?badRequest ?panicked ?called
  case read => exact fun _ => rfl
  case invalid => rfl
  case badRequest => rfl
  case panicked => exact fun _ _ => rfl
  case called =>
    intro request response app' _
    have hframe : ∀ answer : Answer, rejectedBytes (srv.frameResponse c answer).2 = [] := by
      intro answer
      unfold frameResponse
      split <;> rfl
    exact hframe _

theorem nextRequest_rejected : rejectedBytes (srv.nextRequest app c).effects = [] := by
  refine nextRequest_elim srv app c ?invalid ?pending ?malformed ?tooLarge ?framed
  case invalid => rfl
  case pending => exact fun _ => rfl
  case malformed => exact fun _ => rfl
  case tooLarge => exact fun _ _ _ => rfl
  case framed =>
    intro consumed request bodyLen _ _ _
    rw [Poll.after_effects, rejectedBytes_append]
    exact fillBody_rejected

theorem finishRequest_rejected {sending : Sending} :
    rejectedBytes (srv.finishRequest app c sending).effects = [] := by
  rw [finishRequest, Poll.after_effects, rejectedBytes_append]
  split
  · rfl
  · exact nextRequest_rejected

theorem afterWrite_rejected {next : AfterWrite} :
    rejectedBytes (srv.afterWrite app c next).effects = [] := by
  cases next with
  | headerRejected => rfl
  | requestRejected => rfl
  | body sending =>
    simp only [afterWrite, writeBody]
    split
    · split
      · exact finishRequest_rejected
      · rfl
    · split
      · rfl
      · rfl
  | chunk sending file => rfl
  | finish sending => exact finishRequest_rejected

/-- From an open await point, a wakeup writes no response of the engine's own. -/
theorem wakeup_open {e : Event} {p : Poll σ} (hw : c.Wakeup srv app e p)
    (hopen : c.await.closing = false) : rejectedBytes p.effects = [] := by
  have hwrite : ∀ {rest : Bytes} {next : AfterWrite} (bytes : Bytes), c.await = .write rest next →
      rejectedBytes [next.effect bytes] = [] := by
    intro rest next bytes hc
    rw [hc] at hopen
    cases next with
    | headerRejected | requestRejected => cases hopen
    | body sending | chunk sending file | finish sending => rfl
  have hleave : ∀ e : Exit, rejectedBytes (c.leave app e).effects = [] := by
    intro e
    simp only [Conn.leave, Await.dropGuard]
    split <;> rfl
  cases hw with
  | start hc => exact nextRequest_rejected
  | header hc hne hlen => exact nextRequest_rejected
  | body hc hne hlen => exact fillBody_rejected
  | wrotePart hc hpos hlt => exact hwrite _ hc
  | wroteAll hc hpos =>
    rw [Poll.after_effects, rejectedBytes_append, hwrite _ hc]
    exact afterWrite_rejected
  | fileEnd hc hend hok => exact finishRequest_rejected
  | metadata | seek | chunk => rfl
  | eof | readError | elapsed | metadataFault | writeError | seekFault | fileFault =>
    exact hleave _

/-- From a closing one, it writes nothing else. -/
theorem wakeup_closing {e : Event} {p : Poll σ} (hw : c.Wakeup srv app e p)
    (hclosing : c.await.closing = true) :
    sentBytes p.effects = [] ∧ p.conn.await.closing = true := by
  cases hw with
  | @wrotePart rest next n hc hpos hlt =>
    rw [hc] at hclosing
    cases next with
    | headerRejected | requestRejected => exact ⟨rfl, rfl⟩
    | body sending | chunk sending file | finish sending => cases hclosing
  | @wroteAll rest next hc hpos =>
    rw [hc] at hclosing
    cases next with
    | headerRejected | requestRejected => exact ⟨rfl, rfl⟩
    | body sending | chunk sending file | finish sending => cases hclosing
  | writeError hc =>
    refine ⟨?_, rfl⟩
    simp only [Conn.leave, Await.dropGuard]
    split <;> rfl
  | eof hc | readError hc =>
    rcases hc with hc | ⟨k, n, hc⟩ <;> rw [hc] at hclosing <;> cases hclosing
  | start hc | header hc | body hc | elapsed hc | metadata hc | metadataFault hc | seek hc
  | seekFault hc | chunk hc | fileEnd hc | fileFault hc =>
    rw [hc] at hclosing
    cases hclosing

/-- What goes out is the handler's responses, then at most one of the engine's own. -/
theorem run_written {app' : σ} {es : List Event} {os : List Effect}
    (h : srv.machine.run (Conn.new, app) es = some ((c, app'), os)) :
    written os = sentBytes os ++ rejectedBytes os := by
  refine (Machine.run_induction (P := fun _ s os => written os = sentBytes os ++ rejectedBytes os ∧
    (s.1.await.closing = false → rejectedBytes os = [])) ⟨rfl, fun _ => rfl⟩ ?_ h).1
  rintro es ⟨c, app⟩ os e ⟨c', app'⟩ o - ⟨hwritten, hnone⟩ hst
  have hw := machine_step hst
  rw [written_append, hwritten, sentBytes_append, rejectedBytes_append]
  cases hcl : c.await.closing with
  | false =>
    have hos : rejectedBytes os = [] := hnone hcl
    have ho : rejectedBytes o = [] := wakeup_open hw hcl
    refine ⟨?_, fun _ => by rw [hos, ho, List.append_nil]⟩
    rw [written_of_rejected_nil ho, hos, ho]
    simp only [List.append_nil]
  | true =>
    obtain ⟨ho, hcl'⟩ := wakeup_closing hw hcl
    refine ⟨?_, fun hopen => ?_⟩
    · rw [written_of_sent_nil ho, ho, List.append_nil, List.append_assoc]
    · rw [hcl'] at hopen
      cases hopen

end Server

/-! ## 6. Responses a client can read -/

/-- What the protocol asks of a response, and of its body's file. -/
structure HandlerResponse.WellBehaved (response : HandlerResponse) : Prop where
  status_ge : 200 ≤ response.status.toNat
  status_le : response.status.toNat ≤ 999
  status_ne_204 : response.status.toNat ≠ 204
  status_ne_304 : response.status.toNat ≠ 304
  headers : WellFormed response.headers
  no_transferEncoding : ∀ header ∈ response.headers,
    eqIgnoreAsciiCase header.1 "transfer-encoding" = false
  contentLength : ∀ header ∈ response.headers,
    eqIgnoreAsciiCase header.1 "content-length" = true →
      decimal header.2 = some response.body.bytes.length
  body : response.body.Sound

theorem wellFormed_append {headers headers' : List (String × String)} (h : WellFormed headers)
    (h' : WellFormed headers') : WellFormed (headers ++ headers') := by
  intro header hmem
  rcases List.mem_append.mp hmem with hm | hm
  · exact h header hm
  · exact h' header hm

theorem announcedLength_append {headers : List (String × String)} {n : Nat}
    (h : announcedLength headers = some n) (more : List (String × String)) :
    announcedLength (headers ++ more) = some n := by
  unfold announcedLength at h ⊢
  rw [List.find?_append]
  cases hf : headers.find? fun header => eqIgnoreAsciiCase header.1 "content-length" with
  | none =>
    rw [hf] at h
    cases h
  | some header =>
    rw [hf] at h
    exact h

theorem announcedLength_append_of_none {headers : List (String × String)}
    (h : headers.find? (fun (name, _) => eqIgnoreAsciiCase name "content-length") = none)
    (more : List (String × String)) :
    announcedLength (headers ++ more) = announcedLength more := by
  unfold announcedLength
  rw [List.find?_append, h, Option.none_or]

theorem announcedLength_injected (n : Nat) :
    announcedLength [("Content-Length", toString n)] = some n := by
  have hname : eqIgnoreAsciiCase "Content-Length" "content-length" = true := by decide
  simp only [announcedLength, List.find?_cons, hname, Option.bind_some, decimal_toString]

theorem isToken_of_all {s : String} (hne : s.toList ≠ []) (hall : s.toList.all isTchar = true) :
    IsToken s := ⟨hne, List.all_eq_true.mp hall⟩

theorem isToken_contentLength : IsToken "Content-Length" := isToken_of_all (by decide) (by decide)

theorem isToken_connection : IsToken "Connection" := isToken_of_all (by decide) (by decide)

theorem isFieldValue_close : IsFieldValue "close" where
  no_cr := by decide
  no_lf := by decide
  head := by
    rintro c ⟨⟩
    decide
  last := by
    rintro c ⟨⟩
    decide

namespace HandlerResponse.WellBehaved

variable {response : HandlerResponse}

theorem kept (h : response.WellBehaved) : WellFormed (stripConnection response.headers) :=
  fun header hmem => h.headers header (List.mem_of_mem_filter hmem)

/-- Every `Content-Length` the handler's own header list has left says the same. -/
theorem announced_of_find (h : response.WellBehaved) {header : String × String}
    (hf : (stripConnection response.headers).find?
      (fun (name, _) => eqIgnoreAsciiCase name "content-length") = some header) :
    announcedLength (stripConnection response.headers) = some response.body.bytes.length := by
  have hname := List.find?_some hf
  have hmem := List.mem_of_mem_filter (List.mem_of_find?_eq_some hf)
  rw [announcedLength, hf, Option.bind_some]
  exact h.contentLength header hmem hname

/-- The framing `ensure_framing` found or put there is the body's length. -/
theorem announced_framed (h : response.WellBehaved) :
    announcedLength (framedHeaders response) = some response.body.bytes.length := by
  cases hf : (stripConnection response.headers).find?
      (fun (name, _) => eqIgnoreAsciiCase name "content-length") with
  | some header =>
    have hannounced := h.announced_of_find hf
    by_cases hframed : hasFraming (stripConnection response.headers) = true
    · rw [framedHeaders_of_hasFraming hframed]
      exact hannounced
    · rw [framedHeaders_of_not hframed]
      exact announcedLength_append hannounced _
  | none =>
    have hno : ∀ header ∈ stripConnection response.headers,
        ¬ eqIgnoreAsciiCase header.1 "content-length" = true := List.find?_eq_none.mp hf
    have hnot : ¬ hasFraming (stripConnection response.headers) = true := by
      intro hframed
      obtain ⟨header, hmem, hany⟩ := List.any_eq_true.mp hframed
      have hname : (eqIgnoreAsciiCase (trim header.1) "content-length" ||
        eqIgnoreAsciiCase (trim header.1) "transfer-encoding") = true := hany
      -- a token has nothing for `trim` to take off
      rw [(h.kept header hmem).1.trim_eq, Bool.or_eq_true] at hname
      rcases hname with hcl | hte
      · exact hno header hmem hcl
      · rw [h.no_transferEncoding header (List.mem_of_mem_filter hmem)] at hte
        cases hte
    rw [framedHeaders_of_not hnot, announcedLength_append_of_none hf]
    exact announcedLength_injected _

theorem wellFormed_framed (h : response.WellBehaved) : WellFormed (framedHeaders response) := by
  by_cases hframed : hasFraming (stripConnection response.headers) = true
  · rw [framedHeaders_of_hasFraming hframed]
    exact h.kept
  · rw [framedHeaders_of_not hframed]
    refine wellFormed_append h.kept fun header hmem => ?_
    rw [List.mem_singleton.mp hmem]
    exact ⟨isToken_contentLength, isFieldValue_toString _⟩

/-- **The header list on the wire** has well-formed lines only, and announces the body. -/
theorem final (h : response.WellBehaved) (last : Bool) :
    WellFormed (finalHeaders last response) ∧
      announcedLength (finalHeaders last response)
        = some response.body.bytes.length := by
  unfold finalHeaders
  split
  · refine ⟨wellFormed_append h.wellFormed_framed fun header hmem => ?_,
      announcedLength_append h.announced_framed _⟩
    rw [List.mem_singleton.mp hmem]
    exact ⟨isToken_connection, isFieldValue_close⟩
  · exact ⟨h.wellFormed_framed, h.announced_framed⟩

/-- A client reads the response off the wire and stops behind it. -/
theorem readResponse_wire (h : response.WellBehaved) (maxKeepalive k : Nat)
    (request : ParsedRequest) (rest : Bytes) :
    readResponse (isHead request) (wire maxKeepalive k (request, response) ++ rest)
      = some (clientView maxKeepalive k (request, response), rest) := by
  obtain ⟨hheaders, hlength⟩ := h.final (decide (k + 1 ≥ maxKeepalive))
  have hbodiless : bodiless (isHead request) response.status.toNat = isHead request := by
    have h200 : decide (response.status.toNat < 200) = false :=
      decide_eq_false (not_lt.mpr h.status_ge)
    have h204 : (response.status.toNat == 204) = false := beq_false_of_ne h.status_ne_204
    have h304 : (response.status.toNat == 304) = false := beq_false_of_ne h.status_ne_304
    rw [bodiless, h200, h204, h304]
    simp only [Bool.or_false]
  have hlow : 100 ≤ response.status.toNat := by
    have h200 := h.status_ge
    omega
  let final : HandlerResponse :=
    { response with headers := finalHeaders (decide (k + 1 ≥ maxKeepalive)) response }
  have hlow' : 100 ≤ final.status.toNat := hlow
  refine readResponse_serializeHead hlow' h.status_le hheaders ?_ rest
  rw [hbodiless]
  cases hh : isHead request with
  | true => simp only [clientView, hh, if_true]
  | false =>
    simp only [clientView, hh, Bool.false_eq_true, if_false]
    exact hlength

end HandlerResponse.WellBehaved

/-! ## 7. Small requests, one after the other

A client that sends a request head, and perhaps more behind it, and gets a response that goes out
in one write. -/

namespace Server

variable {σ : Type} {srv : Server σ} {c : Conn}

theorem sendHead_combined {answer : Answer} {content : Bytes} (hcombine : srv.combineWrite = true)
    (hhead : answer.isHead = false) (hbody : answer.response.body = .inMemory content) :
    srv.sendHead c answer = { c with
      requestsServed := c.requestsServed + 1
      await := .write (srv.replyHead c.requestsServed answer ++ content)
        (.finish ⟨answer.bodyEnd, decide (c.requestsServed + 1 ≥ srv.maxKeepalive),
          .inMemory content⟩) } := by
  have hkept : (if decide (c.requestsServed + 1 ≥ srv.maxKeepalive) = true then
      answer.response.pushHeader "Connection" "close" else answer.response).body
        = .inMemory content := by
    rw [← hbody]
    split <;> rfl
  simp only [sendHead, hcombine, hhead, hkept, Bool.false_eq_true, if_false]
  rfl

/-- With `combine-write`, a response in memory is one write. -/
theorem frameResponse_combined {bodyEnd : Nat} {request : ParsedRequest}
    {response : HandlerResponse} {content : Bytes} (hcombine : srv.combineWrite = true)
    (hhead : isHead request = false) (hbody : response.body = .inMemory content) :
    srv.frameResponse c (.start bodyEnd request response) = ({ c with
      requestsServed := c.requestsServed + 1
      await := .write (wire srv.maxKeepalive c.requestsServed (request, response))
        (.finish ⟨bodyEnd, decide (c.requestsServed + 1 ≥ srv.maxKeepalive),
          .inMemory content⟩) }, []) := by
  have hframed : ∃ r,
      ensureFraming (Answer.start bodyEnd request response).response = .framed r := by
    unfold ensureFraming
    split
    · exact ⟨_, rfl⟩
    · simp only [Answer.start, hbody]
      exact ⟨_, rfl⟩
  obtain ⟨r, hr⟩ := hframed
  have heq := ensureFraming_framed hr
  subst heq
  let answer : Answer := { bodyEnd, isHead := isHead request,
                           response := { response with headers := framedHeaders response } }
  have hwire : wire srv.maxKeepalive c.requestsServed (request, response) =
      srv.replyHead c.requestsServed answer ++ content := by
    rw [replyHead_framed, wire, clientView, hhead, hbody]
    rfl
  have hsend :
      srv.frameResponse c (.start bodyEnd request response) = (srv.sendHead c answer, []) := by
    rw [frameResponse, hr]
    rfl
  rw [hsend, hwire, sendHead_combined hcombine hhead hbody]

/-- A read that completes a request head without a body is answered at once. -/
theorem read_answered (srv : Server σ) (app app' : σ) {head more : Bytes} {request : Request}
    {headers : List (String × String)} (response : HandlerResponse) {content : Bytes}
    (hi : Idle c) (hroom : (head ++ more).length ≤ c.buf.length) (hne : head ≠ [])
    (hp : srv.parse head = .complete head.length request)
    (hl : contentLength request.headers = .ok 0) (hh : parsedHeaders request.headers = some headers)
    (hc : srv.handler app (parsedRequest request headers []) = (some response, app'))
    (hcombine : srv.combineWrite = true)
    (hhead : isHead (parsedRequest request headers []) = false)
    (hbody : response.body = .inMemory content) :
    ∃ c' : Conn, srv.machine.step (c, app) (.read (head ++ more)) = some ((c', app'),
        [.requestStart, .call head.length (parsedRequest request headers []) (some response)]) ∧
      c'.Sized ∧ c'.received = head ++ more ∧ c'.requestsServed = c.requestsServed + 1 ∧
      c'.await = .write
        (wire srv.maxKeepalive c.requestsServed (parsedRequest request headers [], response))
        (.finish ⟨head.length, decide (c.requestsServed + 1 ≥ srv.maxKeepalive),
          .inMemory content⟩) := by
  have hfits : c.filled + (head ++ more).length ≤ c.buf.length := by
    rw [hi.filled, Nat.zero_add]
    exact hroom
  have hs : (c.fill (head ++ more)).Sized := hi.toSized.fill hfits
  have hrec : (c.fill (head ++ more)).received = head ++ more := by
    rw [Conn.fill_received hfits, hi.received, List.nil_append]
  have hparse : srv.parse (c.fill (head ++ more)).received = .complete head.length request := by
    rw [hrec]
    exact parse_append_of_complete hp more
  have hwhole : head.length + 0 ≤ ((c.fill (head ++ more)).growTo (head.length + 0)).filled := by
    rw [Conn.growTo_filled, Conn.fill_filled, List.length_append]
    omega
  have hgrown : ((c.fill (head ++ more)).growTo (head.length + 0)).received = head ++ more := by
    rw [Conn.growTo_received hs.filled_le, hrec]
  have hslice : (((c.fill (head ++ more)).growTo (head.length + 0)).buf.take
      (head.length + 0)).drop head.length = [] := by
    rw [Conn.buf_slice hwhole, List.take_zero]
  have hparse' : srv.parse ((c.fill (head ++ more)).growTo (head.length + 0)).received
      = .complete head.length request := by rw [hgrown, ← hrec, hparse]
  have hhandler : srv.handler app (parsedRequest request headers
      ((((c.fill (head ++ more)).growTo (head.length + 0)).buf.take (head.length + 0)).drop
        head.length)) = (some response, app') := by rw [hslice, hc]
  have hcall := fillBody_answered hwhole hparse' hh hhandler
  simp only [hslice, frameResponse_combined hcombine hhead hbody] at hcall
  have hw : c.Wakeup srv app (.read (head ++ more)) (srv.nextRequest app (c.fill (head ++ more))) :=
    .header hi.await (List.append_ne_nil_of_left_ne_nil hne _) hfits
  have hst := hw.step
  rw [nextRequest_framed hparse hl (Nat.zero_le _), hcall] at hst
  have hsized := hs.growTo (head.length + 0)
  exact ⟨_, hst, ⟨hsized.1, hsized.2⟩, hgrown, rfl, rfl⟩

/-- When it is out, the connection waits for another request, with nothing buffered. -/
theorem wrote_open {bytes : Bytes} {sending : Sending} (hnil : srv.Pending [])
    (hs : c.Sized) (hne : bytes ≠ []) (hawait : c.await = .write bytes (.finish sending))
    (hlast : sending.isLastAllowedRequest = false) (hend : sending.bodyEnd = c.received.length) :
    ∃ c', (∀ app, srv.machine.step (c, app) (.wrote bytes.length) =
        some ((c', app), [.sent bytes, .requestFinish])) ∧ Idle c' ∧
      c'.requestsServed = c.requestsServed := by
  have hrec : (c.shift sending.bodyEnd).received = [] := by
    rw [Conn.shift_received hs.filled_le, hend, List.drop_length]
  have hfilled : (c.shift sending.bodyEnd).filled = 0 := by
    rw [Conn.shift_filled, hend, Conn.length_received hs.filled_le, Nat.sub_self]
  have hcap : (c.shift sending.bodyEnd).filled < maxBufCapacity := by
    rw [hfilled]
    decide
  rw [← hrec] at hnil
  obtain ⟨c', heq, hawait', -, hf', -, hserved', hs'⟩ :=
    nextRequest_pending (hs.shift sending.bodyEnd) hnil hcap
  refine ⟨c', fun app => ?_, { hs' with await := hawait', filled := hf'.trans hfilled }, hserved'⟩
  have hw : c.Wakeup srv app (.wrote bytes.length)
      ((srv.afterWrite app c (.finish sending)).after [.sent bytes]) :=
    .wroteAll hawait (List.length_pos_iff.mpr hne)
  rw [hw.step, afterWrite, finishRequest, hlast, if_neg Bool.false_ne_true, heq]
  rfl

end Server

theorem wire_ne_nil (m k : Nat) (exchange : ParsedRequest × HandlerResponse) :
    wire m k exchange ≠ [] := List.append_ne_nil_of_left_ne_nil (serializeHead_ne_nil _) _

namespace Single

def head : Bytes := asBytes "GET / HTTP/1.1\r\n\r\n"

def request : Request := { method := some "GET", path := some "/", headers := [] }

def code : List (Bytes × Request) := [(head, request)]

/-- The request the handler sees. -/
def parsed : ParsedRequest := parsedRequest request [] []

def serving {σ : Type} (maxKeepalive : Nat) (handler : Handler σ) : Server σ where
  httparse := fun _ => .ofCode code (.singleton _) (by decide)
  handler := handler
  maxKeepalive := maxKeepalive
  combineWrite := true

/-- A server with one response. -/
def server (maxKeepalive : Nat) (response : HandlerResponse) : Server Unit :=
  serving maxKeepalive fun app _ => (some response, app)

variable {σ : Type} {maxKeepalive : Nat} {handler : Handler σ} {response : HandlerResponse}
  {content : Bytes} {app app' : σ}

theorem parse_head : (serving maxKeepalive handler).parse head = .complete head.length request :=
  IncrementalParser.codeParse_item (.singleton (head, request)) List.mem_cons_self

theorem pending_nil : (serving maxKeepalive handler).Pending [] :=
  IncrementalParser.ofCode_pending_nil (.singleton _) (by decide) List.mem_cons_self

/-- What an observer sees of the `k`-th exchange (from 0): the request is taken up... -/
def taken (response : HandlerResponse) : List Effect :=
  [.requestStart, .call head.length parsed (some response)]

/-- ...and answered. -/
def replied (maxKeepalive k : Nat) (response : HandlerResponse) : List Effect :=
  [.sent (wire maxKeepalive k (parsed, response)), .requestFinish]

theorem eq_of_call {k n : Nat} {request : ParsedRequest} {answer : Option HandlerResponse}
    (h : .call n request answer ∈ taken response ++ replied maxKeepalive k response) :
    answer = some response := by
  simp only [taken, replied, List.cons_append, List.nil_append, List.mem_cons, List.not_mem_nil,
    reduceCtorEq, or_false, false_or, Effect.call.injEq] at h
  exact h.2.2

theorem wellBehaved_of_call (hwell : response.WellBehaved) {k n : Nat} {request : ParsedRequest}
    {answer : HandlerResponse}
    (h : .call n request (some answer) ∈ taken response ++ replied maxKeepalive k response) :
    answer.WellBehaved := by
  cases eq_of_call h
  exact hwell

/-- The last piece of the response is accepted. -/
def wrote (maxKeepalive k : Nat) (response : HandlerResponse) : Event :=
  .wrote (wire maxKeepalive k (parsed, response)).length

/-- An exchange with room for another one. -/
theorem exchange {c : Conn} (hi : Server.Idle c)
    (hcall : handler app parsed = (some response, app'))
    (hbody : response.body = .inMemory content) (hmore : c.requestsServed + 1 < maxKeepalive) :
    ∃ c₁ c', (serving maxKeepalive handler).machine.step (c, app) (.read head) =
        some ((c₁, app'), taken response) ∧
      (∀ app, (serving maxKeepalive handler).machine.step (c₁, app)
        (wrote maxKeepalive c.requestsServed response) =
          some ((c', app), replied maxKeepalive c.requestsServed response)) ∧
      Server.Idle c' ∧ c'.requestsServed = c.requestsServed + 1 := by
  have hfits : (head ++ []).length ≤ initialBufCapacity := by decide
  obtain ⟨c₁, hread, hs, hrec, hserved, hawait⟩ := Server.read_answered
    (serving maxKeepalive handler) app app' response hi (hfits.trans hi.capacity_le) (by decide)
    parse_head rfl rfl hcall rfl (by decide) hbody
  rw [List.append_nil] at hread hrec
  have hlast : decide (c.requestsServed + 1 ≥ maxKeepalive) = false := decide_eq_false (by omega)
  obtain ⟨c', hwrote, hi', hserved'⟩ := Server.wrote_open pending_nil hs (wire_ne_nil _ _ _) hawait
    hlast (by rw [hrec])
  exact ⟨c₁, c', hread, hwrote, hi', hserved'.trans hserved⟩

/-- The first exchange of a connection; in between, others may call the handler. -/
theorem run_halves (hcall : handler app parsed = (some response, app')) (hmore : 1 < maxKeepalive)
    (hbody : response.body = .inMemory content) :
    ∃ c₁ c, (serving maxKeepalive handler).machine.run (Conn.new, app) [.poll, .read head] =
        some ((c₁, app'), taken response) ∧
      (∀ app, (serving maxKeepalive handler).machine.run (c₁, app)
        [wrote maxKeepalive 0 response] = some ((c, app), replied maxKeepalive 0 response)) ∧
      Server.Idle c ∧ c.requestsServed = 1 := by
  have hnil : (serving maxKeepalive handler).Pending [] := pending_nil
  obtain ⟨c₀, hstart, hi₀, hserved₀⟩ := Server.start_idle app hnil
  have hmore₀ : c₀.requestsServed + 1 < maxKeepalive := by rwa [hserved₀]
  obtain ⟨c₁, c, hread, hwrote, hi, hserved⟩ := exchange hi₀ hcall hbody hmore₀
  rw [hserved₀] at hwrote hserved
  refine ⟨c₁, c, ?_, fun app => ?_, hi, hserved⟩
  · have hrun := Machine.run_cons hstart (Machine.run_cons hread (Machine.run_nil _ _))
    rwa [List.nil_append, List.append_nil] at hrun
  · have hrun := Machine.run_cons (hwrote app) (Machine.run_nil _ _)
    rwa [List.append_nil] at hrun

/-- What an observer sees of it. -/
def effects (maxKeepalive : Nat) (response : HandlerResponse) : List Effect :=
  taken response ++ replied maxKeepalive 0 response

theorem run_open (response : HandlerResponse) (hmore : 1 < maxKeepalive)
    (hbody : response.body = .inMemory content) :
    ∃ c : Conn, (server maxKeepalive response).machine.run (Conn.new, ())
        [.poll, .read head, .wrote (wire maxKeepalive 0 (parsed, response)).length] =
          some ((c, ()), effects maxKeepalive response) ∧
      Server.Idle c := by
  have hcall : (server maxKeepalive response).handler () parsed = (some response, ()) := rfl
  obtain ⟨c₁, c, htaken, hreplied, hi, -⟩ := run_halves hcall hmore hbody
  have hrun := Machine.run_append htaken (hreplied ())
  rw [List.cons_append, List.cons_append, List.nil_append] at hrun
  exact ⟨c, hrun, hi⟩

/-! A server that numbers its responses. -/

def number (n : Nat) : HandlerResponse :=
  { status := 200, headers := [], body := .inMemory (asBytes (toString n)) }

def numbered : Server Nat := serving 3 fun n _ => (some (number n), n + 1)

theorem number_wellBehaved (n : Nat) : (number n).WellBehaved where
  status_ge := (by decide : 200 ≤ (200 : UInt16).toNat)
  status_le := (by decide : (200 : UInt16).toNat ≤ 999)
  status_ne_204 := (by decide : (200 : UInt16).toNat ≠ 204)
  status_ne_304 := (by decide : (200 : UInt16).toNat ≠ 304)
  headers _ hmem := by cases hmem
  no_transferEncoding _ hmem := by cases hmem
  contentLength _ hmem := by cases hmem
  body := trivial

/-- Two exchanges on one connection. -/
theorem run_twice : ∃ c, numbered.machine.run (Conn.new, 0)
      [.poll, .read head, wrote 3 0 (number 0), .read head, wrote 3 1 (number 1)] =
        some ((c, 2), taken (number 0) ++ replied 3 0 (number 0) ++
          (taken (number 1) ++ replied 3 1 (number 1))) ∧ Server.Idle c := by
  have hcall : ∀ n, numbered.handler n parsed = (some (number n), n + 1) := fun _ => rfl
  obtain ⟨c₁, c₂, htaken, hreplied, hi₂, hserved₂⟩ :=
    run_halves (hcall 0) (by decide : 1 < 3) (rfl : (number 0).body = .inMemory (asBytes "0"))
  have hmore : c₂.requestsServed + 1 < 3 := by
    rw [hserved₂]
    decide
  obtain ⟨c₃, c₄, hread, hwrote, hi₄, -⟩ := exchange hi₂ (hcall 1)
    (rfl : (number 1).body = .inMemory (asBytes "1")) hmore
  rw [hserved₂] at hwrote
  have hfirst := Machine.run_append htaken (hreplied 1)
  have hsecond := Machine.run_cons hread (Machine.run_cons (hwrote 2) (Machine.run_nil _ _))
  have hrun := Machine.run_append hfirst hsecond
  rw [List.append_nil] at hrun
  exact ⟨c₄, hrun, hi₄⟩

end Single

/-! ## 8. The client's reading of a whole connection -/

/-- What the client should get, response by response. -/
def clientViews (maxKeepalive : Nat) (exchanges : List (ParsedRequest × HandlerResponse)) :
    List ClientResponse :=
  exchanges.zipIdx.map fun (exchange, k) => clientView maxKeepalive k exchange

/-- Which of the answered requests were `HEAD`s. -/
def headFlags (exchanges : List (ParsedRequest × HandlerResponse)) : List Bool :=
  exchanges.map fun (request, _) => isHead request

theorem readAll_wires (maxKeepalive : Nat) {exchanges : List (ParsedRequest × HandlerResponse)}
    (h : ∀ exchange ∈ exchanges, exchange.2.WellBehaved) (rest : Bytes) :
    readAll readResponse (headFlags exchanges) (wires maxKeepalive 0 exchanges ++ rest)
      = some (clientViews maxKeepalive exchanges, rest) := by
  have hone : ∀ x ∈ exchanges.zipIdx, ∀ rest, readResponse (isHead x.1.1)
      (wire maxKeepalive x.2 x.1 ++ rest) = some (clientView maxKeepalive x.2 x.1, rest) := by
    rintro ⟨⟨request, response⟩, k⟩ hmem rest
    have hwell := h (request, response) (List.fst_mem_of_mem_zipIdx hmem)
    exact hwell.readResponse_wire maxKeepalive k request rest
  have hflags : headFlags exchanges = exchanges.zipIdx.map fun x => isHead x.1.1 := by
    conv_lhs => rw [headFlags, ← List.zipIdx_map_fst 0 exchanges, List.map_map]
    rfl
  rw [hflags]
  exact readAll_flatMap hone rest

theorem mem_answered {os : List Effect} {exchange : ParsedRequest × HandlerResponse}
    (h : exchange ∈ answered os) : ∃ n, .call n exchange.1 (some exchange.2) ∈ os := by
  obtain ⟨o, hmem, ho⟩ := List.mem_filterMap.mp h
  cases o with
  | call n request response =>
    cases response with
    | none => cases ho
    | some response =>
      cases ho
      exact ⟨n, hmem⟩
  | requestStart | requestFinish | sent bytes | rejected bytes => cases ho

namespace Server

variable {σ : Type} {srv : Server σ}

/-- **The response stream stays in sync.**  In every run in which no write and no file
operation fails and the handler's responses are well behaved, what was sent and is still owed
reads back as exactly the answered requests' responses.  When no response is under way,
nothing is owed: the bytes written are the wire images of the answered requests, which
`combine-write` and the sizes of reads and writes have no part in, and the client is left with
the engine's own response, if there is one. -/
theorem client_in_sync {app app' : σ} {es : List Event} {c : Conn} {os : List Effect}
    (h : srv.machine.run (Conn.new, app) es = some ((c, app'), os)) (hwrite : .writeError ∉ es)
    (hgood : ∀ n request response, .call n request (some response) ∈ os →
      response.WellBehaved) :
    readAll readResponse (headFlags (answered os)) (sentBytes os ++ c.owed srv)
        = some (clientViews srv.maxKeepalive (answered os), []) ∧
      (c.await.replying = false →
        written os = wires srv.maxKeepalive 0 (answered os) ++ rejectedBytes os ∧
        readAll readResponse (headFlags (answered os)) (written os)
          = some (clientViews srv.maxKeepalive (answered os), rejectedBytes os)) := by
  have hsound : SoundCalls os := fun n request response hmem =>
    (hgood n request response hmem).body
  have hwell : ∀ exchange ∈ answered os, exchange.2.WellBehaved := by
    intro exchange hmem
    obtain ⟨n, hcall⟩ := mem_answered hmem
    exact hgood n _ _ hcall
  obtain ⟨hbytes, -, -⟩ := run_conserves h hwrite hsound
  constructor
  · have hread := readAll_wires srv.maxKeepalive hwell []
    rw [List.append_nil, hbytes] at hread
    exact hread
  · intro hidle
    have hwritten : written os
        = wires srv.maxKeepalive 0 (answered os) ++ rejectedBytes os := by
      rw [run_written h, hbytes, Conn.owed_of_not_replying hidle, List.append_nil]
    refine ⟨hwritten, ?_⟩
    rw [hwritten]
    exact readAll_wires _ hwell _

/-- Two exchanges on one connection. -/
theorem client_in_sync_numbered : ∃ c os,
    Single.numbered.machine.run (Conn.new, 0)
      [.poll, .read Single.head, Single.wrote 3 0 (Single.number 0), .read Single.head,
        Single.wrote 3 1 (Single.number 1)] = some ((c, 2), os) ∧
      readAll readResponse [false, false] (written os)
        = some ([⟨200, [("Content-Length", "1")], asBytes "0"⟩,
            ⟨200, [("Content-Length", "1")], asBytes "1"⟩], []) := by
  obtain ⟨c, hrun, hidle⟩ := Single.run_twice
  have hgood : ∀ n request response,
      .call n request (some response) ∈ Single.taken (Single.number 0) ++
        Single.replied 3 0 (Single.number 0) ++ (Single.taken (Single.number 1) ++
          Single.replied 3 1 (Single.number 1)) → response.WellBehaved := by
    intro n request response hmem
    rcases List.mem_append.mp hmem with hmem | hmem
    · exact Single.wellBehaved_of_call (Single.number_wellBehaved 0) hmem
    · exact Single.wellBehaved_of_call (Single.number_wellBehaved 1) hmem
  obtain ⟨-, hread⟩ := client_in_sync hrun (by simp [Single.wrote]) hgood
  exact ⟨c, _, hrun, (hread hidle.not_replying).2.trans (by decide)⟩

end Server

end HelixRack
