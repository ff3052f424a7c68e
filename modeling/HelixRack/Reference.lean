/-
# What a byte stream means to the server

`Server.reference` is the connection loop without the connection: it is given everything the
client will ever send, cuts it into requests from the front, and says which requests the
handler gets and which bytes go out.  There is no buffer in it, no read, and no write that
could be split.

`Server.fed` is the real task on a client's byte stream: reads bring the next bytes of the
stream, however many, and EOF comes when there are none left; no write fails and the idle
timer does not fire.
-/
import HelixRack.Sync

namespace HelixRack

/-! ## 1. Outcomes -/

/-- What an observer compares: the handler's calls, and the bytes put on the wire. -/
@[ext] structure Outcome where
  calls : List (Nat × ParsedRequest)
  bytes : Bytes
  deriving DecidableEq, Repr

namespace Outcome

def empty : Outcome := ⟨[], []⟩

def written (bytes : Bytes) : Outcome := ⟨[], bytes⟩

def called (consumed : Nat) (request : ParsedRequest) : Outcome := ⟨[(consumed, request)], []⟩

instance : Append Outcome := ⟨fun a b => ⟨a.calls ++ b.calls, a.bytes ++ b.bytes⟩⟩

variable (a b c : Outcome)

@[simp] theorem append_calls : (a ++ b).calls = a.calls ++ b.calls := rfl
@[simp] theorem append_bytes : (a ++ b).bytes = a.bytes ++ b.bytes := rfl
@[simp] theorem empty_append : empty ++ a = a := rfl

@[simp] theorem append_empty : a ++ empty = a := by
  ext1
  · exact List.append_nil _
  · exact List.append_nil _

theorem append_assoc : a ++ b ++ c = a ++ (b ++ c) := by
  ext1
  · exact List.append_assoc _ _ _
  · exact List.append_assoc _ _ _

@[simp] theorem written_nil : written [] = empty := rfl

/-- Twice the number of calls and bytes. -/
def size : Nat := 2 * a.calls.length + 2 * a.bytes.length

theorem size_append : (a ++ b).size = a.size + b.size := by
  simp only [size, append_calls, append_bytes, List.length_append]
  omega

@[simp] theorem size_empty : empty.size = 0 := rfl

@[simp] theorem size_called (n : Nat) (request : ParsedRequest) :
    (called n request).size = 2 := rfl

@[simp] theorem size_written (bytes : Bytes) : (written bytes).size = 2 * bytes.length := by
  simp only [size, written, List.length_nil]
  omega

theorem written_append (bytes bytes' : Bytes) :
    written (bytes ++ bytes') = written bytes ++ written bytes' := rfl

end Outcome

/-- What an observer has seen of a run. -/
def observed (os : List Effect) : Outcome := ⟨calls os, written os⟩

@[simp] theorem observed_nil : observed [] = .empty := rfl
@[simp] theorem observed_start : observed [.requestStart] = .empty := rfl
@[simp] theorem observed_finish : observed [.requestFinish] = .empty := rfl

theorem observed_append (os os' : List Effect) :
    observed (os ++ os') = observed os ++ observed os' := by
  simp only [observed, calls_append, written_append]
  rfl

theorem observed_cons (o : Effect) (os : List Effect) :
    observed (o :: os) = observed [o] ++ observed os := observed_append [o] os

theorem observed_write (next : AfterWrite) (bytes : Bytes) :
    observed [next.effect bytes] = .written bytes := by
  cases next <;> simp [observed, AfterWrite.effect, written, Outcome.written, calls]

@[simp] theorem observed_call (n : Nat) (request : ParsedRequest)
    (response : Option HandlerResponse) :
    observed [.call n request response] = .called n request := rfl

/-! ## 2. What gets out of a response -/

/-- The bytes that get out, and whether all of them do. -/
structure Reply where
  bytes : Bytes
  complete : Bool
  deriving DecidableEq, Repr

/-- A connection goes on behind a complete response, and ends in an incomplete one. -/
def Reply.followedBy (reply : Reply) (next : Outcome) : Outcome :=
  .written reply.bytes ++ if reply.complete then next else .empty

/-- A body: a spooled one comes out of its file, up to the first operation that fails. -/
def bodyReply : ResponseBody → Reply
  | .inMemory bytes => ⟨bytes, true⟩
  | .spooled file =>
    if .cloneForWrite ∈ file.faults ∨ .seek ∈ file.faults then ⟨[], false⟩
    else ⟨file.contents.take file.readLimit, !file.faultsAtLimit⟩

/-- The length of the body is needed and cannot be had. -/
def framingFails (response : HandlerResponse) : Bool :=
  !hasFraming (stripConnection response.headers) && match response.body with
    | .inMemory _ => false
    | .spooled file => decide (.cloneForLength ∈ file.faults ∨ .metadata ∈ file.faults)

/-- The response to a request; the last one closes the connection. -/
def respond (last : Bool) (request : ParsedRequest) (response : HandlerResponse) : Reply :=
  if framingFails response then ⟨[], false⟩
  else
    let body : Reply := if isHead request then ⟨[], true⟩ else bodyReply response.body
    { body with bytes :=
        serializeHead { response with headers := finalHeaders last response } ++ body.bytes }

namespace Server

variable {σ : Type} (srv : Server σ)

/-! ## 3. The reference -/

/-- The outcome on everything the client sends, when so many requests may still be
answered. -/
def reference : Nat → σ → Bytes → Outcome
  | 0, _, _ => .empty
  | left + 1, app, stream =>
    match srv.parse stream with
    | .invalid | .incomplete _ => .empty
    | .complete consumed request =>
      match contentLength request.headers with
      | .error _ => .empty
      | .ok bodyLen =>
        if bodyLen > maxBodyCapacity then .written payloadTooLargeResponse
        else if stream.length < consumed + bodyLen then .empty
        else match parsedHeaders request.headers with
          | none => .written badRequestResponse
          | some headers =>
            let parsed := parsedRequest request headers ((stream.drop consumed).take bodyLen)
            .called consumed parsed ++ match srv.handler app parsed with
              | (none, _) => .empty
              | (some response, app') =>
                (respond (decide (left = 0)) parsed response).followedBy
                  (reference left app' (stream.drop (consumed + bodyLen)))

/-! ## 4. A stream and its delivery -/

/-- What is left of the client's stream after an event, if the event may happen. -/
def feed (rest : Bytes) : Event → Option Bytes
  | .read data =>
    if data <+: rest ∧ (data = [] → rest = []) then some (rest.drop data.length) else none
  | .poll | .wrote _ | .ready | .fileRead _ => some rest
  | .readError | .elapsed | .writeError => none

/-- The task on a client's stream, cut into reads anyhow. -/
def fed : Machine ((Conn × σ) × Bytes) Event Effect := srv.machine.within feed

/-- What is asked of a stream from a request start on: a header block fits the cap, whole,
cut short, or malformed. -/
structure WithinCap (stream : Bytes) : Prop where
  complete : ∀ n request, srv.parse stream = .complete n request → n ≤ maxBufCapacity
  trailing : srv.Pending stream → stream.length < maxBufCapacity
  malformed : srv.parse stream = .invalid →
    ∀ front, front <+: stream → srv.Pending front → front.length < maxBufCapacity

variable {srv}

theorem feed_eq {rest rest' : Bytes} {e : Event} (h : feed rest e = some rest') :
    rest = e.data ++ rest' ∧ (e = .read [] → rest = []) ∧
      e ≠ .readError ∧ e ≠ .elapsed ∧ e ≠ .writeError := by
  cases e with
  | read data =>
    rw [feed] at h
    split at h
    · rename_i hd
      obtain ⟨⟨more, rfl⟩, hnil⟩ := hd
      cases h
      refine ⟨?_, ?_, by simp, by simp, by simp⟩
      · rw [List.drop_left]
        rfl
      · intro heq
        cases heq
        exact hnil rfl
    · cases h
  | poll | wrote n | ready | fileRead n =>
    cases h
    refine ⟨rfl, ?_, by simp, by simp, by simp⟩
    intro heq
    cases heq
  | readError | elapsed | writeError => cases h

theorem feed_read (data rest : Bytes) (hne : data ≠ []) :
    feed (data ++ rest) (.read data) = some rest := by
  have hcond : data <+: data ++ rest ∧ (data = [] → data ++ rest = []) :=
    ⟨List.prefix_append _ _, fun h => absurd h hne⟩
  rw [feed, if_pos hcond, List.drop_left]

theorem feed_eof : feed [] (.read []) = some [] := rfl

theorem feeds_cons {rest rest' last : Bytes} {e : Event} {es : List Event}
    (h : feed rest e = some rest') (hes : es.foldlM feed rest' = some last) :
    (e :: es).foldlM feed rest = some last := by
  rw [List.foldlM_cons, h]
  exact hes

theorem withinCap_nil : srv.WithinCap [] where
  complete n request h := absurd h IncrementalParser.parse_nil_ne_complete
  trailing _ := by decide
  malformed _ front hfront _ := by
    rw [List.prefix_nil.mp hfront]
    decide

theorem withinCap_of_complete {stream : Bytes} {n : Nat} {request : Request}
    (hp : srv.parse stream = .complete n request) (hn : n ≤ maxBufCapacity) :
    srv.WithinCap stream where
  complete m r h := by
    rw [hp] at h
    cases h
    exact hn
  trailing h := absurd hp h.not_complete
  malformed h := by
    rw [hp] at h
    cases h

/-- Whatever of a stream within the cap arrives first, a pending buffer is below the cap. -/
theorem WithinCap.pending_lt {front more : Bytes} (h : srv.WithinCap (front ++ more))
    (hp : srv.Pending front) : front.length < maxBufCapacity := by
  have hprefix : front <+: front ++ more := List.prefix_append _ _
  cases hparse : srv.parse (front ++ more) with
  | complete n request =>
    by_contra hge
    -- a buffer of the cap's size or more has the whole block in it
    have hle : n ≤ front.length := (h.complete n request hparse).trans (not_lt.mp hge)
    exact hp.not_complete (IncrementalParser.complete_of_le hparse hle)
  | incomplete out =>
    have hlt := h.trailing ⟨out, hparse⟩
    rw [List.length_append] at hlt
    omega
  | invalid => exact h.malformed hparse front hprefix hp

end Server

end HelixRack
