/-
# Responses without a body

A client reads nothing behind the header block of a 1xx, a 204 or a 304, whatever the header says.
The engine writes what the handler's body holds all the same, and puts a `Content-Length` into a
204 as into any other response: it makes an exception for a `HEAD` only.  `bodiless_in_sync_iff`
says for which requests and responses the two agree.
-/
import HelixRack.KeepAlive

namespace HelixRack

/-! ## 1. In sync around one response -/

/-- A status whose responses have no body. -/
def IsBodiless (status : UInt16) : Prop :=
  (100 ≤ status.toNat ∧ status.toNat < 200) ∨ status.toNat = 204 ∨ status.toNat = 304

/-- The header block of the `k`-th response (from 0). -/
def headBlock (maxKeepalive k : Nat) (response : HandlerResponse) : Bytes :=
  serializeHead { response with
    headers := finalHeaders (decide (k + 1 ≥ maxKeepalive)) response }

/-- The stream of responses is in sync around a bodiless one, which came behind those to `pre` and
before those to `post`. -/
structure BodilessInSync (maxKeepalive : Nat) (pre post : List (ParsedRequest × HandlerResponse))
    (request : ParsedRequest) (response : HandlerResponse) (stream : Bytes) : Prop where
  /-- The next response follows the header block. -/
  noBody : stream = wires maxKeepalive 0 pre ++
    (headBlock maxKeepalive pre.length response ++ wires maxKeepalive (pre.length + 1) post)
  /-- A 1xx and a 204 get no `Content-Length`. -/
  noContentLength : response.status.toNat ≠ 304 →
    framedHeaders response = stripConnection response.headers
  /-- The client stops where the next response starts. -/
  client : WellFormed (finalHeaders (decide (pre.length + 1 ≥ maxKeepalive)) response) →
    readResponse (isHead request) (stream.drop (wires maxKeepalive 0 pre).length) =
      some (⟨response.status.toNat,
        finalHeaders (decide (pre.length + 1 ≥ maxKeepalive)) response, []⟩,
        wires maxKeepalive (pre.length + 1) post)

theorem IsBodiless.bodiless {status : UInt16} (h : IsBodiless status) (toHead : Bool) :
    bodiless toHead status.toNat = true := by
  rw [HelixRack.bodiless]
  rcases h with ⟨-, hlt⟩ | heq | heq
  · rw [decide_eq_true hlt]
    simp only [Bool.or_true, Bool.true_or]
  · rw [heq]
    simp only [BEq.rfl, Bool.or_true, Bool.true_or]
  · rw [heq]
    simp only [BEq.rfl, Bool.or_true]

theorem IsBodiless.range {status : UInt16} (h : IsBodiless status) :
    100 ≤ status.toNat ∧ status.toNat ≤ 999 := by
  rcases h with ⟨hlow, hhigh⟩ | heq | heq <;> omega

/-- A response without a body is read back, and what follows it is left. -/
theorem readResponse_headOnly {toHead : Bool} {response : HandlerResponse}
    (hlow : 100 ≤ response.status.toNat) (hhigh : response.status.toNat ≤ 999)
    (hheaders : WellFormed response.headers)
    (hnone : bodiless toHead response.status.toNat = true) (rest : Bytes) :
    readResponse toHead (serializeHead response ++ rest) =
      some (⟨response.status.toNat, response.headers, []⟩, rest) := by
  have hbody : if bodiless toHead response.status.toNat = true then ([] : Bytes) = []
      else announcedLength response.headers = some ([] : Bytes).length := by
    rw [if_pos hnone]
  have hread := readResponse_serializeHead hlow hhigh hheaders hbody rest
  rwa [List.append_nil] at hread

/-- A header list that is left as it is has framing in it. -/
theorem framedHeaders_eq_iff (response : HandlerResponse) :
    framedHeaders response = stripConnection response.headers ↔
      hasFraming (stripConnection response.headers) = true := by
  by_cases h : hasFraming (stripConnection response.headers) = true
  · rw [framedHeaders_of_hasFraming h]
    exact ⟨fun _ => h, fun _ => rfl⟩
  · rw [framedHeaders_of_not h]
    refine ⟨fun heq => ?_, fun hf => absurd hf h⟩
    have hlength := congrArg List.length heq
    rw [List.length_append, List.length_singleton] at hlength
    omega

section

variable {maxKeepalive : Nat} {pre post : List (ParsedRequest × HandlerResponse)}
  {request : ParsedRequest} {response : HandlerResponse}

/-- What is written for the response is the header block and nothing more. -/
theorem wires_eq_headBlock_iff :
    wires maxKeepalive 0 (pre ++ (request, response) :: post) = wires maxKeepalive 0 pre ++
        (headBlock maxKeepalive pre.length response ++ wires maxKeepalive (pre.length + 1) post) ↔
      isHead request = true ∨ response.body.bytes = [] := by
  rw [wires_append, wires_cons, Nat.zero_add, List.append_cancel_left_eq, wire, List.append_assoc]
  have hbody : (clientView maxKeepalive pre.length (request, response)).body = [] ↔
      isHead request = true ∨ response.body.bytes = [] := by
    cases h : isHead request with
    | true => simp only [clientView, h, if_true, true_or]
    | false => simp only [clientView, h, Bool.false_eq_true, if_false, false_or]
  rw [← hbody]
  constructor
  · intro heq
    have hrest := List.append_cancel_left heq
    exact List.append_left_eq_self.mp hrest
  · intro hnil
    rw [hnil, List.nil_append]
    rfl

/-- **In sync, exactly when** there is no body to write and no `Content-Length` to add. -/
theorem inSync_iff (hstatus : IsBodiless response.status) {stream : Bytes}
    (hstream : stream = wires maxKeepalive 0 (pre ++ (request, response) :: post)) :
    BodilessInSync maxKeepalive pre post request response stream ↔
      (isHead request = true ∨ response.body.bytes = []) ∧
        (response.status.toNat = 304 ∨ hasFraming (stripConnection response.headers) = true) := by
  constructor
  · rintro ⟨hnone, hlength, -⟩
    refine ⟨wires_eq_headBlock_iff.mp (hstream.symm.trans hnone), ?_⟩
    by_cases h304 : response.status.toNat = 304
    · exact Or.inl h304
    · exact Or.inr ((framedHeaders_eq_iff response).mp (hlength h304))
  · rintro ⟨hempty, hframing⟩
    have hnone := hstream.trans (wires_eq_headBlock_iff.mpr hempty)
    refine ⟨hnone, fun h304 => ?_, fun hheaders => ?_⟩
    · exact (framedHeaders_eq_iff response).mpr (hframing.resolve_left h304)
    · obtain ⟨hlow, hhigh⟩ := hstatus.range
      let final : HandlerResponse := { response with
        headers := finalHeaders (decide (pre.length + 1 ≥ maxKeepalive)) response }
      have hlow' : 100 ≤ final.status.toNat := hlow
      have hread := readResponse_headOnly hlow' hhigh hheaders (hstatus.bodiless (isHead request))
        (wires maxKeepalive (pre.length + 1) post)
      rw [hnone, List.drop_left]
      exact hread

end

/-! ## 2. On a connection that stays open -/

def Single.notModified : HandlerResponse := { status := 304, headers := [], body := .inMemory [] }

/-- A 204 with a body. -/
def Single.noContent : HandlerResponse :=
  { status := 204, headers := [], body := .inMemory (asBytes "gone") }

namespace Server

variable {σ : Type} {srv : Server σ} {c : Conn} {app app' : σ}

/-- On an open connection, what is sent and due are the responses on the wire. -/
theorem stream_of_open {es : List Event} {os : List Effect}
    (h : srv.machine.run (Conn.new, app) es = some ((c, app'), os)) (hopen : ¬ c.await.Ended) :
    sentBytes os ++ c.due srv = wires srv.maxKeepalive 0 (answered os) := by
  rcases run_sends h with ⟨hbytes, -⟩ | ⟨hended, -⟩
  · exact hbytes.symm
  · exact absurd hended hopen

/-- **Bodiless responses in sync.**  On an open connection, the response to a request the handler
answered with a 1xx, 204 or 304 leaves the stream in sync if and only if there is nothing to write
behind its header block (the request is a `HEAD`, or the body is empty) and, unless it is a 304,
the handler brought the framing itself.  When no response is under way, the bytes on the socket
say the same. -/
theorem bodiless_in_sync_iff {es : List Event} {os : List Effect}
    {pre post : List (ParsedRequest × HandlerResponse)} {request : ParsedRequest}
    {response : HandlerResponse}
    (h : srv.machine.run (Conn.new, app) es = some ((c, app'), os)) (hopen : ¬ c.await.Ended)
    (hanswered : answered os = pre ++ (request, response) :: post)
    (hstatus : IsBodiless response.status) :
    (BodilessInSync srv.maxKeepalive pre post request response (sentBytes os ++ c.due srv) ↔
      (isHead request = true ∨ response.body.bytes = []) ∧
        (response.status.toNat = 304 ∨ hasFraming (stripConnection response.headers) = true)) ∧
    (c.await.replying = false →
      (written os = wires srv.maxKeepalive 0 pre ++
          (headBlock srv.maxKeepalive pre.length response ++
            wires srv.maxKeepalive (pre.length + 1) post) ++ rejectedBytes os ↔
        isHead request = true ∨ response.body.bytes = [])) := by
  have hstream := stream_of_open h hopen
  rw [hanswered] at hstream
  refine ⟨inSync_iff hstatus hstream, fun hidle => ?_⟩
  rw [Conn.due_of_not_replying hidle, List.append_nil] at hstream
  rw [run_written h, hstream, List.append_cancel_right_eq]
  exact wires_eq_headBlock_iff

/-- A 304 without a body, the one status that may get a `Content-Length`. -/
theorem bodiless_in_sync_notModified :
    ∃ c, (Single.server 2 Single.notModified).machine.run (Conn.new, ()) [.poll, .read Single.head,
        .wrote (wire 2 0 (Single.parsed, Single.notModified)).length] =
          some ((c, ()), Single.effects 2 Single.notModified) ∧
      BodilessInSync 2 [] [] Single.parsed Single.notModified
        (sentBytes (Single.effects 2 Single.notModified) ++
          c.due (Single.server 2 Single.notModified)) := by
  obtain ⟨c, hrun, hidle⟩ := Single.run_open Single.notModified (Nat.lt_succ_self 1) rfl
  have hopen : ¬ c.await.Ended := hidle.not_ended
  have hanswered : answered (Single.effects 2 Single.notModified) =
      [] ++ (Single.parsed, Single.notModified) :: [] := rfl
  have hstatus : IsBodiless Single.notModified.status := Or.inr (Or.inr rfl)
  obtain ⟨hsync, -⟩ := bodiless_in_sync_iff hrun hopen hanswered hstatus
  exact ⟨c, hrun, hsync.mpr ⟨Or.inr rfl, Or.inl rfl⟩⟩

end Server

/-- **Not in sync.**  The client reads `gone` as the start of the next response. -/
theorem no_content_desyncs :
    ¬ ∀ (σ : Type) (srv : Server σ) (app app' : σ) (es : List Event) (c : Conn)
      (os : List Effect) (pre post : List (ParsedRequest × HandlerResponse))
      (request : ParsedRequest) (response : HandlerResponse),
      srv.machine.run (Conn.new, app) es = some ((c, app'), os) → ¬ c.await.Ended →
      answered os = pre ++ (request, response) :: post → IsBodiless response.status →
      BodilessInSync srv.maxKeepalive pre post request response (sentBytes os ++ c.due srv) := by
  intro hall
  obtain ⟨c, hrun, hidle⟩ := Single.run_open Single.noContent (Nat.lt_succ_self 1) rfl
  have hopen : ¬ c.await.Ended := hidle.not_ended
  have hstatus : IsBodiless Single.noContent.status := Or.inr (Or.inl rfl)
  have hsync := hall Unit _ () () _ c _ [] [] Single.parsed Single.noContent hrun hopen rfl hstatus
  obtain ⟨hempty, -⟩ := (inSync_iff hstatus (Server.stream_of_open hrun hopen)).mp hsync
  exact absurd hempty (by decide)

end HelixRack
