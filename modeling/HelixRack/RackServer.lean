/-
# A Rack app behind the connections

What `engine` serves is an app in Ruby, behind `RackAppHandler`.  The app may raise, return
anything, or have a body whose `#each` does what it likes, and `handle` may panic; what `read_body`
collects in goes through two thread-locals that all connections share.

* Whatever the app does stays in the call it does it in (`faults_contained`): each call is
  answered, from thread-locals as a fresh thread has them, and no task ends in a panic.
* So the thread-locals can be forgotten: the handler stands in for an app that answers each
  request with a response or with a failure (`RackApp`), wherever that is what the Ruby side does
  (`Serves`, `call_refines`).
* And a client whose own requests are served like this reads the app's answers to them, or a 500
  for a failure, one after the other (`clients_read_the_app`), however the other clients' fare.
-/
import HelixRack.Endings
import HelixRack.RackResponse

namespace HelixRack

/-! ## 1. A panic is one of the handler -/

/-- No task of a system panics with a handler that never does. -/
theorem Server.serve_not_panicked {σ : Type} {srv : Server σ} {app : σ} {labels : List Label}
    {s : System σ} {los : List (Label × Effect)}
    (h : srv.serve.logged.run (.new app) labels = some (s, los))
    (hcalls : ∀ qa ∈ exchanges (los.map Prod.snd), qa.2 ≠ none) :
    ∀ c ∈ s.conns, c.await ≠ .ended .panicked := by
  intro c hc hend
  obtain ⟨i, hlt, rfl⟩ := List.getElem_of_mem hc
  obtain ⟨left, halone⟩ := alone_replayed h (List.getElem?_eq_getElem hlt)
  rcases halone.stands with hstands | ⟨hdropped, -⟩
  · obtain ⟨n, request, hmem⟩ := hstands.panics hend
    have hcall : (request, none) ∈ exchanges (los.map Prod.snd) :=
      List.mem_filterMap.mpr ⟨_, (effectsAt_sublist i los).subset hmem, rfl⟩
    exact hcalls _ hcall rfl
  · rw [hdropped] at hend
    cases hend

/-! ## 2. A call of the app -/

namespace RackAppHandler

variable {σ : Type} (h : RackAppHandler σ)

theorem translate_locals (s : σ) (value : RubyValue) :
    (h.translate s .fresh value).2.2 = .fresh := by
  unfold translate
  split
  · rfl
  · split
    · rfl
    · rename_i status entries body _ _ headers _
      have hlocals := readBody_fresh_locals (h.each s body).1.each
      rcases hread : readBody (h.each s body).1.each .fresh with ⟨result, l⟩
      rw [hread] at hlocals
      simp only [hread]
      cases result <;> exact hlocals

theorem handle_locals (s : σ) (req : ParsedRequest) : (h.handle s .fresh req).2.2 = .fresh := by
  unfold handle
  split
  · rfl
  · split
    · rfl
    · split
      · rfl
      · exact h.translate_locals _ _

/-- The thread-locals come back as they were. -/
theorem call_keeps_fresh : Object.Keeps h.call fun x => x.2 = .fresh := by
  rintro ⟨s, l⟩ req rfl
  exact h.handle_locals s req

/-- What a call of `Handler::call` answers. -/
theorem call_answers (s : σ) (req : ParsedRequest) :
    ∃ response, (h.call (s, .fresh) req).1 = some response ∧
      ((h.handle s .fresh req).1 = .ok response ∨
        (response = errorResponse ∧ ∀ r, (h.handle s .fresh req).1 ≠ .ok r)) := by
  simp only [call]
  cases hhandled : (h.handle s .fresh req).1 with
  | ok response => exact ⟨response, rfl, Or.inl rfl⟩
  | err e => exact ⟨errorResponse, rfl, Or.inr ⟨rfl, nofun⟩⟩
  | panicked => exact ⟨errorResponse, rfl, Or.inr ⟨rfl, nofun⟩⟩

end RackAppHandler

/-! ## 3. The app behind it -/

/-- What an app answers: a status, header fields, and the chunks of a body. -/
structure RackAnswer where
  status : UInt16
  headers : List (String × String)
  chunks : List Bytes
  deriving DecidableEq, Repr

/-- An app as its clients know it: for each request an answer or a failure, and a memory. -/
abbrev RackApp (σ : Type) := Object σ ParsedRequest (Option RackAnswer)

namespace RackAnswer

/-- What stands for a failure. -/
def failure : RackAnswer :=
  { status := 500
    headers := [("content-type", "text/plain; charset=utf-8"), ("content-length", "22")]
    chunks := [asBytes "Internal Server Error\n"] }

def body (answer : RackAnswer) : Bytes := answer.chunks.flatten

def toResponse (answer : RackAnswer) : HandlerResponse :=
  { status := answer.status
    headers := answer.headers
    body := (BodyAccumulator.holding answer.body).toResponseBody }

@[simp] theorem bytes_toResponse (answer : RackAnswer) :
    answer.toResponse.body.bytes = answer.body := by
  rw [toResponse, BodyAccumulator.bytes_toResponseBody, BodyAccumulator.bytes_holding]

theorem failure_toResponse : failure.toResponse = errorResponse := by decide

/-- The header fields a client gets: those of the answer without `Connection`, and the length of
the body if none of them frames it. -/
def framed (answer : RackAnswer) : List (String × String) :=
  let kept := stripConnection answer.headers
  if hasFraming kept then kept else kept ++ [("Content-Length", toString answer.body.length)]

/-- What a client reads that has sent `request` as its `k`-th one (from 0). -/
def view (maxKeepalive k : Nat) (request : ParsedRequest) (answer : RackAnswer) : ClientResponse :=
  { status := answer.status.toNat
    headers :=
      if k + 1 ≥ maxKeepalive then answer.framed ++ [("Connection", "close")] else answer.framed
    body := if isHead request then [] else answer.body }

theorem clientView_toResponse (maxKeepalive k : Nat) (request : ParsedRequest)
    (answer : RackAnswer) :
    clientView maxKeepalive k (request, answer.toResponse) =
      answer.view maxKeepalive k request := by
  have hframed : framedHeaders answer.toResponse = answer.framed := by
    rw [framedHeaders, bytes_toResponse]
    rfl
  simp only [clientView, finalHeaders, hframed, bytes_toResponse, decide_eq_true_eq, view]
  rfl

/-- What the protocol asks of an answer. -/
structure Lawful (answer : RackAnswer) : Prop where
  status_ge : 200 ≤ answer.status.toNat
  status_le : answer.status.toNat ≤ 999
  status_ne_204 : answer.status.toNat ≠ 204
  status_ne_304 : answer.status.toNat ≠ 304
  headers : WellFormed answer.headers
  no_transferEncoding : ∀ header ∈ answer.headers,
    eqIgnoreAsciiCase header.1 "transfer-encoding" = false
  contentLength : ∀ header ∈ answer.headers,
    eqIgnoreAsciiCase header.1 "content-length" = true → decimal header.2 = some answer.body.length

theorem Lawful.wellBehaved {answer : RackAnswer} (h : answer.Lawful) :
    answer.toResponse.WellBehaved where
  status_ge := h.status_ge
  status_le := h.status_le
  status_ne_204 := h.status_ne_204
  status_ne_304 := h.status_ne_304
  headers := h.headers
  no_transferEncoding := h.no_transferEncoding
  contentLength := by
    rw [bytes_toResponse]
    exact h.contentLength
  body := BodyAccumulator.holding_sound _

theorem isFieldValue_text : IsFieldValue "text/plain; charset=utf-8" where
  no_cr := by decide
  no_lf := by decide
  head := by
    rintro c ⟨⟩
    decide
  last := by
    rintro c ⟨⟩
    decide

theorem failure_lawful : failure.Lawful where
  status_ge := by decide
  status_le := by decide
  status_ne_204 := by decide
  status_ne_304 := by decide
  headers := by
    rintro header (_ | ⟨_, _ | ⟨_, ⟨⟩⟩⟩)
    · exact ⟨isToken_of_all (by decide) (by decide), isFieldValue_text⟩
    · exact ⟨isToken_of_all (by decide) (by decide), isFieldValue_toString 22⟩
  no_transferEncoding := by decide
  contentLength := by decide

end RackAnswer

namespace RackAppHandler

variable {σ : Type}

/-- How a request goes on the Ruby side, in a state of the app: with an answer, if the body's
`#each` yields its chunks and returns and no I/O of the spool file fails, or with a failure. -/
inductive Serves (h : RackAppHandler σ) (s : σ) (req : ParsedRequest) : Option RackAnswer → Prop
  | answers {env : Env} {value body : RubyValue} {entries : List (RubyValue × RubyValue)}
      {s' s'' : σ} {script : Script} {answer : RackAnswer} (normal : h.debugPanics req = false)
      (built : buildEnv h.port (h.ruby s) req = .ok env) (returns : h.app s env = (.ok value, s'))
      (triple : h.magnus.toTriple value = .ok (answer.status, entries, body))
      (fields : h.magnus.toVec entries = .ok answer.headers) (each : h.each s' body = (script, s''))
      (yields : script.Yields answer.chunks) : Serves h s req (some answer)
  | panics (debug : h.debugPanics req = true) : Serves h s req none
  | noEnv {e : RubyError} (normal : h.debugPanics req = false)
      (built : buildEnv h.port (h.ruby s) req = .error e) : Serves h s req none
  | raises {env : Env} {e : RubyError} {s' : σ} (normal : h.debugPanics req = false)
      (built : buildEnv h.port (h.ruby s) req = .ok env) (raise : h.app s env = (.error e, s')) :
      Serves h s req none
  | noTriple {env : Env} {value : RubyValue} {e : RubyError} {s' : σ}
      (normal : h.debugPanics req = false) (built : buildEnv h.port (h.ruby s) req = .ok env)
      (returns : h.app s env = (.ok value, s')) (triple : h.magnus.toTriple value = .error e) :
      Serves h s req none
  | noFields {env : Env} {value body : RubyValue} {entries : List (RubyValue × RubyValue)}
      {status : UInt16} {e : RubyError} {s' : σ} (normal : h.debugPanics req = false)
      (built : buildEnv h.port (h.ruby s) req = .ok env) (returns : h.app s env = (.ok value, s'))
      (triple : h.magnus.toTriple value = .ok (status, entries, body))
      (fields : h.magnus.toVec entries = .error e) : Serves h s req none
  | noBody {env : Env} {value body : RubyValue} {entries : List (RubyValue × RubyValue)}
      {status : UInt16} {headers : List (String × String)} {s' s'' : σ} {script : Script}
      (normal : h.debugPanics req = false) (built : buildEnv h.port (h.ruby s) req = .ok env)
      (returns : h.app s env = (.ok value, s'))
      (triple : h.magnus.toTriple value = .ok (status, entries, body))
      (fields : h.magnus.toVec entries = .ok headers) (each : h.each s' body = (script, s''))
      (fails : (script.each .reading).ended ≠ .returned) : Serves h s req none

/-- What stands on the wire for the one or the other. -/
def shownAnswer (answer : Option RackAnswer) : Option HandlerResponse :=
  some (answer.getD .failure).toResponse

variable {h : RackAppHandler σ}

theorem Serves.call_eq {s : σ} {req : ParsedRequest} {answer : Option RackAnswer}
    (hs : h.Serves s req answer) : (h.call (s, .fresh) req).1 = shownAnswer answer := by
  have hfailed : shownAnswer none = some errorResponse :=
    congrArg some RackAnswer.failure_toResponse
  have hfree : ThreadLocals.fresh.readingBody = false := rfl
  cases hs with
  | @answers _ _ _ _ _ _ _ answer normal built returns triple fields each yields =>
    have hread := yields.readBody_eq hfree
    simp only [call, handle_of_app normal built returns, translate, triple, fields, each, hread,
      hfree, Bool.false_eq_true, if_false]
    rfl
  | panics debug => simp only [call, handle, debug, if_true, hfailed]
  | noEnv normal built =>
    simp only [call, handle, normal, Bool.false_eq_true, if_false, built, hfailed]
  | raises normal built raise =>
    simp only [call, handle, normal, Bool.false_eq_true, if_false, built, raise, hfailed]
  | noTriple normal built returns triple =>
    simp only [call, handle_of_app normal built returns, translate, triple, hfailed]
  | noFields normal built returns triple fields =>
    simp only [call, handle_of_app normal built returns, translate, triple, fields, hfailed]
  | @noBody _ _ _ _ _ _ _ _ script normal built returns triple fields each fails =>
    simp only [call, handle_of_app normal built returns, translate, triple, fields, each, readBody,
      hfree, Bool.false_eq_true, if_false]
    cases hended : (script.each .reading).ended with
    | returned => exact absurd hended fails
    | raised e => simp only [hfailed]
    | unwound => simp only [hfailed]

variable (h) in
/-- The app, if `answers` is what it answers in each of its states: a call leaves it what it leaves
of it behind the handler. -/
def rackApp (answers : σ → ParsedRequest → Option RackAnswer) : RackApp σ := fun s req =>
  (answers s req, (h.call (s, .fresh) req).2.1)

/-- **The handler stands in for the app**, where that serves the request, and the thread-locals
are of no account. -/
theorem call_refines (answers : σ → ParsedRequest → Option RackAnswer) :
    Object.Refines h.call (h.rackApp answers) shownAnswer (fun x t => x = (t, .fresh))
      fun t req => h.Serves t req (answers t req) := by
  rintro _ t req rfl
  refine ⟨?_, fun hs => hs.call_eq⟩
  have hfresh : (h.call (t, .fresh) req).2.2 = .fresh := h.call_keeps_fresh (t, .fresh) req rfl
  exact Prod.ext rfl hfresh

/-- All that this client has asked in the course of the history was served as it says. -/
def ServesClient (h : RackAppHandler σ) (answers : σ → ParsedRequest → Option RackAnswer) (a : σ)
    (history : List ((Option Nat × ParsedRequest) × Option RackAnswer)) (i : Nat) : Prop :=
  ∀ pre request answer post, history = pre ++ ((some i, request), answer) :: post →
    h.Serves (Object.after (h.rackApp answers) a (Object.unnamed pre)) request answer

end RackAppHandler

/-! ## 4. An app that fails every other time -/

namespace Flaky

def handler : RackAppHandler Nat where
  app n _ :=
    if n % 2 = 0 then (.ok (.array [.integer 200, .hash [], .object 1]), n + 1)
    else (.error ⟨.other "RuntimeError", "every other time"⟩, n + 1)
  each n _ := (.ofChunks [asBytes "o", asBytes "k"], n)
  ruby _ := .fine
  magnus := Cookies.magnus
  port := "8080"
  debugPanicHeaderEnabled := false

def answer : RackAnswer := { status := 200, headers := [], chunks := [asBytes "o", asBytes "k"] }

def answers (n : Nat) (_ : ParsedRequest) : Option RackAnswer :=
  if n % 2 = 0 then some answer else none

theorem serves (n : Nat) (req : ParsedRequest) : handler.Serves n req (answers n req) := by
  by_cases heven : n % 2 = 0
  · have hreturns : handler.app n (rackEnv "8080" req) =
        (.ok (.array [.integer 200, .hash [], .object 1]), n + 1) := by
      simp only [handler, if_pos heven]
    rw [answers, if_pos heven]
    exact .answers rfl rfl hreturns rfl rfl rfl (Script.yields_ofChunks _)
  · have hraises : handler.app n (rackEnv "8080" req) =
        (.error ⟨.other "RuntimeError", "every other time"⟩, n + 1) := by
      simp only [handler, if_neg heven]
    rw [answers, if_neg heven]
    exact .raises rfl rfl hraises

theorem answer_lawful : answer.Lawful where
  status_ge := by decide
  status_le := by decide
  status_ne_204 := by decide
  status_ne_304 := by decide
  headers _ hmem := absurd hmem List.not_mem_nil
  no_transferEncoding _ hmem := absurd hmem List.not_mem_nil
  contentLength _ hmem := absurd hmem List.not_mem_nil

theorem lawful_of_answers {n : Nat} {req : ParsedRequest} {x : RackAnswer}
    (h : answers n req = some x) : x.Lawful := by
  unfold answers at h
  split at h
  · cases h
    exact answer_lawful
  · cases h

/-- The server it is behind. -/
def server : Server (Nat × ThreadLocals) :=
  (Single.server 2 errorResponse).withHandler handler.call

/-- The first client's request is answered; while that is on its way, the second client's fails. -/
def labels : List Label := Single.labels 2 answer.toResponse errorResponse

theorem run_two : ∃ c c' s los,
    server.serve.logged.run (.new (0, .fresh)) labels = some (s, los) ∧ s.conns = [c, c'] ∧
      Server.Idle c ∧ Server.Idle c' ∧ exchanges (los.map Prod.snd) =
        [(Single.parsed, some answer.toResponse), (Single.parsed, some errorResponse)] ∧
      effectsAt 0 los = Single.effects 2 answer.toResponse ∧
      effectsAt 1 los = Single.effects 2 errorResponse := by
  have hfirst : handler.call (0, .fresh) Single.parsed = (some answer.toResponse, (1, .fresh)) :=
    Prod.ext (serves 0 Single.parsed).call_eq rfl
  have hsecond : handler.call (1, .fresh) Single.parsed = (some errorResponse, (2, .fresh)) := by
    refine Prod.ext ((serves 1 Single.parsed).call_eq.trans ?_) rfl
    exact congrArg some RackAnswer.failure_toResponse
  obtain ⟨c, c', s, los, hlog, hconns, -, hrest⟩ :=
    Single.run_woven (Nat.lt_succ_self 1) hfirst hsecond rfl rfl
  exact ⟨c, c', s, los, hlog, hconns, hrest⟩

end Flaky

/-! ## 5. What the clients read -/

/-- The handler's calls, each with the task that made it. -/
def turns (los : List (Label × Effect)) :
    List ((Option Nat × ParsedRequest) × Option HandlerResponse) :=
  los.filterMap fun
    | (label, .call _ request response) => some ((label.task, request), response)
    | _ => none

theorem unnamed_turns (los : List (Label × Effect)) :
    Object.unnamed (turns los) = exchanges (los.map Prod.snd) := by
  induction los with
  | nil => rfl
  | cons lo los ih =>
    obtain ⟨label, o⟩ := lo
    cases o with
    | call n request response => exact congrArg ((request, response) :: ·) ih
    | requestStart | requestFinish | sent | rejected => exact ih

theorem part_turns (i : Nat) (los : List (Label × Effect)) :
    Object.part (some i) (turns los) = exchanges (effectsAt i los) := by
  induction los with
  | nil => rfl
  | cons lo los ih =>
    obtain ⟨label, o⟩ := lo
    by_cases htask : label.task = some i
    · have heffects : effectsAt i ((label, o) :: los) = o :: effectsAt i los := by
        simp [effectsAt, htask]
      rw [heffects]
      cases o with
      | call n request response =>
        have hpart : Object.part (some i) (turns ((label, .call n request response) :: los)) =
            (request, response) :: Object.part (some i) (turns los) := by
          simp [turns, Object.part, Object.unnamed, htask]
        rw [hpart, ih]
        rfl
      | requestStart | requestFinish | sent | rejected => exact ih
    · have heffects : effectsAt i ((label, o) :: los) = effectsAt i los := by
        simp [effectsAt, htask]
      rw [heffects, ← ih]
      cases o with
      | call n request response => simp [turns, Object.part, Object.unnamed, htask]
      | requestStart | requestFinish | sent | rejected => rfl

/-- The answers to a client's requests, as it reads them. -/
def rackViews (maxKeepalive : Nat) (own : List (ParsedRequest × Option RackAnswer)) :
    List ClientResponse :=
  own.zipIdx.map fun (qa, k) => (qa.2.getD .failure).view maxKeepalive k qa.1

theorem answered_eq_filterMap (os : List Effect) :
    answered os = (exchanges os).filterMap fun qa => qa.2.map (qa.1, ·) := by
  rw [answered, exchanges, List.filterMap_filterMap]
  refine List.filterMap_congr fun o _ => ?_
  cases o with
  | call n request response => cases response <;> rfl
  | requestStart | requestFinish | sent | rejected => rfl

theorem answered_of_shown {os : List Effect} {own : List (ParsedRequest × Option RackAnswer)}
    (h : exchanges os = Object.shown RackAppHandler.shownAnswer own) :
    answered os = own.map fun qa => (qa.1, (qa.2.getD .failure).toResponse) := by
  rw [answered_eq_filterMap, h, Object.shown, List.filterMap_map, ← List.filterMap_eq_map]
  rfl

theorem headFlags_of_shown {os : List Effect} {own : List (ParsedRequest × Option RackAnswer)}
    (h : exchanges os = Object.shown RackAppHandler.shownAnswer own) :
    headFlags (answered os) = own.map fun qa => isHead qa.1 := by
  rw [answered_of_shown h, headFlags, List.map_map]
  rfl

theorem rackViews_of_shown {os : List Effect} {own : List (ParsedRequest × Option RackAnswer)}
    (h : exchanges os = Object.shown RackAppHandler.shownAnswer own) (maxKeepalive : Nat) :
    clientViews maxKeepalive (answered os) = rackViews maxKeepalive own := by
  rw [answered_of_shown h, clientViews, List.zipIdx_map, List.map_map, rackViews]
  exact List.map_congr_left fun x _ => RackAnswer.clientView_toResponse _ _ _ _

namespace RackAppHandler

variable {σ τ : Type} {h : RackAppHandler σ} {srv : Server τ}

/-- **Faults are contained.**  Whatever the app does, and in whatever order the connections are
served: every call of the handler gets a response, which is what `handle` has translated in the
state that the calls before it have left the app in or, where that has failed or panicked, the 500,
from thread-locals as a fresh thread has them; in no state is a task ended by a panic, or a
thread-local left behind by a body. -/
theorem faults_contained {a : σ} {labels : List Label}
    {s : System (σ × ThreadLocals)} {los : List (Label × Effect)}
    (hrun : (srv.withHandler h.call).serve.logged.run (.new (a, .fresh)) labels = some (s, los)) :
    s.app.2 = .fresh ∧ (∀ c ∈ s.conns, c.await ≠ .ended .panicked) ∧
      ∀ pre qa post, exchanges (los.map Prod.snd) = pre ++ qa :: post →
        ∃ response, qa.2 = some response ∧
          ((h.handle (Object.after h.call (a, .fresh) pre).1 .fresh qa.1).1 = .ok response ∨
            (response = errorResponse ∧
              ∀ r, (h.handle (Object.after h.call (a, .fresh) pre).1 .fresh qa.1).1 ≠ .ok r)) := by
  obtain ⟨hlegal, hafter⟩ := Server.serve_legal hrun
  have hfresh : ∀ history, (Object.after h.call (a, .fresh) history).2 = .fresh := fun _ =>
    h.call_keeps_fresh.after rfl
  have hanswers : ∀ pre qa post, exchanges (los.map Prod.snd) = pre ++ qa :: post →
      ∃ response, qa.2 = some response ∧
        ((h.handle (Object.after h.call (a, .fresh) pre).1 .fresh qa.1).1 = .ok response ∨
          (response = errorResponse ∧
            ∀ r, (h.handle (Object.after h.call (a, .fresh) pre).1 .fresh qa.1).1 ≠ .ok r)) := by
    rintro pre ⟨request, answer⟩ post hsplit
    rw [hsplit] at hlegal
    have hanswer : (h.call (Object.after h.call (a, .fresh) pre) request).1 = answer :=
      hlegal.answer
    have hstate : Object.after h.call (a, .fresh) pre =
        ((Object.after h.call (a, .fresh) pre).1, .fresh) := Prod.ext rfl (hfresh pre)
    rw [hstate] at hanswer
    obtain ⟨response, hsome, hcases⟩ :=
      h.call_answers (Object.after h.call (a, .fresh) pre).1 request
    exact ⟨response, hanswer.symm.trans hsome, hcases⟩
  refine ⟨?_, Server.serve_not_panicked hrun fun qa hmem => ?_, hanswers⟩
  · rw [hafter]
    exact hfresh _
  · obtain ⟨pre, post, hsplit⟩ := List.append_of_mem hmem
    obtain ⟨response, hsome, -⟩ := hanswers pre qa post hsplit
    rw [hsome]
    exact nofun

/-- The second call fails, in the state that the first one has left, and gets the 500. -/
theorem faults_contained_flaky : ∃ s los,
    Flaky.server.serve.logged.run (.new (0, .fresh)) Flaky.labels = some (s, los) ∧
      s.app.2 = .fresh ∧ (∀ c ∈ s.conns, c.await ≠ .ended .panicked) ∧
      exchanges (los.map Prod.snd) =
        [(Single.parsed, some Flaky.answer.toResponse), (Single.parsed, some errorResponse)] ∧
      ∀ r, (Flaky.handler.handle 1 .fresh Single.parsed).1 ≠ .ok r := by
  obtain ⟨c, c', s, los, hrun, -, -, -, hexchanges, -⟩ := Flaky.run_two
  obtain ⟨hfresh, hstand, hanswers⟩ := faults_contained hrun
  refine ⟨s, los, hrun, hfresh, hstand, hexchanges, ?_⟩
  obtain ⟨response, hsome, hcases⟩ :=
    hanswers [(Single.parsed, some Flaky.answer.toResponse)] _ [] hexchanges
  rcases hcases with hok | ⟨-, hfails⟩
  · -- the app has raised
    cases hok
  · exact hfails

/-- **Each client reads what the app has answered it.**  Whatever the app answers in its states:
all the requests of all the connections, in the order in which the tasks get to them, are one
history of it, and each connection has its own part in that.  If all requests in this part were
served so, and the answers to them are lawful, then what is written on the connection reads back
as these answers, a failure as a 500, in the order of the requests; and in front of whatever the
engine has to say itself, unless a write has failed or the task was dropped.  Nothing is asked of
how the requests of other connections go. -/
theorem clients_read_the_app (answers : σ → ParsedRequest → Option RackAnswer) {a : σ}
    {labels : List Label} {s : System (σ × ThreadLocals)} {los : List (Label × Effect)}
    (hrun : (srv.withHandler h.call).serve.logged.run (.new (a, .fresh)) labels = some (s, los)) :
    ∃ history : List ((Option Nat × ParsedRequest) × Option RackAnswer),
      (h.rackApp answers).Legal a (Object.unnamed history) ∧
      s.app = (Object.after (h.rackApp answers) a (Object.unnamed history), .fresh) ∧
      (turns los).map Prod.fst = history.map Prod.fst ∧
      ∀ i c, s.conns[i]? = some c → .writeError ∉ eventsAt i labels →
        h.ServesClient answers a history i →
        (∀ qa ∈ Object.part (some i) history, ∀ answer, qa.2 = some answer → answer.Lawful) →
        exchanges (effectsAt i los) = Object.shown shownAnswer (Object.part (some i) history) ∧
          (∃ owed, readAll readResponse ((Object.part (some i) history).map fun qa => isHead qa.1)
            (sentBytes (effectsAt i los) ++ owed) =
              some (rackViews srv.maxKeepalive (Object.part (some i) history), [])) ∧
          (.drop i ∉ labels → c.await.replying = false →
            readAll readResponse ((Object.part (some i) history).map fun qa => isHead qa.1)
              (written (effectsAt i los)) =
                some (rackViews srv.maxKeepalive (Object.part (some i) history),
                  rejectedBytes (effectsAt i los))) := by
  obtain ⟨hlegal, hafter⟩ := Server.serve_legal hrun
  rw [← unnamed_turns] at hlegal hafter
  obtain ⟨history, happ, hsame⟩ := Object.exists_named_legal (h.rackApp answers) a
    ((turns los).map Prod.fst)
  have hrefines : Object.Refines h.call (h.rackApp answers) shownAnswer _ _ := call_refines answers
  have hstate := hrefines.after (rfl : ((a, .fresh) : σ × ThreadLocals) = (a, .fresh))
    (Object.unnamed_questions hsame.symm)
  refine ⟨history, happ, hafter.trans hstate, hsame.symm, fun i c hi hwrite hserves hlawful => ?_⟩
  have hown : exchanges (effectsAt i los) =
      Object.shown shownAnswer (Object.part (some i) history) := by
    rw [← part_turns]
    refine hrefines.part rfl hlegal happ hsame.symm fun pre request answer post hsplit => ?_
    have hanswer : answers (Object.after (h.rackApp answers) a (Object.unnamed pre)) request =
        answer := by
      rw [hsplit, Object.unnamed_append] at happ
      exact happ.answer
    rw [hanswer]
    exact hserves pre request answer post hsplit
  have hanswered := answered_of_shown hown
  have hwell : ∀ exchange ∈ answered (effectsAt i los), exchange.2.WellBehaved := by
    intro exchange hmem
    rw [hanswered] at hmem
    obtain ⟨⟨request, answer⟩, hqa, rfl⟩ := List.mem_map.mp hmem
    cases answer with
    | none => exact RackAnswer.failure_lawful.wellBehaved
    | some answer => exact (hlawful _ hqa answer rfl).wellBehaved
  obtain ⟨left, halone⟩ := Server.alone_replayed hrun hi
  obtain ⟨hsent, hwritten⟩ := halone.in_sync hwrite hwell
  rw [headFlags_of_shown hown, rackViews_of_shown hown] at hsent hwritten
  exact ⟨hown, hsent, hwritten⟩

/-- The second client gets the failure, and nothing of it is seen by the first one. -/
theorem clients_read_the_app_flaky : ∃ history s los,
    Flaky.server.serve.logged.run (.new (0, .fresh)) Flaky.labels = some (s, los) ∧
      (Flaky.handler.rackApp Flaky.answers).Legal 0 (Object.unnamed history) ∧
      (turns los).map Prod.fst = history.map Prod.fst ∧
      readAll readResponse [false] (written (effectsAt 0 los)) =
        some ([⟨200, [("Content-Length", "2")], asBytes "ok"⟩], []) ∧
      readAll readResponse [false] (written (effectsAt 1 los)) =
        some ([⟨500, [("content-type", "text/plain; charset=utf-8"), ("content-length", "22")],
          asBytes "Internal Server Error\n"⟩], []) := by
  obtain ⟨c, c', s, los, hrun, hconns, hidle, hidle', -, hfirst, hsecond⟩ := Flaky.run_two
  obtain ⟨history, hlegal, -, hsame, hclients⟩ := clients_read_the_app Flaky.answers hrun
  have hserves : ∀ i, Flaky.handler.ServesClient Flaky.answers 0 history i := by
    intro i pre request answer post hsplit
    rw [hsplit, Object.unnamed_append] at hlegal
    have hanswer : Flaky.answers _ request = answer := hlegal.answer
    rw [← hanswer]
    exact Flaky.serves _ request
  have hlawful : ∀ i, ∀ qa ∈ Object.part (some i) history, ∀ answer, qa.2 = some answer →
      answer.Lawful := by
    rintro i ⟨request, _⟩ hmem answer rfl
    obtain ⟨pre, post, hsplit⟩ := List.append_of_mem ((Object.part_sublist _ _).subset hmem)
    rw [hsplit] at hlegal
    have hanswer : Flaky.answers (Object.after _ 0 pre) request = some answer := hlegal.answer
    exact Flaky.lawful_of_answers hanswer
  have hget : s.conns[0]? = some c ∧ s.conns[1]? = some c' := by
    rw [hconns]
    exact ⟨rfl, rfl⟩
  have hevents : eventsAt 0 Flaky.labels = Single.events 2 Flaky.answer.toResponse ∧
      eventsAt 1 Flaky.labels = Single.events 2 errorResponse := Single.eventsAt_labels
  have hwrite : .writeError ∉ eventsAt 0 Flaky.labels ∧ .writeError ∉ eventsAt 1 Flaky.labels := by
    rw [hevents.1, hevents.2]
    simp [Single.events, Single.wrote]
  have hstays : ∀ i, .drop i ∉ Flaky.labels := Single.not_drop_mem_labels
  obtain ⟨hown, -, hread⟩ := hclients 0 c hget.1 hwrite.1 (hserves 0) (hlawful 0)
  obtain ⟨hown', -, hread'⟩ := hclients 1 c' hget.2 hwrite.2 (hserves 1) (hlawful 1)
  have hfirst' := hread (hstays 0) hidle.not_replying
  have hsecond' := hread' (hstays 1) hidle'.not_replying
  rw [← headFlags_of_shown hown, ← rackViews_of_shown hown, hfirst] at hfirst'
  rw [← headFlags_of_shown hown', ← rackViews_of_shown hown', hsecond] at hsecond'
  refine ⟨history, s, los, hrun, hlegal, hsame, ?_, ?_⟩
  · rw [hfirst]
    exact hfirst'.trans (by decide)
  · rw [hsecond]
    exact hsecond'.trans (by decide)

end RackAppHandler

end HelixRack
