/-
# What the connections of one process share

The tasks that `serve` spawns have the handler in common, and nothing else: a task reaches
another one only through what the handler remembers.

* `Consults` says of a piece of the task that it asks the handler what its effects tell, and that
  with any other handler that would have given the same answers it does the same.
* `alone_of_serve` takes a connection out of a run of the system: what happened to it is a run
  of its task on its own, with any handler that answers its calls as they were answered.
* From there every property of single connections holds for each connection of the system.  The
  last section does that for the cut of the stream, for the client's reading of the responses
  and, where the handler has no memory, for the outcome on the client's stream.
-/
import HelixRack.Histories
import HelixRack.KeepAlive
import HelixRack.Segmentation
import HelixRack.Serve
import HelixRack.Simulation

namespace HelixRack

/-! ## 1. What a task asks the handler -/

/-- The handler's calls, with its answers. -/
def exchanges (os : List Effect) : List (ParsedRequest × Option HandlerResponse) :=
  os.filterMap fun
    | .call _ request response => some (request, response)
    | _ => none

@[simp] theorem exchanges_nil : exchanges [] = [] := rfl

theorem exchanges_append (os os' : List Effect) :
    exchanges (os ++ os') = exchanges os ++ exchanges os' := List.filterMap_append

@[simp] theorem exchanges_call (n : Nat) (request : ParsedRequest)
    (response : Option HandlerResponse) (os : List Effect) :
    exchanges (.call n request response :: os) = (request, response) :: exchanges os := rfl

@[simp] theorem exchanges_write (next : AfterWrite) (bytes : Bytes) :
    exchanges [next.effect bytes] = [] := by
  cases next <;> rfl

@[simp] theorem exchanges_dropGuard (a : Await) : exchanges a.dropGuard = [] := by
  unfold Await.dropGuard
  split <;> rfl

namespace Server

variable {σ τ : Type}

/-- The server with another handler in it. -/
def withHandler (srv : Server σ) (handler : Handler τ) : Server τ :=
  { httparse := srv.httparse, handler, maxKeepalive := srv.maxKeepalive,
    combineWrite := srv.combineWrite }

/-- `p` is what a piece of the task does from `app` on, and `q` what it does when the handler is
another one, from `b` on. -/
structure Consults (srv : Server σ) (app : σ) (handler : Handler τ) (b : τ) (p : Poll σ)
    (q : Poll τ) : Prop where
  legal : Object.Legal srv.handler app (exchanges p.effects)
  app_eq : p.app = Object.after srv.handler app (exchanges p.effects)
  same : Object.Legal handler b (exchanges p.effects) →
    q = ⟨p.conn, Object.after handler b (exchanges p.effects), p.effects⟩

variable {srv : Server σ} {app : σ} {handler : Handler τ} {b : τ} {c : Conn}

namespace Consults

/-- Nothing was asked. -/
theorem quiet {os : List Effect} (h : exchanges os = []) :
    srv.Consults app handler b ⟨c, app, os⟩ ⟨c, b, os⟩ where
  legal := by simp only [h, Object.legal_nil]
  app_eq := by simp only [h, Object.after_nil]
  same _ := by simp only [h, Object.after_nil]

theorem after {p : Poll σ} {q : Poll τ} (h : srv.Consults app handler b p q) {os : List Effect}
    (hos : exchanges os = []) : srv.Consults app handler b (p.after os) (q.after os) := by
  have heff : exchanges (p.after os).effects = exchanges p.effects := by
    rw [Poll.after_effects, exchanges_append, hos, List.nil_append]
  refine ⟨?_, ?_, fun hl => ?_⟩
  · rw [heff]
    exact h.legal
  · rw [heff]
    exact h.app_eq
  · rw [heff] at hl ⊢
    rw [h.same hl]
    rfl

end Consults

theorem frameResponse_exchanges (answer : Answer) :
    exchanges (srv.frameResponse c answer).2 = [] := by
  unfold frameResponse
  split <;> rfl

theorem callHandler_consults (consumed bodyEnd : Nat) (request : ParsedRequest) :
    srv.Consults app handler b (srv.callHandler app c consumed bodyEnd request)
      ((srv.withHandler handler).callHandler b c consumed bodyEnd request) := by
  -- the one question the task asks, and what it makes of the answer
  have hframe : ∀ answer, (srv.withHandler handler).frameResponse c answer
      = srv.frameResponse c answer := fun _ => rfl
  have hhandler : (srv.withHandler handler).handler = handler := rfl
  unfold callHandler
  rw [hhandler]
  rcases hcall : srv.handler app request with ⟨answer, app'⟩
  rcases hcall' : handler b request with ⟨answer', b'⟩
  cases answer with
  | none =>
    refine ⟨⟨by rw [hcall], trivial⟩, by simp [exchanges, hcall], fun hl => ?_⟩
    obtain ⟨hanswer, -⟩ := Object.legal_cons.mp hl
    rw [hcall'] at hanswer
    cases hanswer
    simp [exchanges, hcall']
  | some response =>
    have heff : exchanges (srv.frameResponse c (.start bodyEnd request response)).2 = [] :=
      frameResponse_exchanges _
    refine ⟨?_, ?_, fun hl => ?_⟩
    · simp only [exchanges_call, heff, Object.legal_cons, hcall, Object.legal_nil, and_self]
    · simp only [exchanges_call, heff, Object.after_cons, hcall, Object.after_nil]
    · simp only [exchanges_call, heff, Object.legal_cons, hcall'] at hl
      obtain ⟨rfl, -⟩ := hl
      simp only [exchanges_call, heff, Object.after_cons, hcall', Object.after_nil, hframe]

theorem fillBody_consults (consumed bodyEnd : Nat) :
    srv.Consults app handler b (srv.fillBody app c consumed bodyEnd)
      ((srv.withHandler handler).fillBody b c consumed bodyEnd) := by
  have hparse : (srv.withHandler handler).parse c.received = srv.parse c.received := rfl
  unfold fillBody
  split
  · exact .quiet rfl
  · unfold answerRequest
    rw [hparse]
    split
    · exact .quiet rfl
    all_goals
      split
      · exact .quiet rfl
      · exact callHandler_consults _ _ _

theorem nextRequest_consults :
    srv.Consults app handler b (srv.nextRequest app c)
      ((srv.withHandler handler).nextRequest b c) := by
  have hparse : (srv.withHandler handler).parse c.received = srv.parse c.received := rfl
  unfold nextRequest
  rw [hparse]
  split
  · exact .quiet rfl
  · exact .quiet rfl
  · split
    · exact .quiet rfl
    · refine Consults.after ?_ rfl
      unfold startRequest
      split
      · exact .quiet rfl
      · exact fillBody_consults _ _

theorem finishRequest_consults (sending : Sending) :
    srv.Consults app handler b (srv.finishRequest app c sending)
      ((srv.withHandler handler).finishRequest b c sending) := by
  unfold finishRequest
  refine Consults.after ?_ rfl
  split
  · exact .quiet rfl
  · exact nextRequest_consults

theorem afterWrite_consults (next : AfterWrite) :
    srv.Consults app handler b (srv.afterWrite app c next)
      ((srv.withHandler handler).afterWrite b c next) := by
  cases next with
  | headerRejected | requestRejected | chunk sending file => exact .quiet rfl
  | finish sending => exact finishRequest_consults sending
  | body sending =>
    unfold afterWrite writeBody
    simp only
    split
    · split
      · exact finishRequest_consults sending
      · exact .quiet rfl
    · split <;> exact .quiet rfl

/-- A wakeup asks the handler what its effects tell... -/
theorem wakeup_legal {e : Event} {p : Poll σ} (hw : c.Wakeup srv app e p) :
    Object.Legal srv.handler app (exchanges p.effects) ∧
      p.app = Object.after srv.handler app (exchanges p.effects) := by
  have hself : ∀ {p q : Poll σ}, srv.Consults app srv.handler app p q →
      Object.Legal srv.handler app (exchanges p.effects) ∧
        p.app = Object.after srv.handler app (exchanges p.effects) := fun h => ⟨h.legal, h.app_eq⟩
  have hquiet : ∀ {c' : Conn} {os : List Effect}, exchanges os = [] →
      Object.Legal srv.handler app (exchanges os) ∧
        (⟨c', app, os⟩ : Poll σ).app = Object.after srv.handler app (exchanges os) :=
    fun h => hself (Consults.quiet h)
  cases hw with
  | start hc | header hc => exact hself nextRequest_consults
  | body hc => exact hself (fillBody_consults _ _)
  | fileEnd hc => exact hself (finishRequest_consults _)
  | wroteAll hc => exact hself ((afterWrite_consults _).after (exchanges_write _ _))
  | wrotePart hc => exact hquiet (exchanges_write _ _)
  | metadata hc | seek hc | chunk hc => exact hquiet rfl
  | eof | readError | elapsed | metadataFault | writeError | seekFault | fileFault =>
    exact hquiet (exchanges_dropGuard _)

/-- ...and with any other handler that would have given these answers it is the same. -/
theorem wakeup_withHandler {e : Event} {p : Poll σ} (hw : c.Wakeup srv app e p)
    (hl : Object.Legal handler b (exchanges p.effects)) :
    c.Wakeup (srv.withHandler handler) b e
      ⟨p.conn, Object.after handler b (exchanges p.effects), p.effects⟩ := by
  have hsame : ∀ {p : Poll σ} {q : Poll τ}, srv.Consults app handler b p q →
      Object.Legal handler b (exchanges p.effects) → c.Wakeup (srv.withHandler handler) b e q →
      c.Wakeup (srv.withHandler handler) b e
        ⟨p.conn, Object.after handler b (exchanges p.effects), p.effects⟩ := by
    intro p q h hl hw
    rw [← h.same hl]
    exact hw
  cases hw with
  | start hc => exact hsame nextRequest_consults hl (.start hc)
  | header hc hne hlen => exact hsame nextRequest_consults hl (.header hc hne hlen)
  | body hc hne hlen => exact hsame (fillBody_consults _ _) hl (.body hc hne hlen)
  | fileEnd hc hend hok => exact hsame (finishRequest_consults _) hl (.fileEnd hc hend hok)
  | wroteAll hc hpos =>
    exact hsame ((afterWrite_consults _).after (exchanges_write _ _)) hl (.wroteAll hc hpos)
  | wrotePart hc hpos hlt =>
    exact hsame (.quiet (exchanges_write _ _)) hl (.wrotePart hc hpos hlt)
  | metadata hc hok => exact hsame (.quiet rfl) hl (.metadata hc hok)
  | seek hc hok => exact hsame (.quiet rfl) hl (.seek hc hok)
  | chunk hc hpos hle hsize => exact hsame (.quiet rfl) hl (.chunk hc hpos hle hsize)
  | eof hc => exact hsame (.quiet (exchanges_dropGuard _)) hl (.eof hc)
  | readError hc => exact hsame (.quiet (exchanges_dropGuard _)) hl (.readError hc)
  | elapsed hc h0 => exact hsame (.quiet (exchanges_dropGuard _)) hl (.elapsed hc h0)
  | metadataFault hc hbad =>
    exact hsame (.quiet (exchanges_dropGuard _)) hl (.metadataFault hc hbad)
  | writeError hc => exact hsame (.quiet (exchanges_dropGuard _)) hl (.writeError hc)
  | seekFault hc hbad => exact hsame (.quiet (exchanges_dropGuard _)) hl (.seekFault hc hbad)
  | fileFault hc hend hbad =>
    exact hsame (.quiet (exchanges_dropGuard _)) hl (.fileFault hc hend hbad)

end Server

/-! ## 2. One connection's part of a run -/

/-- The task a label is about. -/
def Label.task : Label → Option Nat
  | .accept => none
  | .wake i _ | .drop i => some i

/-- The events that woke the `i`-th task. -/
def eventsAt (i : Nat) (labels : List Label) : List Event :=
  labels.filterMap fun
    | .wake j event => if j = i then some event else none
    | .accept | .drop _ => none

/-- What the `i`-th task did. -/
def effectsAt (i : Nat) (los : List (Label × Effect)) : List Effect :=
  (los.filter fun lo => lo.1.task = some i).map Prod.snd

theorem eventsAt_append (i : Nat) (labels labels' : List Label) :
    eventsAt i (labels ++ labels') = eventsAt i labels ++ eventsAt i labels' :=
  List.filterMap_append

theorem effectsAt_append (i : Nat) (los los' : List (Label × Effect)) :
    effectsAt i (los ++ los') = effectsAt i los ++ effectsAt i los' := by
  rw [effectsAt, List.filter_append, List.map_append, effectsAt, effectsAt]

@[simp] theorem effectsAt_nil (i : Nat) : effectsAt i [] = [] := rfl

@[simp] theorem eventsAt_accept (i : Nat) : eventsAt i [.accept] = [] := rfl
@[simp] theorem eventsAt_drop (i j : Nat) : eventsAt i [.drop j] = [] := rfl

@[simp] theorem eventsAt_wake_self (i : Nat) (e : Event) : eventsAt i [.wake i e] = [e] := by
  simp [eventsAt]

theorem eventsAt_wake_of_ne {i j : Nat} (h : j ≠ i) (e : Event) : eventsAt i [.wake j e] = [] := by
  simp [eventsAt, h]

theorem effectsAt_self {i : Nat} {label : Label} (h : label.task = some i) (os : List Effect) :
    effectsAt i (os.map fun o => (label, o)) = os := by
  rw [effectsAt, List.filter_eq_self.mpr, Machine.map_snd_log]
  intro lo hmem
  obtain ⟨o, -, rfl⟩ := List.mem_map.mp hmem
  exact decide_eq_true h

theorem effectsAt_of_ne {i : Nat} {label : Label} (h : label.task ≠ some i) (os : List Effect) :
    effectsAt i (os.map fun o => (label, o)) = [] := by
  rw [effectsAt, List.filter_eq_nil_iff.mpr, List.map_nil]
  intro lo hmem
  obtain ⟨o, -, rfl⟩ := List.mem_map.mp hmem
  simpa using h

namespace Server

variable {σ τ : Type}

/-- What a task comes to on its own: it runs, and, if `gone`, it is dropped where it is
suspended. -/
inductive Alone (srv : Server σ) (app : σ) (es : List Event) (gone : Prop) :
    Conn → σ → List Effect → Prop
  | running {c : Conn} {app' : σ} {os : List Effect} (stays : ¬ gone)
      (run : srv.machine.run (Conn.new, app) es = some ((c, app'), os)) :
      Alone srv app es gone c app' os
  | dropped {c : Conn} {app' : σ} {os : List Effect} (goes : gone)
      (run : srv.machine.run (Conn.new, app) es = some ((c, app'), os))
      (live : ¬ c.await.Ended) :
      Alone srv app es gone (c.exit .dropped) app' (os ++ c.await.dropGuard)

variable {srv : Server σ} {app : σ} {handler : Handler τ} {b : τ}

namespace Alone

variable {es : List Event} {gone : Prop} {c : Conn} {app' : σ} {os : List Effect}

theorem congr {gone' : Prop} (h : srv.Alone app es gone c app' os) (hiff : gone' ↔ gone) :
    srv.Alone app es gone' c app' os := by
  cases h with
  | running stays run => exact .running (mt hiff.mp stays) run
  | dropped goes run live => exact .dropped (hiff.mpr goes) run live

/-- A task that has not ended was not dropped. -/
theorem of_live (h : srv.Alone app es gone c app' os) (hlive : ¬ c.await.Ended) :
    ¬ gone ∧ srv.machine.run (Conn.new, app) es = some ((c, app'), os) := by
  cases h with
  | running stays run => exact ⟨stays, run⟩
  | dropped goes run live => exact absurd ⟨_, rfl⟩ hlive

theorem wake {e : Event} {p : Poll σ} (h : srv.Alone app es gone c app' os)
    (hw : c.Wakeup srv app' e p) :
    srv.Alone app (es ++ [e]) gone p.conn p.app (os ++ p.effects) := by
  obtain ⟨hstays, hrun⟩ := h.of_live (not_ended_of_wakeup hw)
  have hone := Machine.run_cons hw.step (Machine.run_nil srv.machine _)
  rw [List.append_nil] at hone
  exact .running hstays (Machine.run_append hrun hone)

end Alone

/-- The tasks that were not spawned yet have done nothing. -/
theorem serve_beyond {labels : List Label} {s : System σ} {los : List (Label × Effect)}
    (h : srv.serve.logged.run (.new app) labels = some (s, los)) {i : Nat}
    (hi : s.conns.length ≤ i) :
    eventsAt i labels = [] ∧ effectsAt i los = [] ∧ .drop i ∉ labels := by
  refine Machine.run_induction (P := fun labels s los => s.conns.length ≤ i →
    eventsAt i labels = [] ∧ effectsAt i los = [] ∧ .drop i ∉ labels)
    (fun _ => ⟨rfl, rfl, List.not_mem_nil⟩) ?_ h hi
  rintro labels s los label s' lo - ih hst hi
  obtain ⟨os, hstep, rfl⟩ := Machine.step_logged_iff.mp hst
  rw [eventsAt_append, effectsAt_append, List.mem_append, List.mem_singleton]
  cases serve_step hstep with
  | accept =>
    rw [List.length_append] at hi
    obtain ⟨hevents, heffects, hdrop⟩ := ih (by omega)
    rw [hevents, heffects]
    exact ⟨rfl, rfl, by simpa using hdrop⟩
  | @wake j event c p hget hw =>
    simp only [List.length_set] at hi
    have hlt : j < s.conns.length := (List.getElem?_eq_some_iff.mp hget).1
    have hne : j ≠ i := by omega
    obtain ⟨hevents, heffects, hdrop⟩ := ih hi
    rw [hevents, heffects, eventsAt_wake_of_ne hne,
      effectsAt_of_ne (by simpa [Label.task] using hne)]
    exact ⟨rfl, rfl, by simpa using hdrop⟩
  | @drop j c hget hlive =>
    simp only [List.length_set] at hi
    have hlt : j < s.conns.length := (List.getElem?_eq_some_iff.mp hget).1
    have hne : j ≠ i := by omega
    obtain ⟨hevents, heffects, hdrop⟩ := ih hi
    rw [hevents, heffects, effectsAt_of_ne (by simpa [Label.task] using hne)]
    exact ⟨rfl, rfl, by simpa [hdrop] using hne.symm⟩

/-- **A connection cannot tell that it is not alone.**  Whatever the other connections do in a
run of the system: what happened to the `i`-th one is what its task does on its own, on the same
events, with any handler that answers its calls as they were answered. -/
theorem alone_of_serve {labels : List Label} {s : System σ} {los : List (Label × Effect)}
    (h : srv.serve.logged.run (.new app) labels = some (s, los)) {i : Nat} {c : Conn}
    (hi : s.conns[i]? = some c) (hl : Object.Legal handler b (exchanges (effectsAt i los))) :
    (srv.withHandler handler).Alone b (eventsAt i labels) (.drop i ∈ labels) c
      (Object.after handler b (exchanges (effectsAt i los))) (effectsAt i los) := by
  refine Machine.run_induction (P := fun labels s los => ∀ c, s.conns[i]? = some c →
    Object.Legal handler b (exchanges (effectsAt i los)) →
    (srv.withHandler handler).Alone b (eventsAt i labels) (.drop i ∈ labels) c
      (Object.after handler b (exchanges (effectsAt i los))) (effectsAt i los)) ?_ ?_ h c hi hl
  · intro c hc
    cases hc
  rintro labels s los label s' lo hrun ih hst c hi hl
  obtain ⟨os, hstep, rfl⟩ := Machine.step_logged_iff.mp hst
  have hgone : ∀ {label : Label}, label ≠ .drop i →
      (.drop i ∈ labels ++ [label] ↔ .drop i ∈ labels) := by
    intro label hne
    rw [List.mem_append, List.mem_singleton, or_iff_left (Ne.symm hne)]
  rw [effectsAt_append] at hl ⊢
  rw [eventsAt_append]
  cases serve_step hstep with
  | accept =>
    simp only [List.map_nil, effectsAt_nil, List.append_nil, eventsAt_accept] at hl ⊢
    rcases Nat.lt_or_ge i s.conns.length with hlt | hge
    · rw [List.getElem?_append_left hlt] at hi
      exact (ih c hi hl).congr (hgone (by simp))
    · -- the new task
      obtain ⟨hevents, heffects, hdrop⟩ := serve_beyond hrun hge
      rw [List.getElem?_append_right hge, List.getElem?_singleton] at hi
      split at hi <;> cases hi
      rw [hevents, heffects]
      exact .running (mt (hgone (by simp)).mp hdrop) rfl
  | @wake j event c₀ p hget hw =>
    have hsame : (.drop i ∈ labels ++ [.wake j event] ↔ .drop i ∈ labels) := hgone (by simp)
    simp only at hi hl ⊢
    by_cases hj : j = i
    · subst hj
      rw [List.getElem?_set_self (List.getElem?_eq_some_iff.mp hget).1] at hi
      cases hi
      rw [effectsAt_self rfl, exchanges_append] at hl ⊢
      obtain ⟨hbefore, hnow⟩ := Object.legal_append.mp hl
      rw [eventsAt_wake_self, Object.after_append]
      exact ((ih c₀ hget hbefore).wake (wakeup_withHandler hw hnow)).congr hsame
    · rw [List.getElem?_set_ne hj] at hi
      rw [effectsAt_of_ne (by simpa [Label.task] using hj), List.append_nil] at hl ⊢
      rw [eventsAt_wake_of_ne hj, List.append_nil]
      exact (ih c hi hl).congr hsame
  | @drop j c₀ hget hlive =>
    simp only at hi hl ⊢
    rw [eventsAt_drop, List.append_nil]
    by_cases hj : j = i
    · subst hj
      rw [List.getElem?_set_self (List.getElem?_eq_some_iff.mp hget).1] at hi
      cases hi
      have hguard : exchanges (c₀.leave s.app .dropped).effects = [] := exchanges_dropGuard _
      rw [effectsAt_self rfl, exchanges_append, hguard, List.append_nil] at hl ⊢
      have hmem : .drop j ∈ labels ++ [.drop j] := List.mem_append_right _ List.mem_cons_self
      exact .dropped hmem ((ih c₀ hget hl).of_live hlive).2 hlive
    · rw [List.getElem?_set_ne hj] at hi
      rw [effectsAt_of_ne (by simpa [Label.task] using hj), List.append_nil] at hl ⊢
      exact (ih c hi hl).congr (hgone (by simpa using hj))

/-- The handler that gives a connection the answers it was given. -/
theorem alone_replayed {labels : List Label} {s : System σ} {los : List (Label × Effect)}
    (h : srv.serve.logged.run (.new app) labels = some (s, los)) {i : Nat} {c : Conn}
    (hi : s.conns[i]? = some c) :
    ∃ left, (srv.withHandler Object.replay).Alone ((exchanges (effectsAt i los)).map Prod.snd)
      (eventsAt i labels) (.drop i ∈ labels) c left (effectsAt i los) := by
  exact ⟨_, alone_of_serve h hi (Object.replay_legal (exchanges (effectsAt i los)))⟩

end Server

theorem effectsAt_sublist (i : Nat) (los : List (Label × Effect)) :
    (effectsAt i los).Sublist (los.map Prod.snd) := List.filter_sublist.map _

theorem effectsAt_eq_tasks (i : Nat) (los : List (Label × Effect)) :
    effectsAt i los =
      ((los.map fun lo => (lo.1.task, lo.2)).filter fun x => x.1 = some i).map Prod.snd := by
  rw [effectsAt, List.filter_map, List.map_map]
  rfl

/-- The log of one task is its own... -/
theorem effectsAt_of_task {i : Nat} {los : List (Label × Effect)} {os : List Effect}
    (h : (los.map fun lo => (lo.1.task, lo.2)) = os.map fun o => (some i, o)) :
    effectsAt i los = os := by
  rw [effectsAt_eq_tasks, h, List.filter_map, List.map_map]
  simp [Function.comp_def]

/-- ...and no other one's. -/
theorem effectsAt_of_other {i j : Nat} (hj : j ≠ i) {los : List (Label × Effect)}
    {os : List Effect} (h : (los.map fun lo => (lo.1.task, lo.2)) = os.map fun o => (some j, o)) :
    effectsAt i los = [] := by
  rw [effectsAt_eq_tasks, h, List.filter_map, List.map_map]
  simp [Function.comp_def, hj]

theorem map_snd_of_task {i : Nat} {los : List (Label × Effect)} {os : List Effect}
    (h : (los.map fun lo => (lo.1.task, lo.2)) = os.map fun o => (some i, o)) :
    los.map Prod.snd = os := by
  have hsnd := congrArg (List.map Prod.snd) h
  rw [List.map_map, List.map_map] at hsnd
  exact hsnd.trans (List.map_id os)

namespace Server

variable {σ : Type} {srv : Server σ}

/-- What a task does by itself, it does in the server, under its number. -/
theorem serve_of_machine {s : System σ} {i : Nat} {c c' : Conn} {es : List Event} {app' : σ}
    {os : List Effect} (hget : s.conns[i]? = some c)
    (h : srv.machine.run (c, s.app) es = some ((c', app'), os)) :
    ∃ los, srv.serve.logged.run s (es.map (.wake i)) = some ((s.ran i ⟨c', app', os⟩).1, los) ∧
      (los.map fun lo => (lo.1.task, lo.2)) = os.map fun o => (some i, o) := by
  obtain ⟨los, hlog, hsnd⟩ := Machine.run_logged (serve_run_wake hget h)
  refine ⟨los, hlog, ?_⟩
  have hos : los.map Prod.snd = os := hsnd
  rw [← hos, List.map_map]
  refine List.map_congr_left fun lo hlo => ?_
  obtain ⟨e, -, he⟩ := List.mem_map.mp (Machine.mem_log hlog lo hlo)
  simp only [Function.comp_apply, ← he, Label.task]

/-- One task, from its `accept` on. -/
theorem serve_one {b b' : σ} {c : Conn} {es : List Event} {os : List Effect}
    (h : srv.machine.run (Conn.new, b) es = some ((c, b'), os)) :
    ∃ s los, srv.serve.logged.run (.new b) ([.accept] ++ es.map (.wake 0)) = some (s, los) ∧
      s.conns = [c] ∧ effectsAt 0 los = os := by
  let accepted : System σ :=
    { conns := [Conn.new], counter := ConnectionCounter.new.recordAccept, app := b }
  have haccept : srv.serve.logged.run (.new b) [.accept] = some (accepted, []) := rfl
  have hfirst : accepted.conns[0]? = some Conn.new := rfl
  obtain ⟨los, hlog, hlos⟩ := serve_of_machine hfirst h
  have hrun := Machine.run_append haccept hlog
  rw [List.nil_append] at hrun
  exact ⟨_, _, hrun, rfl, effectsAt_of_task hlos⟩

/-- Two tasks; all of the second comes between two wakeups of the first. -/
theorem serve_woven {b b₁ b₂ b₃ : σ} {c₁ c c' : Conn} {es es₁ es₂ : List Event}
    {os os₁ os₂ : List Effect} (hbegin : srv.machine.run (Conn.new, b) es = some ((c₁, b₁), os))
    (hother : srv.machine.run (Conn.new, b₁) es₁ = some ((c', b₂), os₁))
    (hend : srv.machine.run (c₁, b₂) es₂ = some ((c, b₃), os₂)) :
    ∃ s los, srv.serve.logged.run (.new b) ([.accept, .accept] ++ (es.map (.wake 0) ++
        (es₁.map (.wake 1) ++ es₂.map (.wake 0)))) = some (s, los) ∧
      s.conns = [c, c'] ∧ s.app = b₃ ∧ los.map Prod.snd = os ++ (os₁ ++ os₂) ∧
      effectsAt 0 los = os ++ os₂ ∧ effectsAt 1 los = os₁ := by
  let accepted : System σ :=
    { conns := [Conn.new, Conn.new], counter := ConnectionCounter.new.recordAccept.recordAccept,
      app := b }
  have haccept : srv.serve.logged.run (.new b) [.accept, .accept] = some (accepted, []) := rfl
  have hfirst : accepted.conns[0]? = some Conn.new := rfl
  obtain ⟨los, hone, hlos⟩ := serve_of_machine hfirst hbegin
  have hsecond : (accepted.ran 0 ⟨c₁, b₁, os⟩).1.conns[1]? = some Conn.new := rfl
  obtain ⟨los₁, htwo, hlos₁⟩ := serve_of_machine hsecond hother
  have hagain : ((accepted.ran 0 ⟨c₁, b₁, os⟩).1.ran 1 ⟨c', b₂, os₁⟩).1.conns[0]? = some c₁ := rfl
  obtain ⟨los₂, hthree, hlos₂⟩ := serve_of_machine hagain hend
  have hrun := Machine.run_append haccept
    (Machine.run_append hone (Machine.run_append htwo hthree))
  rw [List.nil_append] at hrun
  refine ⟨_, _, hrun, rfl, rfl, ?_, ?_, ?_⟩
  · rw [List.map_append, List.map_append, map_snd_of_task hlos, map_snd_of_task hlos₁,
      map_snd_of_task hlos₂]
  · rw [effectsAt_append, effectsAt_append, effectsAt_of_task hlos,
      effectsAt_of_other (by decide) hlos₁, effectsAt_of_task hlos₂, List.nil_append]
  · rw [effectsAt_append, effectsAt_append, effectsAt_of_other (by decide) hlos,
      effectsAt_of_task hlos₁, effectsAt_of_other (by decide) hlos₂, List.nil_append,
      List.append_nil]

end Server

/-- Dropping a task where it is suspended calls, answers and writes nothing. -/
theorem dropGuard_cases (a : Await) : a.dropGuard = [] ∨ a.dropGuard = [.requestFinish] := by
  unfold Await.dropGuard
  split
  · exact Or.inr rfl
  · exact Or.inl rfl

namespace Server

variable {σ τ : Type} {srv : Server σ} {app : σ} {handler : Handler τ} {b : τ}

/-- The cut of a stream does not depend on the handler. -/
theorem Served.of_withHandler {called : List (Nat × ParsedRequest)} {bytes rest : Bytes}
    (h : (srv.withHandler handler).Served called bytes rest) : srv.Served called bytes rest := by
  induction h with
  | nil bytes => exact .nil bytes
  | cons block declared whole utf8 tail ih => exact .cons block declared whole utf8 ih

/-- The handler is asked what the effects tell, one call after the other. -/
theorem serve_legal {labels : List Label} {s : System σ} {los : List (Label × Effect)}
    (h : srv.serve.logged.run (.new app) labels = some (s, los)) :
    Object.Legal srv.handler app (exchanges (los.map Prod.snd)) ∧
      s.app = Object.after srv.handler app (exchanges (los.map Prod.snd)) := by
  refine Machine.run_induction (P := fun _ s los =>
    Object.Legal srv.handler app (exchanges (los.map Prod.snd)) ∧
      s.app = Object.after srv.handler app (exchanges (los.map Prod.snd))) ⟨trivial, rfl⟩ ?_ h
  rintro labels s los label s' lo - ⟨hlegal, happ⟩ hst
  obtain ⟨os, hstep, rfl⟩ := Machine.step_logged_iff.mp hst
  rw [List.map_append, Machine.map_snd_log, exchanges_append, Object.legal_append,
    Object.after_append, ← happ]
  have hguard : ∀ (c : Conn), exchanges (c.leave s.app .dropped).effects = [] :=
    fun c => exchanges_dropGuard _
  cases serve_step hstep with
  | accept => exact ⟨⟨hlegal, trivial⟩, rfl⟩
  | wake hget hw =>
    obtain ⟨hnow, hafter⟩ := wakeup_legal hw
    exact ⟨⟨hlegal, hnow⟩, hafter⟩
  | @drop i c hget hlive =>
    rw [hguard c]
    exact ⟨⟨hlegal, trivial⟩, rfl⟩

namespace Alone

variable {es : List Event} {gone : Prop} {c c' : Conn} {app' app'' : σ} {os os' : List Effect}

/-- One event after the other, there is one thing that a task can do. -/
theorem unique (h : srv.Alone app es gone c app' os) (h' : srv.Alone app es gone c' app'' os') :
    c = c' ∧ os = os' := by
  cases h with
  | running stays run =>
    cases h' with
    | running _ run' =>
      rw [run] at run'
      cases run'
      exact ⟨rfl, rfl⟩
    | dropped goes run' live => exact absurd goes stays
  | dropped goes run live =>
    cases h' with
    | running stays run' => exact absurd goes stays
    | dropped _ run' live' =>
      rw [run] at run'
      cases run'
      exact ⟨rfl, rfl⟩

/-- What a task was called for is cut off what it has read, also when it was dropped. -/
theorem served (h : srv.Alone app es gone c app' os) :
    ∃ rest, srv.Served (calls os) (delivered es) rest ∧
      (¬ c.await.Ended → rest = c.unserved) := by
  cases h with
  | running stays run => exact served_of_run run
  | @dropped c _ os goes run live =>
    obtain ⟨rest, hserved, -⟩ := served_of_run run
    refine ⟨rest, ?_, fun hlive => absurd ⟨_, rfl⟩ hlive⟩
    rw [calls_append, calls_dropGuard, List.append_nil]
    exact hserved

/-- ...and what it has sent is a beginning of its responses. -/
theorem conserves (h : srv.Alone app es gone c app' os) (hwrite : .writeError ∉ es)
    (hsound : SoundCalls os) :
    ∃ owed, wires srv.maxKeepalive 0 (answered os) = sentBytes os ++ owed ∧
      (¬ gone → c.await.replying = false →
        owed = [] ∧ written os = sentBytes os ++ rejectedBytes os) := by
  cases h with
  | running stays run =>
    obtain ⟨hbytes, -, -⟩ := run_conserves run hwrite hsound
    exact ⟨_, hbytes, fun _ hidle => ⟨Conn.owed_of_not_replying hidle, run_written run⟩⟩
  | @dropped c _ os goes run live =>
    obtain ⟨hbytes, -, -⟩ := run_conserves run hwrite hsound.of_append.1
    refine ⟨c.owed srv, ?_, fun hstays => absurd goes hstays⟩
    rw [answered_append, sentBytes_append]
    rcases dropGuard_cases c.await with hguard | hguard
    · rw [hguard, answered_nil, sentBytes_nil, List.append_nil, List.append_nil]
      exact hbytes
    · have hfinish : answered [.requestFinish] = [] ∧ sentBytes [.requestFinish] = [] :=
        ⟨rfl, rfl⟩
      rw [hguard, hfinish.1, hfinish.2, List.append_nil, List.append_nil]
      exact hbytes

/-- ...which a client reads back, if they are well behaved. -/
theorem in_sync (h : srv.Alone app es gone c app' os) (hwrite : .writeError ∉ es)
    (hwell : ∀ exchange ∈ answered os, exchange.2.WellBehaved) :
    (∃ owed, readAll readResponse (headFlags (answered os)) (sentBytes os ++ owed)
        = some (clientViews srv.maxKeepalive (answered os), [])) ∧
      (¬ gone → c.await.replying = false →
        readAll readResponse (headFlags (answered os)) (written os)
          = some (clientViews srv.maxKeepalive (answered os), rejectedBytes os)) := by
  have hsound : SoundCalls os := by
    intro n request response hmem
    exact (hwell (request, response) (List.mem_filterMap.mpr ⟨_, hmem, rfl⟩)).body
  obtain ⟨owed, hbytes, hall⟩ := h.conserves hwrite hsound
  refine ⟨⟨owed, ?_⟩, fun hstays hidle => ?_⟩
  · have hread := readAll_wires srv.maxKeepalive hwell []
    rw [List.append_nil] at hread
    exact hbytes ▸ hread
  · obtain ⟨rfl, hwritten⟩ := hall hstays hidle
    rw [List.append_nil] at hbytes
    rw [hwritten, ← hbytes]
    exact readAll_wires _ hwell _

/-- ...of what the reference makes of a client's stream. -/
theorem foretold (h : srv.Alone app es gone c app' os) (hk : 1 ≤ srv.maxKeepalive)
    {stream rest : Bytes} (hcap : srv.AtStarts srv.WithinCap stream)
    (hfeed : es.foldlM feed stream = some rest) :
    ∃ more, srv.reference srv.maxKeepalive app stream = observed os ++ more ∧
      (¬ gone → c.await.Ended → more = .empty) := by
  cases h with
  | running stays run =>
    obtain ⟨hout, -, -⟩ := run_foretold hk hcap (Machine.run_within_iff.mpr ⟨hfeed, run⟩)
    refine ⟨_, hout, fun _ hended => ?_⟩
    obtain ⟨e, he⟩ := hended
    rw [Conn.future, Conn.reply, he, Reply.incomplete_followedBy]
  | @dropped c _ os goes run live =>
    obtain ⟨hout, -, -⟩ := run_foretold hk hcap (Machine.run_within_iff.mpr ⟨hfeed, run⟩)
    have hsilent : observed (os ++ c.await.dropGuard) = observed os := by
      rw [observed_append]
      rcases dropGuard_cases c.await with hguard | hguard <;> rw [hguard] <;>
        exact Outcome.append_empty _
    rw [← hsilent] at hout
    exact ⟨_, hout, fun hstays => absurd goes hstays⟩

end Alone

end Server

/-! Two connections, each with one request. -/

namespace Single

/-- What happens to a connection. -/
def events (maxKeepalive : Nat) (response : HandlerResponse) : List Event :=
  [.poll, .read head, wrote maxKeepalive 0 response]

/-- The second connection is served while the first one's response is on its way. -/
def labels (maxKeepalive : Nat) (first second : HandlerResponse) : List Label :=
  [.accept, .accept] ++ ([.poll, .read head].map (.wake 0) ++
    ((events maxKeepalive second).map (.wake 1) ++ [wrote maxKeepalive 0 first].map (.wake 0)))

variable {σ : Type} {handler : Handler σ} {maxKeepalive : Nat} {content content' : Bytes}
  {first second response : HandlerResponse} {app app₁ app₂ : σ}

theorem run_woven (hmore : 1 < maxKeepalive) (hcall : handler app parsed = (some first, app₁))
    (hcall' : handler app₁ parsed = (some second, app₂)) (hbody : first.body = .inMemory content)
    (hbody' : second.body = .inMemory content') :
    ∃ c c' s los, (serving maxKeepalive handler).serve.logged.run (.new app)
        (labels maxKeepalive first second) = some (s, los) ∧
      s.conns = [c, c'] ∧ s.app = app₂ ∧ Server.Idle c ∧ Server.Idle c' ∧
      exchanges (los.map Prod.snd) = [(parsed, some first), (parsed, some second)] ∧
      effectsAt 0 los = effects maxKeepalive first ∧
      effectsAt 1 los = effects maxKeepalive second := by
  obtain ⟨c₁, c, htaken, hreplied, hidle, -⟩ := run_halves hcall hmore hbody
  obtain ⟨c₂, c', htaken', hreplied', hidle', -⟩ := run_halves hcall' hmore hbody'
  have hother := Machine.run_append htaken' (hreplied' app₂)
  obtain ⟨s, los, hlog, hconns, happ, hall, hfirst, hsecond⟩ :=
    Server.serve_woven htaken hother (hreplied app₂)
  have hexchanges : exchanges (los.map Prod.snd) =
      [(parsed, some first), (parsed, some second)] := by
    rw [hall]
    rfl
  exact ⟨c, c', s, los, hlog, hconns, happ, hidle, hidle', hexchanges, hfirst, hsecond⟩

/-- The first connection is answered `0`, the second one `1`. -/
theorem run_numbered : ∃ c c' s los,
    numbered.serve.logged.run (.new 0) (labels 3 (number 0) (number 1)) = some (s, los) ∧
    s.conns = [c, c'] ∧ s.app = 2 ∧ Server.Idle c ∧ Server.Idle c' ∧
    exchanges (los.map Prod.snd) = [(parsed, some (number 0)), (parsed, some (number 1))] ∧
    effectsAt 0 los = effects 3 (number 0) ∧ effectsAt 1 los = effects 3 (number 1) := by
  have hcall : ∀ n, numbered.handler n parsed = (some (number n), n + 1) := fun _ => rfl
  exact run_woven (by decide) (hcall 0) (hcall 1) rfl rfl

/-- The same with a server that always answers this. -/
theorem run_two (hmore : 1 < maxKeepalive) (hbody : response.body = .inMemory content) :
    ∃ c c' s los, (server maxKeepalive response).serve.logged.run (.new ())
        (labels maxKeepalive response response) = some (s, los) ∧
      s.conns = [c, c'] := by
  have hcall : (server maxKeepalive response).handler () parsed = (some response, ()) := rfl
  obtain ⟨c, c', s, los, hlog, hconns, -⟩ := run_woven hmore hcall hcall hbody hbody
  exact ⟨c, c', s, los, hlog, hconns⟩

theorem stateless : Object.Stateless (server maxKeepalive response).handler := fun _ _ _ => rfl

theorem eventsAt_labels :
    eventsAt 0 (labels maxKeepalive first second) = events maxKeepalive first ∧
      eventsAt 1 (labels maxKeepalive first second) = events maxKeepalive second := ⟨rfl, rfl⟩

theorem not_drop_mem_labels (i : Nat) : .drop i ∉ labels maxKeepalive first second := by
  simp [labels, events]

theorem withinCap_head :
    (server maxKeepalive response).AtStarts (server maxKeepalive response).WithinCap head := by
  have hwhole : (server maxKeepalive response).Framed head head.length head.length :=
    ⟨request, 0, parse_head, rfl, by decide, rfl⟩
  intro s hs
  cases hs with
  | here => exact Server.withinCap_of_complete parse_head (by decide)
  | next hf hle hs' =>
    rw [hf.unique hwhole, List.drop_length] at hs'
    rw [Server.requestStart_nil hs']
    exact Server.withinCap_nil

end Single

/-! ## 3. What every connection of a system gets

What was proved of a task on its own comes to the connections of a system through a handler that
replays the answers. -/

namespace Server

variable {σ τ : Type} {srv : Server σ} {app : σ} {handler : Handler τ} {b : τ}

/-- **Connections interfere through the handler alone.**  Take any two runs of the system, with
other connections in them, in other orders and with other handlers.  If two connections got the
same events, and the handlers' answers to their own calls were the same, then the two tasks did
the same and are in the same state. -/
theorem connection_determined {labels labels' : List Label} {s : System σ} {s' : System τ}
    {los los' : List (Label × Effect)}
    (h : srv.serve.logged.run (.new app) labels = some (s, los))
    (h' : (srv.withHandler handler).serve.logged.run (.new b) labels' = some (s', los'))
    {i j : Nat} {c c' : Conn} (hi : s.conns[i]? = some c) (hj : s'.conns[j]? = some c')
    (hevents : eventsAt i labels = eventsAt j labels')
    (hdrop : .drop i ∈ labels ↔ .drop j ∈ labels')
    (hanswers : (exchanges (effectsAt i los)).map Prod.snd
      = (exchanges (effectsAt j los')).map Prod.snd) :
    c = c' ∧ effectsAt i los = effectsAt j los' := by
  obtain ⟨left, halone⟩ := alone_replayed h hi
  obtain ⟨left', halone'⟩ := alone_replayed h' hj
  rw [hevents, hanswers] at halone
  exact (halone.congr hdrop.symm).unique halone'

/-- What becomes of the second of two connections with the numbering server is what becomes of a
connection that is alone with a server of the one response it gets. -/
theorem connection_determined_two : ∃ c c' s s' los los',
    Single.numbered.serve.logged.run (.new 0)
      (Single.labels 3 (Single.number 0) (Single.number 1)) = some (s, los) ∧
    (Single.server 3 (Single.number 1)).serve.logged.run (.new ())
      ([.accept] ++ (Single.events 3 (Single.number 1)).map (.wake 0)) = some (s', los') ∧
    s.conns[1]? = some c ∧ s'.conns[0]? = some c' ∧ c = c' ∧
    effectsAt 1 los = effectsAt 0 los' := by
  obtain ⟨_, c, s, los, hlog, hconns, -, -, -, -, -, heffects⟩ := Single.run_numbered
  obtain ⟨c', hrun, -⟩ := Single.run_open (Single.number 1) (by decide : 1 < 3) rfl
  obtain ⟨s', los', hlog', hconns', heffects'⟩ := serve_one hrun
  have hget : s.conns[1]? = some c := by
    rw [hconns]
    rfl
  have hget' : s'.conns[0]? = some c' := by
    rw [hconns']
    rfl
  have hdrop : Label.drop 1 ∈ Single.labels 3 (Single.number 0) (Single.number 1) ↔
      .drop 0 ∈ [Label.accept] ++ (Single.events 3 (Single.number 1)).map (.wake 0) := by
    simp [Single.not_drop_mem_labels]
  have hanswers : (exchanges (effectsAt 1 los)).map Prod.snd
      = (exchanges (effectsAt 0 los')).map Prod.snd := by
    rw [heffects, heffects']
  exact ⟨c, c', s, s', los, los', hlog, hlog', hget, hget',
    connection_determined hlog hlog' hget hget' rfl hdrop hanswers⟩

/-- **The handler sees one history, and each connection its part of it.**  However the
connections take turns, the handler answers all the calls together as if they were made one
after the other; and the calls of one connection, in this order, are the cut of the bytes that
came in on it. -/
theorem calls_linearized {labels : List Label} {s : System σ} {los : List (Label × Effect)}
    (h : srv.serve.logged.run (.new app) labels = some (s, los)) :
    (Object.Legal srv.handler app (exchanges (los.map Prod.snd)) ∧
      s.app = Object.after srv.handler app (exchanges (los.map Prod.snd))) ∧
    ∀ i c, s.conns[i]? = some c → ∃ rest,
      srv.Served (calls (effectsAt i los)) (delivered (eventsAt i labels)) rest ∧
        (¬ c.await.Ended → rest = c.unserved) := by
  refine ⟨serve_legal h, fun i c hi => ?_⟩
  obtain ⟨left, halone⟩ := alone_replayed h hi
  obtain ⟨rest, hserved, hrest⟩ := halone.served
  exact ⟨rest, hserved.of_withHandler, hrest⟩

theorem calls_linearized_two : ∃ s los,
    Single.numbered.serve.logged.run (.new 0)
      (Single.labels 3 (Single.number 0) (Single.number 1)) = some (s, los) ∧
    exchanges (los.map Prod.snd) =
      [(Single.parsed, some (Single.number 0)), (Single.parsed, some (Single.number 1))] ∧
    (Object.Legal Single.numbered.handler 0 (exchanges (los.map Prod.snd)) ∧
      s.app = Object.after Single.numbered.handler 0 (exchanges (los.map Prod.snd))) ∧
    ∀ i c, s.conns[i]? = some c → ∃ rest, Single.numbered.Served
      (calls (effectsAt i los))
      (delivered (eventsAt i (Single.labels 3 (Single.number 0) (Single.number 1)))) rest ∧
        (¬ c.await.Ended → rest = c.unserved) := by
  obtain ⟨_, _, s, los, hlog, -, -, -, -, hexchanges, -⟩ := Single.run_numbered
  exact ⟨s, los, hlog, hexchanges, calls_linearized hlog⟩

/-- **Every client of a system reads its own responses.**  Whatever the other connections do: on
a connection without write errors whose own responses are well behaved, what was sent is a
beginning of what reads back as exactly the responses to its own requests; and it is all of that
when no response is under way, unless the task was dropped. -/
theorem every_client_in_sync {labels : List Label} {s : System σ} {los : List (Label × Effect)}
    (h : srv.serve.logged.run (.new app) labels = some (s, los)) {i : Nat} {c : Conn}
    (hi : s.conns[i]? = some c) (hwrite : .writeError ∉ eventsAt i labels)
    (hgood : ∀ n request response, .call n request (some response) ∈ effectsAt i los →
      response.WellBehaved) :
    (∃ owed, readAll readResponse (headFlags (answered (effectsAt i los)))
        (sentBytes (effectsAt i los) ++ owed)
          = some (clientViews srv.maxKeepalive (answered (effectsAt i los)), [])) ∧
      (.drop i ∉ labels → c.await.replying = false →
        readAll readResponse (headFlags (answered (effectsAt i los))) (written (effectsAt i los))
          = some (clientViews srv.maxKeepalive (answered (effectsAt i los)),
              rejectedBytes (effectsAt i los))) := by
  obtain ⟨left, halone⟩ := alone_replayed h hi
  refine halone.in_sync hwrite fun exchange hmem => ?_
  obtain ⟨n, hcall⟩ := mem_answered hmem
  exact hgood n _ _ hcall

theorem every_client_in_sync_two : ∃ c c' s los,
    Single.numbered.serve.logged.run (.new 0)
      (Single.labels 3 (Single.number 0) (Single.number 1)) = some (s, los) ∧ s.conns = [c, c'] ∧
    readAll readResponse [false] (written (effectsAt 0 los))
      = some ([⟨200, [("Content-Length", "1")], asBytes "0"⟩], []) ∧
    readAll readResponse [false] (written (effectsAt 1 los))
      = some ([⟨200, [("Content-Length", "1")], asBytes "1"⟩], []) := by
  obtain ⟨c, c', s, los, hlog, hconns, -, hidle, hidle', -, hfirst, hsecond⟩ :=
    Single.run_numbered
  have hget : s.conns[0]? = some c ∧ s.conns[1]? = some c' := by
    rw [hconns]
    exact ⟨rfl, rfl⟩
  have hwrite : .writeError ∉ Single.events 3 (Single.number 0) ∧
      .writeError ∉ Single.events 3 (Single.number 1) := by
    simp [Single.events, Single.wrote]
  refine ⟨c, c', s, los, hlog, hconns, ?_, ?_⟩
  · have hgood : ∀ n request response,
        .call n request (some response) ∈ effectsAt 0 los → response.WellBehaved := by
      intro n request response hmem
      rw [hfirst] at hmem
      exact Single.wellBehaved_of_call (Single.number_wellBehaved 0) hmem
    have hread := (every_client_in_sync hlog hget.1 hwrite.1 hgood).2
      (Single.not_drop_mem_labels 0) hidle.not_replying
    rw [hfirst] at hread ⊢
    exact hread
  · have hgood : ∀ n request response,
        .call n request (some response) ∈ effectsAt 1 los → response.WellBehaved := by
      intro n request response hmem
      rw [hsecond] at hmem
      exact Single.wellBehaved_of_call (Single.number_wellBehaved 1) hmem
    have hread := (every_client_in_sync hlog hget.2 hwrite.2 hgood).2
      (Single.not_drop_mem_labels 1) hidle'.not_replying
    rw [hsecond] at hread ⊢
    exact hread

/-- **Connections to a stateless handler have nothing to do with each other.**  A connection to
a handler without a memory that gets a client's stream, cut into reads anyhow, shows the
beginning of what the reference makes of that stream, and all of it once the task has ended of
itself: nothing in it comes from the other connections. -/
theorem outcome_of_stateless (hs : Object.Stateless srv.handler) {labels : List Label}
    {s : System σ} {los : List (Label × Effect)}
    (h : srv.serve.logged.run (.new app) labels = some (s, los)) {i : Nat} {c : Conn}
    (hi : s.conns[i]? = some c) (hk : 1 ≤ srv.maxKeepalive) {stream rest : Bytes}
    (hcap : srv.AtStarts srv.WithinCap stream)
    (hfeed : (eventsAt i labels).foldlM feed stream = some rest) :
    ∃ more, srv.reference srv.maxKeepalive app stream = observed (effectsAt i los) ++ more ∧
      (.drop i ∉ labels → c.await.Ended → more = .empty) := by
  have hsub : (exchanges (effectsAt i los)).Sublist (exchanges (los.map Prod.snd)) :=
    (effectsAt_sublist i los).filterMap _
  have hl : Object.Legal srv.handler app (exchanges (effectsAt i los)) :=
    hs.legal_of_sublist (serve_legal h).1 hsub app
  have halone : srv.Alone app (eventsAt i labels) (.drop i ∈ labels) c _ (effectsAt i los) :=
    alone_of_serve h hi hl
  exact halone.foretold hk hcap hfeed

theorem outcome_of_stateless_two : ∃ c c' s los more,
    (Single.server 2 Upload.response).serve.logged.run (.new ())
      (Single.labels 2 Upload.response Upload.response) = some (s, los) ∧ s.conns = [c, c'] ∧
    (Single.server 2 Upload.response).reference 2 () Single.head
      = observed (effectsAt 0 los) ++ more := by
  have hmore : 1 < 2 := Nat.lt_succ_self 1
  obtain ⟨c, c', s, los, hlog, hconns⟩ :=
    Single.run_two hmore (rfl : Upload.response.body = .inMemory [])
  have hget : s.conns[0]? = some c := by
    rw [hconns]
    rfl
  have hfeed : (eventsAt 0 (Single.labels 2 Upload.response Upload.response)).foldlM feed
      Single.head = some [] := by
    have hhead := feed_read Single.head [] (by decide)
    rw [List.append_nil] at hhead
    rw [Single.eventsAt_labels.1]
    exact feeds_cons rfl (feeds_cons hhead (feeds_cons rfl rfl))
  obtain ⟨more, hout, -⟩ := outcome_of_stateless Single.stateless hlog hget (Nat.le_succ 1)
    Single.withinCap_head hfeed
  exact ⟨c, c', s, los, more, hlog, hconns, hout⟩

end Server

end HelixRack
