/-
# Connections served together

`serve` spawns one task per accepted connection on a single thread; the tasks take turns at
their await points and share one `ConnectionCounter`.  `Server.serve` is that system: any
connection may be woken next, and any task may be dropped where it is suspended.

`guardAfter` follows one task's guard through the effects it emits, and a task never starts a
guard twice or drops one it does not hold.  Summed over the connections this makes the
counter exact: it is the number of connections with an unanswered request in front.
-/
import HelixRack.Caps
import HelixRack.Framing
import HelixRack.Counter
import Mathlib.Algebra.Ring.Int.Defs

namespace HelixRack

/-! ## 1. The guard of one task -/

/-- What an effect does to `in_flight_requests`. -/
def Effect.delta : Effect → Int
  | .requestStart => 1
  | .requestFinish => -1
  | .call _ _ _ | .sent _ | .rejected _ => 0

/-- The sum over a list of effects. -/
def flow (os : List Effect) : Int := (os.map Effect.delta).sum

@[simp] theorem flow_nil : flow [] = 0 := rfl

@[simp] theorem flow_cons (o : Effect) (os : List Effect) : flow (o :: os) = o.delta + flow os := by
  simp [flow]

theorem flow_append (os os' : List Effect) : flow (os ++ os') = flow os + flow os' := by
  simp [flow]

/-- One effect, on a task that holds a guard or does not; `none` when it would start a second
guard, or finish one that is not held. -/
def guardStep : Bool → Effect → Option Bool
  | false, .requestStart => some true
  | true, .requestFinish => some false
  | true, .requestStart | false, .requestFinish => none
  | held, .call _ _ _ | held, .sent _ | held, .rejected _ => some held

/-- Whether a guard is held after these effects. -/
def guardAfter (held : Bool) (os : List Effect) : Option Bool := os.foldlM guardStep held

@[simp] theorem guardAfter_nil (held : Bool) : guardAfter held [] = some held := rfl

theorem guardAfter_cons (held : Bool) (o : Effect) (os : List Effect) :
    guardAfter held (o :: os) = (guardStep held o).bind fun held' => guardAfter held' os :=
  List.foldlM_cons

theorem guardAfter_append (held : Bool) (os os' : List Effect) :
    guardAfter held (os ++ os') = (guardAfter held os).bind fun held' => guardAfter held' os' :=
  List.foldlM_append

@[simp] theorem guardAfter_start (os : List Effect) :
    guardAfter false (.requestStart :: os) = guardAfter true os := rfl

@[simp] theorem guardAfter_finish (os : List Effect) :
    guardAfter true (.requestFinish :: os) = guardAfter false os := rfl

@[simp] theorem guardAfter_call (held : Bool) (n : Nat) (request : ParsedRequest)
    (response : Option HandlerResponse) (os : List Effect) :
    guardAfter held (.call n request response :: os) = guardAfter held os := by
  cases held <;> rfl

@[simp] theorem guardAfter_write (held : Bool) (next : AfterWrite) (bytes : Bytes)
    (os : List Effect) : guardAfter held (next.effect bytes :: os) = guardAfter held os := by
  cases held <;> cases next <;> rfl

/-- A guard in numbers. -/
def guardCount (held : Bool) : Int := if held then 1 else 0

theorem guardCount_nonneg (held : Bool) : 0 ≤ guardCount held := by
  cases held <;> decide

theorem delta_of_guardStep {held held' : Bool} {o : Effect} (h : guardStep held o = some held') :
    o.delta = guardCount held' - guardCount held := by
  cases o <;> cases held <;> cases h <;> rfl

/-- Effects that keep the guard in order move the counter by what the guard has changed. -/
theorem flow_of_guardAfter {held held' : Bool} {os : List Effect}
    (h : guardAfter held os = some held') : flow os = guardCount held' - guardCount held := by
  induction os generalizing held with
  | nil =>
    cases h
    simp
  | cons o os ih =>
    rw [guardAfter_cons, Option.bind_eq_some_iff] at h
    obtain ⟨g, hstep, htail⟩ := h
    have hdelta := delta_of_guardStep hstep
    have hflow := ih htail
    rw [flow_cons]
    omega

/-- ...and never below what the guard stands for. -/
theorem flow_prefix_of_guardAfter {held held' : Bool} {os pre : List Effect}
    (h : guardAfter held os = some held') (hp : pre <+: os) : 0 ≤ guardCount held + flow pre := by
  obtain ⟨post, rfl⟩ := hp
  rw [guardAfter_append, Option.bind_eq_some_iff] at h
  obtain ⟨g, hpre, -⟩ := h
  have hflow := flow_of_guardAfter hpre
  have hnonneg := guardCount_nonneg g
  omega

/-! ## 2. A task keeps its guard in order -/

namespace Server

variable {σ : Type} {srv : Server σ} {c : Conn} {app : σ}

/-- From a task that holds a guard or not, `p` emits its effects in order and holds a guard
where its await point says so. -/
def Guarded (held : Bool) (p : Poll σ) : Prop :=
  guardAfter held p.effects = some p.conn.await.guarded

theorem guarded_leave (app : σ) (e : Exit) : Guarded c.await.guarded (c.leave app e) := by
  simp only [Guarded, Conn.leave, Await.dropGuard, Conn.exit_await]
  cases c.await.guarded <;> rfl

theorem Guarded.write {held : Bool} {p : Poll σ} (h : Guarded held p) (next : AfterWrite)
    (bytes : Bytes) : Guarded held (p.after [next.effect bytes]) := by
  simp only [Guarded, Poll.after_effects, List.cons_append, List.nil_append, guardAfter_write]
  exact h

theorem sendHead_guarded (answer : Answer) : (srv.sendHead c answer).await.guarded = true := by
  simp only [sendHead]
  split
  · rfl
  · split <;> rfl

theorem frameResponse_guarded (answer : Answer) :
    guardAfter true (srv.frameResponse c answer).2 =
      some (srv.frameResponse c answer).1.await.guarded := by
  unfold frameResponse
  split
  · rw [sendHead_guarded]
    rfl
  · rfl
  · rfl

theorem fillBody_guarded (consumed bodyEnd : Nat) :
    Guarded true (srv.fillBody app c consumed bodyEnd) := by
  refine fillBody_elim srv app c consumed bodyEnd ?read ?invalid ?badRequest ?panicked ?called
  case read => exact fun _ => rfl
  case invalid => rfl
  case badRequest => rfl
  case panicked => exact fun _ _ => rfl
  case called =>
    intro request response app' _
    simp only [Guarded, guardAfter_call]
    exact frameResponse_guarded _

theorem nextRequest_guarded : Guarded false (srv.nextRequest app c) := by
  refine nextRequest_elim srv app c ?invalid ?pending ?malformed ?tooLarge ?framed
  case invalid => rfl
  case pending =>
    intro _
    unfold awaitHeader
    split
    · rfl
    · split <;> rfl
  case malformed => exact fun _ => rfl
  case tooLarge => exact fun _ _ _ => rfl
  case framed =>
    intro consumed request bodyLen _ _ _
    exact fillBody_guarded _ _

theorem finishRequest_guarded (sending : Sending) :
    Guarded true (srv.finishRequest app c sending) := by
  simp only [Guarded, finishRequest, Poll.after_effects, List.cons_append, List.nil_append,
    guardAfter_finish, Poll.after_conn]
  split
  · rfl
  · exact nextRequest_guarded

theorem afterWrite_guarded (rest : Bytes) (next : AfterWrite) :
    Guarded (Await.write rest next).guarded (srv.afterWrite app c next) := by
  cases next with
  | headerRejected => rfl
  | requestRejected => rfl
  | body sending =>
    simp only [afterWrite, writeBody]
    split
    · split
      · exact finishRequest_guarded sending
      · rfl
    · split <;> rfl
  | chunk sending file => rfl
  | finish sending => exact finishRequest_guarded sending

/-- **A wakeup keeps the guard in order.** -/
theorem wakeup_guarded {e : Event} {p : Poll σ} (hw : c.Wakeup srv app e p) :
    Guarded c.await.guarded p := by
  cases hw with
  | start hc | header hc =>
    rw [hc]
    exact nextRequest_guarded
  | body hc =>
    rw [hc]
    exact fillBody_guarded _ _
  | metadata hc hok =>
    rw [hc]
    simp only [Guarded, sendHead_guarded]
    rfl
  | @wrotePart rest next n hc hpos hlt =>
    rw [hc]
    simp only [Guarded, guardAfter_write]
    cases next <;> rfl
  | wroteAll hc hpos =>
    rw [hc]
    exact (afterWrite_guarded _ _).write _ _
  | seek hc hok | chunk hc hpos hle hsize =>
    rw [hc]
    rfl
  | fileEnd hc hend hok =>
    rw [hc]
    exact finishRequest_guarded _
  | eof | readError | elapsed | metadataFault | writeError | seekFault | fileFault =>
    exact guarded_leave _ _

/-! ## 3. What the guard stands for -/

end Server

/-- The parser found a complete item. -/
def Status.isComplete {β : Type} : Status β → Bool
  | .complete _ _ => true
  | .incomplete _ | .invalid => false

namespace Conn

variable {σ : Type} (srv : Server σ)

/-- The connection is served, and its buffer starts with the complete header block of a
request that has not been fully answered. -/
def unanswered (c : Conn) : Bool :=
  !decide c.await.Ended && (srv.parse c.received).isComplete

variable {srv}

theorem unanswered_of_framed {c : Conn} (hne : ¬ c.await.Ended) {consumed bodyEnd : Nat}
    (h : srv.Framed c.received consumed bodyEnd) : c.unanswered srv = true := by
  obtain ⟨request, hp⟩ := h.complete
  simp [unanswered, hne, hp, Status.isComplete]

theorem unanswered_of_pending {c : Conn} (h : srv.Pending c.received) :
    c.unanswered srv = false := by
  obtain ⟨out, hp⟩ := h
  have hparse : srv.parse c.received = .incomplete out := hp
  simp [unanswered, hparse, Status.isComplete]

/-- **The guard is held exactly while a request is in front that was not answered.** -/
theorem Inv.guarded_eq_unanswered {c : Conn} (hi : c.Inv srv) :
    c.await.guarded = c.unanswered srv := by
  have ha := hi.atAwait
  have hlive : ∀ a : Await, c.await = a → (∀ e, a ≠ .ended e) → ¬ c.await.Ended := by
    rintro a hc hne ⟨e, he⟩
    exact hne e (hc.symm.trans he)
  cases hc : c.await with
  | spawned =>
    rw [hc] at ha
    have hnil : c.received = [] := by rw [received, ha.1, List.take_zero]
    simp only [Await.guarded, unanswered, hnil]
    cases hp : srv.parse [] with
    | complete n request => exact absurd hp IncrementalParser.parse_nil_ne_complete
    | incomplete out => simp [Status.isComplete]
    | invalid => simp [Status.isComplete]
  | readHeader =>
    rw [hc] at ha
    rw [unanswered_of_pending ha.1]
    rfl
  | readBody consumed bodyEnd =>
    rw [hc] at ha
    rw [unanswered_of_framed (hlive _ hc (by simp)) ha.1]
    rfl
  | metadata answer file =>
    rw [hc] at ha
    obtain ⟨k, hf⟩ := ha.1.framed
    rw [unanswered_of_framed (hlive _ hc (by simp)) hf]
    rfl
  | seek sending file | readFile sending file =>
    rw [hc] at ha
    obtain ⟨k, hf⟩ := ha.framed
    rw [unanswered_of_framed (hlive _ hc (by simp)) hf]
    rfl
  | ended e => simp [Await.guarded, unanswered, hc, Await.Ended]
  | write rest next =>
    rw [hc] at ha
    cases next with
    | headerRejected =>
      rw [unanswered_of_pending ha.2.1]
      rfl
    | requestRejected =>
      obtain ⟨n, request, hp⟩ := ha.2
      have hne := hlive _ hc (by simp)
      simp [Await.guarded, unanswered, hne, hp, Status.isComplete]
    | body sending | chunk sending file | finish sending =>
      obtain ⟨k, hf⟩ := ha.2.framed
      rw [unanswered_of_framed (hlive _ hc (by simp)) hf]
      rfl

end Conn

/-! ## 4. The system -/

namespace Effect

/-- What an effect does to the counter all tasks share. -/
def record (k : ConnectionCounter Notify) : Effect → ConnectionCounter Notify
  | .requestStart => k.recordRequestStart
  | .requestFinish => k.recordRequestFinish
  | .call _ _ _ | .sent _ | .rejected _ => k

end Effect

theorem record_inFlight (k : ConnectionCounter Notify) (o : Effect) :
    (o.record k).inFlightRequests = k.inFlightRequests + o.delta := by
  cases o <;> simp [Effect.record, Effect.delta, ConnectionCounter.recordRequestStart,
    ConnectionCounter.recordRequestFinish, ConnectionCounter.fetchSub,
    ConnectionCounter.notifyWaiters, Int.sub_eq_add_neg]

/-- A task's effects, recorded one after the other. -/
def recordAll (k : ConnectionCounter Notify) (os : List Effect) : ConnectionCounter Notify :=
  os.foldl Effect.record k

theorem recordAll_inFlight (k : ConnectionCounter Notify) (os : List Effect) :
    (recordAll k os).inFlightRequests = k.inFlightRequests + flow os := by
  induction os generalizing k with
  | nil => simp [recordAll]
  | cons o os ih =>
    have htail := ih (o.record k)
    have hhead := record_inFlight k o
    simp only [recordAll, List.foldl_cons, flow_cons] at htail ⊢
    omega

/-- Everything `serve` has spawned, with the counter and the handler's state. -/
structure System (σ : Type) where
  conns : List Conn
  counter : ConnectionCounter Notify
  app : σ

def System.new {σ : Type} (app : σ) : System σ := { conns := [], counter := .new, app }

/-- The `i`-th task has run up to `p`. -/
def System.ran {σ : Type} (s : System σ) (i : Nat) (p : Poll σ) : System σ × List Effect :=
  ({ conns := s.conns.set i p.conn, counter := recordAll s.counter p.effects, app := p.app },
    p.effects)

inductive Label where
  /-- `accept` returns a connection, and its task is spawned. -/
  | accept
  /-- The `i`-th task is woken. -/
  | wake (i : Nat) (event : Event)
  /-- The `i`-th task is dropped. -/
  | drop (i : Nat)
  deriving DecidableEq, Repr

namespace Server

variable {σ : Type} (srv : Server σ)

def serveStep (s : System σ) : Label → Option (System σ × List Effect)
  | .accept =>
    some ({ s with conns := s.conns ++ [Conn.new], counter := s.counter.recordAccept }, [])
  | .wake i event =>
    s.conns[i]?.bind fun c => (c.resume srv s.app event).map (s.ran i)
  | .drop i =>
    s.conns[i]?.bind fun c =>
      if c.await.Ended then none else some (s.ran i (c.leave s.app .dropped))

/-- **`serve` and the tasks it has spawned.** -/
def serve : Machine (System σ) Label Effect where
  step := srv.serveStep

/-- The ways a step of the system can go. -/
inductive ServeMove (s : System σ) : Label → System σ × List Effect → Prop
  | accept : ServeMove s .accept
      ({ s with conns := s.conns ++ [Conn.new], counter := s.counter.recordAccept }, [])
  | wake {i : Nat} {event : Event} {c : Conn} {p : Poll σ} (hget : s.conns[i]? = some c)
      (hw : c.Wakeup srv s.app event p) :
      ServeMove s (.wake i event) (s.ran i p)
  | drop {i : Nat} {c : Conn} (hget : s.conns[i]? = some c) (hlive : ¬ c.await.Ended) :
      ServeMove s (.drop i) (s.ran i (c.leave s.app .dropped))

variable {srv}

theorem serve_step {s : System σ} {label : Label} {r : System σ × List Effect}
    (h : srv.serve.step s label = some r) : srv.ServeMove s label r := by
  cases label with
  | accept =>
    cases h
    exact .accept
  | wake i event =>
    simp only [serve, serveStep, Option.bind_eq_some_iff, Option.map_eq_some_iff] at h
    obtain ⟨c, hget, p, hp, rfl⟩ := h
    exact .wake hget (Conn.resume_cases hp)
  | drop i =>
    simp only [serve, serveStep, Option.bind_eq_some_iff] at h
    obtain ⟨c, hget, h⟩ := h
    split at h <;> cases h
    rename_i hlive
    exact .drop hget hlive

/-! ## 5. The counter is exact -/

/-- Every task's buffer is in order, and the counter counts the guards. -/
structure SystemInv (s : System σ) : Prop where
  conns : ∀ c ∈ s.conns, c.Inv srv
  counted : s.counter.inFlightRequests = s.conns.countP fun c => c.await.guarded

/-- A step that replaces one task and emits effects that keep its guard in order. -/
theorem counted_set {s : System σ} {i : Nat} {c c' : Conn} {os : List Effect}
    (hget : s.conns[i]? = some c)
    (hcount : s.counter.inFlightRequests = s.conns.countP fun c => c.await.guarded)
    (hguard : guardAfter c.await.guarded os = some c'.await.guarded) :
    (recordAll s.counter os).inFlightRequests =
        ((s.conns.set i c').countP fun c => c.await.guarded : Nat) ∧
      ∀ pre, pre <+: os → 0 ≤ s.counter.inFlightRequests + flow pre := by
  have hset := countP_set_add (p := fun c : Conn => c.await.guarded) (b := c') hget
  have hflow := flow_of_guardAfter hguard
  have hcast : ∀ g : Bool, ((if g = true then 1 else 0 : Nat) : Int) = guardCount g := by
    intro g
    cases g <;> rfl
  have hset' : (((s.conns.set i c').countP fun c => c.await.guarded : Nat) : Int)
        + guardCount c.await.guarded
      = ((s.conns.countP fun c => c.await.guarded : Nat) : Int)
        + guardCount c'.await.guarded := by
    rw [← hcast, ← hcast]
    exact_mod_cast hset
  refine ⟨?_, fun pre hpre => ?_⟩
  · rw [recordAll_inFlight]
    omega
  · have hlocal := flow_prefix_of_guardAfter hguard hpre
    have hnonneg : guardCount c.await.guarded
        ≤ ((s.conns.countP fun c => c.await.guarded : Nat) : Int) := by
      cases hg : c.await.guarded with
      | false => exact Int.natCast_nonneg _
      | true =>
        have hpos : 0 < s.conns.countP fun c => c.await.guarded :=
          List.countP_pos_iff.mpr ⟨c, List.mem_of_getElem? hget, hg⟩
        simp only [guardCount, if_true]
        omega
    omega

theorem mem_set {s : System σ} {i : Nat} {x y : Conn} (h : y ∈ s.conns.set i x) :
    y ∈ s.conns ∨ y = x := List.mem_or_eq_of_mem_set h

theorem ServeMove.inv {s : System σ} {label : Label} {r : System σ × List Effect}
    (hi : srv.SystemInv s) (h : srv.ServeMove s label r) :
    srv.SystemInv r.1 ∧
      r.1.counter.inFlightRequests = s.counter.inFlightRequests + flow r.2 ∧
      ∀ pre, pre <+: r.2 → 0 ≤ s.counter.inFlightRequests + flow pre := by
  cases h with
  | accept =>
    refine ⟨⟨fun c hc => ?_, ?_⟩, (Int.add_zero _).symm, fun pre hpre => ?_⟩
    · rcases List.mem_append.mp hc with hc | hc
      · exact hi.conns c hc
      · rw [List.mem_singleton.mp hc]
        exact Conn.new_inv
    · simp only [ConnectionCounter.recordAccept, List.countP_append]
      rw [hi.counted]
      rfl
    · rw [List.prefix_nil.mp hpre, hi.counted]
      simp
  | @wake i event c p hget hw =>
    have hc : c.Inv srv := hi.conns c (List.mem_of_getElem? hget)
    obtain ⟨hcount, hpre⟩ := counted_set hget hi.counted (wakeup_guarded hw)
    refine ⟨⟨fun y hy => ?_, hcount⟩, recordAll_inFlight _ _, hpre⟩
    rcases mem_set hy with hy | rfl
    · exact hi.conns y hy
    · exact hw.inv hc
  | @drop i c hget hlive =>
    have hc : c.Inv srv := hi.conns c (List.mem_of_getElem? hget)
    obtain ⟨hcount, hpre⟩ := counted_set hget hi.counted (guarded_leave s.app .dropped)
    refine ⟨⟨fun y hy => ?_, hcount⟩, recordAll_inFlight _ _, hpre⟩
    rcases mem_set hy with hy | rfl
    · exact hi.conns y hy
    · exact hc.toSized.inv_exit _

theorem new_systemInv (app : σ) : srv.SystemInv (System.new app) where
  conns c hc := by cases hc
  counted := rfl

theorem serve_inv {app : σ} {labels : List Label} {s : System σ} {os : List Effect}
    (h : srv.serve.run (.new app) labels = some (s, os)) : srv.SystemInv s :=
  Machine.run_invariant (I := srv.SystemInv) (new_systemInv app)
    (fun _ _ _ _ hi hst => ((serve_step hst).inv hi).1) h

/-- The counter is what the effects of the run add up to, and no prefix of them takes it
below zero. -/
theorem serve_flow {app : σ} {labels : List Label} {s : System σ} {os : List Effect}
    (h : srv.serve.run (.new app) labels = some (s, os)) :
    s.counter.inFlightRequests = flow os ∧ ∀ pre, pre <+: os → 0 ≤ flow pre := by
  refine (Machine.run_induction (P := fun _ s os => srv.SystemInv s ∧
    s.counter.inFlightRequests = flow os ∧ ∀ pre, pre <+: os → 0 ≤ flow pre)
    ⟨new_systemInv app, rfl, ?_⟩ ?_ h).2
  · intro pre hpre
    rw [List.prefix_nil.mp hpre]
    exact Int.le_refl 0
  · rintro _ s os label s' o _ ⟨hi, hflow, hnonneg⟩ hst
    obtain ⟨hi', hsum, hstep⟩ := (serve_step hst).inv hi
    refine ⟨hi', ?_, fun pre hpre => ?_⟩
    · rw [flow_append, ← hflow]
      exact hsum
    · rcases List.prefix_or_prefix_of_prefix hpre (List.prefix_append os o) with hp | ⟨t, rfl⟩
      · exact hnonneg pre hp
      · have ht : t <+: o := (List.prefix_append_right_inj os).mp hpre
        rw [flow_append, ← hflow]
        exact hstep t ht

/-- **The in-flight counter is exact.**  In every interleaving of any number of connections,
whatever ends their requests: the counter is the number of connections with an unanswered
request in front, no decrement takes it below zero, and it is zero once every task has
ended. -/
theorem inFlight_exact {app : σ} {labels : List Label} {s : System σ} {os : List Effect}
    (h : srv.serve.run (.new app) labels = some (s, os)) :
    s.counter.inFlightRequests = (s.conns.countP fun c => c.unanswered srv : Nat) ∧
      (∀ pre, pre <+: os → 0 ≤ (recordAll .new pre).inFlightRequests) ∧
      ((∀ c ∈ s.conns, c.await.Ended) → s.counter.inFlightRequests = 0) := by
  have hi := serve_inv h
  have hcongr : (s.conns.countP fun c => c.unanswered srv)
      = s.conns.countP fun c => c.await.guarded := by
    refine List.countP_congr fun c hc => ?_
    rw [(hi.conns c hc).guarded_eq_unanswered]
  refine ⟨?_, fun pre hpre => ?_, fun hended => ?_⟩
  · rw [hcongr, hi.counted]
  · rw [recordAll_inFlight]
    have hnonneg := (serve_flow h).2 pre hpre
    have hnew : (ConnectionCounter.new : ConnectionCounter Notify).inFlightRequests = 0 := rfl
    omega
  · rw [hi.counted]
    have hnone : (s.conns.countP fun c => c.await.guarded) = 0 := by
      rw [List.countP_eq_zero]
      intro c hc
      obtain ⟨e, he⟩ := hended c hc
      rw [he]
      exact Bool.false_ne_true
    rw [hnone]
    rfl

/-- A connection's run is a run of the system it is part of. -/
theorem serve_run_wake {s : System σ} {i : Nat} {c c' : Conn} {app' : σ} {es : List Event}
    {os : List Effect} (hget : s.conns[i]? = some c)
    (h : srv.machine.run (c, s.app) es = some ((c', app'), os)) :
    srv.serve.run s (es.map (.wake i)) = some (s.ran i ⟨c', app', os⟩) := by
  induction es generalizing s c os with
  | nil =>
    simp only [Machine.run_nil, Option.some.injEq, Prod.mk.injEq] at h
    obtain ⟨⟨rfl, rfl⟩, rfl⟩ := h
    obtain ⟨hlt, rfl⟩ := List.getElem?_eq_some_iff.mp hget
    simp [System.ran, recordAll]
  | cons e es ih =>
    obtain ⟨⟨c₁, app₁⟩, o, os', hst, hrun, rfl⟩ := Machine.run_cons_inv h
    have hw := machine_step hst
    have hstep : srv.serve.step s (.wake i e) = some (s.ran i ⟨c₁, app₁, o⟩) := by
      simp only [serve, serveStep, hget, Option.bind_some, hw.resume, Option.map_some]
    have hget₁ : (s.ran i ⟨c₁, app₁, o⟩).1.conns[i]? = some c₁ :=
      List.getElem?_set_self (List.getElem?_eq_some_iff.mp hget).1
    have hall := Machine.run_cons hstep (ih (s := (s.ran i ⟨c₁, app₁, o⟩).1) hget₁ hrun)
    simpa [System.ran, recordAll] using hall

theorem serve_run_accept (app : σ) :
    srv.serve.run (.new app) [.accept] =
      some ({ conns := [Conn.new], counter := ConnectionCounter.new.recordAccept, app }, []) :=
  rfl

/-- One connection on its own, from its `accept` on. -/
theorem serve_run_single {app app' : σ} {c : Conn} {es : List Event} {os : List Effect}
    (h : srv.machine.run (Conn.new, app) es = some ((c, app'), os)) :
    srv.serve.run (.new app) (.accept :: es.map (.wake 0)) =
      some ({ conns := [c], counter := recordAll ConnectionCounter.new.recordAccept os,
              app := app' }, os) :=
  Machine.run_append (serve_run_accept app) (serve_run_wake rfl h)

theorem inFlight_exact_upload :
    ∃ s, Upload.server.serve.run (.new ()) (.accept :: Upload.events.map (.wake 0)) =
        some (s, Upload.effects) ∧
      s.counter.inFlightRequests = (s.conns.countP fun c => c.unanswered Upload.server : Nat) ∧
        (∀ pre, pre <+: Upload.effects → 0 ≤ (recordAll .new pre).inFlightRequests) ∧
        ((∀ c ∈ s.conns, c.await.Ended) → s.counter.inFlightRequests = 0) := by
  obtain ⟨c, hrun, -⟩ := Upload.run_events
  exact ⟨_, serve_run_single hrun, inFlight_exact (serve_run_single hrun)⟩

/-! ## 6. Responses and the counter -/

end Server

/-- A response is being put on the socket. -/
def Await.responding : Await → Bool
  | .write _ _ | .seek _ _ | .readFile _ _ => true
  | .spawned | .readHeader | .readBody _ _ | .metadata _ _ | .ended _ => false

namespace Server

variable {σ : Type} (srv : Server σ)

/-- An unfinished header block in front is shorter than the cap. -/
def BelowCap (b : Bytes) : Prop := srv.Pending b → b.length < maxBufCapacity

/-- No header read leaves an unfinished header block that has reached the cap. -/
def ReadsBelowCap (s : System σ) (label : Label) : Prop :=
  ∀ i event c, label = .wake i event → s.conns[i]? = some c →
    srv.HeaderReadsMeet srv.BelowCap (c, s.app) event

variable {srv}

theorem belowCap_nil : srv.BelowCap [] := fun _ => by
  rw [List.length_nil]
  decide

theorem belowCap_settled : srv.Settled srv.BelowCap := by
  intro b n request more hp _ hpend
  exact absurd (parse_append_of_complete hp more) hpend.not_complete

/-- A connection that is not about to be rejected for its header block holds a guard while it
responds. -/
theorem guarded_of_responding {c : Conn} (hi : c.Inv srv) (hstarts : srv.BelowCap c.received)
    (h : c.await.responding = true) : c.await.guarded = true := by
  have ha := hi.atAwait
  cases hc : c.await with
  | write rest next =>
    cases next with
    | headerRejected =>
      rw [hc] at ha
      obtain ⟨-, hpend, hcap⟩ := ha
      have hlt := hstarts hpend
      rw [Conn.length_received hi.filled_le] at hlt
      exact absurd hcap (not_le.mpr hlt)
    | requestRejected | body sending | chunk sending file | finish sending => rfl
  | seek sending file | readFile sending file => rfl
  | spawned | readHeader | readBody consumed bodyEnd | metadata answer file | ended e =>
    rw [hc] at h
    cases h

theorem serve_starts {app : σ} {labels : List Label} {s : System σ} {os : List Effect}
    (hQ : srv.serve.Along srv.ReadsBelowCap (.new app) labels)
    (h : srv.serve.run (.new app) labels = some (s, os)) :
    srv.SystemInv s ∧ ∀ c ∈ s.conns, srv.AtStarts srv.BelowCap c.received := by
  have hnew : srv.AtStarts srv.BelowCap Conn.new.received := by
    intro b hb
    rw [requestStart_nil hb]
    exact belowCap_nil
  refine Machine.along_induction (P := fun _ s _ => srv.SystemInv s ∧
    ∀ c ∈ s.conns, srv.AtStarts srv.BelowCap c.received)
    ⟨new_systemInv app, fun c hc => by cases hc⟩ ?_ hQ h
  rintro _ s _ label s' o _ ⟨hi, hstarts⟩ hq hst
  have hmove := serve_step hst
  refine ⟨(hmove.inv hi).1, fun c hc => ?_⟩
  cases hmove with
  | accept =>
    rcases List.mem_append.mp hc with hc | hc
    · exact hstarts c hc
    · rw [List.mem_singleton.mp hc]
      exact hnew
  | @wake i event c₀ p hget hw =>
    have hmem : c₀ ∈ s.conns := List.mem_of_getElem? hget
    rcases mem_set hc with hc | rfl
    · exact hstarts c hc
    · exact wakeup_starts belowCap_nil belowCap_settled (hi.conns c₀ hmem)
        (hq i event c₀ rfl hget) (hstarts c₀ hmem) hw
  | @drop i c₀ hget hlive =>
    have hmem : c₀ ∈ s.conns := List.mem_of_getElem? hget
    rcases mem_set hc with hc | rfl
    · exact hstarts c hc
    · exact hstarts c₀ hmem

/-- **Where no header block is rejected for its length, shutdown cuts no response in half.**
In every state in which some connection is responding, a request is in flight, so that a
`drain` that reads the counter goes on waiting. -/
theorem no_response_cut {app : σ} {labels : List Label} {s : System σ} {os : List Effect}
    (hQ : srv.serve.Along srv.ReadsBelowCap (.new app) labels)
    (h : srv.serve.run (.new app) labels = some (s, os))
    (hresponding : ∃ c ∈ s.conns, c.await.responding = true) :
    1 ≤ s.counter.inFlightRequests ∧
      ∀ requests f, Drainage.step ⟨s.counter, requests, .registered f⟩ .check =
        some ⟨s.counter, requests, .waiting f⟩ := by
  obtain ⟨hi, hstarts⟩ := serve_starts hQ h
  obtain ⟨c, hc, hr⟩ := hresponding
  have hguard := guarded_of_responding (hi.conns c hc) (hstarts c hc).here hr
  have hpos : 0 < s.conns.countP fun c => c.await.guarded :=
    List.countP_pos_iff.mpr ⟨c, hc, hguard⟩
  have hone : 1 ≤ s.counter.inFlightRequests := by
    rw [hi.counted]
    omega
  refine ⟨hone, fun requests f => ?_⟩
  have hne : s.counter.inFlightRequests ≠ 0 := by omega
  simp only [Drainage.step, if_neg hne]

/-- A condition on one connection's header reads is one on the system's. -/
theorem serve_along_wake {s : System σ} {i : Nat} {c : Conn} {es : List Event}
    {r : (Conn × σ) × List Effect} (hget : s.conns[i]? = some c)
    (hQ : srv.machine.Along (srv.HeaderReadsMeet srv.BelowCap) (c, s.app) es)
    (h : srv.machine.run (c, s.app) es = some r) :
    srv.serve.Along srv.ReadsBelowCap s (es.map (.wake i)) := by
  induction es generalizing s c r with
  | nil => exact .nil
  | cons e es ih =>
    obtain ⟨⟨c₁, app₁⟩, o, os', hst, hrun, -⟩ := Machine.run_cons_inv h
    have hw := machine_step hst
    have hstep : srv.serve.step s (.wake i e) = some (s.ran i ⟨c₁, app₁, o⟩) := by
      simp only [serve, serveStep, hget, Option.bind_some, hw.resume, Option.map_some]
    have hget₁ : (s.ran i ⟨c₁, app₁, o⟩).1.conns[i]? = some c₁ :=
      List.getElem?_set_self (List.getElem?_eq_some_iff.mp hget).1
    have hhead : srv.ReadsBelowCap s (.wake i e) := by
      intro j event d hj hd
      cases hj
      rw [hget] at hd
      cases hd
      exact hQ.head
    exact .cons hhead hstep
      (ih (s := (s.ran i ⟨c₁, app₁, o⟩).1) hget₁ (hQ.tail hst) hrun)

theorem no_response_cut_upload :
    ∃ s os, Upload.server.serve.run (.new ())
        (.accept :: List.map (.wake 0) [.poll, .read Upload.head, .read Upload.body]) =
          some (s, os) ∧
      (∃ c ∈ s.conns, c.await.responding = true) ∧ 1 ≤ s.counter.inFlightRequests ∧
      ∀ requests f, Drainage.step ⟨s.counter, requests, .registered f⟩ .check =
        some ⟨s.counter, requests, .waiting f⟩ := by
  obtain ⟨c, rest, next, os, hrun, hawait, halong⟩ := Upload.run_responding
  have hshort : Upload.head.length < maxBufCapacity := by decide
  have hstarts : Upload.server.AtStarts Upload.server.BelowCap Upload.head :=
    fun b hb _ => lt_of_le_of_lt hb.length_le hshort
  have hQ : Upload.server.serve.Along Upload.server.ReadsBelowCap (.new ())
      (.accept :: List.map (.wake 0) [.poll, .read Upload.head, .read Upload.body]) := by
    refine .cons ?_ rfl (serve_along_wake rfl (halong _ hstarts) hrun)
    intro i event d hi
    cases hi
  have hresponding : c.await.responding = true := by
    rw [hawait]
    rfl
  exact ⟨_, _, serve_run_single hrun, ⟨c, List.mem_singleton_self c, hresponding⟩,
    no_response_cut hQ (serve_run_single hrun) ⟨c, List.mem_singleton_self c, hresponding⟩⟩

/-- After an upload, the first 70000 bytes of a header block arrive in one read; ten bytes of
the 431 are out, and nothing is in flight. -/
theorem rejection_uncovered :
    ¬ ∀ (σ : Type) (srv : Server σ) (app : σ) (labels : List Label) (s : System σ)
      (os : List Effect), srv.serve.run (.new app) labels = some (s, os) →
      (∃ c ∈ s.conns, c.await.responding = true) → 1 ≤ s.counter.inFlightRequests := by
  intro hall
  obtain ⟨c, hrun, hidle, hroom, -⟩ := Upload.run_events
  have hlarge : Upload.largeHead.length = 100049 := Upload.length_largeHead
  obtain ⟨data, hprefix, hlen⟩ : ∃ data, data <+: Upload.largeHead ∧ data.length = 70000 :=
    ⟨_, List.take_prefix 70000 _, by rw [List.length_take, hlarge]; rfl⟩
  have hfit : c.filled + data.length ≤ c.buf.length := by
    rw [hidle.filled]
    omega
  have hne : data ≠ [] := by
    rw [← List.length_pos_iff, hlen]
    decide
  have hpend : Upload.server.Pending (c.fill data).received := by
    rw [Conn.fill_received hfit, hidle.received, List.nil_append]
    refine Upload.pending_of_prefix hprefix fun heq => ?_
    rw [heq, hlarge] at hlen
    cases hlen
  have hcap : maxBufCapacity ≤ (c.fill data).filled := by
    rw [Conn.fill_filled, hidle.filled, hlen]
    decide
  have hw : c.Wakeup Upload.server () (.read data)
      (Upload.server.nextRequest () (c.fill data)) := .header hidle.await hne hfit
  rw [nextRequest_capped hpend hcap] at hw
  have hwrite : ((c.fill data).suspend
      (.write requestHeaderFieldsTooLarge .headerRejected)).Wakeup Upload.server () (.wrote 10) _ :=
    .wrotePart rfl (by decide) (by decide)
  have hrest := Machine.run_cons hw.step (Machine.run_cons hwrite.step (Machine.run_nil _ _))
  have hsystem := serve_run_single (Machine.run_append hrun hrest)
  have hone := hall _ _ _ _ _ _ hsystem ⟨_, List.mem_singleton_self _, rfl⟩
  have hzero : flow Upload.effects = 0 := by
    simp [Upload.effects, Effect.delta]
  rw [recordAll_inFlight, flow_append, hzero] at hone
  exact absurd hone (by simp [Effect.delta, AfterWrite.effect, ConnectionCounter.new,
    ConnectionCounter.recordAccept])

end Server

end HelixRack
