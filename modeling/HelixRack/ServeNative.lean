/-
# `_serve_native`, from its arguments to the last task dropped

`_serve_native` checks its arguments, binds the port, and then runs `serve` against `cancelled`
in one `select!`.  When a shutdown is noticed the listener is closed, `drain` waits for the
requests in flight, `block_on` returns, and the `LocalSet` drops every task that is left.
`Stage` is how far this has come; in between, the tasks run on as in `Server.serve`.

* A run of `_serve_native` is a run of `serve` and its tasks (`native_serve`), so that everything
  proved about the system holds of it.
* `NativeInv` says why `drain` never sleeps on nothing: as long as its future was not notified,
  a request is in flight.
* What a shutdown does to the clients follows: which responses are whole, which are cut, and that
  nothing is left behind.
-/
import HelixRack.Isolation

namespace HelixRack

/-! ## 1. The arguments -/

/-- What `HelixRack.serve` hands over besides the app. -/
structure Settings where
  port : Int
  bind : String
  keepAliveTimeoutSeconds : Int
  maxKeepalive : Int
  cpuTimeSliceMs : Int
  gracePeriodSeconds : Int
  deriving DecidableEq, Repr

/-- Settings that passed the checks. -/
structure Config where
  port : Nat
  bind : String
  keepAliveTimeoutSeconds : Nat
  maxKeepalive : Nat
  cpuTimeSliceMs : Nat
  gracePeriodSeconds : Nat
  port_le : port ≤ 65535
  maxKeepalive_pos : 1 ≤ maxKeepalive
  deriving DecidableEq, Repr

/-- `u16::try_from(port)`, or the message of an `ArgumentError`. -/
def tcpPort (port : Int) : Except String { n : Nat // n ≤ 65535 } :=
  if h : 0 ≤ port ∧ port ≤ 65535 then .ok ⟨port.toNat, by omega⟩
  else .error ("port " ++ toString port ++ " is not a valid TCP port (0-65535)")

/-- `u64::try_from` and `usize::try_from`, which reject what is negative. -/
def notNegative (name : String) (value : Int) : Except String Nat :=
  if 0 ≤ value then .ok value.toNat
  else .error (name ++ " " ++ toString value ++ " must not be negative")

/-- The check of `max_keepalive` after its conversion. -/
def atLeastOne (maxKeepalive : Nat) : Except String { n : Nat // 1 ≤ n } :=
  if h : 1 ≤ maxKeepalive then .ok ⟨maxKeepalive, h⟩
  else .error ("max_keepalive must be at least 1 (0 has no coherent meaning: a connection " ++
    "always answers the request it already read off the wire before this limit is checked)")

/-- The checks of `_serve_native`, in its order. -/
def Settings.check (settings : Settings) : Except String Config := do
  let port ← tcpPort settings.port
  let keepAliveTimeoutSeconds ← notNegative "keep_alive_timeout" settings.keepAliveTimeoutSeconds
  let maxKeepalive ← notNegative "max_keepalive" settings.maxKeepalive
  let maxKeepalive ← atLeastOne maxKeepalive
  let cpuTimeSliceMs ← notNegative "cpu_time_slice" settings.cpuTimeSliceMs
  let gracePeriodSeconds ← notNegative "grace_period" settings.gracePeriodSeconds
  return { port, bind := settings.bind, keepAliveTimeoutSeconds, maxKeepalive, cpuTimeSliceMs,
           gracePeriodSeconds, port_le := port.2, maxKeepalive_pos := maxKeepalive.2 }

/-- The arguments a configuration comes from. -/
def Config.settings (config : Config) : Settings :=
  { port := config.port, bind := config.bind
    keepAliveTimeoutSeconds := config.keepAliveTimeoutSeconds
    maxKeepalive := config.maxKeepalive
    cpuTimeSliceMs := config.cpuTimeSliceMs
    gracePeriodSeconds := config.gracePeriodSeconds }

theorem bind_eq_ok_iff {ε α β : Type} {x : Except ε α} {f : α → Except ε β} {b : β} :
    (x >>= f) = .ok b ↔ ∃ a, x = .ok a ∧ f a = .ok b := by
  cases x with
  | error e => simp [bind, Except.bind]
  | ok a => simp [bind, Except.bind]

theorem tcpPort_eq_ok_iff {port : Int} {n : { n : Nat // n ≤ 65535 }} :
    tcpPort port = .ok n ↔ (n.1 : Int) = port := by
  obtain ⟨n, hn⟩ := n
  simp only [tcpPort]
  split
  · rw [Except.ok.injEq, Subtype.mk.injEq]
    omega
  · constructor
    · rintro ⟨⟩
    · rintro rfl
      omega

theorem notNegative_eq_ok_iff {name : String} {value : Int} {n : Nat} :
    notNegative name value = .ok n ↔ (n : Int) = value := by
  unfold notNegative
  split
  · rw [Except.ok.injEq]
    omega
  · constructor
    · rintro ⟨⟩
    · rintro rfl
      omega

theorem atLeastOne_eq_ok_iff {k : Nat} {n : { n : Nat // 1 ≤ n }} :
    atLeastOne k = .ok n ↔ n.1 = k := by
  obtain ⟨n, hn⟩ := n
  simp only [atLeastOne]
  split
  · rw [Except.ok.injEq, Subtype.mk.injEq]
    exact eq_comm
  · constructor
    · rintro ⟨⟩
    · rintro rfl
      omega

/-- The checks let a configuration's own arguments pass, and nothing else. -/
theorem Settings.check_eq_ok_iff {settings : Settings} {config : Config} :
    settings.check = .ok config ↔ config.settings = settings := by
  simp only [Settings.check, bind_eq_ok_iff, tcpPort_eq_ok_iff, notNegative_eq_ok_iff,
    atLeastOne_eq_ok_iff]
  constructor
  · rintro ⟨port, hport, keepAlive, hkeepAlive, max, hmax, ⟨_, hone⟩, rfl, slice, hslice, grace,
      hgrace, heq⟩
    cases heq
    simp only [Config.settings, hport, hkeepAlive, hmax, hslice, hgrace]
  · rintro rfl
    exact ⟨⟨config.port, config.port_le⟩, rfl, _, rfl, _, rfl,
      ⟨config.maxKeepalive, config.maxKeepalive_pos⟩, rfl, _, rfl, _, rfl, rfl⟩

/-- The server that these settings make. -/
def Config.server {σ : Type} (config : Config) (httparse : Nat → IncrementalParser UInt8 Request)
    (handler : Handler σ) (combineWrite : Bool) : Server σ :=
  { httparse, handler, maxKeepalive := config.maxKeepalive, combineWrite }

/-! ## 2. The stages -/

/-- How `block_on` came to an end. -/
inductive Ending where
  /-- The port could not be bound. -/
  | bindFailed
  /-- `drain` read zero. -/
  | drained
  /-- `grace_period` ran out. -/
  | timedOut
  deriving DecidableEq, Repr

/-- How far `_serve_native` has come. -/
inductive Stage where
  | binding
  /-- `select!` is pending, and `serve` awaits `accept`. -/
  | accepting
  /-- `select!` is pending, and `serve` sleeps after a failed `accept`. -/
  | backingOff
  /-- `drain` awaits the future. -/
  | draining (notified : Notified)
  /-- `block_on` has returned; the `LocalSet` drops the tasks that are left. -/
  | left (ending : Ending)
  deriving DecidableEq, Repr

inductive NativeEvent where
  | bind (ok : Bool)
  | accept (ok : Bool)
  /-- `ACCEPT_ERROR_BACKOFF` is over. -/
  | backedOff
  /-- One turn of the loop of `cancelled`, and what it reads. -/
  | cancelled (requested : Bool)
  | wake (i : Nat) (event : Event)
  /-- `drain` is polled because its future was notified. -/
  | notified
  /-- `grace_period` ran out. -/
  | elapsed
  /-- The `LocalSet` drops the `i`-th task. -/
  | drop (i : Nat)
  deriving DecidableEq, Repr

namespace NativeEvent

/-- The event as one of the system of `serve` and its tasks. -/
def label : NativeEvent → Option Label
  | .accept true => some .accept
  | .wake i event => some (.wake i event)
  | .drop i => some (.drop i)
  | .bind _ | .accept false | .backedOff | .cancelled _ | .notified | .elapsed => none

end NativeEvent

/-- One turn of the loop of `drain`: it registers, and then it reads the counter. -/
def ConnectionCounter.drainTurn (k : ConnectionCounter Notify) : Stage :=
  let notified := TokioNotify.notified k.drained
  if k.inFlightRequests = 0 then .left .drained else .draining notified

namespace Stage

/-- When a task may be spawned, woken and dropped. -/
def allows : Stage → Label → Bool
  | .accepting, .accept => true
  | .accepting, .wake _ _ | .backingOff, .wake _ _ | .draining _, .wake _ _ => true
  | .left _, .drop _ => true
  | _, _ => false

/-- Everything else that happens.  `timeout` polls `drain` once more before it gives up. -/
def next (k : ConnectionCounter Notify) : Stage → NativeEvent → Option Stage
  | .binding, .bind true => some .accepting
  | .binding, .bind false => some (.left .bindFailed)
  | .accepting, .accept false => some .backingOff
  | .backingOff, .backedOff => some .accepting
  | .accepting, .cancelled requested => some (if requested then k.drainTurn else .accepting)
  | .backingOff, .cancelled requested => some (if requested then k.drainTurn else .backingOff)
  | .draining f, .notified => if f.Ready k.drained then some k.drainTurn else none
  | .draining f, .elapsed =>
    some (.left (if f.Ready k.drained ∧ k.inFlightRequests = 0 then .drained else .timedOut))
  | _, _ => none

end Stage

/-- `_serve_native` behind its checks. -/
structure Native (σ : Type) where
  system : System σ
  stage : Stage

def Native.new {σ : Type} (app : σ) : Native σ := { system := .new app, stage := .binding }

namespace Server

variable {σ : Type} (srv : Server σ)

def nativeStep (s : Native σ) (e : NativeEvent) : Option (Native σ × List Effect) :=
  match e.label with
  | some label =>
    if s.stage.allows label then
      (srv.serveStep s.system label).map fun (system, os) => ({ s with system }, os)
    else none
  | none => (s.stage.next s.system.counter e).map fun stage => ({ s with stage }, [])

/-- **`_serve_native`**, from `bind` on. -/
def native : Machine (Native σ) NativeEvent Effect where
  step := srv.nativeStep

/-- The ways a step can go: one of the system, or one from stage to stage. -/
inductive NativeMove (s : Native σ) (e : NativeEvent) : Native σ × List Effect → Prop
  | task {label : Label} {r : System σ × List Effect} (hlabel : e.label = some label)
      (hallowed : s.stage.allows label = true) (hmove : srv.serve.step s.system label = some r) :
      NativeMove s e (⟨r.1, s.stage⟩, r.2)
  | turn {stage : Stage} (hlabel : e.label = none)
      (hnext : s.stage.next s.system.counter e = some stage) :
      NativeMove s e (⟨s.system, stage⟩, [])

variable {srv}

theorem native_step {s : Native σ} {e : NativeEvent} {r : Native σ × List Effect}
    (h : srv.native.step s e = some r) : srv.NativeMove s e r := by
  simp only [native, nativeStep] at h
  split at h
  · rename_i label hlabel
    split at h
    · rename_i hallowed
      obtain ⟨q, hq, rfl⟩ := Option.map_eq_some_iff.mp h
      exact .task hlabel hallowed hq
    · cases h
  · rename_i hlabel
    obtain ⟨stage, hnext, rfl⟩ := Option.map_eq_some_iff.mp h
    exact .turn hlabel hnext

/-! ## 3. A run of `_serve_native` is one of `serve` and its tasks -/

end Server

/-- What is seen of `_serve_native` is what the tasks do, under the labels of the system. -/
def Native.view : Observer NativeEvent (NativeEvent × Effect) Label (Label × Effect) where
  input e := e.label.toList
  output eo := eo.1.label.toList.map fun label => (label, eo.2)

theorem Native.view_outputs {e : NativeEvent} {label : Label} (h : e.label = some label)
    (os : List Effect) :
    Native.view.outputs (os.map fun o => (e, o)) = os.map fun o => (label, o) := by
  induction os with
  | nil => rfl
  | cons o os ih =>
    rw [List.map_cons, Observer.outputs_cons, ih]
    simp only [Native.view, h, Option.toList_some, List.map_cons, List.map_nil,
      List.singleton_append]

namespace Server

variable {σ : Type} {srv : Server σ} {app : σ}

theorem serve_simulates_native :
    srv.serve.logged.Simulates .all srv.native.logged Native.view
      fun s system => system = s.system := by
  rintro s s' _ e os rfl hst
  obtain ⟨o, hstep, rfl⟩ := Machine.step_logged_iff.mp hst
  cases native_step hstep with
  | @task label r hlabel hallowed hmove =>
    have hone := Machine.run_cons (Machine.step_logged_iff.mpr ⟨r.2, hmove, rfl⟩)
      (Machine.run_nil srv.serve.logged r.1)
    rw [List.append_nil] at hone
    refine ⟨_, [label], _, hone, rfl, ?_, ?_⟩
    · simp only [Observer.all_inputs, Native.view, hlabel, Option.toList_some]
    · rw [Observer.all_outputs, Native.view_outputs hlabel]
  | turn hlabel hnext =>
    refine ⟨_, [], [], rfl, rfl, ?_, rfl⟩
    simp only [Observer.inputs_nil, Native.view, hlabel, Option.toList_none]

/-- **The refinement**: take away the stages, and a run of `serve` and its tasks is left. -/
theorem native_serve {es : List NativeEvent} {s : Native σ} {los : List (NativeEvent × Effect)}
    (h : srv.native.logged.run (.new app) es = some (s, los)) :
    srv.serve.logged.run (.new app) (Native.view.inputs es) =
      some (s.system, Native.view.outputs los) := by
  obtain ⟨t, labels, louts, hrun, rfl, hin, hout⟩ :=
    serve_simulates_native.run (t := System.new app) rfl h
  rw [Observer.all_inputs] at hin
  rw [Observer.all_outputs] at hout
  rw [← hin, ← hout]
  exact hrun

end Server

/-- The event that a label stands for. -/
def Label.native : Label → NativeEvent
  | .accept => .accept true
  | .wake i event => .wake i event
  | .drop i => .drop i

@[simp] theorem Label.native_label (label : Label) : label.native.label = some label := by
  cases label <;> rfl

/-- The events of a run up to the shutdown, as the system sees them. -/
theorem Native.view_inputs_shutdown (labels : List Label) :
    Native.view.inputs (.bind true :: (labels.map Label.native ++ [.cancelled true])) =
      labels := by
  have hlabels : Native.view.inputs (labels.map Label.native) = labels := by
    induction labels with
    | nil => rfl
    | cons label labels ih =>
      rw [List.map_cons, Observer.inputs_cons, ih]
      simp only [Native.view, Label.native_label, Option.toList_some, List.singleton_append]
  rw [Observer.inputs_cons, Observer.inputs_append, hlabels]
  exact List.append_nil labels

namespace Server

variable {σ : Type} {srv : Server σ} {app : σ}

/-- As long as nobody asks for a shutdown, `_serve_native` can do what `serve` and its tasks
can. -/
theorem native_of_serve {labels : List Label} {t t' : System σ} {os : List Effect}
    (h : srv.serve.run t labels = some (t', os)) (hdrop : ∀ i, .drop i ∉ labels) :
    srv.native.run ⟨t, .accepting⟩ (labels.map Label.native) =
      some (⟨t', .accepting⟩, os) := by
  induction labels generalizing t os with
  | nil =>
    cases h
    rfl
  | cons label labels ih =>
    obtain ⟨t₁, o, os', hst, hrun, rfl⟩ := Machine.run_cons_inv h
    have hallowed : Stage.accepting.allows label = true := by
      cases label with
      | accept | wake => rfl
      | drop i => exact absurd List.mem_cons_self (hdrop i)
    have hstep : srv.native.step ⟨t, .accepting⟩ label.native = some (⟨t₁, .accepting⟩, o) := by
      have hst' : srv.serveStep t label = some (t₁, o) := hst
      simp only [native, nativeStep, Label.native_label, hallowed, if_true, hst', Option.map_some]
    exact Machine.run_cons hstep (ih hrun fun i hmem => hdrop i (List.mem_cons_of_mem _ hmem))

/-- ...and then be told to shut down. -/
theorem native_shutdown {labels : List Label} {t : System σ} {os : List Effect}
    (h : srv.serve.run (.new app) labels = some (t, os)) (hdrop : ∀ i, .drop i ∉ labels) :
    srv.native.run (.new app) (.bind true :: (labels.map Label.native ++ [.cancelled true])) =
      some (⟨t, t.counter.drainTurn⟩, os) := by
  have hbind : srv.native.step (.new app) (.bind true) = some (⟨.new app, .accepting⟩, []) := rfl
  have hcancel : srv.native.run ⟨t, .accepting⟩ [.cancelled true] =
      some (⟨t, t.counter.drainTurn⟩, []) := rfl
  have hall := Machine.run_cons hbind
    (Machine.run_append (native_of_serve h hdrop) hcancel)
  rw [List.append_nil, List.nil_append] at hall
  exact hall

/-! ## 4. `drain` does not sleep on nothing -/

end Server

/-- Whoever drops a guard notifies. -/
theorem recordAll_drained (k : ConnectionCounter Notify) (os : List Effect) :
    (recordAll k os).drained.calls = k.drained.calls + os.count .requestFinish := by
  induction os generalizing k with
  | nil => rfl
  | cons o os ih =>
    have htail : (recordAll k (o :: os)).drained.calls
        = (o.record k).drained.calls + os.count .requestFinish := ih (o.record k)
    rw [htail, List.count_cons]
    cases o with
    | requestFinish =>
      have hnotified : (Effect.requestFinish.record k).drained.calls = k.drained.calls + 1 := rfl
      rw [hnotified, if_pos (beq_self_eq_true _)]
      omega
    | requestStart | call n request response | sent bytes | rejected bytes => rfl

/-- Effects without a drop of a guard do not take the counter down. -/
theorem flow_nonneg_of_count {os : List Effect} (h : os.count .requestFinish = 0) :
    0 ≤ flow os := by
  induction os with
  | nil => exact Int.le_refl 0
  | cons o os ih =>
    rw [List.count_cons] at h
    have htail := ih (by omega)
    rw [flow_cons]
    cases o with
    | requestFinish => simp at h
    | requestStart | call n request response | sent bytes | rejected bytes =>
      simp only [Effect.delta]
      omega

namespace Server

variable {σ : Type} {srv : Server σ} {app : σ}

/-- **Why `drain` does not sleep on nothing.** -/
structure NativeInv (s : Native σ) : Prop where
  system : srv.SystemInv s.system
  unbound : s.stage = .binding ∨ s.stage = .left .bindFailed → s.system.conns = []
  created : ∀ f, s.stage = .draining f → f.since ≤ s.system.counter.drained.calls
  busy : ∀ f, s.stage = .draining f → ¬ f.Ready s.system.counter.drained →
    s.system.counter.inFlightRequests ≠ 0
  drained : s.stage = .left .drained → s.system.counter.inFlightRequests = 0

theorem new_nativeInv (app : σ) : srv.NativeInv (Native.new app) where
  system := new_systemInv app
  unbound _ := rfl
  created f h := by cases h
  busy f h := by cases h
  drained h := by cases h

end Server

/-- What a turn can lead to. -/
theorem Stage.next_cases {k : ConnectionCounter Notify} {stage stage' : Stage} {e : NativeEvent}
    (h : stage.next k e = some stage') :
    (stage' = .accepting ∨ stage' = .backingOff) ∨
      (stage = .binding ∧ stage' = .left .bindFailed) ∨
      stage' = k.drainTurn ∨
      ∃ f, stage = .draining f ∧ stage' =
        .left (if f.Ready k.drained ∧ k.inFlightRequests = 0 then .drained else .timedOut) := by
  unfold next at h
  split at h
  case h_1 | h_3 | h_4 => cases h; simp
  case h_2 => cases h; simp
  case h_5 requested | h_6 requested => cases requested <;> cases h <;> simp
  case h_7 f =>
    split at h <;> cases h
    simp
  case h_8 f =>
    cases h
    exact Or.inr (Or.inr (Or.inr ⟨f, rfl, rfl⟩))
  case h_9 => cases h

theorem ConnectionCounter.drainTurn_cases (k : ConnectionCounter Notify) :
    (k.inFlightRequests = 0 ∧ k.drainTurn = .left .drained) ∨
      (k.inFlightRequests ≠ 0 ∧ k.drainTurn = .draining (TokioNotify.notified k.drained)) := by
  unfold drainTurn
  by_cases h : k.inFlightRequests = 0
  · exact Or.inl ⟨h, if_pos h⟩
  · exact Or.inr ⟨h, if_neg h⟩

namespace Server

variable {σ : Type} {srv : Server σ} {app : σ}

/-- A turn keeps the invariant. -/
theorem NativeInv.turn {s : Native σ} {stage : Stage} {e : NativeEvent} (hi : srv.NativeInv s)
    (hnext : s.stage.next s.system.counter e = some stage) :
    srv.NativeInv ⟨s.system, stage⟩ := by
  have hsystem := hi.system
  rcases Stage.next_cases hnext with (rfl | rfl) | ⟨hbinding, rfl⟩ | rfl | ⟨f, hdrain, rfl⟩
  · exact ⟨hsystem, by simp, by simp, by simp, by simp⟩
  · exact ⟨hsystem, by simp, by simp, by simp, by simp⟩
  · exact ⟨hsystem, fun _ => hi.unbound (Or.inl hbinding), by simp, by simp, by simp⟩
  · rcases s.system.counter.drainTurn_cases with ⟨hzero, heq⟩ | ⟨hbusy, heq⟩
    · rw [heq]
      exact ⟨hsystem, by simp, by simp, by simp, fun _ => hzero⟩
    · rw [heq]
      refine ⟨hsystem, by simp, fun f hf => ?_, fun _ _ _ => hbusy, by simp⟩
      cases hf
      exact Nat.le_refl _
  · refine ⟨hsystem, fun hf => ?_, by simp, by simp, fun hf => ?_⟩
    · split at hf <;> simp at hf
    · split at hf
      · rename_i hzero
        exact hzero.2
      · simp at hf

/-- A step of the system keeps the invariant. -/
theorem NativeInv.task {s : Native σ} {label : Label} {r : System σ × List Effect}
    (hi : srv.NativeInv s) (hallowed : s.stage.allows label = true)
    (hmove : srv.serve.step s.system label = some r) : srv.NativeInv ⟨r.1, s.stage⟩ := by
  obtain ⟨hsystem, hflow, -⟩ := (serve_step hmove).inv hi.system
  have hnonneg : 0 ≤ s.system.counter.inFlightRequests := by
    rw [hi.system.counted]
    exact Int.natCast_nonneg _
  have hnonneg' : 0 ≤ r.1.counter.inFlightRequests := by
    rw [hsystem.counted]
    exact Int.natCast_nonneg _
  cases serve_step hmove with
  | accept =>
    have haccepting : s.stage = .accepting := by
      cases hstage : s.stage <;> rw [hstage] at hallowed <;> first | rfl | cases hallowed
    exact ⟨hsystem, by simp [haccepting], by simp [haccepting], by simp [haccepting],
      by simp [haccepting]⟩
  | @wake i event c p hget hw =>
    have hnotified := recordAll_drained s.system.counter p.effects
    refine ⟨hsystem, fun hf => ?_, fun f hf => ?_, fun f hf hready => ?_, fun hf => ?_⟩
    · rcases hf with hf | hf <;> rw [hf] at hallowed <;> cases hallowed
    · have hcreated := hi.created f hf
      simp only [System.ran]
      omega
    · -- the future was not notified, so nobody has dropped a guard since
      have hcreated := hi.created f hf
      simp only [System.ran, Notified.Ready] at hready hflow ⊢
      have hnone : p.effects.count .requestFinish = 0 := by omega
      have hbusy := hi.busy f hf (by simp only [Notified.Ready]; omega)
      have hup := flow_nonneg_of_count hnone
      omega
    · rw [hf] at hallowed
      cases hallowed
  | @drop i c hget hlive =>
    have hleft : ∃ ending, s.stage = .left ending := by
      cases hstage : s.stage <;> rw [hstage] at hallowed <;> first | exact ⟨_, rfl⟩ | cases hallowed
    obtain ⟨ending, hleft⟩ := hleft
    refine ⟨hsystem, fun hf => ?_, by simp [hleft], by simp [hleft], fun hf => ?_⟩
    · rw [hi.unbound hf] at hget
      cases hget
    · have hdown : flow (c.leave s.system.app .dropped).effects ≤ 0 := by
        rcases dropGuard_cases c.await with hguard | hguard <;>
          simp [Conn.leave, hguard, Effect.delta]
      have hzero := hi.drained hf
      simp only [System.ran] at hflow hnonneg' ⊢
      omega

/-- **The invariant holds in every state that `_serve_native` reaches.** -/
theorem native_inv {es : List NativeEvent} {s : Native σ} {os : List Effect}
    (h : srv.native.run (.new app) es = some (s, os)) : srv.NativeInv s := by
  refine Machine.run_invariant (I := srv.NativeInv) (new_nativeInv app) ?_ h
  intro s e s' o hi hst
  cases native_step hst with
  | task hlabel hallowed hmove => exact hi.task hallowed hmove
  | turn hlabel hnext => exact hi.turn hnext

end Server

/-! A shutdown behind two requests that were answered, and one in the middle of an upload. -/

namespace Single

theorem run_shutdown : ∃ c c' s los,
    numbered.native.logged.run (.new 0)
      (.bind true :: ((labels 3 (number 0) (number 1)).map Label.native ++ [.cancelled true])) =
        some (s, los) ∧ s.stage = .left .drained ∧ s.system.conns = [c, c'] ∧ Server.Idle c' ∧
    effectsAt 1 (Native.view.outputs los) = effects 3 (number 1) := by
  obtain ⟨c, c', t, los, hlog, hconns, -, hidle, hidle', -, -, hsecond⟩ := run_numbered
  have hrun := Machine.run_of_logged hlog
  have hzero : t.counter.inFlightRequests = 0 := by
    have hi := Server.serve_inv hrun
    rw [hi.counted, hconns]
    simp [hidle.await, hidle'.await, Await.guarded]
  have hturn : t.counter.drainTurn = .left .drained := if_pos hzero
  obtain ⟨eos, hnative, -⟩ :=
    Machine.run_logged (Server.native_shutdown hrun not_drop_mem_labels)
  -- the log of the tasks in it is the one they have without the stages
  have hserve := Server.native_serve hnative
  rw [Native.view_inputs_shutdown, hlog] at hserve
  cases hserve
  exact ⟨c, c', _, eos, hnative, hturn, hconns, hidle', hsecond⟩

end Single

namespace Upload

/-- The head has arrived, and nothing of the body. -/
theorem run_head : ∃ c k n,
    server.machine.run (Conn.new, ()) [.poll, .read head] = some ((c, ()), [.requestStart]) ∧
      c.await = .readBody k n := by
  obtain ⟨c1, hstart, hi1, -⟩ := Server.start_idle () pending_nil
  have hfits : head.length ≤ initialBufCapacity := by decide
  have hpos : 0 < body.length := List.length_pos_iff.mpr body_ne_nil
  obtain ⟨c2, hread, -, hawait, -⟩ := Server.read_head () hi1 parse_head contentLength_request hpos
    body_le (hfits.trans hi1.capacity_le)
  exact ⟨c2, _, _, Machine.run_cons hstart (Machine.run_cons hread (Machine.run_nil _ _)), hawait⟩

/-- The client of an upload is told to hurry. -/
def shutdown : List NativeEvent :=
  .bind true :: ((.accept :: List.map (.wake 0) [.poll, .read head]).map Label.native ++
    [.cancelled true])

theorem run_shutdown : ∃ c k n s, server.native.run (.new ()) shutdown = some (s, [.requestStart]) ∧
    s.stage = .draining ⟨0⟩ ∧ s.system.conns = [c] ∧ c.await = .readBody k n ∧
    s.system.counter.drained = ⟨0⟩ := by
  obtain ⟨c, k, n, hrun, hawait⟩ := run_head
  have hserve := Server.serve_run_single hrun
  have hdrop : ∀ i, .drop i ∉ Label.accept :: List.map (.wake 0) [.poll, .read head] := by
    intro i
    simp
  exact ⟨c, k, n, _, Server.native_shutdown hserve hdrop, rfl, rfl, hawait, rfl⟩

end Upload

namespace Server

variable {σ : Type} {srv : Server σ} {app : σ}

/-! ## 5. What a shutdown does to the clients -/

/-- In the course of a task's life its guard is started and dropped in turn. -/
theorem Alone.guarded {es : List Event} {gone : Prop} {c : Conn} {app' : σ} {os : List Effect}
    (h : srv.Alone app es gone c app' os) : guardAfter false os = some c.await.guarded := by
  have hrun : ∀ {c : Conn} {app' : σ} {os : List Effect},
      srv.machine.run (Conn.new, app) es = some ((c, app'), os) →
      guardAfter false os = some c.await.guarded := by
    intro c app' os h
    refine Machine.run_induction
      (P := fun _ s os => guardAfter false os = some s.1.await.guarded) rfl ?_ h
    rintro _ ⟨c, app⟩ os e ⟨c', app'⟩ o - ih hst
    rw [guardAfter_append, ih]
    exact wakeup_guarded (machine_step hst)
  cases h with
  | running stays run => exact hrun run
  | @dropped c _ os goes run live =>
    rw [guardAfter_append, hrun run]
    exact guarded_leave (c := c) app' .dropped

theorem accepted_eq_length {labels : List Label} {s : System σ} {os : List Effect}
    (h : srv.serve.run (.new app) labels = some (s, os)) :
    s.counter.accepted = s.conns.length := by
  have hrecord : ∀ (k : ConnectionCounter Notify) (os : List Effect),
      (recordAll k os).accepted = k.accepted := by
    intro k os
    induction os generalizing k with
    | nil => rfl
    | cons o os ih =>
      have htail : (recordAll k (o :: os)).accepted = (o.record k).accepted := ih (o.record k)
      rw [htail]
      cases o <;> rfl
  refine Machine.run_invariant (I := fun s : System σ => s.counter.accepted = s.conns.length) rfl
    ?_ h
  intro s label s' o hi hst
  cases serve_step hst with
  | accept =>
    rw [List.length_append, ← hi]
    rfl
  | wake hget hw | drop hget hlive =>
    simp only [hrecord, List.length_set]
    exact hi

/-- A task that holds no guard owes no response. -/
theorem not_replying_of_not_guarded {a : Await} (h : a.guarded = false) :
    a.replying = false := by
  cases a with
  | write rest next => cases next <;> first | rfl | cases h
  | spawned | readHeader | readBody consumed bodyEnd | ended e => rfl
  | metadata answer file | seek sending file | readFile sending file => cases h

theorem mem_inputs {es : List NativeEvent} {i : Nat} (h : .drop i ∈ Native.view.inputs es) :
    .drop i ∈ es := by
  obtain ⟨e, he, hlabel⟩ := List.mem_flatMap.mp h
  have hlabel : e.label = some (.drop i) := Option.mem_toList.mp hlabel
  cases e with
  | drop j =>
    cases hlabel
    exact he
  | accept ok => cases ok <;> cases hlabel
  | bind ok | backedOff | cancelled requested | wake j event | notified | elapsed => cases hlabel

/-- As long as no task has been dropped, the way `drain` ended tells whether a request is in
flight. -/
theorem drained_iff {es : List NativeEvent} {s : Native σ} {os : List Effect}
    (h : srv.native.run (.new app) es = some (s, os)) {ending : Ending}
    (hstage : s.stage = .left ending) (hbound : ending ≠ .bindFailed)
    (hdrop : ∀ i, .drop i ∉ es) :
    ending = .drained ↔ s.system.counter.inFlightRequests = 0 := by
  refine Machine.run_induction (P := fun es s _ => s.stage = .left ending → (∀ i, .drop i ∉ es) →
    (ending = .drained ↔ s.system.counter.inFlightRequests = 0)) (fun h => by cases h) ?_ h
    hstage hdrop
  intro es s os e s' o hrun ih hst hstage hdrop
  have hi := native_inv hrun
  cases native_step hst with
  | @task label r hlabel hallowed hmove =>
    -- behind `block_on` the only steps are drops
    simp only at hstage
    rw [hstage] at hallowed
    cases label with
    | accept | wake => cases hallowed
    | drop i =>
      have he : e = .drop i := by
        cases e with
        | drop j => cases hlabel; rfl
        | accept ok => cases ok <;> cases hlabel
        | bind ok | backedOff | cancelled requested | wake j event | notified | elapsed =>
          cases hlabel
      exact absurd (List.mem_append_right _ (List.mem_singleton.mpr he.symm)) (hdrop i)
  | @turn stage hlabel hnext =>
    simp only at hstage ⊢
    subst hstage
    rcases Stage.next_cases hnext with (hs | hs) | ⟨-, hs⟩ | hs | ⟨f, hdrain, hs⟩
    · cases hs
    · cases hs
    · cases hs
      exact absurd rfl hbound
    · rcases s.system.counter.drainTurn_cases with ⟨hzero, heq⟩ | ⟨hbusy, heq⟩
      · rw [heq] at hs
        cases hs
        exact iff_of_true rfl hzero
      · rw [heq] at hs
        cases hs
    · cases hs
      by_cases hready : f.Ready s.system.counter.drained
      · simp [hready]
      · simp [hready, hi.busy f hdrain hready]

/-- Unless there was a write error, every response of the handler on the connection is on the
wire, whole. -/
def Whole (srv : Server σ) (es : List NativeEvent) (los : List (NativeEvent × Effect)) (i : Nat) :
    Prop :=
  .writeError ∉ eventsAt i (Native.view.inputs es) →
    SoundCalls (effectsAt i (Native.view.outputs los)) →
    written (effectsAt i (Native.view.outputs los)) =
      wires srv.maxKeepalive 0 (answered (effectsAt i (Native.view.outputs los))) ++
        rejectedBytes (effectsAt i (Native.view.outputs los))

theorem whole_of_not_guarded {es : List NativeEvent} {s : Native σ}
    {los : List (NativeEvent × Effect)}
    (h : srv.native.logged.run (.new app) es = some (s, los)) (hdrop : ∀ i, .drop i ∉ es)
    {i : Nat} {c : Conn} (hget : s.system.conns[i]? = some c) (hguard : c.await.guarded = false) :
    srv.Whole es los i := by
  intro hwrite hsound
  obtain ⟨left, halone⟩ := alone_replayed (native_serve h) hget
  obtain ⟨owed, hbytes, hall⟩ := halone.conserves hwrite hsound
  obtain ⟨rfl, hwritten⟩ :=
    hall (fun hmem => hdrop i (mem_inputs hmem)) (not_replying_of_not_guarded hguard)
  rw [List.append_nil] at hbytes
  rw [hwritten, ← hbytes]
  rfl

/-- **A shutdown cuts the responses of unanswered requests, and no others.**  When `block_on`
has returned and no task has been dropped yet: `drain` has returned of itself if and only if no
connection has an unanswered request in front; and on each connection without one, every
response of the handler is on the wire, whole, whatever the other connections were doing. -/
theorem shutdown_cuts {es : List NativeEvent} {s : Native σ} {los : List (NativeEvent × Effect)}
    (h : srv.native.logged.run (.new app) es = some (s, los)) {ending : Ending}
    (hstage : s.stage = .left ending) (hbound : ending ≠ .bindFailed)
    (hdrop : ∀ i, .drop i ∉ es) :
    (ending = .drained ↔ ∀ c ∈ s.system.conns, c.unanswered srv = false) ∧
    ∀ i c, s.system.conns[i]? = some c → c.unanswered srv = false →
      .writeError ∉ eventsAt i (Native.view.inputs es) →
      SoundCalls (effectsAt i (Native.view.outputs los)) →
      written (effectsAt i (Native.view.outputs los)) =
        wires srv.maxKeepalive 0 (answered (effectsAt i (Native.view.outputs los))) ++
          rejectedBytes (effectsAt i (Native.view.outputs los)) := by
  have hi := native_inv (Machine.run_of_logged h)
  have hguard : ∀ c ∈ s.system.conns, c.await.guarded = c.unanswered srv :=
    fun c hc => (hi.system.conns c hc).guarded_eq_unanswered
  constructor
  · rw [drained_iff (Machine.run_of_logged h) hstage hbound hdrop, hi.system.counted,
      Int.natCast_eq_zero, List.countP_eq_zero]
    constructor
    · intro hall c hc
      rw [← hguard c hc]
      exact Bool.eq_false_iff.mpr (hall c hc)
    · intro hall c hc
      rw [hguard c hc]
      exact Bool.eq_false_iff.mp (hall c hc)
  · intro i c hget hanswered
    refine whole_of_not_guarded h hdrop hget ?_
    rw [hguard c (List.mem_of_getElem? hget)]
    exact hanswered

theorem shutdown_cuts_two : ∃ c c' s los,
    Single.numbered.native.logged.run (.new 0)
      (.bind true :: ((Single.labels 3 (Single.number 0) (Single.number 1)).map Label.native ++
        [.cancelled true])) = some (s, los) ∧ s.system.conns = [c, c'] ∧
    written (effectsAt 1 (Native.view.outputs los)) =
      wire 3 0 (Single.parsed, Single.number 1) := by
  obtain ⟨c, c', s, los, hrun, hstage, hconns, hidle, heffects⟩ := Single.run_shutdown
  have hget : s.system.conns[1]? = some c' := by
    rw [hconns]
    rfl
  have hi := (native_inv (Machine.run_of_logged hrun)).system.conns c'
    (List.mem_of_getElem? hget)
  have hanswered : c'.unanswered Single.numbered = false := by
    rw [← hi.guarded_eq_unanswered, hidle.await]
    rfl
  have hsound : SoundCalls (effectsAt 1 (Native.view.outputs los)) := by
    intro n request response hmem
    rw [heffects] at hmem
    cases Single.eq_of_call hmem
    trivial
  have hdrop : ∀ i, NativeEvent.drop i ∉
      (.bind true :: ((Single.labels 3 (Single.number 0) (Single.number 1)).map Label.native ++
        [.cancelled true])) := by
    intro i
    simp [Single.labels, Single.events, Label.native]
  have hwrite : .writeError ∉ eventsAt 1 (Native.view.inputs
      (.bind true :: ((Single.labels 3 (Single.number 0) (Single.number 1)).map Label.native ++
        [.cancelled true]))) := by
    rw [Native.view_inputs_shutdown, Single.eventsAt_labels.2]
    simp [Single.events, Single.wrote]
  have hcut := (shutdown_cuts hrun hstage (by simp) hdrop).2 1 c' hget hanswered hwrite hsound
  have hone : answered (Single.effects 3 (Single.number 1)) = [(Single.parsed, Single.number 1)] :=
    rfl
  have hnone : rejectedBytes (Single.effects 3 (Single.number 1)) = [] := rfl
  refine ⟨c, c', s, los, hrun, hconns, ?_⟩
  rw [heffects, hone, hnone, List.append_nil, wires_singleton] at hcut
  rw [heffects]
  exact hcut

/-- **`drain` is never asleep without need.**  Whenever it waits on a future that was not
notified, some connection has an unanswered request in front; and as soon as there is none,
`drain` is woken, and its next poll is its last. -/
theorem drain_prompt {es : List NativeEvent} {s : Native σ} {os : List Effect}
    (h : srv.native.run (.new app) es = some (s, os)) {f : Notified}
    (hstage : s.stage = .draining f) :
    (¬ f.Ready s.system.counter.drained → ∃ c ∈ s.system.conns, c.unanswered srv = true) ∧
      ((∀ c ∈ s.system.conns, c.unanswered srv = false) →
        srv.native.step s .notified = some (⟨s.system, .left .drained⟩, [])) := by
  have hi := native_inv h
  have hguard : ∀ c ∈ s.system.conns, c.await.guarded = c.unanswered srv :=
    fun c hc => (hi.system.conns c hc).guarded_eq_unanswered
  have hbusy : ¬ f.Ready s.system.counter.drained →
      ∃ c ∈ s.system.conns, c.unanswered srv = true := by
    intro hready
    have hne := hi.busy f hstage hready
    rw [hi.system.counted] at hne
    have hpos : 0 < s.system.conns.countP fun c => c.await.guarded := by omega
    obtain ⟨c, hc, hg⟩ := List.countP_pos_iff.mp hpos
    exact ⟨c, hc, by rw [← hguard c hc]; exact hg⟩
  refine ⟨hbusy, fun hall => ?_⟩
  have hready : f.Ready s.system.counter.drained := by
    by_contra hnot
    obtain ⟨c, hc, hone⟩ := hbusy hnot
    rw [hall c hc] at hone
    cases hone
  have hzero : s.system.counter.inFlightRequests = 0 := by
    rw [hi.system.counted, Int.natCast_eq_zero, List.countP_eq_zero]
    intro c hc
    rw [hguard c hc, hall c hc]
    exact Bool.false_ne_true
  simp only [native, nativeStep, NativeEvent.label, hstage, Stage.next, if_pos hready,
    Option.map_some, ConnectionCounter.drainTurn, if_pos hzero]

theorem drain_prompt_upload : ∃ s,
    Upload.server.native.run (.new ()) Upload.shutdown = some (s, [.requestStart]) ∧
    ∃ c ∈ s.system.conns, c.unanswered Upload.server = true := by
  obtain ⟨c, k, n, s, hrun, hstage, -, -, hdrained⟩ := Upload.run_shutdown
  have hready : ¬ (⟨0⟩ : Notified).Ready s.system.counter.drained := by
    rw [hdrained]
    decide
  exact ⟨s, hrun, (drain_prompt hrun hstage).1 hready⟩

/-- **Nothing is left behind.**  When `_serve_native` has returned, that is, when every task has
ended or was dropped: the counter is at zero, as many connections were accepted as tasks were
spawned, and each task has counted its requests in and out in turn, with none still counted. -/
theorem nothing_left_behind {es : List NativeEvent} {s : Native σ}
    {los : List (NativeEvent × Effect)}
    (h : srv.native.logged.run (.new app) es = some (s, los))
    (hended : ∀ c ∈ s.system.conns, c.await.Ended) :
    s.system.counter.inFlightRequests = 0 ∧
      s.system.counter.accepted = s.system.conns.length ∧
      ∀ i, i < s.system.conns.length →
        guardAfter false (effectsAt i (Native.view.outputs los)) = some false := by
  have hserve := native_serve h
  have hi := serve_inv (Machine.run_of_logged hserve)
  have hfree : ∀ c ∈ s.system.conns, c.await.guarded = false := by
    intro c hc
    obtain ⟨e, he⟩ := hended c hc
    rw [he]
    rfl
  refine ⟨?_, accepted_eq_length (Machine.run_of_logged hserve), fun i hlt => ?_⟩
  · rw [hi.counted, Int.natCast_eq_zero, List.countP_eq_zero]
    intro c hc
    rw [hfree c hc]
    exact Bool.false_ne_true
  · have hget : s.system.conns[i]? = some s.system.conns[i] := List.getElem?_eq_getElem hlt
    obtain ⟨left, halone⟩ := alone_replayed hserve hget
    rw [halone.guarded, hfree _ (List.getElem_mem hlt)]

/-- The grace period runs out, and the upload is dropped. -/
theorem nothing_left_behind_upload : ∃ s los,
    Upload.server.native.logged.run (.new ()) (Upload.shutdown ++ [.elapsed, .drop 0]) =
        some (s, los) ∧
    s.stage = .left .timedOut ∧ s.system.counter.inFlightRequests = 0 ∧
      s.system.counter.accepted = s.system.conns.length ∧
      ∀ i, i < s.system.conns.length →
        guardAfter false (effectsAt i (Native.view.outputs los)) = some false := by
  obtain ⟨c, k, n, s, hrun, hstage, hconns, hawait, hdrained⟩ := Upload.run_shutdown
  have hready : ¬ ((⟨0⟩ : Notified).Ready s.system.counter.drained ∧
      s.system.counter.inFlightRequests = 0) := by
    rw [hdrained]
    rintro ⟨h, -⟩
    exact absurd h (by decide)
  have helapsed : Upload.server.native.step s .elapsed =
      some (⟨s.system, .left .timedOut⟩, []) := by
    simp only [native, nativeStep, NativeEvent.label, hstage, Stage.next, if_neg hready,
      Option.map_some]
  have hlive : ¬ c.await.Ended := by
    rw [hawait]
    rintro ⟨e, he⟩
    cases he
  have hdrop : Upload.server.native.step ⟨s.system, .left .timedOut⟩ (.drop 0) =
      some (⟨(s.system.ran 0 (c.leave s.system.app .dropped)).1, .left .timedOut⟩,
        (c.leave s.system.app .dropped).effects) := by
    simp only [native, nativeStep, NativeEvent.label, Stage.allows, if_true, serveStep, hconns,
      List.getElem?_cons_zero, Option.bind_some, if_neg hlive, Option.map_some]
    rfl
  obtain ⟨los, hlog, -⟩ := Machine.run_logged (Machine.run_append hrun
    (Machine.run_cons helapsed (Machine.run_cons hdrop (Machine.run_nil _ _))))
  have hended : ∀ d ∈ (s.system.ran 0 (c.leave s.system.app .dropped)).1.conns, d.await.Ended := by
    intro d hd
    simp only [System.ran, hconns, List.set_cons_zero, List.mem_singleton] at hd
    rw [hd]
    exact ⟨_, rfl⟩
  exact ⟨_, los, hlog, rfl, nothing_left_behind hlog hended⟩

end Server

/-! ## 6. Behind the shutdown -/

/-- `cancelled` has ended the `select!`, and with it the listener is closed. -/
def Stage.closed : Stage → Bool
  | .draining _ | .left .drained | .left .timedOut => true
  | .binding | .accepting | .backingOff | .left .bindFailed => false

theorem ConnectionCounter.drainTurn_closed (k : ConnectionCounter Notify) :
    k.drainTurn.closed = true := by
  rcases k.drainTurn_cases with ⟨-, heq⟩ | ⟨-, heq⟩ <;> rw [heq] <;> rfl

theorem Stage.next_closed {k : ConnectionCounter Notify} {stage stage' : Stage} {e : NativeEvent}
    (h : stage.next k e = some stage') :
    (stage'.closed = true ↔ stage.closed = true ∨ e = .cancelled true) ∧
      (stage.closed = true → (∀ ok, e ≠ .accept ok) ∧ ∀ requested, e ≠ .cancelled requested) := by
  unfold next at h
  split at h
  case h_1 | h_2 | h_3 | h_4 => cases h; simp [closed]
  case h_5 requested | h_6 requested =>
    cases requested <;> cases h
    · simp [closed]
    · exact ⟨iff_of_true k.drainTurn_closed (Or.inr rfl), by simp [closed]⟩
  case h_7 f =>
    split at h <;> cases h
    exact ⟨iff_of_true k.drainTurn_closed (Or.inl rfl), by simp⟩
  case h_8 f =>
    cases h
    refine ⟨iff_of_true ?_ (Or.inl rfl), by simp⟩
    split <;> rfl
  case h_9 => cases h

namespace Server

variable {σ : Type} {srv : Server σ} {app : σ}

/-- Only `cancelled` closes the listener, and nobody opens it again. -/
theorem native_closed {s : Native σ} {e : NativeEvent} {r : Native σ × List Effect}
    (h : srv.native.step s e = some r) :
    (r.1.stage.closed = true ↔ s.stage.closed = true ∨ e = .cancelled true) ∧
      (s.stage.closed = true →
        (∀ ok, e ≠ .accept ok) ∧ ∀ requested, e ≠ .cancelled requested) := by
  cases native_step h with
  | turn hlabel hnext => exact Stage.next_closed hnext
  | @task label r hlabel hallowed hmove =>
    have hpoll : ∀ requested, e ≠ .cancelled requested := by
      rintro requested rfl
      cases hlabel
    refine ⟨by simp [hpoll], fun hclosed => ⟨fun ok he => ?_, hpoll⟩⟩
    subst he
    cases ok with
    | false => cases hlabel
    | true =>
      cases hlabel
      cases hstage : s.stage <;> rw [hstage] at hallowed hclosed
      case accepting => cases hclosed
      all_goals cases hallowed

/-- No task is dropped before `block_on` returns. -/
theorem native_drops {es : List NativeEvent} {s : Native σ} {os : List Effect}
    (h : srv.native.run (.new app) es = some (s, os)) {i : Nat} (hmem : .drop i ∈ es) :
    ∃ ending, s.stage = .left ending := by
  refine Machine.run_induction (P := fun es s _ => .drop i ∈ es →
    ∃ ending, s.stage = .left ending) (fun h => absurd h List.not_mem_nil) ?_ h hmem
  intro es s os e s' o hrun ih hst hmem
  cases native_step hst with
  | @task label r hlabel hallowed hmove =>
    rcases List.mem_append.mp hmem with hmem | hmem
    · exact ih hmem
    · have he := List.mem_singleton.mp hmem
      subst he
      cases hlabel
      cases hstage : s.stage <;> rw [hstage] at hallowed <;> first | exact ⟨_, rfl⟩ | cases hallowed
  | turn hlabel hnext =>
    rcases List.mem_append.mp hmem with hmem | hmem
    · obtain ⟨ending, hleft⟩ := ih hmem
      rw [hleft] at hnext
      cases hnext
    · rw [← List.mem_singleton.mp hmem] at hlabel
      cases hlabel

/-- **A server whose `drain` has returned of itself has cut nobody off**, also after its tasks
were dropped. -/
theorem drained_whole {es : List NativeEvent} {s : Native σ} {los : List (NativeEvent × Effect)}
    (h : srv.native.logged.run (.new app) es = some (s, los)) (hstage : s.stage = .left .drained)
    {i : Nat} (hi : i < s.system.conns.length) : srv.Whole es los i := by
  refine (Machine.run_induction (P := fun es s los => s.stage = .left .drained →
    (∀ c ∈ s.system.conns, c.await.guarded = false) ∧
      ∀ i, i < s.system.conns.length → srv.Whole es los i) (fun h => by cases h) ?_ h hstage).2 i hi
  intro es s los e s' lo hrun ih hlog hstage
  have hone := Machine.run_cons hlog (Machine.run_nil _ _)
  rw [List.append_nil] at hone
  have hrun' := Machine.run_append hrun hone
  obtain ⟨os, hst, rfl⟩ := Machine.step_logged_iff.mp hlog
  cases native_step hst with
  | @turn stage hlabel hnext =>
    have hinv := native_inv (Machine.run_of_logged hrun')
    have hfree : ∀ c ∈ s.system.conns, c.await.guarded = false := by
      intro c hc
      have hzero := hinv.drained hstage
      rw [hinv.system.counted, Int.natCast_eq_zero, List.countP_eq_zero] at hzero
      exact Bool.eq_false_iff.mpr (hzero c hc)
    have hdrop : ∀ i, .drop i ∉ es ++ [e] := by
      intro i hmem
      rcases List.mem_append.mp hmem with hmem | hmem
      · obtain ⟨ending, hleft⟩ := native_drops (Machine.run_of_logged hrun) hmem
        rw [hleft] at hnext
        cases hnext
      · rw [← List.mem_singleton.mp hmem] at hlabel
        cases hlabel
    refine ⟨hfree, fun i hi => ?_⟩
    exact whole_of_not_guarded hrun' hdrop (List.getElem?_eq_getElem hi)
      (hfree _ (List.getElem_mem hi))
  | @task label r hlabel hallowed hmove =>
    obtain ⟨hfree, hwhole⟩ := ih hstage
    have hleft : s.stage = .left .drained := hstage
    rw [hleft] at hallowed
    cases serve_step hmove with
    | accept | wake => cases hallowed
    | @drop j c hget hlive =>
      -- the task holds no guard, so that its drop does nothing
      have hquiet : (c.leave s.system.app .dropped).effects = [] := by
        have hguard := hfree c (List.mem_of_getElem? hget)
        simp only [Conn.leave, Await.dropGuard, hguard, Bool.false_eq_true, if_false]
      have hnone : e.label.toList = [.drop j] := by rw [hlabel]; rfl
      simp only [hquiet, List.map_nil, List.append_nil, System.ran, List.length_set]
      refine ⟨fun d hd => ?_, fun i hi => ?_⟩
      · rcases mem_set hd with hd | rfl
        · exact hfree d hd
        · rfl
      · have hevents : eventsAt i (Native.view.inputs (es ++ [e])) =
            eventsAt i (Native.view.inputs es) := by
          rw [Observer.inputs_append, Observer.inputs_singleton, eventsAt_append]
          simp only [Native.view, hnone]
          exact List.append_nil _
        rw [Whole, hevents]
        exact hwhole i hi

/-- When `block_on` has returned, the `LocalSet` can drop every task that is left. -/
theorem native_drop_all (srv : Server σ) {s : Native σ} {ending : Ending}
    (hstage : s.stage = .left ending) :
    ∃ drops s' os, srv.native.run s drops = some (s', os) ∧ s'.stage = .left ending ∧
      (∀ c ∈ s'.system.conns, c.await.Ended) ∧ ∀ e ∈ drops, ∃ i, e = .drop i := by
  have hfirst : ∀ k, k ≤ s.system.conns.length → ∃ drops s' os,
      srv.native.run s drops = some (s', os) ∧ s'.stage = .left ending ∧
        s'.system.conns.length = s.system.conns.length ∧
        (∀ i c, i < k → s'.system.conns[i]? = some c → c.await.Ended) ∧
        ∀ e ∈ drops, ∃ i, e = .drop i := by
    intro k
    induction k with
    | zero => exact fun _ => ⟨[], s, [], rfl, hstage, rfl, nofun, nofun⟩
    | succ k ih =>
      intro hk
      obtain ⟨drops, s', os, hrun, hstage', hlength, hended, hdrops⟩ := ih (by omega)
      have hget : s'.system.conns[k]? = some s'.system.conns[k] :=
        List.getElem?_eq_getElem (by omega)
      by_cases hlive : s'.system.conns[k].await.Ended
      · refine ⟨drops, s', os, hrun, hstage', hlength, fun i c hi hc => ?_, hdrops⟩
        rcases Nat.lt_succ_iff_lt_or_eq.mp hi with hi | rfl
        · exact hended i c hi hc
        · rw [hget] at hc
          cases hc
          exact hlive
      · have hdrop : srv.native.step s' (.drop k) =
            some (⟨(s'.system.ran k (s'.system.conns[k].leave s'.system.app .dropped)).1, s'.stage⟩,
              (s'.system.conns[k].leave s'.system.app .dropped).effects) := by
          simp only [native, nativeStep, NativeEvent.label, hstage', Stage.allows, if_true,
            serveStep, hget, Option.bind_some, if_neg hlive, Option.map_some]
          rfl
        have hrun' := Machine.run_append hrun (Machine.run_cons hdrop (Machine.run_nil _ _))
        refine ⟨_, _, _, hrun', hstage', ?_, ?_, ?_⟩
        · simp only [System.ran, List.length_set, hlength]
        · intro i c hi hc
          simp only [System.ran] at hc
          by_cases hik : k = i
          · subst hik
            rw [List.getElem?_set_self (by omega)] at hc
            cases hc
            exact ⟨_, rfl⟩
          · rw [List.getElem?_set_ne hik] at hc
            exact hended i c (by omega) hc
        · intro e he
          rcases List.mem_append.mp he with he | he
          · exact hdrops e he
          · exact ⟨k, List.mem_singleton.mp he⟩
  obtain ⟨drops, s', os, hrun, hstage', hlength, hended, hdrops⟩ := hfirst _ (Nat.le_refl _)
  refine ⟨drops, s', os, hrun, hstage', fun c hc => ?_, hdrops⟩
  obtain ⟨i, hi, rfl⟩ := List.mem_iff_getElem.mp hc
  exact hended i _ (by omega) (List.getElem?_eq_getElem hi)

end Server

end HelixRack
