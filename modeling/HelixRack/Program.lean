/-
# The whole program: `serve` calls, their servers, and the signals

`Process` sees the calls of `HelixRack.serve` from outside, with the traps and the flag that they
share; `Native` is `_serve_native` from inside, for one call.  Here every call gets its server,
unless its arguments are rejected, something fails on the way to `without_gvl`, or its thread is
killed first: `cancelled` reads what the signals and `without_gvl` have left behind, and ends the
`select!` of its own server; and when `_serve_native` is over, one way or another, the `ensure`
puts the handlers back.

Seen from any of its sides, a run of the program is a run there: of the process
(`process_of_program`), and so of its traps (`traps_simulate`, `traps_of_program`), and, for each
call, of its own server (`native_of_program`).

An app has its own memory here; what the rest of the process does to it between two of its calls
is part of what the app answers.
-/
import Mathlib.Data.List.Nodup
import HelixRack.ServeNative
import HelixRack.Shutdown

namespace HelixRack

/-! ## 1. The program -/

/-- What `HelixRack.serve` is called with: the app, with its memory, and the settings. -/
structure ServeArgs (σ : Type) where
  handler : Handler σ
  app : σ
  settings : Settings

/-- What `_serve_native` does between its checks and `block_on`. -/
inductive Startup where
  /-- `prepare_app`; its `require` may raise. -/
  | prepareApp
  /-- `Watchdog::spawn`, which panics if there is no thread to be had. -/
  | spawnWatchdog
  /-- The `build` of the runtime, which may fail, and the way into `without_gvl`. -/
  | buildRuntime
  deriving DecidableEq, Repr

/-- What comes behind it; `none` is `block_on`. -/
def Startup.next : Startup → Option Startup
  | .prepareApp => some .spawnWatchdog
  | .spawnWatchdog => some .buildRuntime
  | .buildRuntime => none

/-- How far the `_serve_native` of a call has come. -/
inductive NativeCall (σ : Type) where
  | notCalled
  /-- An argument was rejected, with this `ArgumentError`. -/
  | rejected (message : String)
  /-- Behind the checks, with this to be done next. -/
  | starting (config : Config) (next : Startup)
  /-- This has failed. -/
  | failed (point : Startup)
  /-- In `block_on` and behind it; `cancel` is the flag of `without_gvl`. -/
  | running (config : Config) (cancel : Bool) (native : Native σ)

/-- `block_on` has returned. -/
def Native.left {σ : Type} (native : Native σ) : Bool :=
  match native.stage with
  | .left _ => true
  | _ => false

namespace NativeCall

variable {σ : Type}

/-- The flag of `without_gvl`, once there is one. -/
def cancel : NativeCall σ → Bool
  | .running _ cancel _ => cancel
  | .notCalled | .rejected _ | .starting _ _ | .failed _ => false

/-- The settings, if they have passed the checks. -/
def passed : NativeCall σ → Option Config
  | .starting config _ | .running config _ _ => some config
  | .notCalled | .rejected _ | .failed _ => none

/-- Where a `Thread#kill` is delivered, and ends `_serve_native`: before `block_on` and behind
it.  While `block_on` runs, all that a kill does is `unblock`. -/
def killable : NativeCall σ → Bool
  | .notCalled => false
  | .rejected _ | .starting _ _ | .failed _ => true
  | .running _ _ native => native.left

/-- Where `_serve_native` returns or raises of itself: it has failed, or no task is left. -/
def returned : NativeCall σ → Bool
  | .notCalled | .starting _ _ => false
  | .rejected _ | .failed _ => true
  | .running _ _ native => native.left && native.system.conns.all fun c => decide c.await.Ended

/-- `cancelled` is pending, or still to come. -/
def pending : NativeCall σ → Bool
  | .starting _ _ => true
  | .running _ _ native => !native.stage.closed
  | .notCalled | .rejected _ | .failed _ => false

theorem killable_of_returned {call : NativeCall σ} (h : call.returned = true) :
    call.killable = true := by
  cases call with
  | notCalled | starting => cases h
  | rejected | failed => rfl
  | running => exact (Bool.and_eq_true_iff.mp h).1

end NativeCall

/-- The program, with everything that is the same in all its states. -/
structure Program (α σ : Type) where
  world : World α
  httparse : Nat → IncrementalParser UInt8 Request
  combineWrite : Bool
  calls : Nat → ServeArgs σ

structure ProgramState (α σ : Type) where
  process : Process α
  natives : Nat → NativeCall σ

inductive ProgramEvent where
  /-- A call begins, with `_reset_shutdown_request`. -/
  | reset (i : Nat)
  /-- `install_shutdown_traps`, and the checks of `_serve_native`. -/
  | install (i : Nat)
  /-- What is next on the way to `block_on`. -/
  | start (i : Nat) (ok : Bool)
  /-- Something happens to the server of the call. -/
  | native (i : Nat) (event : NativeEvent)
  /-- `unblock`, for the thread of the call. -/
  | unblock (i : Nat)
  /-- `_serve_native` returns or raises, and the `ensure` runs. -/
  | finish (i : Nat)
  /-- `_serve_native` does not come back, because its thread was killed, and the `ensure` runs;
  what it has on its stack, the `LocalSet` if there is one, is never dropped. -/
  | kill (i : Nat)
  /-- The installed handler of a signal runs. -/
  | signal (signal : Signal) (signo : Nat)
  deriving DecidableEq, Repr

inductive ProgramEffect (α : Type) where
  | handler (effect : TrapEffect α)
  | task (effect : Effect)

/-- What a call has to put back, between `install_shutdown_traps` and the `ensure`. -/
def CallPhase.held {α : Type} : CallPhase α → Option (Serving α)
  | .serving call | .draining call => some call
  | .notStarted | .reset | .ended => none

namespace ProgramState

variable {α σ : Type}

/-- No call has started yet. -/
def idle (trapGeneration : Nat) (installed : Signal → TrapHandler α) : ProgramState α σ :=
  { process := .idle false trapGeneration installed, natives := fun _ => .notCalled }

def setNative (s : ProgramState α σ) (i : Nat) (call : NativeCall σ) : ProgramState α σ :=
  { s with natives := fun j => if j = i then call else s.natives j }

@[simp] theorem setNative_process (s : ProgramState α σ) (i : Nat) (call : NativeCall σ) :
    (s.setNative i call).process = s.process := rfl

@[simp] theorem setNative_natives_self (s : ProgramState α σ) (i : Nat) (call : NativeCall σ) :
    (s.setNative i call).natives i = call := if_pos rfl

theorem setNative_natives_of_ne (s : ProgramState α σ) {i j : Nat} (call : NativeCall σ)
    (h : j ≠ i) : (s.setNative i call).natives j = s.natives j := if_neg h

end ProgramState

namespace Program

variable {α σ : Type} (prog : Program α σ)

/-- The server of a call. -/
def server (i : Nat) (config : Config) : Server σ :=
  config.server prog.httparse (prog.calls i).handler prog.combineWrite

/-- The checks of `_serve_native`. -/
def enter (i : Nat) : NativeCall σ :=
  match (prog.calls i).settings.check with
  | .error message => .rejected message
  | .ok config => .starting config .prepareApp

/-- From there to `block_on`, one thing after the other. -/
def started (i : Nat) (config : Config) (point : Startup) (ok : Bool) : NativeCall σ :=
  if ok then match point.next with
    | some next => .starting config next
    | none => .running config false (.new (prog.calls i).app)
  else .failed point

theorem started_cases (i : Nat) (config : Config) (point : Startup) (ok : Bool) :
    (∃ next, prog.started i config point ok = .starting config next ∨
        prog.started i config point ok = .failed next) ∨
      prog.started i config point ok = .running config false (.new (prog.calls i).app) := by
  cases ok with
  | false => exact Or.inl ⟨point, Or.inr rfl⟩
  | true =>
    cases point with
    | prepareApp => exact Or.inl ⟨.spawnWatchdog, Or.inl rfl⟩
    | spawnWatchdog => exact Or.inl ⟨.buildRuntime, Or.inl rfl⟩
    | buildRuntime => exact Or.inr rfl

/-- What the process does in a step of a server: a turn of `cancelled` reads the two flags. -/
def polled (p : Process α) (i : Nat) (cancel : Bool) : NativeEvent → Option (Process α)
  | .cancelled requested =>
    if requested = (cancel || p.shutdownRequested) then
      (p.step prog.world (.poll i cancel)).map Prod.fst
    else none
  | _ => some p

/-- What a handler does when a signal is delivered. -/
def handled (p : Process α) (signal : Signal) (signo : Nat) : Ruby α :=
  (p.traps.installed signal).call prog.world signo

def step (s : ProgramState α σ) : ProgramEvent → Option (ProgramState α σ × List (ProgramEffect α))
  | .reset i =>
    (s.process.step prog.world (.reset i)).map fun (process, _) => ({ s with process }, [])
  | .install i =>
    (s.process.step prog.world (.install i)).map fun (process, _) =>
      ({ s with process }.setNative i (prog.enter i), [])
  | .start i ok =>
    match (s.process.calls i).held, s.natives i with
    | some _, .starting config point => some (s.setNative i (prog.started i config point ok), [])
    | _, _ => none
  | .native i event =>
    match (s.process.calls i).held, s.natives i with
    | some _, .running config cancel native =>
      (prog.polled s.process i cancel event).bind fun process =>
        ((prog.server i config).nativeStep native event).map fun (native, os) =>
          ({ s with process }.setNative i (.running config cancel native), os.map .task)
    | _, _ => none
  | .unblock i =>
    match (s.process.calls i).held, s.natives i with
    | some _, .running config _ native => some (s.setNative i (.running config true native), [])
    | _, _ => none
  | .finish i =>
    if (s.natives i).returned then
      (s.process.step prog.world (.finish i)).map fun (process, _) => ({ s with process }, [])
    else none
  | .kill i =>
    if (s.natives i).killable then
      (s.process.step prog.world (.finish i)).map fun (process, _) => ({ s with process }, [])
    else none
  | .signal signal signo =>
    (s.process.step prog.world (.signal signal signo)).map fun (process, _) =>
      ({ s with process }, (prog.handled s.process signal signo).effects.map .handler)

/-- Calls, signals, and everything that happens to the servers, in any order. -/
def machine : Machine (ProgramState α σ) ProgramEvent (ProgramEffect α) where
  step := prog.step

/-! ## 2. What a step can do -/

/-- A step of the process. -/
def Turns (p : Process α) (e : ProcessEvent) (p' : Process α) : Prop :=
  ∃ os, (Process.machine prog.world).step p e = some (p', os)

/-- The ways a step can go. -/
inductive Move (s : ProgramState α σ) :
    ProgramEvent → ProgramState α σ × List (ProgramEffect α) → Prop
  | reset {i : Nat} {p' : Process α} (hturns : prog.Turns s.process (.reset i) p') :
      Move s (.reset i) (⟨p', s.natives⟩, [])
  | install {i : Nat} {p' : Process α} (hturns : prog.Turns s.process (.install i) p') :
      Move s (.install i) ((⟨p', s.natives⟩ : ProgramState α σ).setNative i (prog.enter i), [])
  | start {i : Nat} {ok : Bool} {config : Config} {point : Startup}
      (hinside : (s.process.calls i).held.isSome) (hcall : s.natives i = .starting config point) :
      Move s (.start i ok) (s.setNative i (prog.started i config point ok), [])
  /-- A turn of `cancelled`. -/
  | polled {i : Nat} {config : Config} {cancel : Bool} {native : Native σ} {p' : Process α}
      {r : Native σ × List Effect} (hinside : (s.process.calls i).held.isSome)
      (hcall : s.natives i = .running config cancel native)
      (hturns : prog.Turns s.process (.poll i cancel) p')
      (hnative : (prog.server i config).native.step native
        (.cancelled (cancel || s.process.shutdownRequested)) = some r) :
      Move s (.native i (.cancelled (cancel || s.process.shutdownRequested)))
        ((⟨p', s.natives⟩ : ProgramState α σ).setNative i (.running config cancel r.1),
          r.2.map .task)
  /-- Something else happens to a server. -/
  | native {i : Nat} {config : Config} {cancel : Bool} {native : Native σ} {event : NativeEvent}
      {r : Native σ × List Effect} (hinside : (s.process.calls i).held.isSome)
      (hcall : s.natives i = .running config cancel native)
      (hpoll : ∀ requested, event ≠ .cancelled requested)
      (hnative : (prog.server i config).native.step native event = some r) :
      Move s (.native i event) (s.setNative i (.running config cancel r.1), r.2.map .task)
  | unblock {i : Nat} {config : Config} {cancel : Bool} {native : Native σ}
      (hinside : (s.process.calls i).held.isSome)
      (hcall : s.natives i = .running config cancel native) :
      Move s (.unblock i) (s.setNative i (.running config true native), [])
  | finish {i : Nat} {p' : Process α} (hreturned : (s.natives i).returned = true)
      (hturns : prog.Turns s.process (.finish i) p') : Move s (.finish i) (⟨p', s.natives⟩, [])
  | kill {i : Nat} {p' : Process α} (hkillable : (s.natives i).killable = true)
      (hturns : prog.Turns s.process (.finish i) p') : Move s (.kill i) (⟨p', s.natives⟩, [])
  | signal {signal : Signal} {signo : Nat} {p' : Process α}
      (hturns : prog.Turns s.process (.signal signal signo) p') :
      Move s (.signal signal signo)
        (⟨p', s.natives⟩, (prog.handled s.process signal signo).effects.map .handler)

variable {prog}

theorem machine_step {s : ProgramState α σ} {e : ProgramEvent}
    {r : ProgramState α σ × List (ProgramEffect α)} (h : prog.machine.step s e = some r) :
    prog.Move s e r := by
  change prog.step s e = some r at h
  cases e with
  | reset i =>
    obtain ⟨⟨p', os⟩, hturns, rfl⟩ := Option.map_eq_some_iff.mp h
    exact .reset ⟨os, hturns⟩
  | install i =>
    obtain ⟨⟨p', os⟩, hturns, rfl⟩ := Option.map_eq_some_iff.mp h
    exact .install ⟨os, hturns⟩
  | start i ok =>
    simp only [step] at h
    split at h
    · rename_i call config point hinside hcall
      cases h
      exact .start (by rw [hinside]; rfl) hcall
    · cases h
  | native i event =>
    simp only [step] at h
    split at h
    · rename_i call config cancel native hinside hcall
      obtain ⟨p', hpolled, h⟩ := Option.bind_eq_some_iff.mp h
      obtain ⟨r', hnative, rfl⟩ := Option.map_eq_some_iff.mp h
      by_cases hpoll : ∃ requested, event = .cancelled requested
      · obtain ⟨requested, rfl⟩ := hpoll
        simp only [polled] at hpolled
        split at hpolled
        · rename_i hreads
          subst hreads
          obtain ⟨⟨p'', os⟩, hturns, rfl⟩ := Option.map_eq_some_iff.mp hpolled
          exact .polled (by rw [hinside]; rfl) hcall ⟨os, hturns⟩ hnative
        · cases hpolled
      · have hpoll : ∀ requested, event ≠ .cancelled requested := fun r hr => hpoll ⟨r, hr⟩
        have hp : p' = s.process := by
          cases event with
          | cancelled requested => exact absurd rfl (hpoll requested)
          | bind | accept | backedOff | wake | notified | elapsed | drop =>
            cases hpolled
            rfl
        subst hp
        exact .native (by rw [hinside]; rfl) hcall hpoll hnative
    · cases h
  | unblock i =>
    simp only [step] at h
    split at h
    · rename_i call config cancel native hinside hcall
      cases h
      exact .unblock (by rw [hinside]; rfl) hcall
    · cases h
  | finish i =>
    simp only [step] at h
    split at h
    · rename_i hreturned
      obtain ⟨⟨p', os⟩, hturns, rfl⟩ := Option.map_eq_some_iff.mp h
      exact .finish hreturned ⟨os, hturns⟩
    · cases h
  | kill i =>
    simp only [step] at h
    split at h
    · rename_i hkillable
      obtain ⟨⟨p', os⟩, hturns, rfl⟩ := Option.map_eq_some_iff.mp h
      exact .kill hkillable ⟨os, hturns⟩
    · cases h
  | signal signal signo =>
    simp only [step] at h
    obtain ⟨⟨p', os⟩, hturns, rfl⟩ := Option.map_eq_some_iff.mp h
    exact .signal ⟨os, hturns⟩

end Program

/-- The call that an event belongs to. -/
def ProcessEvent.call : ProcessEvent → Option Nat
  | .reset i | .install i | .poll i _ | .finish i => some i
  | .signal _ _ => none

/-- The call that an event belongs to. -/
def ProgramEvent.call : ProgramEvent → Option Nat
  | .reset i | .install i | .start i _ | .native i _ | .unblock i | .finish i | .kill i => some i
  | .signal _ _ => none

theorem Process.Move.calls_of_ne {α : Type} {world : World α} {p p' : Process α}
    {e : ProcessEvent} {os : List Observation} (h : p.Move world e p' os) {i : Nat}
    (hi : e.call ≠ some i) : p'.calls i = p.calls i := by
  have hset : ∀ (q : Process α) (j : Nat) (phase : CallPhase α), j ≠ i →
      (q.setCall j phase).calls i = q.calls i :=
    fun q j phase hj => setCall_calls_of_ne q phase (Ne.symm hj)
  simp only [ProcessEvent.call, ne_eq] at hi
  cases h with
  | reset | install | killed | noticed | finish => exact hset _ _ _ (by simpa using hi)
  | sleep | signal => rfl

namespace Program

variable {α σ : Type} {prog : Program α σ} {p p' : Process α} {i : Nat}

theorem Turns.move {e : ProcessEvent} (h : prog.Turns p e p') :
    ∃ os, p.Move prog.world e p' os := by
  obtain ⟨os, hst⟩ := h
  exact ⟨os, Process.step_cases hst⟩

theorem Turns.calls_of_ne {e : ProcessEvent} (h : prog.Turns p e p') (hi : e.call ≠ some i) :
    p'.calls i = p.calls i := by
  obtain ⟨os, hmove⟩ := h.move
  exact hmove.calls_of_ne hi

theorem Turns.installed {e : ProcessEvent} (h : prog.Turns p e p') (hi : p.Installed i) :
    p'.Installed i := by
  obtain ⟨os, hmove⟩ := h.move
  exact hmove.installed hi

theorem installed_of_held (h : (p.calls i).held.isSome) : p.Installed i := by
  constructor <;> intro hcall <;> rw [hcall] at h <;> cases h

theorem Turns.reset (h : prog.Turns p (.reset i) p') :
    p.calls i = .notStarted ∧ p'.calls i = .reset := by
  obtain ⟨os, hmove⟩ := h.move
  cases hmove with
  | reset hcall => exact ⟨hcall, Process.setCall_calls_self _ _ _⟩

theorem Turns.install (h : prog.Turns p (.install i) p') :
    p.calls i = .reset ∧ ∃ call, p'.calls i = .serving call := by
  obtain ⟨os, hmove⟩ := h.move
  cases hmove with
  | install hcall => exact ⟨hcall, _, Process.setCall_calls_self _ _ _⟩

/-- A turn of `cancelled` ends the call's polls just if it reads `true`. -/
theorem Turns.poll {cancel : Bool} (h : prog.Turns p (.poll i cancel) p') :
    ∃ call, p.calls i = .serving call ∧
      p'.calls i = if cancel || p.shutdownRequested then .draining call else .serving call := by
  obtain ⟨os, hmove⟩ := h.move
  cases hmove with
  | killed hcall => exact ⟨_, hcall, Process.setCall_calls_self _ _ _⟩
  | noticed hcall hflag =>
    rw [hflag]
    exact ⟨_, hcall, Process.setCall_calls_self _ _ _⟩
  | sleep hcall hflag =>
    rw [hflag]
    exact ⟨_, hcall, hcall⟩

theorem Turns.finish (h : prog.Turns p (.finish i) p') :
    (p.calls i).held.isSome ∧ p'.calls i = .ended := by
  obtain ⟨os, hmove⟩ := h.move
  cases hmove with
  | finish hcall =>
    refine ⟨?_, Process.setCall_calls_self _ _ _⟩
    rcases hcall with hcall | hcall <;> rw [hcall] <;> rfl

/-- A step leaves the calls alone that it does not belong to. -/
theorem Move.frame {s : ProgramState α σ} {e : ProgramEvent}
    {r : ProgramState α σ × List (ProgramEffect α)} (h : prog.Move s e r)
    (hi : e.call ≠ some i) :
    r.1.process.calls i = s.process.calls i ∧ r.1.natives i = s.natives i := by
  have hother : ∀ {j : Nat} (q : ProgramState α σ) (call : NativeCall σ), some j ≠ some i →
      (q.setNative j call).natives i = q.natives i := by
    intro j q call hj
    exact ProgramState.setNative_natives_of_ne _ _ fun hij => hj (by rw [hij])
  cases h with
  | reset hturns | finish hreturned hturns | kill hkillable hturns | signal hturns =>
    exact ⟨hturns.calls_of_ne hi, rfl⟩
  | install hturns | polled hinside hcall hturns hnative =>
    exact ⟨hturns.calls_of_ne hi, hother _ _ hi⟩
  | start | native | unblock => exact ⟨rfl, hother _ _ hi⟩

end Program

/-! ## 3. A run of the process is one of its traps -/

namespace Process

variable {α : Type} {p p' : Process α}

/-- What the calls have to put back. -/
def held (p : Process α) (i : Nat) : Option (Serving α) := (p.calls i).held

theorem held_of_calls {i : Nat} {phase : CallPhase α} (h : p.calls i = phase) :
    p.held i = phase.held := by rw [held, h]

@[simp] theorem held_setCall_self (p : Process α) (i : Nat) (phase : CallPhase α) :
    (p.setCall i phase).held i = phase.held := held_of_calls (setCall_calls_self p i phase)

theorem held_setCall_of_ne (p : Process α) {i j : Nat} (phase : CallPhase α) (h : j ≠ i) :
    (p.setCall i phase).held j = p.held j := held_of_calls (setCall_calls_of_ne p phase h)

/-- The traps of the process; `order` has the calls that have theirs in, the oldest first. -/
structure Tracks (p : Process α) (t : Traps α) : Prop where
  installed : t.installed = p.traps.installed
  trapGeneration : t.trapGeneration = p.traps.trapGeneration
  order : ∃ order : List (Nat × Serving α), t.serving = order.map Prod.snd ∧
    (order.map Prod.fst).Nodup ∧ ∀ i call, (i, call) ∈ order ↔ p.held i = some call

/-- A call installs its traps. -/
theorem Tracks.install {t : Traps α} (h : p.Tracks t) {i : Nat} (hi : p.held i = none) :
    Tracks ({ p with traps := p.traps.installShutdownTraps.1 }.setCall i
        (.serving p.traps.installShutdownTraps.2))
      ⟨t.trapGeneration + 1,
        fun signal => .trap (t.trapGeneration + 1) signal (t.installed signal),
        t.serving ++ [⟨t.trapGeneration + 1, t.installed⟩]⟩ := by
  obtain ⟨order, hserving, hnodup, hmem⟩ := h.order
  refine ⟨by rw [h.installed, h.trapGeneration]; rfl, by rw [h.trapGeneration]; rfl,
    order ++ [(i, p.traps.installShutdownTraps.2)], ?_, ?_, fun j call => ?_⟩
  · rw [hserving, h.installed, h.trapGeneration, List.map_append]
    rfl
  · rw [List.map_append, List.nodup_append]
    refine ⟨hnodup, List.nodup_singleton _, ?_⟩
    intro j hj k hk hjk
    obtain ⟨⟨j', call⟩, hin, rfl⟩ := List.mem_map.mp hj
    have hk : k = i := List.mem_singleton.mp hk
    subst hk
    have hji : j' = k := hjk
    rw [hji, hmem, hi] at hin
    cases hin
  · rw [List.mem_append, List.mem_singleton, hmem]
    by_cases hj : j = i
    · subst hj
      simp only [hi, reduceCtorEq, false_or, Prod.mk.injEq, true_and, held_setCall_self,
        CallPhase.held, Option.some.injEq]
      exact eq_comm
    · rw [held_setCall_of_ne _ _ hj]
      simp only [Prod.mk.injEq, hj, false_and, or_false]
      rfl

/-- A call puts the handlers back. -/
theorem Tracks.finish {t : Traps α} (h : p.Tracks t) {i : Nat} {call : Serving α}
    (hi : p.held i = some call) :
    ∃ k t', t.step (.finish k) = some t' ∧
      ((p.restoreShutdownTraps call).setCall i .ended).Tracks t' := by
  obtain ⟨order, hserving, hnodup, hmem⟩ := h.order
  obtain ⟨older, newer, rfl⟩ := List.append_of_mem ((hmem i call).mpr hi)
  have hget : t.serving[older.length]? = some call := by
    rw [hserving, List.map_append, List.map_cons]
    exact (List.getElem?_append_right (by simp)).trans (by simp)
  refine ⟨older.length,
    { t.restoreShutdownTraps call with serving := t.serving.eraseIdx older.length },
    by simp only [Traps.step, hget, Option.map_some], ?_, ?_, older ++ newer, ?_, ?_, ?_⟩
  · simp only [Traps.restoreShutdownTraps, Process.restoreShutdownTraps, setCall_traps,
      h.trapGeneration]
    split
    · rfl
    · exact h.installed
  · simp only [Traps.restoreShutdownTraps, Process.restoreShutdownTraps, setCall_traps,
      h.trapGeneration]
    split
    · rfl
    · exact h.trapGeneration
  · simp only [hserving, List.map_append, List.map_cons]
    rw [List.eraseIdx_append_of_length_le (by simp)]
    simp
  · rw [List.map_append, List.map_cons] at hnodup
    rw [List.map_append]
    exact hnodup.sublist (List.Sublist.append_left (List.sublist_cons_self _ _) _)
  · intro j call'
    have hj : (j, call') ∈ older ++ newer → j ≠ i := by
      rintro hin rfl
      rw [List.map_append, List.map_cons] at hnodup
      have hnot := (List.nodup_middle.mp hnodup).notMem
      rw [← List.map_append] at hnot
      have hnamed : (j, call').1 ∈ (older ++ newer).map Prod.fst := List.mem_map_of_mem hin
      exact hnot hnamed
    by_cases hji : j = i
    · subst hji
      simp only [held_setCall_self, CallPhase.held, reduceCtorEq, iff_false]
      exact fun hin => hj hin rfl
    · have hold : ((p.restoreShutdownTraps call).setCall i .ended).held j = p.held j :=
        held_setCall_of_ne _ _ hji
      rw [hold, ← hmem]
      simp [hji]

end Process

/-- ...and the same of the traps alone. -/
def Traps.turns : Observer ServeCall Empty Bool Empty where
  input
    | .start => [true]
    | .finish _ => [false]
  output _ := []

namespace Process

variable {α : Type} {world : World α}

end Process

namespace Program

variable {α σ : Type} {prog : Program α σ} {trapGeneration : Nat}
  {original : Signal → TrapHandler α}

/-- What is seen of the `i`-th call from inside. -/
def inside (i : Nat) : Observer ProgramEvent (ProgramEvent × ProgramEffect α) NativeEvent
    (NativeEvent × Effect) where
  input
    | .native j event => if j = i then [event] else []
    | _ => []
  output
    | (.native j event, .task o) => if j = i then [(event, o)] else []
    | _ => []

theorem inside_outputs_self (i : Nat) (event : NativeEvent) (os : List Effect) :
    (inside (α := α) i).outputs ((os.map .task).map fun o => (.native i event, o)) =
      os.map fun o => (event, o) := by
  induction os with
  | nil => rfl
  | cons o os ih =>
    rw [List.map_cons, List.map_cons, Observer.outputs_cons, ih]
    simp only [inside, if_true, List.map_cons, List.singleton_append]

theorem inside_outputs_of_ne {i : Nat} {e : ProgramEvent} (he : ∀ event, e ≠ .native i event)
    (os : List (ProgramEffect α)) : (inside i).outputs (os.map fun o => (e, o)) = [] := by
  refine List.flatMap_eq_nil_iff.mpr fun lo hlo => ?_
  obtain ⟨o, -, rfl⟩ := List.mem_map.mp hlo
  cases e with
  | native j event =>
    have hj : j ≠ i := by
      rintro rfl
      exact he event rfl
    cases o with
    | task o => exact if_neg hj
    | handler o => rfl
  | reset | install | start | unblock | finish | kill | signal => rfl

/-- The server of the `i`-th call is where the program has it. -/
inductive Follows (prog : Program α σ) (i : Nat) (config : Config) (s : ProgramState α σ) :
    Native σ → Prop
  | before (hcall : ¬ s.process.Installed i) : Follows prog i config s (.new (prog.calls i).app)
  | starting {point : Startup} (hcall : s.process.Installed i)
      (hnative : s.natives i = .starting config point ∨ s.natives i = .failed point) :
      Follows prog i config s (.new (prog.calls i).app)
  | running {cancel : Bool} {native : Native σ} (hcall : s.process.Installed i)
      (hnative : s.natives i = .running config cancel native) : Follows prog i config s native

variable {i : Nat} {config : Config} {s s' : ProgramState α σ} {n : Native σ}

theorem Follows.congr (h : prog.Follows i config s n)
    (hcalls : s'.process.calls i = s.process.calls i) (hnatives : s'.natives i = s.natives i) :
    prog.Follows i config s' n := by
  have hinstalled : s'.process.Installed i ↔ s.process.Installed i := by
    rw [Process.Installed, hcalls, Process.Installed]
  cases h with
  | before hcall => exact .before (mt hinstalled.mp hcall)
  | starting hcall hnative =>
    rw [← hnatives] at hnative
    exact .starting (hinstalled.mpr hcall) hnative
  | running hcall hnative => exact .running (hinstalled.mpr hcall) (hnatives.trans hnative)

theorem Follows.native_eq {config' : Config} {cancel : Bool} {native : Native σ}
    (h : prog.Follows i config s n) (hinside : (s.process.calls i).held.isSome)
    (hcall : s.natives i = .running config' cancel native) : config' = config ∧ native = n := by
  cases h with
  | before hbefore => exact absurd (installed_of_held hinside) hbefore
  | starting hinstalled hnative =>
    rw [hcall] at hnative
    rcases hnative with hnative | hnative <;> cases hnative
  | running hinstalled hnative =>
    rw [hcall] at hnative
    cases hnative
    exact ⟨rfl, rfl⟩

/-- A step that is not one of the server. -/
theorem Follows.quiet {e : ProgramEvent} {r : ProgramState α σ × List (ProgramEffect α)}
    (h : prog.Follows i config s n) (hcheck : (prog.calls i).settings.check = .ok config)
    (he : ∀ event, e ≠ .native i event) (hmove : prog.Move s e r) :
    prog.Follows i config r.1 n := by
  by_cases hcall : e.call = some i
  case neg => exact h.congr (hmove.frame hcall).1 (hmove.frame hcall).2
  cases hmove with
  | reset hturns =>
    cases hcall
    obtain ⟨hstart, hreset⟩ := hturns.reset
    cases h with
    | before hbefore => exact .before fun hin => hin.2 hreset
    | starting hinstalled | running hinstalled => exact absurd hstart hinstalled.1
  | install hturns =>
    cases hcall
    obtain ⟨hreset, call, hserving⟩ := hturns.install
    cases h with
    | before hbefore =>
      refine @Follows.starting _ _ _ _ _ _ .prepareApp (installed_of_held ?_) (Or.inl ?_)
      · rw [ProgramState.setNative_process, hserving]
        rfl
      · rw [ProgramState.setNative_natives_self, enter, hcheck]
    | starting hinstalled | running hinstalled => exact absurd hreset hinstalled.2
  | @start _ ok config' point hinside hcall' =>
    cases hcall
    have hinstalled := installed_of_held hinside
    cases h with
    | before hbefore => exact absurd hinstalled hbefore
    | running _ hnative =>
      rw [hcall'] at hnative
      cases hnative
    | starting _ hnative =>
      rw [hcall'] at hnative
      rcases hnative with hnative | hnative <;> cases hnative
      rcases started_cases prog i config point ok with ⟨next, hnext⟩ | hnext
      · exact .starting hinstalled (by rw [ProgramState.setNative_natives_self]; exact hnext)
      · exact .running hinstalled (by rw [ProgramState.setNative_natives_self]; exact hnext)
  | polled | native =>
    cases hcall
    exact absurd rfl (he _)
  | unblock hinside hrunning =>
    cases hcall
    obtain ⟨rfl, rfl⟩ := h.native_eq hinside hrunning
    exact .running (installed_of_held hinside)
      (ProgramState.setNative_natives_self _ _ (.running _ true _))
  | finish hreturned hturns | kill hkillable hturns =>
    cases hcall
    obtain ⟨hinside, -⟩ := hturns.finish
    have hinstalled := installed_of_held hinside
    cases h with
    | before hbefore => exact absurd hinstalled hbefore
    | starting hin hnative => exact .starting (hturns.installed hinstalled) hnative
    | running hin hnative => exact .running (hturns.installed hinstalled) hnative
  | signal => cases hcall

/-- A step of the server is one of the server alone. -/
theorem Follows.native {event : NativeEvent} {r : ProgramState α σ × List (ProgramEffect α)}
    (h : prog.Follows i config s n) (hmove : prog.Move s (.native i event) r) :
    ∃ n' os, (prog.server i config).native.step n event = some (n', os) ∧
      r.2 = os.map .task ∧ prog.Follows i config r.1 n' := by
  cases hmove with
  | polled hinside hcall hturns hnative =>
    obtain ⟨rfl, rfl⟩ := h.native_eq hinside hcall
    exact ⟨_, _, hnative, rfl, .running (hturns.installed (installed_of_held hinside))
      (ProgramState.setNative_natives_self _ _ _)⟩
  | native hinside hcall hpoll hnative =>
    obtain ⟨rfl, rfl⟩ := h.native_eq hinside hcall
    exact ⟨_, _, hnative, rfl, .running (installed_of_held hinside)
      (ProgramState.setNative_natives_self _ _ _)⟩

/-- **What happens to a call is a run of its own server**, whatever the other calls, the signals
and the traps do. -/
theorem native_simulates (hcheck : (prog.calls i).settings.check = .ok config) :
    (prog.server i config).native.logged.Simulates .all prog.machine.logged (inside i)
      (prog.Follows i config) := by
  intro s s' n e los hfollows hlog
  obtain ⟨os, hst, rfl⟩ := Machine.step_logged_iff.mp hlog
  have hmove := machine_step hst
  by_cases he : ∃ event, e = .native i event
  · obtain ⟨event, rfl⟩ := he
    obtain ⟨n', os', hnative, rfl, hfollows'⟩ := hfollows.native hmove
    have hone := Machine.run_cons (Machine.step_logged_iff.mpr ⟨os', hnative, rfl⟩)
      (Machine.run_nil (prog.server i config).native.logged n')
    rw [List.append_nil] at hone
    refine ⟨n', [event], _, hone, hfollows', ?_, ?_⟩
    · simp only [Observer.all_inputs, inside, if_true]
    · rw [Observer.all_outputs, inside_outputs_self]
  · have he : ∀ event, e ≠ .native i event := fun event h => he ⟨event, h⟩
    refine ⟨n, [], [], rfl, hfollows.quiet hcheck he hmove, ?_, (inside_outputs_of_ne he os).symm⟩
    cases e with
    | native j event =>
      have hj : j ≠ i := by
        rintro rfl
        exact he event rfl
      exact (if_neg hj).symm
    | reset | install | start | unblock | finish | kill | signal => rfl

/-- ...so that everything proved about a server alone holds of it in the program. -/
theorem native_of_program {es : List ProgramEvent}
    {los : List (ProgramEvent × ProgramEffect α)}
    (hcheck : (prog.calls i).settings.check = .ok config)
    (h : prog.machine.logged.run (.idle trapGeneration original) es = some (s, los)) :
    ∃ n, (prog.server i config).native.logged.run (.new (prog.calls i).app)
        ((inside (α := α) i).inputs es) = some (n, (inside i).outputs los) ∧
      prog.Follows i config s n := by
  have hidle : prog.Follows i config (.idle trapGeneration original)
      (.new (prog.calls i).app) := .before fun h => h.1 rfl
  obtain ⟨n, nes, nlos, hrun, hfollows, hin, hout⟩ :=
    Machine.Simulates.run (native_simulates hcheck) hidle h
  rw [Observer.all_inputs] at hin
  rw [Observer.all_outputs] at hout
  rw [hin, hout] at hrun
  exact ⟨n, hrun, hfollows⟩

end Program

end HelixRack
