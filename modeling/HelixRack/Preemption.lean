/-
# The watchdog in the hands of the server

`Watchdog.machine` lets anybody call `arm`, `disarm` and `shutdown` at any time.  In the program
there is one caller, the thread that serves: it arms for each `Handler::call`, disarms when the
call is over, and shuts the watchdog down and joins it when `block_on` has returned.  Here the two
threads run together, with the postponed job that a `fire` triggers and Ruby runs some time later.

* What the watchdog does is a run of `Watchdog.machine` (`watchdog_simulates`), so that its
  invariant is at hand.
* `Preemption.InUse` is what the single caller adds to it: the state and the notifications on
  their way follow from where the server thread is, and odd generations are those of calls.
* So a call is fired for once at most, a call that overruns its slice is not slept through, and
  the join always returns: the shutdown that the watchdog could miss never comes.
-/
import Mathlib.Data.List.Nodup
import Mathlib.Data.List.Perm.Subperm
import HelixRack.Checks
import HelixRack.Simulation
import HelixRack.Watchdog

namespace HelixRack

/-! ## 1. The two threads -/

/-- Where the server thread is, as far as the watchdog goes. -/
inductive ServerThread where
  /-- No request is with the handler. -/
  | between
  /-- In `arm`, behind its critical section. -/
  | arming
  /-- In `handle`, with the `ArmedGuard` alive. -/
  | handling
  /-- In `disarm`, behind its critical section. -/
  | disarming
  /-- In `shutdown`, behind its critical section. -/
  | shuttingDown
  | joining
  | joined
  deriving DecidableEq, Repr

/-- The server thread, the watchdog, and Ruby's postponed job. -/
structure Preemption where
  watchdog : Watchdog
  server : ServerThread
  /-- `rb_postponed_job_trigger` was called, and the job has not run since. -/
  triggered : Bool
  /-- `POSTPONED_JOB_COUNT`. -/
  postponedJobCount : Nat
  deriving DecidableEq, Repr

namespace Preemption

inductive Event where
  /-- `Handler::call` begins: the critical section of `arm`. -/
  | call (now : Nat)
  /-- The server thread issues its `notify_one`. -/
  | notify
  /-- `handle` is over, and the `ArmedGuard` is dropped: the critical section of `disarm`. -/
  | callEnds
  /-- The `WatchdogGuard` is dropped: the critical section of `shutdown`. -/
  | dropGuard
  | join
  /-- Steps of the watchdog thread. -/
  | wake
  | run (now : Nat)
  | fire
  /-- Ruby runs the postponed job. -/
  | runJob
  deriving DecidableEq, Repr

def spawn : Preemption :=
  { watchdog := .spawn, server := .between, triggered := false, postponedJobCount := 0 }

/-- A step of the watchdog thread. -/
def watchdogStep (s : Preemption) (e : Watchdog.Event) :
    Option (Preemption × List Watchdog.Effect) :=
  (s.watchdog.step e).map fun (watchdog, os) => ({ s with watchdog }, os)

def step (cpuTimeSlice : Nat) (s : Preemption) :
    Event → Option (Preemption × List Watchdog.Effect)
  | .call now => match s.server with
    | .between =>
      some ({ s with watchdog := s.watchdog.arm now cpuTimeSlice, server := .arming }, [])
    | _ => none
  | .notify => match s.server with
    | .arming => some ({ s with
        watchdog := s.watchdog.notifyOne (.transition s.watchdog.generation)
        server := .handling }, [])
    | .disarming => some ({ s with
        watchdog := s.watchdog.notifyOne (.transition s.watchdog.generation)
        server := .between }, [])
    | .shuttingDown => some ({ s with
        watchdog := s.watchdog.notifyOne .shutdown, server := .joining }, [])
    | _ => none
  | .callEnds => match s.server with
    | .handling => some ({ s with watchdog := s.watchdog.disarm, server := .disarming }, [])
    | _ => none
  | .dropGuard => match s.server with
    | .between => some ({ s with watchdog := s.watchdog.shutdown, server := .shuttingDown }, [])
    | _ => none
  | .join => match s.server, s.watchdog.thread with
    | .joining, .returned => some ({ s with server := .joined }, [])
    | _, _ => none
  | .wake => s.watchdogStep .wake
  | .run now => s.watchdogStep (.run now)
  | .fire => ({ s with triggered := true }).watchdogStep .fire
  | .runJob =>
    if s.triggered then
      some ({ s with triggered := false, postponedJobCount := s.postponedJobCount + 1 }, [])
    else none

def machine (cpuTimeSlice : Nat) : Machine Preemption Event Watchdog.Effect where
  step := step cpuTimeSlice

variable {cpuTimeSlice : Nat}

/-- The ways a step can go. -/
inductive Move (cpuTimeSlice : Nat) (s : Preemption) :
    Event → Preemption → List Watchdog.Effect → Prop
  | call {now : Nat} (hserver : s.server = .between) : Move cpuTimeSlice s (.call now)
      { s with watchdog := s.watchdog.arm now cpuTimeSlice, server := .arming } []
  | notifyArmed (hserver : s.server = .arming) : Move cpuTimeSlice s .notify
      { s with watchdog := s.watchdog.notifyOne (.transition s.watchdog.generation),
               server := .handling } []
  | notifyDisarmed (hserver : s.server = .disarming) : Move cpuTimeSlice s .notify
      { s with watchdog := s.watchdog.notifyOne (.transition s.watchdog.generation),
               server := .between } []
  | notifyShutdown (hserver : s.server = .shuttingDown) : Move cpuTimeSlice s .notify
      { s with watchdog := s.watchdog.notifyOne .shutdown, server := .joining } []
  | callEnds (hserver : s.server = .handling) : Move cpuTimeSlice s .callEnds
      { s with watchdog := s.watchdog.disarm, server := .disarming } []
  | dropGuard (hserver : s.server = .between) : Move cpuTimeSlice s .dropGuard
      { s with watchdog := s.watchdog.shutdown, server := .shuttingDown } []
  | join (hserver : s.server = .joining) (hthread : s.watchdog.thread = .returned) :
      Move cpuTimeSlice s .join { s with server := .joined } []
  | wake {wait : Watchdog.Wait} (hthread : s.watchdog.thread = .waiting wait false) :
      Move cpuTimeSlice s .wake
        { s with watchdog := { s.watchdog with thread := .waiting wait true } } []
  | run {now : Nat} {t : Watchdog.Thread} {os : List Watchdog.Effect}
      (hwants : s.watchdog.thread.Wants) (hsection : s.watchdog.Section now t os) :
      Move cpuTimeSlice s (.run now) { s with watchdog := { s.watchdog with thread := t } } os
  | fire {g : Nat} (hthread : s.watchdog.thread = .firing g) : Move cpuTimeSlice s .fire
      { s with watchdog := { s.watchdog with thread := .fired g }, triggered := true } [.fire g]
  | runJob (htriggered : s.triggered = true) : Move cpuTimeSlice s .runJob
      { s with triggered := false, postponedJobCount := s.postponedJobCount + 1 } []

theorem step_cases {s s' : Preemption} {e : Event} {os : List Watchdog.Effect}
    (h : (machine cpuTimeSlice).step s e = some (s', os)) : s.Move cpuTimeSlice e s' os := by
  change step cpuTimeSlice s e = some (s', os) at h
  have hwatchdog : ∀ {s : Preemption} {x : Watchdog.Event},
      s.watchdogStep x = some (s', os) →
      ∃ w, s.watchdog.Move x w os ∧ s' = { s with watchdog := w } := by
    intro s x hx
    obtain ⟨⟨w, o⟩, hstep, heq⟩ := Option.map_eq_some_iff.mp hx
    cases heq
    exact ⟨w, Watchdog.step_cases hstep, rfl⟩
  cases e with
  | call now =>
    simp only [step] at h
    split at h <;> cases h
    rename_i hserver
    exact .call hserver
  | notify =>
    simp only [step] at h
    split at h
    · rename_i hserver
      cases h
      exact .notifyArmed hserver
    · rename_i hserver
      cases h
      exact .notifyDisarmed hserver
    · rename_i hserver
      cases h
      exact .notifyShutdown hserver
    · cases h
  | callEnds =>
    simp only [step] at h
    split at h <;> cases h
    rename_i hserver
    exact .callEnds hserver
  | dropGuard =>
    simp only [step] at h
    split at h <;> cases h
    rename_i hserver
    exact .dropGuard hserver
  | join =>
    simp only [step] at h
    split at h <;> cases h
    rename_i hserver hthread
    exact .join hserver hthread
  | wake =>
    obtain ⟨w, hmove, rfl⟩ := hwatchdog (show s.watchdogStep .wake = some (s', os) from h)
    cases hmove with
    | wake hthread => exact .wake hthread
  | run now =>
    obtain ⟨w, hmove, rfl⟩ := hwatchdog (show s.watchdogStep (.run now) = some (s', os) from h)
    cases hmove with
    | run hwants hsection => exact .run hwants hsection
  | fire =>
    obtain ⟨w, hmove, rfl⟩ :=
      hwatchdog (show ({ s with triggered := true }).watchdogStep .fire = some (s', os) from h)
    cases hmove with
    | fire hthread => exact .fire hthread
  | runJob =>
    simp only [step] at h
    split at h <;> cases h
    rename_i htriggered
    exact .runJob htriggered

/-! ## 2. What the watchdog does is a run of the watchdog -/

def Event.calls : Event → Nat
  | .call _ => 1
  | .notify | .callEnds | .dropGuard | .join | .wake | .run _ | .fire | .runJob => 0

/-- How many calls have begun. -/
def calls : List Event → Nat
  | [] => 0
  | e :: es => e.calls + calls es

@[simp] theorem calls_snoc (es : List Event) (e : Event) :
    calls (es ++ [e]) = calls es + e.calls := by
  induction es with
  | nil => simp only [List.nil_append, calls, Nat.add_zero, Nat.zero_add]
  | cons x es ih => simp only [List.cons_append, calls, ih, Nat.add_assoc]

/-- What is under the mutex, and which notification is on its way, by where the server thread
is.  The generation counts an `arm` and a `disarm` for each call. -/
def InPhase (s : Preemption) (calls : Nat) : Prop :=
  match s.server with
  | .between => s.watchdog.state = .idle ∧ s.watchdog.generation = 2 * calls ∧
      s.watchdog.notifies = []
  | .arming => (∃ deadline, s.watchdog.state = .armed deadline) ∧
      s.watchdog.generation + 1 = 2 * calls ∧
      s.watchdog.notifies = [.transition s.watchdog.generation]
  | .handling => (∃ deadline, s.watchdog.state = .armed deadline) ∧
      s.watchdog.generation + 1 = 2 * calls ∧ s.watchdog.notifies = []
  | .disarming => s.watchdog.state = .idle ∧ s.watchdog.generation = 2 * calls ∧
      s.watchdog.notifies = [.transition s.watchdog.generation]
  | .shuttingDown => s.watchdog.state = .shutdown ∧ s.watchdog.generation = 2 * calls ∧
      s.watchdog.notifies = [.shutdown]
  | .joining => s.watchdog.state = .shutdown ∧ s.watchdog.generation = 2 * calls ∧
      s.watchdog.notifies = []
  | .joined => s.watchdog.thread = .returned

theorem spawn_inPhase : spawn.InPhase 0 := ⟨rfl, rfl, rfl⟩

/-- Nothing of this is about the watchdog thread, until that has returned. -/
theorem InPhase.withThread {s : Preemption} {calls : Nat} (h : s.InPhase calls)
    (hthread : s.watchdog.thread ≠ .returned) (t : Watchdog.Thread) (triggered : Bool) :
    InPhase { s with watchdog := { s.watchdog with thread := t }, triggered } calls := by
  unfold InPhase at h ⊢
  cases hserver : s.server <;> simp only [hserver] at h ⊢
  case joined => exact absurd h hthread
  all_goals exact h

theorem Move.inPhase {s s' : Preemption} {e : Event} {os : List Watchdog.Effect} {calls : Nat}
    (hphase : s.InPhase calls) (h : s.Move cpuTimeSlice e s' os) :
    s'.InPhase (calls + e.calls) := by
  cases h with
  | call hserver =>
    simp only [InPhase, hserver] at hphase
    obtain ⟨-, hgen, hnotifies⟩ := hphase
    refine ⟨⟨_, rfl⟩, ?_, ?_⟩
    · simp only [Watchdog.arm, Event.calls, hgen]
      omega
    · simp only [Watchdog.arm, hnotifies, List.nil_append]
  | notifyArmed hserver | notifyDisarmed hserver | notifyShutdown hserver =>
    simp only [InPhase, hserver] at hphase
    obtain ⟨hstate, hgen, hnotifies⟩ := hphase
    refine ⟨hstate, hgen, ?_⟩
    simp only [Watchdog.notifyOne, hnotifies, List.erase_cons_head]
  | callEnds hserver =>
    simp only [InPhase, hserver] at hphase
    obtain ⟨-, hgen, hnotifies⟩ := hphase
    refine ⟨rfl, hgen, ?_⟩
    simp only [Watchdog.disarm, hnotifies, List.nil_append]
  | dropGuard hserver =>
    simp only [InPhase, hserver] at hphase
    obtain ⟨-, hgen, hnotifies⟩ := hphase
    refine ⟨rfl, hgen, ?_⟩
    simp only [Watchdog.shutdown, hnotifies, List.nil_append]
  | join hserver hthread => exact hthread
  | wake hthread =>
    exact hphase.withThread (by simp [hthread]) _ s.triggered
  | run hwants hsection =>
    refine hphase.withThread (fun hret => ?_) _ s.triggered
    rw [hret] at hwants
    exact Watchdog.Thread.not_wants_returned hwants
  | fire hthread => exact hphase.withThread (by simp [hthread]) _ true
  | runJob htriggered => exact hphase

/-- A step of the two is at most a step of the watchdog. -/
theorem step_watchdog {s s' : Preemption} {e : Event} {os : List Watchdog.Effect} {calls : Nat}
    (hphase : s.InPhase calls) (hst : (machine cpuTimeSlice).step s e = some (s', os)) :
    ∃ es, Watchdog.machine.run s.watchdog es = some (s'.watchdog, os) := by
  have hone : ∀ {w : Watchdog} {x : Watchdog.Event}, s.watchdog.step x = some (w, os) →
      ∃ es, Watchdog.machine.run s.watchdog es = some (w, os) := by
    intro w x hx
    have hrun := Machine.run_cons (m := Watchdog.machine) hx (Machine.run_nil _ _)
    rw [List.append_nil] at hrun
    exact ⟨[x], hrun⟩
  have hthread : ∀ {t : Preemption} {x : Watchdog.Event}, t.watchdog = s.watchdog →
      t.watchdogStep x = some (s', os) →
      ∃ es, Watchdog.machine.run s.watchdog es = some (s'.watchdog, os) := by
    intro t x ht hx
    obtain ⟨⟨w, o⟩, hstep, heq⟩ := Option.map_eq_some_iff.mp hx
    cases heq
    rw [ht] at hstep
    exact hone hstep
  have hnotify : ∀ {n : Watchdog.Notify}, s.watchdog.notifies = [n] →
      s.watchdog.step (.notify n) = some (s.watchdog.notifyOne n, []) := by
    intro n hn
    exact if_pos (by rw [hn]; exact List.mem_cons_self)
  have hmove := step_cases hst
  cases e with
  | wake => exact hthread (x := .wake) rfl hst
  | run now => exact hthread (x := .run now) rfl hst
  | fire =>
    exact hthread (t := { s with triggered := true }) (x := .fire) rfl hst
  | call now =>
    cases hmove
    exact hone (x := .arm now cpuTimeSlice) rfl
  | callEnds =>
    cases hmove
    exact hone (x := .disarm) rfl
  | dropGuard =>
    cases hmove
    exact hone (x := .shutdown) rfl
  | notify =>
    cases hmove with
    | notifyArmed hserver | notifyDisarmed hserver | notifyShutdown hserver =>
      simp only [InPhase, hserver] at hphase
      exact hone (hnotify hphase.2.2)
  | join | runJob =>
    cases hmove
    exact ⟨[], rfl⟩

/-- **The watchdog does what it could do by itself**: there is only one who calls it, and in a
certain order. -/
theorem watchdog_simulates :
    Watchdog.machine.Simulates (Y := Empty) .outer (machine cpuTimeSlice) .outer
      fun s w => w = s.watchdog ∧ ∃ calls, s.InPhase calls := by
  rintro s s' _ e os ⟨rfl, calls, hphase⟩ hst
  obtain ⟨es, hrun⟩ := step_watchdog hphase hst
  exact ⟨_, es, os, hrun, ⟨rfl, _, (step_cases hst).inPhase hphase⟩, Observer.outer_inputs es, rfl⟩

/-- So the watchdog's invariant holds here. -/
theorem run_watchdog {es : List Event} {s : Preemption} {os : List Watchdog.Effect}
    (h : (machine cpuTimeSlice).run spawn es = some (s, os)) : s.watchdog.Inv os := by
  obtain ⟨w, es', ps, hrun, ⟨rfl, -⟩, -, hout⟩ :=
    watchdog_simulates.run ⟨rfl, 0, spawn_inPhase⟩ h
  rw [Observer.outer_outputs, Observer.outer_outputs] at hout
  rw [← hout]
  exact Watchdog.run_inv hrun

theorem run_inPhase {es : List Event} {s : Preemption} {os : List Watchdog.Effect}
    (h : (machine cpuTimeSlice).run spawn es = some (s, os)) : s.InPhase (calls es) := by
  refine Machine.run_induction (P := fun es s _ => s.InPhase (calls es)) spawn_inPhase ?_ h
  intro es s os e s' o _ ih hst
  rw [calls_snoc]
  exact (step_cases hst).inPhase ih

/-! ## 3. What the single caller adds -/

/-- The generation is the one that the `arm` for one of the first `calls` calls has made. -/
def OfCall (calls generation : Nat) : Prop := ∃ k < calls, generation = 2 * k + 1

theorem OfCall.mono {calls calls' g : Nat} (h : OfCall calls g) (hle : calls ≤ calls') :
    OfCall calls' g := by
  obtain ⟨k, hk, rfl⟩ := h
  exact ⟨k, Nat.lt_of_lt_of_le hk hle, rfl⟩

/-- The generations fired for. -/
def fires (os : List Watchdog.Effect) : List Nat :=
  os.filterMap fun
    | .fire g => some g
    | .due _ => none

@[simp] theorem fires_append (os os' : List Watchdog.Effect) :
    fires (os ++ os') = fires os ++ fires os' := List.filterMap_append

@[simp] theorem fires_due (g : Nat) : fires [.due g] = [] := rfl
@[simp] theorem fires_fire (g : Nat) : fires [.fire g] = [g] := rfl

@[simp] theorem mem_fires {os : List Watchdog.Effect} {g : Nat} :
    g ∈ fires os ↔ .fire g ∈ os := by
  simp only [fires, List.mem_filterMap]
  constructor
  · rintro ⟨o, ho, heq⟩
    cases o <;> cases heq
    exact ho
  · exact fun h => ⟨.fire g, h, rfl⟩

theorem InPhase.odd_of_armed {s : Preemption} {calls deadline : Nat} (h : s.InPhase calls)
    (harmed : s.watchdog.state = .armed deadline) (hthread : s.watchdog.thread ≠ .returned) :
    s.watchdog.generation + 1 = 2 * calls := by
  unfold InPhase at h
  cases hserver : s.server <;> simp only [hserver, harmed, reduceCtorEq, false_and] at h
  case arming | handling => exact h.2.1
  case joined => exact absurd h hthread

/-- The server thread is behind the critical section of `shutdown`. -/
def ShutDown (s : Preemption) : Prop :=
  s.server = .shuttingDown ∨ s.server = .joining ∨ s.server = .joined

/-- **What holds of the two threads and everything the watchdog has done so far.** -/
structure InUse (s : Preemption) (calls : Nat) (os : List Watchdog.Effect) : Prop where
  due : ∀ g, .due g ∈ os → OfCall calls g
  /-- Who sleeps up to a deadline sleeps up to the one that counts, or is to be woken. -/
  timed : ∀ deadline, s.watchdog.thread = .waiting (.timed deadline) false →
    s.watchdog.notifies ≠ [] ∨ s.watchdog.state = .armed deadline
  counted : s.postponedJobCount + s.triggered.toNat ≤ (fires os).length
  ends : s.ShutDown → s.watchdog.Ends

/-- A generation the thread is to fire for, or has just fired for, was found due. -/
theorem due_of_firedGeneration {w : Watchdog} {os : List Watchdog.Effect} {g : Nat} (hi : w.Inv os)
    (h : w.thread.firedGeneration = some g) : .due g ∈ os := by
  cases hthread : w.thread with
  | firing f =>
    rw [hthread] at h
    cases h
    exact hi.due_of_firing g hthread
  | fired f =>
    rw [hthread] at h
    cases h
    exact hi.due_of_fire g (hi.fired g (Or.inl hthread))
  | waiting wait woken =>
    rw [hthread] at h
    cases wait <;> cases h
    exact hi.due_of_fire g (hi.fired g (Or.inr ⟨woken, hthread⟩))
  | starting | returned =>
    rw [hthread] at h
    cases h

theorem spawn_inUse : spawn.InUse 0 [] where
  due g hg := by cases hg
  timed deadline h := by cases h
  counted := Nat.le_refl _
  ends h := by rcases h with h | h | h <;> cases h

theorem not_timed_wakeThread {t : Watchdog.Thread} {deadline : Nat} :
    Watchdog.wakeThread t ≠ .waiting (.timed deadline) false := by
  cases t <;> simp [Watchdog.wakeThread]

theorem Move.inUse {s s' : Preemption} {e : Event} {os os' : List Watchdog.Effect} {calls : Nat}
    (hwatchdog : s.watchdog.Inv os) (hphase : s.InPhase calls) (hi : s.InUse calls os)
    (h : s.Move cpuTimeSlice e s' os') : s'.InUse (calls + e.calls) (os ++ os') := by
  have hdue : ∀ g, .due g ∈ os → OfCall (calls + e.calls) g := by
    exact fun g hg => (hi.due g hg).mono (Nat.le_add_right _ _)
  have hthreads : ∀ {w : Watchdog} {x : Watchdog.Event}, s.watchdog.Move x w os' →
      (∀ now slice, x ≠ .arm now slice) → x ≠ .disarm → x ≠ .shutdown →
      s.ShutDown → w.Ends :=
    fun hmove harm hdisarm hshutdown hs => hmove.ends (hi.ends hs) harm hdisarm hshutdown
  cases h with
  | call hserver | callEnds hserver =>
    rw [List.append_nil]
    refine ⟨hdue, fun _ _ => Or.inl (List.concat_ne_nil _ _), hi.counted, fun hs => ?_⟩
    rcases hs with hs | hs | hs <;> cases hs
  | notifyArmed hserver | notifyDisarmed hserver =>
    rw [List.append_nil]
    refine ⟨hdue, fun _ ht => absurd ht not_timed_wakeThread, hi.counted, fun hs => ?_⟩
    rcases hs with hs | hs | hs <;> cases hs
  | notifyShutdown hserver =>
    rw [List.append_nil]
    refine ⟨hdue, fun _ ht => absurd ht not_timed_wakeThread, hi.counted, fun _ => ?_⟩
    simp only [InPhase, hserver] at hphase
    refine hthreads (.notify ?_) nofun nofun nofun (Or.inl hserver)
    rw [hphase.2.2]
    exact List.mem_cons_self
  | dropGuard hserver =>
    rw [List.append_nil]
    refine ⟨hdue, fun _ _ => Or.inl (List.concat_ne_nil _ _), hi.counted, fun _ => ?_⟩
    simp only [InPhase, hserver] at hphase
    refine Watchdog.ends_shutdown_iff.mpr fun hf => ?_
    -- between two calls the generation is even, and the thread has fired for an odd one
    obtain ⟨k, -, hk⟩ := hi.due _ (due_of_firedGeneration hwatchdog hf)
    omega
  | join hserver hthread =>
    rw [List.append_nil]
    exact ⟨hdue, hi.timed, hi.counted, fun _ => hi.ends (Or.inr (Or.inl hserver))⟩
  | wake hthread =>
    rw [List.append_nil]
    exact ⟨hdue, nofun, hi.counted, hthreads (.wake hthread) nofun nofun nofun⟩
  | runJob htriggered =>
    rw [List.append_nil]
    refine ⟨hdue, hi.timed, ?_, hi.ends⟩
    have hcounted := hi.counted
    rw [htriggered] at hcounted
    exact hcounted
  | fire hthread =>
    refine ⟨fun g hg => ?_, nofun, ?_, hthreads (.fire hthread) nofun nofun nofun⟩
    · rcases List.mem_append.mp hg with hg | hg
      · exact hdue g hg
      · cases List.mem_singleton.mp hg
    · have hcounted := hi.counted
      rw [fires_append, fires_fire, List.length_append, List.length_singleton]
      simp only [Bool.toNat_true]
      omega
  | run hwants hsection =>
    have hret : s.watchdog.thread ≠ .returned := fun hret =>
      Watchdog.Thread.not_wants_returned (hret ▸ hwants)
    have hends := hthreads (.run hwants hsection) nofun nofun nofun
    cases hsection with
    | due htop harmed hnow =>
      refine ⟨fun g hg => ?_, nofun, ?_, hends⟩
      · rcases List.mem_append.mp hg with hg | hg
        · exact hdue g hg
        · cases List.mem_singleton.mp hg
          have hodd := hphase.odd_of_armed harmed hret
          exact ⟨calls - 1, by simp only [Event.calls]; omega, by omega⟩
      · rw [fires_append, fires_due, List.append_nil]
        exact hi.counted
    | early htop harmed hnow =>
      rw [List.append_nil]
      refine ⟨hdue, fun d hd => Or.inr ?_, hi.counted, hends⟩
      cases hd
      exact harmed
    | rest | returned | idle =>
      rw [List.append_nil]
      exact ⟨hdue, nofun, hi.counted, hends⟩

theorem run_inUse {es : List Event} {s : Preemption} {os : List Watchdog.Effect}
    (h : (machine cpuTimeSlice).run spawn es = some (s, os)) : s.InUse (calls es) os := by
  refine Machine.run_induction (P := fun es s os => s.InUse (calls es) os) spawn_inUse ?_ h
  intro es s os e s' o hrun ih hst
  rw [calls_snoc]
  exact (step_cases hst).inUse (run_watchdog hrun) (run_inPhase hrun) ih

/-! ## 4. One `fire` for a call that overran -/

/-- The call with the generation, begun at some time, was not over when the watchdog thread held
the mutex with the slice behind. -/
def Overran (cpuTimeSlice : Nat) (es : List Event) (generation : Nat) : Prop :=
  ∃ pre t mid now post, es = pre ++ .call t :: (mid ++ .run now :: post) ∧
    (∀ e ∈ mid, e ≠ .callEnds) ∧ t + cpuTimeSlice ≤ now ∧ generation = 2 * calls pre + 1

theorem Overran.snoc {es : List Event} {g : Nat} (h : Overran cpuTimeSlice es g) (e : Event) :
    Overran cpuTimeSlice (es ++ [e]) g := by
  obtain ⟨pre, t, mid, now, post, rfl, hmid, hnow, hg⟩ := h
  exact ⟨pre, t, mid, now, post ++ [e], by simp, hmid, hnow, hg⟩

/-- The deadline that is armed is that of the last call, which is not over. -/
theorem call_of_armed {es : List Event} {s : Preemption} {os : List Watchdog.Effect}
    (h : (machine cpuTimeSlice).run spawn es = some (s, os)) :
    ∀ deadline, s.watchdog.state = .armed deadline →
      ∃ pre t mid, es = pre ++ .call t :: mid ∧ (∀ e ∈ mid, e ≠ .callEnds) ∧
        calls es = calls pre + 1 ∧ deadline = t + cpuTimeSlice := by
  refine Machine.run_induction (P := fun es s _ => ∀ deadline, s.watchdog.state = .armed deadline →
    ∃ pre t mid, es = pre ++ .call t :: mid ∧ (∀ e ∈ mid, e ≠ .callEnds) ∧
      calls es = calls pre + 1 ∧ deadline = t + cpuTimeSlice) (fun _ harmed => by cases harmed) ?_ h
  intro es s os e s' o _ ih hst deadline harmed
  have hkeep : s.watchdog.state = .armed deadline → e ≠ .callEnds → e.calls = 0 →
      ∃ pre t mid, es ++ [e] = pre ++ .call t :: mid ∧ (∀ e ∈ mid, e ≠ .callEnds) ∧
        calls (es ++ [e]) = calls pre + 1 ∧ deadline = t + cpuTimeSlice := by
    intro hold hends hcalls
    obtain ⟨pre, t, mid, rfl, hmid, hone, hd⟩ := ih deadline hold
    refine ⟨pre, t, mid ++ [e], by simp, fun x hx => ?_, by rw [calls_snoc, hone, hcalls], hd⟩
    rcases List.mem_append.mp hx with hx | hx
    · exact hmid x hx
    · rw [List.mem_singleton.mp hx]
      exact hends
  cases step_cases hst with
  | @call now hserver =>
    cases harmed
    exact ⟨es, now, [], rfl, nofun, calls_snoc es _, rfl⟩
  | callEnds | dropGuard => cases harmed
  | notifyArmed | notifyDisarmed | notifyShutdown | join | wake | run | fire | runJob =>
    exact hkeep harmed nofun rfl

/-- What the thread finds due is a call that overran. -/
theorem overran_of_due {es : List Event} {s : Preemption} {os : List Watchdog.Effect}
    (h : (machine cpuTimeSlice).run spawn es = some (s, os)) :
    ∀ g, .due g ∈ os → Overran cpuTimeSlice es g := by
  refine Machine.run_induction (P := fun es _ os => ∀ g, .due g ∈ os → Overran cpuTimeSlice es g)
    nofun ?_ h
  intro es s os e s' o hrun ih hst g hg
  rcases List.mem_append.mp hg with hg | hg
  · exact (ih g hg).snoc e
  · cases step_cases hst with
    | @run now t os' hwants hsection =>
      cases hsection with
      | due htop harmed hnow =>
        cases List.mem_singleton.mp hg
        obtain ⟨pre, t, mid, rfl, hmid, hone, rfl⟩ := call_of_armed hrun _ harmed
        have hodd := (run_inPhase hrun).odd_of_armed harmed fun hret =>
          Watchdog.Thread.not_wants_returned (hret ▸ hwants)
        exact ⟨pre, t, mid, now, [], by simp, hmid, hnow, by omega⟩
      | rest | returned | idle | early => cases hg
    | fire => cases List.mem_singleton.mp hg
    | _ => cases hg

theorem nodup_fires {w : Watchdog} {os : List Watchdog.Effect} (hi : w.Inv os) :
    (fires os).Nodup := by
  refine List.nodup_iff_count_le_one.mpr fun g => ?_
  refine Nat.le_trans (Nat.le_of_eq ?_) (hi.count_fire g)
  rw [fires, List.count_filterMap, List.count_eq_countP]
  refine List.countP_congr fun o _ => ?_
  cases o <;> simp

/-- **At most one `fire` for a call, and none for a call within its slice.**  In every run, the
calls fired for are different ones, and each was still under way when the watchdog thread held
the mutex with its slice behind it; there are no more of them than calls.  Ruby has run the
postponed job at most once for each `fire`, counting the run it has yet to make. -/
theorem one_fire_a_call {es : List Event} {s : Preemption} {os : List Watchdog.Effect}
    (h : (machine cpuTimeSlice).run spawn es = some (s, os)) :
    (fires os).Nodup ∧ (∀ g ∈ fires os, Overran cpuTimeSlice es g) ∧
      (fires os).length ≤ calls es ∧
      s.postponedJobCount + s.triggered.toNat ≤ (fires os).length := by
  have hwatchdog := run_watchdog h
  have hinUse := run_inUse h
  have hdue : ∀ g ∈ fires os, .due g ∈ os := fun g hg => hwatchdog.due_of_fire g (mem_fires.mp hg)
  refine ⟨nodup_fires hwatchdog, fun g hg => overran_of_due h g (hdue g hg), ?_, hinUse.counted⟩
  have hsub : fires os ⊆ (List.range (calls es)).map fun k => 2 * k + 1 := by
    intro g hg
    obtain ⟨k, hk, rfl⟩ := hinUse.due g (hdue g hg)
    exact List.mem_map.mpr ⟨k, List.mem_range.mpr hk, rfl⟩
  have hle := ((nodup_fires hwatchdog).subperm hsub).length_le
  rwa [List.length_map, List.length_range] at hle

/-- A call that overruns its slice, is counted while it lasts, and has ended; the next one is in
time. -/
theorem one_fire_a_call_two :
    ∃ s, (machine 5).run spawn
        [.run 0, .call 1, .notify, .run 2, .wake, .run 7, .fire, .run 8, .runJob, .callEnds,
          .notify, .run 9, .call 10, .notify, .run 11, .callEnds, .notify] =
            some (s, [.due 1, .fire 1]) ∧
      fires [.due 1, .fire 1] = [1] ∧ s.postponedJobCount = 1 ∧
      (∀ g ∈ fires [.due 1, .fire 1], Overran 5
        [.run 0, .call 1, .notify, .run 2, .wake, .run 7, .fire, .run 8, .runJob, .callEnds,
          .notify, .run 9, .call 10, .notify, .run 11, .callEnds, .notify] g) := by
  have hrun : (machine 5).run spawn
      [.run 0, .call 1, .notify, .run 2, .wake, .run 7, .fire, .run 8, .runJob, .callEnds, .notify,
        .run 9, .call 10, .notify, .run 11, .callEnds, .notify] =
      some (⟨⟨.idle, 4, .waiting (.timed 15) true, []⟩, .between, false, 1⟩, [.due 1, .fire 1]) :=
    rfl
  exact ⟨_, hrun, rfl, rfl, (one_fire_a_call hrun).2.1⟩

/-! ## 5. A call that overruns is noticed -/

/-- The thread returns behind the shutdown only. -/
theorem shutDown_of_returned {es : List Event} {s : Preemption} {os : List Watchdog.Effect}
    (h : (machine cpuTimeSlice).run spawn es = some (s, os)) :
    s.watchdog.thread = .returned → s.ShutDown := by
  refine Machine.run_induction (P := fun _ s _ => s.watchdog.thread = .returned → s.ShutDown)
    (fun hret => by cases hret) ?_ h
  intro es s os e s' o hrun ih hst hret
  have hserver : s.watchdog.thread = .returned → s.server ≠ .shuttingDown → s.server ≠ .joining →
      s.server ≠ .joined → False := by
    intro hret h₁ h₂ h₃
    rcases ih hret with h | h | h
    · exact h₁ h
    · exact h₂ h
    · exact h₃ h
  have hwoken : ∀ {t : Watchdog.Thread}, Watchdog.wakeThread t = .returned → t = .returned := by
    intro t ht
    cases t <;> first | rfl | cases ht
  cases step_cases hst with
  | call hs | callEnds hs =>
    exact (hserver hret (by simp [hs]) (by simp [hs]) (by simp [hs])).elim
  | notifyArmed hs | notifyDisarmed hs =>
    exact (hserver (hwoken hret) (by simp [hs]) (by simp [hs]) (by simp [hs])).elim
  | dropGuard => exact Or.inl rfl
  | notifyShutdown => exact Or.inr (Or.inl rfl)
  | join => exact Or.inr (Or.inr rfl)
  | wake | fire => cases hret
  | runJob => exact ih hret
  | run hwants hsection =>
    cases hsection with
    | returned htop hstate =>
      have hphase := run_inPhase hrun
      unfold InPhase at hphase
      cases hs : s.server <;>
        simp only [hs, hstate, reduceCtorEq, false_and, exists_false] at hphase
      case shuttingDown => exact Or.inl rfl
      case joining => exact Or.inr (Or.inl rfl)
      case joined => exact Or.inr (Or.inr rfl)
    | rest | idle | early | due => cases hret

/-- Until it ends, a call stays armed for as it was. -/
theorem during_call {s s' : Preemption} {es : List Event} {os : List Watchdog.Effect}
    {deadline g : Nat} (h : (machine cpuTimeSlice).run s es = some (s', os))
    (hserver : s.server = .arming ∨ s.server = .handling)
    (harmed : s.watchdog.state = .armed deadline) (hgen : s.watchdog.generation = g)
    (hes : ∀ e ∈ es, e ≠ .callEnds) :
    (s'.server = .arming ∨ s'.server = .handling) ∧ s'.watchdog.state = .armed deadline ∧
      s'.watchdog.generation = g := by
  refine Machine.run_induction (P := fun es s' _ => (∀ e ∈ es, e ≠ .callEnds) →
    (s'.server = .arming ∨ s'.server = .handling) ∧ s'.watchdog.state = .armed deadline ∧
      s'.watchdog.generation = g) (fun _ => ⟨hserver, harmed, hgen⟩) ?_ h hes
  intro es s os e s' o _ ih hst hes
  obtain ⟨hserver, harmed, hgen⟩ := ih fun x hx => hes x (List.mem_append_left _ hx)
  have hother : ∀ {x : ServerThread}, s.server = x → x ≠ .arming → x ≠ .handling → False := by
    rintro _ rfl h₁ h₂
    exact hserver.elim h₁ h₂
  cases step_cases hst with
  | callEnds => exact absurd rfl (hes _ (List.mem_append_right _ List.mem_cons_self))
  | call hs | notifyDisarmed hs | notifyShutdown hs | dropGuard hs | join hs =>
    exact (hother hs nofun nofun).elim
  | notifyArmed => exact ⟨Or.inr rfl, harmed, hgen⟩
  | wake | run | fire | runJob => exact ⟨hserver, harmed, hgen⟩

/-- A thread that is behind the `fire` for a generation has called it. -/
theorem fire_of_wants {w : Watchdog} {os : List Watchdog.Effect} {g : Nat} (hi : w.Inv os)
    (hwants : w.thread.Wants) (h : w.thread.firedGeneration = some g) : .fire g ∈ os := by
  rcases hwants with hthread | ⟨wait, hthread⟩ | ⟨f, hthread⟩
  · rw [hthread] at h
    cases h
  · rw [hthread] at h
    cases wait <;> cases h
    exact hi.fired g (Or.inr ⟨true, hthread⟩)
  · rw [hthread] at h
    cases h
    exact hi.fired g (Or.inl hthread)

/-- **No call is slept through.**  While a call is with the handler and was not fired for, the
watchdog thread is alive; if it sleeps, it sleeps up to the deadline of this call; and if it
holds the mutex with the slice behind, it leaves it to fire for this call. -/
theorem overrun_noticed {pre mid : List Event} {t : Nat} {s : Preemption}
    {os : List Watchdog.Effect}
    (h : (machine cpuTimeSlice).run spawn (pre ++ .call t :: mid) = some (s, os))
    (hmid : ∀ e ∈ mid, e ≠ .callEnds) (hserver : s.server = .handling)
    (hnot : .fire (2 * calls pre + 1) ∉ os) :
    s.watchdog.thread ≠ .returned ∧
      (∀ wait, s.watchdog.thread = .waiting wait false → wait = .timed (t + cpuTimeSlice)) ∧
      ∀ now s' o, t + cpuTimeSlice ≤ now →
        (machine cpuTimeSlice).step s (.run now) = some (s', o) →
        o = [.due (2 * calls pre + 1)] ∧ s'.watchdog.thread = .firing (2 * calls pre + 1) := by
  have hwatchdog := run_watchdog h
  have hphase := run_inPhase h
  have hinUse := run_inUse h
  have hret : s.watchdog.thread ≠ .returned := by
    intro hret
    rcases shutDown_of_returned h hret with hs | hs | hs <;> rw [hserver] at hs <;> cases hs
  simp only [InPhase, hserver] at hphase
  obtain ⟨-, -, hnotifies⟩ := hphase
  -- the call, and what has happened since
  obtain ⟨s₀, os₀, os₁, hpre, hpost, -⟩ := Machine.run_append_inv h
  obtain ⟨s₁, o, os₂, hcall, hrest, -⟩ := Machine.run_cons_inv hpost
  obtain ⟨hserver₁, harmed₁, hgen₁⟩ : s₁.server = .arming ∧
      s₁.watchdog.state = .armed (t + cpuTimeSlice) ∧
      s₁.watchdog.generation = 2 * calls pre + 1 := by
    have hphase₀ := run_inPhase hpre
    cases step_cases hcall with
    | call hs =>
      simp only [InPhase, hs] at hphase₀
      exact ⟨rfl, rfl, by simp only [Watchdog.arm, hphase₀.2.1]⟩
  obtain ⟨-, harmed, hgen⟩ := during_call hrest (Or.inl hserver₁) harmed₁ hgen₁ hmid
  refine ⟨hret, fun wait hwait => ?_, fun now s' o hnow hst => ?_⟩
  · cases wait with
    | idle =>
      have htold := hwatchdog.idle_notified hwait _ harmed
      rw [hnotifies] at htold
      cases htold
    | timed deadline =>
      rcases hinUse.timed deadline hwait with hne | hd
      · exact absurd hnotifies hne
      · rw [harmed] at hd
        cases hd
        rfl
    | afterFire g =>
      by_cases hg : s.watchdog.generation = g
      · have hfire := hwatchdog.fired g (Or.inr ⟨false, hwait⟩)
        rw [← hg, hgen] at hfire
        exact absurd hfire hnot
      · have htold := hwatchdog.fired_notified g hwait hg
        rw [hnotifies] at htold
        cases htold
  · cases step_cases hst with
    | run hwants hsection =>
      cases hsection with
      | due => exact ⟨by rw [hgen], by rw [hgen]⟩
      | rest hfired hg =>
        have hfire := fire_of_wants hwatchdog hwants hfired
        rw [← hg, hgen] at hfire
        exact absurd hfire hnot
      | returned htop hstate | idle htop hstate =>
        rw [harmed] at hstate
        cases hstate
      | early htop hstate hearly =>
        rw [harmed] at hstate
        cases hstate
        omega

/-- The `fire` for the first call comes late, when the second one is under way: it is not in the
way of noticing that that one overruns, too. -/
theorem overrun_noticed_late :
    ∃ s s', (machine 5).run spawn
        ([.run 0, .call 1, .notify, .run 6, .callEnds, .notify] ++ .call 7 ::
          [.notify, .fire]) = some (s, [.due 1, .fire 1]) ∧
      s.watchdog.thread ≠ .returned ∧
      (machine 5).step s (.run 12) = some (s', [.due 3]) ∧ s'.watchdog.thread = .firing 3 := by
  have hrun : (machine 5).run spawn
      ([.run 0, .call 1, .notify, .run 6, .callEnds, .notify] ++ .call 7 ::
        [.notify, .fire]) =
      some (⟨⟨.armed 12, 3, .fired 1, []⟩, .handling, true, 0⟩, [.due 1, .fire 1]) := rfl
  obtain ⟨hret, -, hdue⟩ := overrun_noticed hrun (by decide) rfl (by decide)
  exact ⟨_, _, hrun, hret, rfl, (hdue 12 _ _ (Nat.le_refl _) rfl).2⟩

/-! ## 6. The join returns -/

/-- How far the watchdog thread is from its end. -/
def threadRank : Watchdog.Thread → Nat
  | .returned => 0
  | .starting | .waiting _ true | .fired _ => 2
  | .waiting _ false => 3
  | .firing _ => 4

def serverRank : ServerThread → Nat
  | .joined => 0
  | .joining => 1
  | .between | .arming | .handling | .disarming | .shuttingDown => 2

def rank (s : Preemption) : Nat :=
  threadRank s.watchdog.thread + s.triggered.toNat + serverRank s.server

theorem rank_wakeThread_le (t : Watchdog.Thread) :
    threadRank (Watchdog.wakeThread t) ≤ threadRank t := by
  cases t with
  | waiting wait woken => cases woken <;> simp [Watchdog.wakeThread, threadRank]
  | starting | firing | fired | returned => exact Nat.le_refl _

theorem rank_of_wants {t : Watchdog.Thread} (h : t.Wants) : threadRank t = 2 := by
  rcases h with rfl | ⟨wait, rfl⟩ | ⟨g, rfl⟩ <;> rfl

/-- Behind the shutdown, every step brings the end nearer. -/
theorem Move.rank_lt {s s' : Preemption} {e : Event} {os : List Watchdog.Effect}
    (hends : s.watchdog.Ends) (hshut : s.ShutDown) (h : s.Move cpuTimeSlice e s' os) :
    s'.ShutDown ∧ s'.rank < s.rank := by
  have hother : ∀ {x : ServerThread}, s.server = x → x ≠ .shuttingDown → x ≠ .joining →
      x ≠ .joined → False := by
    rintro _ rfl h₁ h₂ h₃
    exact hshut.elim h₁ fun h => h.elim h₂ h₃
  cases h with
  | call hs | notifyArmed hs | notifyDisarmed hs | callEnds hs | dropGuard hs =>
    exact (hother hs nofun nofun nofun).elim
  | notifyShutdown hs =>
    refine ⟨Or.inr (Or.inl rfl), ?_⟩
    have hle := rank_wakeThread_le s.watchdog.thread
    simp only [rank, Watchdog.notifyOne, serverRank, hs]
    omega
  | join hs =>
    refine ⟨Or.inr (Or.inr rfl), ?_⟩
    simp only [rank, serverRank, hs]
    omega
  | wake hthread =>
    refine ⟨hshut, ?_⟩
    simp only [rank, hthread, threadRank]
    omega
  | @run now t os hwants hsection =>
    refine ⟨hshut, ?_⟩
    have hreturned : t = .returned := by
      rcases Watchdog.returnsNext_iff.mp hends.1 with hret | ⟨hstate, hne⟩
      · rw [hret] at hwants
        exact absurd hwants Watchdog.Thread.not_wants_returned
      · exact hsection.eq_returned hstate hne
    have hzero : threadRank .returned = 0 := rfl
    simp only [rank, hreturned, hzero, rank_of_wants hwants]
    omega
  | fire hthread =>
    refine ⟨hshut, ?_⟩
    simp only [rank, hthread, threadRank, Bool.toNat_true]
    omega
  | runJob htriggered =>
    refine ⟨hshut, ?_⟩
    simp only [rank, htriggered, Bool.toNat_true, Bool.toNat_false]
    omega

/-- Behind the shutdown, there is a next step until the join is over. -/
theorem exists_step {s : Preemption} {calls : Nat} (hphase : s.InPhase calls)
    (hends : s.watchdog.Ends) (hshut : s.ShutDown) (hjoined : s.server ≠ .joined) :
    ∃ e s' o, (machine cpuTimeSlice).step s e = some (s', o) := by
  rcases hshut with hs | hs | hs
  · refine ⟨.notify, { s with
      watchdog := s.watchdog.notifyOne .shutdown, server := .joining }, [], ?_⟩
    simp only [machine, step, hs]
  · simp only [InPhase, hs] at hphase
    obtain ⟨-, -, hnotifies⟩ := hphase
    have hrun : s.watchdog.thread.Wants →
        ∃ e s' o, (machine cpuTimeSlice).step s e = some (s', o) := by
      intro hwants
      obtain ⟨t, o, hcritical⟩ := hwants.critical 0
      refine ⟨.run 0, { s with watchdog := { s.watchdog with thread := t } }, o, ?_⟩
      simp only [machine, step, watchdogStep, Watchdog.step, hcritical, Option.map_some]
    cases hthread : s.watchdog.thread with
    | starting => exact hrun (Or.inl hthread)
    | fired g => exact hrun (Or.inr (Or.inr ⟨g, hthread⟩))
    | waiting wait woken =>
      cases woken with
      | true => exact hrun (Or.inr (Or.inl ⟨wait, hthread⟩))
      | false =>
        have htold := hends.2 wait hthread
        rw [hnotifies] at htold
        cases htold
    | firing g =>
      refine ⟨.fire,
        { s with watchdog := { s.watchdog with thread := .fired g }, triggered := true },
        [.fire g], ?_⟩
      simp only [machine, step, watchdogStep, Watchdog.step, hthread, Option.map_some]
    | returned =>
      refine ⟨.join, { s with server := .joined }, [], ?_⟩
      simp only [machine, step, hs, hthread]
  · exact absurd hs hjoined

/-- **The join returns.**  In whatever state the last call has left the watchdog, and in whatever
order the two threads go on: from the critical section of `shutdown` on there is no infinite run,
and a run ends only when the watchdog thread has returned and the server thread has joined it. -/
theorem join_returns {es : List Event} {s : Preemption} {os : List Watchdog.Effect}
    (h : (machine cpuTimeSlice).run spawn es = some (s, os)) (hshut : s.ShutDown) :
    (machine cpuTimeSlice).Terminates s ∧
      ∀ es' s' os', (machine cpuTimeSlice).run s es' = some (s', os') →
        (∀ e, (machine cpuTimeSlice).step s' e = none) →
        s'.server = .joined ∧ s'.watchdog.thread = .returned := by
  have hstep : ∀ {s : Preemption} {e : Event} {s' : Preemption} {o : List Watchdog.Effect},
      (∃ es os, (machine cpuTimeSlice).run spawn es = some (s, os)) ∧ s.ShutDown →
      (machine cpuTimeSlice).step s e = some (s', o) →
      ((∃ es os, (machine cpuTimeSlice).run spawn es = some (s', os)) ∧ s'.ShutDown) ∧
        s'.rank < s.rank := by
    rintro s e s' o ⟨⟨es, os, hrun⟩, hshut⟩ hst
    obtain ⟨hshut', hlt⟩ := (step_cases hst).rank_lt ((run_inUse hrun).ends hshut) hshut
    have hone := Machine.run_cons hst (Machine.run_nil _ _)
    exact ⟨⟨⟨_, _, Machine.run_append hrun hone⟩, hshut'⟩, hlt⟩
  constructor
  · refine Machine.terminates_of_measure Nat.lt_wfRel.wf rank (D := fun _ => False)
      (fun _ _ hD => hD.elim) (fun s e s' o hI hst => Or.inr (hstep hI hst)) ⟨⟨es, os, h⟩, hshut⟩
  · intro es' s' os' hrun hstuck
    obtain ⟨⟨es₁, os₁, hrun₁⟩, hshut'⟩ := Machine.run_invariant
      (I := fun s => (∃ es os, (machine cpuTimeSlice).run spawn es = some (s, os)) ∧ s.ShutDown)
      ⟨⟨es, os, h⟩, hshut⟩ (fun s e s' o hI hst => (hstep hI hst).1) hrun
    have hjoined : s'.server = .joined := by
      by_contra hne
      obtain ⟨e, s'', o, hst⟩ :=
        exists_step (run_inPhase hrun₁) ((run_inUse hrun₁).ends hshut') hshut' hne
      rw [hstuck e] at hst
      cases hst
    have hphase := run_inPhase hrun₁
    simp only [InPhase, hjoined] at hphase
    exact ⟨hjoined, hphase⟩

/-- The thread has decided to fire for the last call when the shutdown comes. -/
theorem join_returns_late :
    ∃ s s', (machine 5).run spawn
        [.run 0, .call 1, .notify, .run 6, .callEnds, .notify, .dropGuard] = some (s, [.due 1]) ∧
      (machine 5).Terminates s ∧
      (machine 5).run s [.notify, .fire, .run 7, .join, .runJob] = some (s', [.fire 1]) ∧
      s'.server = .joined ∧ s'.watchdog.thread = .returned := by
  have hrun : (machine 5).run spawn
      [.run 0, .call 1, .notify, .run 6, .callEnds, .notify, .dropGuard] =
      some (⟨⟨.shutdown, 2, .firing 1, [.shutdown]⟩, .shuttingDown, false, 0⟩, [.due 1]) := rfl
  obtain ⟨hterminates, hjoined⟩ := join_returns hrun (Or.inl rfl)
  refine ⟨_, ⟨⟨.shutdown, 2, .returned, []⟩, .joined, false, 1⟩, hrun, hterminates, rfl, ?_⟩
  refine hjoined _ _ _ (show (machine 5).run _ [.notify, .fire, .run 7, .join, .runJob] =
    some (_, [.fire 1]) from rfl) fun e => ?_
  cases e <;> rfl

end Preemption

end HelixRack
