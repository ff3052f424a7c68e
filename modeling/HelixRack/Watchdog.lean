/-
# The preemption watchdog

The server thread arms the watchdog for a request and disarms it afterwards; the watchdog thread
waits for the deadline and calls `fire` if it passes while the watchdog is still armed.  The two
share a state and a generation under one mutex, and a condition variable on which only the
watchdog thread waits.

A critical section is one event.  What happens with the mutex free is an event too: issuing the
`notify_one` that a critical section leaves behind, waking up (notified, timed out or
spuriously), and the call of `fire`.  Any order of these is a run, so a run may have the watchdog
thread sleep through any number of requests.  The generation is a number that does not wrap.

Of every run: a period is fired for at most once, a period disarmed before its deadline was
noticed is not fired for, and the thread does not sleep through a period
(`watchdog_fires_once`).  Two things hold only under a condition, and exactly under it: that the
thread ends when it is told to (`shutdown_ends_iff`), and that a `fire` finds its period still
armed (`fire_while_armed_iff`).
-/
import HelixRack.Machine

namespace HelixRack

namespace Watchdog

/-! ## 1. The shared state and the thread -/

/-- `State`; an `Instant` is a number. -/
inductive State where
  | idle
  | armed (deadline : Nat)
  | shutdown
  deriving DecidableEq, Repr

/-- The wait on the condition variable the thread is in. -/
inductive Wait where
  /-- `cv.wait` with the state `Idle`. -/
  | idle
  /-- `cv.wait_timeout` up to the deadline. -/
  | timed (deadline : Nat)
  /-- `cv.wait` in the loop behind the `fire` for the generation. -/
  | afterFire (firedGeneration : Nat)
  deriving DecidableEq, Repr

/-- Where the watchdog thread is in `run`, outside its critical sections. -/
inductive Thread where
  /-- Before the first `lock`. -/
  | starting
  /-- In a wait; `woken` once the wait is over and only the mutex is missing. -/
  | waiting (wait : Wait) (woken : Bool)
  /-- The mutex is released, `fire` not called yet. -/
  | firing (firedGeneration : Nat)
  /-- `fire` has returned. -/
  | fired (firedGeneration : Nat)
  | returned
  deriving DecidableEq, Repr

/-- A `notify_one` that a call has yet to issue: that of the `arm` or `disarm` that made the
generation, or that of a `shutdown`. -/
inductive Notify where
  | transition (generation : Nat)
  | shutdown
  deriving DecidableEq, Repr

inductive Event where
  /-- The critical section of `arm`. -/
  | arm (now slice : Nat)
  /-- The critical section of `disarm`. -/
  | disarm
  /-- The critical section of `shutdown`. -/
  | shutdown
  /-- A call issues its `notify_one`. -/
  | notify (n : Notify)
  /-- The wait of the thread is over for another reason. -/
  | wake
  /-- The thread takes the mutex, and holds it until it waits, fires or returns. -/
  | run (now : Nat)
  /-- The thread calls `fire`. -/
  | fire
  deriving DecidableEq, Repr

inductive Effect where
  /-- The thread has found the deadline of the generation passed. -/
  | due (generation : Nat)
  /-- `fire` was called for the generation. -/
  | fire (generation : Nat)
  deriving DecidableEq, Repr

end Watchdog

/-- The mutex's `(State, u64)`, the thread, and the notifications on their way. -/
structure Watchdog where
  state : Watchdog.State
  generation : Nat
  thread : Watchdog.Thread
  notifies : List Watchdog.Notify
  deriving DecidableEq, Repr

namespace Watchdog

def spawn : Watchdog :=
  { state := .idle, generation := 0, thread := .starting, notifies := [] }

def arm (w : Watchdog) (now slice : Nat) : Watchdog :=
  { w with
    state := .armed (now + slice)
    generation := w.generation + 1
    notifies := w.notifies ++ [.transition (w.generation + 1)] }

def disarm (w : Watchdog) : Watchdog :=
  { w with
    state := .idle
    generation := w.generation + 1
    notifies := w.notifies ++ [.transition (w.generation + 1)] }

def shutdown (w : Watchdog) : Watchdog :=
  { w with state := .shutdown, notifies := w.notifies ++ [.shutdown] }

/-- The end of a wait. -/
def wakeThread : Thread → Thread
  | .waiting wait _ => .waiting wait true
  | t => t

/-- `notify_one`; it is lost on a thread that does not wait. -/
def notifyOne (w : Watchdog) (n : Notify) : Watchdog :=
  { w with thread := wakeThread w.thread, notifies := w.notifies.erase n }

/-- The body of `loop` in `run`, from its `match` on. -/
def matchState (w : Watchdog) (now : Nat) : Thread × List Effect :=
  match w.state with
  | .shutdown => (.returned, [])
  | .idle => (.waiting .idle false, [])
  | .armed deadline =>
    if now < deadline then (.waiting (.timed deadline) false, [])
    else (.firing w.generation, [.due w.generation])

/-- `while guard.1 == fired_generation`, and on. -/
def afterFire (w : Watchdog) (firedGeneration now : Nat) : Thread × List Effect :=
  if w.generation = firedGeneration then (.waiting (.afterFire firedGeneration) false, [])
  else w.matchState now

/-- What the thread does with the mutex, once it has it. -/
def critical (w : Watchdog) (now : Nat) : Option (Thread × List Effect) :=
  match w.thread with
  | .starting | .waiting .idle true | .waiting (.timed _) true => some (w.matchState now)
  | .waiting (.afterFire g) true | .fired g => some (w.afterFire g now)
  | .waiting _ false | .firing _ | .returned => none

def step (w : Watchdog) : Event → Option (Watchdog × List Effect)
  | .arm now slice => some (w.arm now slice, [])
  | .disarm => some (w.disarm, [])
  | .shutdown => some (w.shutdown, [])
  | .notify n => if n ∈ w.notifies then some (w.notifyOne n, []) else none
  | .wake =>
    match w.thread with
    | .waiting wait false => some ({ w with thread := .waiting wait true }, [])
    | _ => none
  | .run now => (w.critical now).map fun (thread, effects) => ({ w with thread }, effects)
  | .fire =>
    match w.thread with
    | .firing g => some ({ w with thread := .fired g }, [.fire g])
    | _ => none

def machine : Machine Watchdog Event Effect where
  step := step

/-- The armed period of the generation is under way. -/
def Armed (w : Watchdog) (generation : Nat) : Prop :=
  w.generation = generation ∧ ∃ deadline, w.state = .armed deadline

/-- The generation the thread has decided to fire for, or has fired for, since it was last at
the top of its loop. -/
def Thread.firedGeneration : Thread → Option Nat
  | .firing g | .fired g | .waiting (.afterFire g) _ => some g
  | .starting | .waiting .idle _ | .waiting (.timed _) _ | .returned => none

/-- In a wait that only a `notify_one` or a spurious wakeup ends. -/
def Wait.Untimed : Wait → Prop
  | .timed _ => False
  | .idle | .afterFire _ => True

/-! ## 2. What a step can do -/

/-- The ways the thread can use the mutex. -/
inductive Section (w : Watchdog) (now : Nat) : Thread → List Effect → Prop
  | rest {g : Nat} (hthread : w.thread.firedGeneration = some g) (hgen : w.generation = g) :
      Section w now (.waiting (.afterFire g) false) []
  | returned (htop : ∀ g, w.thread.firedGeneration = some g → w.generation ≠ g)
      (hstate : w.state = .shutdown) : Section w now .returned []
  | idle (htop : ∀ g, w.thread.firedGeneration = some g → w.generation ≠ g)
      (hstate : w.state = .idle) : Section w now (.waiting .idle false) []
  | early {deadline : Nat} (htop : ∀ g, w.thread.firedGeneration = some g → w.generation ≠ g)
      (hstate : w.state = .armed deadline) (hnow : now < deadline) :
      Section w now (.waiting (.timed deadline) false) []
  | due {deadline : Nat} (htop : ∀ g, w.thread.firedGeneration = some g → w.generation ≠ g)
      (hstate : w.state = .armed deadline) (hnow : deadline ≤ now) :
      Section w now (.firing w.generation) [.due w.generation]

/-- The thread has something to do with the mutex, and nothing else before. -/
def Thread.Wants (t : Thread) : Prop :=
  t = .starting ∨ (∃ wait, t = .waiting wait true) ∨ ∃ g, t = .fired g

theorem matchState_section {w : Watchdog} {now : Nat} {t : Thread} {os : List Effect}
    (h : w.matchState now = (t, os))
    (htop : ∀ g, w.thread.firedGeneration = some g → w.generation ≠ g) :
    w.Section now t os := by
  unfold matchState at h
  split at h
  · rename_i hstate
    cases h
    exact .returned htop hstate
  · rename_i hstate
    cases h
    exact .idle htop hstate
  · rename_i deadline hstate
    split at h
    · rename_i hnow
      cases h
      exact .early htop hstate hnow
    · rename_i hnow
      cases h
      exact .due htop hstate (Nat.not_lt.mp hnow)

theorem afterFire_section {w : Watchdog} {now g : Nat} {t : Thread} {os : List Effect}
    (h : w.afterFire g now = (t, os)) (hthread : w.thread.firedGeneration = some g) :
    w.Section now t os := by
  unfold afterFire at h
  split at h
  · rename_i hgen
    cases h
    exact .rest hthread hgen
  · rename_i hgen
    refine matchState_section h fun g' hg' => ?_
    rw [hthread] at hg'
    cases hg'
    exact hgen

theorem critical_section {w : Watchdog} {now : Nat} {t : Thread} {os : List Effect}
    (h : w.critical now = some (t, os)) : w.thread.Wants ∧ w.Section now t os := by
  have htop : w.thread.firedGeneration = none → ∀ g, w.thread.firedGeneration = some g →
      w.generation ≠ g := by
    intro hnone g hg
    rw [hnone] at hg
    cases hg
  cases hthread : w.thread with
  | starting =>
    simp only [critical, hthread, Option.some.injEq] at h
    exact ⟨Or.inl rfl, matchState_section h (htop (by rw [hthread]; rfl))⟩
  | waiting wait woken =>
    cases woken with
    | false => simp [critical, hthread] at h
    | true =>
      refine ⟨Or.inr (Or.inl ⟨wait, rfl⟩), ?_⟩
      cases wait with
      | idle | timed =>
        simp only [critical, hthread, Option.some.injEq] at h
        exact matchState_section h (htop (by rw [hthread]; rfl))
      | afterFire g =>
        simp only [critical, hthread, Option.some.injEq] at h
        exact afterFire_section h (by rw [hthread]; rfl)
  | fired g =>
    simp only [critical, hthread, Option.some.injEq] at h
    exact ⟨Or.inr (Or.inr ⟨g, rfl⟩), afterFire_section h (by rw [hthread]; rfl)⟩
  | firing g | returned => simp [critical, hthread] at h

/-- A thread that wants the mutex can use it. -/
theorem Thread.Wants.critical {w : Watchdog} (h : w.thread.Wants) (now : Nat) :
    ∃ t os, w.critical now = some (t, os) := by
  rcases h with h | ⟨wait, h⟩ | ⟨g, h⟩
  · simp only [Watchdog.critical, h]
    exact ⟨_, _, rfl⟩
  · cases wait <;> simp only [Watchdog.critical, h] <;> exact ⟨_, _, rfl⟩
  · simp only [Watchdog.critical, h]
    exact ⟨_, _, rfl⟩

/-- The ways a step can go. -/
inductive Move (w : Watchdog) : Event → Watchdog → List Effect → Prop
  | arm (now slice : Nat) : Move w (.arm now slice) (w.arm now slice) []
  | disarm : Move w .disarm w.disarm []
  | shutdown : Move w .shutdown w.shutdown []
  | notify {n : Notify} (hn : n ∈ w.notifies) : Move w (.notify n) (w.notifyOne n) []
  | wake {wait : Wait} (hthread : w.thread = .waiting wait false) :
      Move w .wake { w with thread := .waiting wait true } []
  | run {now : Nat} {t : Thread} {os : List Effect} (hwants : w.thread.Wants)
      (hsection : w.Section now t os) : Move w (.run now) { w with thread := t } os
  | fire {g : Nat} (hthread : w.thread = .firing g) :
      Move w .fire { w with thread := .fired g } [.fire g]

theorem step_cases {w w' : Watchdog} {e : Event} {os : List Effect}
    (h : machine.step w e = some (w', os)) : w.Move e w' os := by
  change step w e = some (w', os) at h
  cases e with
  | arm now slice =>
    cases h
    exact .arm now slice
  | disarm =>
    cases h
    exact .disarm
  | shutdown =>
    cases h
    exact .shutdown
  | notify n =>
    simp only [step] at h
    split at h
    · rename_i hn
      cases h
      exact .notify hn
    · cases h
  | wake =>
    simp only [step] at h
    split at h
    · rename_i wait hthread
      cases h
      exact .wake hthread
    · cases h
  | run now =>
    simp only [step, Option.map_eq_some_iff] at h
    obtain ⟨⟨t, os'⟩, hcritical, heq⟩ := h
    cases heq
    obtain ⟨hwants, hsection⟩ := critical_section hcritical
    exact .run hwants hsection
  | fire =>
    simp only [step] at h
    split at h
    · rename_i g hthread
      cases h
      exact .fire hthread
    · cases h

@[simp] theorem firedGeneration_wakeThread (t : Thread) :
    (wakeThread t).firedGeneration = t.firedGeneration := by
  cases t with
  | waiting wait woken => cases wait <;> rfl
  | starting | firing g | fired g | returned => rfl

/-! ## 3. One `fire` for a period, and no period slept through -/

/-- Every generation fired for so far is below this. -/
def firedBelow (w : Watchdog) : Nat :=
  match w.thread with
  | .firing g => g
  | .fired g | .waiting (.afterFire g) _ => g + 1
  | .starting | .waiting .idle _ | .waiting (.timed _) _ => w.generation
  | .returned => w.generation + 1

/-- **What holds of the watchdog and everything it has done so far.** -/
structure Inv (w : Watchdog) (os : List Effect) : Prop where
  count_fire : ∀ g, os.count (.fire g) ≤ 1
  due_of_fire : ∀ g, .fire g ∈ os → .due g ∈ os
  fire_lt : ∀ g, .fire g ∈ os → g < w.firedBelow
  fired_le : ∀ g, w.thread.firedGeneration = some g → g ≤ w.generation
  due_of_firing : ∀ g, w.thread = .firing g → .due g ∈ os
  fired : ∀ g, w.thread = .fired g ∨ (∃ woken, w.thread = .waiting (.afterFire g) woken) →
    .fire g ∈ os
  /-- Who sleeps in the outer wait is still to be told of an `arm`.. -/
  idle_notified : w.thread = .waiting .idle false → ∀ deadline, w.state = .armed deadline →
    .transition w.generation ∈ w.notifies
  /-- ..and who sleeps in the inner one, of a change of the generation. -/
  fired_notified : ∀ g, w.thread = .waiting (.afterFire g) false → w.generation ≠ g →
    .transition w.generation ∈ w.notifies

theorem spawn_inv : spawn.Inv [] where
  count_fire g := Nat.zero_le _
  due_of_fire g hg := by cases hg
  fire_lt g hg := by cases hg
  fired_le g hg := by cases hg
  due_of_firing g hg := by cases hg
  fired g hg := by rcases hg with hg | ⟨woken, hg⟩ <;> cases hg
  idle_notified h := by cases h
  fired_notified g h := by cases h

/-- A transition by `arm` or `disarm`. -/
theorem Inv.transition {w : Watchdog} {os : List Effect} (hi : w.Inv os) (state : State) :
    Inv ⟨state, w.generation + 1, w.thread, w.notifies ++ [.transition (w.generation + 1)]⟩ os where
  count_fire := hi.count_fire
  due_of_fire := hi.due_of_fire
  fire_lt g hg := by
    refine Nat.lt_of_lt_of_le (hi.fire_lt g hg) ?_
    simp only [firedBelow]
    split <;> omega
  fired_le g hg := Nat.le_succ_of_le (hi.fired_le g hg)
  due_of_firing := hi.due_of_firing
  fired := hi.fired
  idle_notified _ _ _ := List.mem_append_right _ List.mem_cons_self
  fired_notified _ _ _ := List.mem_append_right _ List.mem_cons_self

/-- A step that only wakes the thread. -/
theorem Inv.woken {w : Watchdog} {os : List Effect} (hi : w.Inv os) (notifies : List Notify) :
    Inv ⟨w.state, w.generation, wakeThread w.thread, notifies⟩ os := by
  have hbelow : firedBelow ⟨w.state, w.generation, wakeThread w.thread, notifies⟩ =
      w.firedBelow := by
    cases hthread : w.thread with
    | waiting wait woken => cases wait <;> simp only [firedBelow, wakeThread, hthread]
    | starting | firing | fired | returned => simp only [firedBelow, wakeThread, hthread]
  refine ⟨hi.count_fire, hi.due_of_fire, fun g hg => ?_, fun g hg => ?_, fun g hg => ?_,
    fun g hg => ?_, fun h => ?_, fun g h => ?_⟩
  · rw [hbelow]
    exact hi.fire_lt g hg
  · rw [firedGeneration_wakeThread] at hg
    exact hi.fired_le g hg
  · refine hi.due_of_firing g ?_
    cases hthread : w.thread <;> simp only [wakeThread, hthread, reduceCtorEq] at hg ⊢
    exact hg
  · refine hi.fired g ?_
    cases hthread : w.thread with
    | waiting wait woken =>
      rcases hg with hg | ⟨woken', hg⟩ <;> simp only [wakeThread, hthread, reduceCtorEq] at hg
      cases hg
      exact Or.inr ⟨woken, rfl⟩
    | starting | firing | fired | returned =>
      simp only [wakeThread, hthread] at hg
      exact hg
  · cases hthread : w.thread <;> simp [wakeThread, hthread] at h
  · cases hthread : w.thread <;> simp [wakeThread, hthread] at h

/-- With the generation it fired for gone by, the thread has fired for earlier ones only. -/
theorem Inv.fire_lt_generation {w : Watchdog} {os : List Effect} (hi : w.Inv os)
    (hwants : w.thread.Wants) (htop : ∀ g, w.thread.firedGeneration = some g → w.generation ≠ g) :
    ∀ g, .fire g ∈ os → g < w.generation := by
  intro g hg
  have hlt : g < w.firedBelow := hi.fire_lt g hg
  have hpast : ∀ f, w.thread.firedGeneration = some f → f < w.generation := by
    intro f hf
    exact Nat.lt_of_le_of_ne (hi.fired_le f hf) (Ne.symm (htop f hf))
  rcases hwants with hthread | ⟨wait, hthread⟩ | ⟨f, hthread⟩
  · simpa only [firedBelow, hthread] using hlt
  · cases wait with
    | idle | timed => simpa only [firedBelow, hthread] using hlt
    | afterFire f =>
      have hf : f < w.generation := hpast f (by rw [hthread]; rfl)
      simp only [firedBelow, hthread] at hlt
      omega
  · have hf : f < w.generation := hpast f (by rw [hthread]; rfl)
    simp only [firedBelow, hthread] at hlt
    omega

theorem firedBelow_le {w : Watchdog} {os : List Effect} (hi : w.Inv os) :
    w.firedBelow ≤ w.generation + 1 := by
  have hfired := hi.fired_le
  cases hthread : w.thread with
  | waiting wait woken =>
    cases wait with
    | afterFire g =>
      have hg : g ≤ w.generation := hfired g (by rw [hthread]; rfl)
      simp only [firedBelow, hthread]
      omega
    | idle | timed => simp only [firedBelow, hthread, Nat.le_succ]
  | fired g | firing g =>
    have hg : g ≤ w.generation := hfired g (by rw [hthread]; rfl)
    simp only [firedBelow, hthread]
    omega
  | starting | returned => simp only [firedBelow, hthread, Nat.le_succ, Nat.le_refl]

theorem Section.inv {w : Watchdog} {os os' : List Effect} {now : Nat} {t : Thread}
    (hi : w.Inv os) (hwants : w.thread.Wants) (h : w.Section now t os') :
    Inv { w with thread := t } (os ++ os') := by
  cases h with
  | @rest g hthread hgen =>
    have hfired : w.thread = .fired g ∨ ∃ woken, w.thread = .waiting (.afterFire g) woken := by
      rcases hwants with ht | ⟨wait, ht⟩ | ⟨f, ht⟩
      · rw [ht] at hthread
        cases hthread
      · cases wait <;> rw [ht] at hthread <;> cases hthread
        exact Or.inr ⟨true, ht⟩
      · rw [ht] at hthread
        cases hthread
        exact Or.inl ht
    have hbelow : w.firedBelow = g + 1 := by
      rcases hfired with ht | ⟨woken, ht⟩ <;> simp only [firedBelow, ht]
    rw [List.append_nil]
    refine ⟨hi.count_fire, hi.due_of_fire, fun f hf => ?_, fun f hf => ?_, nofun, fun f hf => ?_,
      nofun, fun f hf hne => ?_⟩
    · have hlt : f < w.firedBelow := hi.fire_lt f hf
      rw [hbelow] at hlt
      exact hlt
    · cases hf
      exact Nat.le_of_eq hgen.symm
    · rcases hf with hf | ⟨woken, hf⟩ <;> cases hf
      exact hi.fired g hfired
    · cases hf
      exact absurd hgen hne
  | returned htop hstate =>
    rw [List.append_nil]
    refine ⟨hi.count_fire, hi.due_of_fire, fun f hf => ?_, nofun, nofun, fun f hf => ?_, nofun,
      nofun⟩
    · exact Nat.lt_of_lt_of_le (hi.fire_lt f hf) (firedBelow_le hi)
    · rcases hf with hf | ⟨woken, hf⟩ <;> cases hf
  | idle htop hstate =>
    rw [List.append_nil]
    refine ⟨hi.count_fire, hi.due_of_fire, hi.fire_lt_generation hwants htop, nofun, nofun,
      fun f hf => ?_, fun _ deadline hd => ?_, nofun⟩
    · rcases hf with hf | ⟨woken, hf⟩ <;> cases hf
    · rw [hstate] at hd
      cases hd
  | early htop hstate hnow =>
    rw [List.append_nil]
    refine ⟨hi.count_fire, hi.due_of_fire, hi.fire_lt_generation hwants htop, nofun, nofun,
      fun f hf => ?_, nofun, nofun⟩
    rcases hf with hf | ⟨woken, hf⟩ <;> cases hf
  | due htop hstate hnow =>
    have hmem : ∀ f, .fire f ∈ os ++ [.due w.generation] → .fire f ∈ os := by
      intro f hf
      rcases List.mem_append.mp hf with hf | hf
      · exact hf
      · cases List.mem_singleton.mp hf
    refine ⟨fun f => ?_, fun f hf => List.mem_append_left _ (hi.due_of_fire f (hmem f hf)),
      fun f hf => hi.fire_lt_generation hwants htop f (hmem f hf), fun f hf => ?_, fun f hf => ?_,
      fun f hf => ?_, nofun, nofun⟩
    · rw [List.count_append]
      exact hi.count_fire f
    · cases hf
      exact Nat.le_refl _
    · cases hf
      exact List.mem_append_right _ List.mem_cons_self
    · rcases hf with hf | ⟨woken, hf⟩ <;> cases hf

theorem Move.inv {w w' : Watchdog} {e : Event} {os os' : List Effect} (hi : w.Inv os)
    (h : w.Move e w' os') : w'.Inv (os ++ os') := by
  cases h with
  | arm now slice =>
    rw [List.append_nil]
    exact hi.transition _
  | disarm =>
    rw [List.append_nil]
    exact hi.transition _
  | shutdown =>
    rw [List.append_nil]
    exact ⟨hi.count_fire, hi.due_of_fire, hi.fire_lt, hi.fired_le, hi.due_of_firing, hi.fired,
      fun _ deadline hd => (by cases hd),
      fun g hg hne => List.mem_append_left _ (hi.fired_notified g hg hne)⟩
  | notify hn =>
    rw [List.append_nil]
    exact hi.woken _
  | @wake wait hthread =>
    have hwoken := hi.woken w.notifies
    rw [hthread] at hwoken
    rw [List.append_nil]
    exact hwoken
  | run hwants hsection => exact hsection.inv hi hwants
  | @fire g hthread =>
    have hlt : ∀ f, .fire f ∈ os → f < g := by
      intro f hf
      have hf := hi.fire_lt f hf
      simpa only [firedBelow, hthread] using hf
    have hcases : ∀ f, .fire f ∈ os ++ [.fire g] → .fire f ∈ os ∨ f = g := by
      intro f hf
      rcases List.mem_append.mp hf with hf | hf
      · exact Or.inl hf
      · exact Or.inr (Effect.fire.inj (List.mem_singleton.mp hf))
    refine ⟨fun f => ?_, fun f hf => List.mem_append_left _ ?_, fun f hf => ?_, fun f hf => ?_,
      nofun, fun f hf => ?_, nofun, nofun⟩
    · rw [List.count_append]
      by_cases hfg : f = g
      · have hnot : .fire f ∉ os := fun hf => Nat.lt_irrefl f (hfg ▸ hlt f hf)
        have hzero : os.count (.fire f) = 0 := List.count_eq_zero.mpr hnot
        have hone : [Effect.fire g].count (.fire f) = 1 := by rw [hfg, List.count_singleton_self]
        omega
      · have hnot : .fire f ∉ [Effect.fire g] := fun hf =>
          hfg (Effect.fire.inj (List.mem_singleton.mp hf))
        rw [List.count_eq_zero.mpr hnot]
        exact hi.count_fire f
    · rcases hcases f hf with hf | rfl
      · exact hi.due_of_fire f hf
      · exact hi.due_of_firing f hthread
    · simp only [firedBelow]
      rcases hcases f hf with hf | rfl
      · exact Nat.lt_succ_of_lt (hlt f hf)
      · exact Nat.lt_succ_self _
    · cases hf
      exact hi.fired_le g (by rw [hthread]; rfl)
    · rcases hf with hf | ⟨woken, hf⟩ <;> cases hf
      exact List.mem_append_right _ List.mem_cons_self

theorem run_inv {es : List Event} {w : Watchdog} {os : List Effect}
    (h : machine.run spawn es = some (w, os)) : w.Inv os :=
  Machine.run_induction (P := fun _ w os => w.Inv os) spawn_inv
    (fun _ _ _ _ _ _ _ hi hst => (step_cases hst).inv hi) h

/-- The generation only grows, and a deadline is noticed for the current one only. -/
theorem Move.due_generation {w w' : Watchdog} {e : Event} {os : List Effect}
    (h : w.Move e w' os) :
    w.generation ≤ w'.generation ∧ ∀ g, .due g ∈ os → g = w.generation := by
  cases h with
  | arm | disarm => exact ⟨Nat.le_succ _, nofun⟩
  | shutdown | notify | wake => exact ⟨Nat.le_refl _, nofun⟩
  | fire => exact ⟨Nat.le_refl _, fun g hg => by cases List.mem_singleton.mp hg⟩
  | run hwants hsection =>
    refine ⟨Nat.le_refl _, fun g hg => ?_⟩
    cases hsection with
    | due => exact Effect.due.inj (List.mem_singleton.mp hg)
    | rest | returned | idle | early => cases hg

/-- A generation that has gone by is never noticed. -/
theorem not_due_of_lt {w w' : Watchdog} {es : List Event} {os : List Effect} {g : Nat}
    (h : machine.run w es = some (w', os)) (hlt : g < w.generation) : .due g ∉ os := by
  refine (Machine.run_induction (P := fun _ w os => g < w.generation ∧ .due g ∉ os)
    ⟨hlt, nofun⟩ ?_ h).2
  rintro es w os e w' o - ⟨hlt, hnot⟩ hst
  obtain ⟨hle, hdue⟩ := (step_cases hst).due_generation
  refine ⟨Nat.lt_of_lt_of_le hlt hle, fun hmem => ?_⟩
  rcases List.mem_append.mp hmem with hmem | hmem
  · exact hnot hmem
  · exact Nat.lt_irrefl g (hdue g hmem ▸ hlt)

/-- **The watchdog fires at most once for a period and never misses one.**  In every run, a
generation is fired for at most once; not at all if its `disarm` comes before the thread has
found its deadline passed; and where the thread sleeps in an untimed wait with the watchdog
armed for a generation it has not fired for, the `arm` has yet to issue its `notify_one`. -/
theorem watchdog_fires_once {es : List Event} {w : Watchdog} {os : List Effect}
    (h : machine.run spawn es = some (w, os)) :
    (∀ g, os.count (.fire g) ≤ 1) ∧
      (∀ pre post g w₁ os₁, es = pre ++ .disarm :: post →
        machine.run spawn pre = some (w₁, os₁) → w₁.Armed g → .due g ∉ os₁ → .fire g ∉ os) ∧
      ∀ wait g, w.thread = .waiting wait false → wait.Untimed → w.Armed g → .fire g ∉ os →
        .transition g ∈ w.notifies := by
  have hi := run_inv h
  refine ⟨hi.count_fire, ?_, ?_⟩
  · rintro pre post g w₁ os₁ he hpre ⟨hgen, -⟩ hnot hfire
    rw [he] at h
    obtain ⟨q, o₁, o₂, hq, hrest, hos⟩ := Machine.run_append_inv h
    rw [hpre] at hq
    cases hq
    obtain ⟨q', o, o₃, hst, hpost, hos₂⟩ := Machine.run_cons_inv hrest
    have hdue : .due g ∈ os := hi.due_of_fire g hfire
    cases step_cases hst with
    | disarm =>
      -- behind the `disarm` the generation is too high
      have hlater : .due g ∉ o₃ := not_due_of_lt hpost (by rw [← hgen]; exact Nat.lt_succ_self _)
      rw [hos, hos₂, List.nil_append] at hdue
      rcases List.mem_append.mp hdue with hdue | hdue
      · exact hnot hdue
      · exact hlater hdue
  · rintro wait g hthread huntimed ⟨hgen, deadline, hstate⟩ hfire
    cases wait with
    | timed deadline => cases huntimed
    | idle =>
      rw [← hgen]
      exact hi.idle_notified hthread deadline hstate
    | afterFire f =>
      have hne : w.generation ≠ f := by
        rintro rfl
        exact hfire (hgen ▸ hi.fired w.generation (Or.inr ⟨false, hthread⟩))
      rw [← hgen]
      exact hi.fired_notified f hthread hne

/-- A request overruns its slice and the thread wakes spuriously behind the `fire`; the next
request is over in time, and a third has just been armed for. -/
theorem watchdog_fires_once_overrun :
    ∃ w, machine.run spawn
        [.run 0, .arm 1 5, .notify (.transition 1), .run 2, .wake, .run 7, .fire, .run 8, .wake,
          .run 9, .disarm, .notify (.transition 2), .run 10, .arm 11 5, .disarm, .arm 20 5] =
        some (w, [.due 1, .fire 1]) ∧
      [Effect.due 1, .fire 1].count (.fire 1) ≤ 1 ∧
      .fire 3 ∉ [Effect.due 1, .fire 1] ∧
      .transition 5 ∈ w.notifies := by
  have hrun : machine.run spawn
      [.run 0, .arm 1 5, .notify (.transition 1), .run 2, .wake, .run 7, .fire, .run 8, .wake,
        .run 9, .disarm, .notify (.transition 2), .run 10, .arm 11 5, .disarm, .arm 20 5] =
      some (⟨.armed 25, 5, .waiting .idle false,
        [.transition 3, .transition 4, .transition 5]⟩, [.due 1, .fire 1]) := rfl
  obtain ⟨honce, hdisarmed, hnotified⟩ := watchdog_fires_once hrun
  refine ⟨_, hrun, honce 1, ?_, hnotified .idle 5 rfl trivial ⟨rfl, 25, rfl⟩ (by decide)⟩
  exact hdisarmed
    [.run 0, .arm 1 5, .notify (.transition 1), .run 2, .wake, .run 7, .fire, .run 8, .wake,
      .run 9, .disarm, .notify (.transition 2), .run 10, .arm 11 5] [.arm 20 5] 3 _ _ rfl rfl
    ⟨rfl, 16, rfl⟩ (by decide)

/-! ## 4. When a shutdown ends the thread -/

/-- The event needs the mutex. -/
def Event.TakesMutex : Event → Prop
  | .arm _ _ | .disarm | .shutdown | .run _ => True
  | .notify _ | .wake | .fire => False

/-- If nobody else takes the mutex before it, `run` returns when the thread next does. -/
def ReturnsNext (w : Watchdog) : Prop :=
  ∀ es now w' os, (∀ e ∈ es, ¬ e.TakesMutex) → machine.run w (es ++ [.run now]) = some (w', os) →
    w'.thread = .returned

/-- The thread is on its way out: it returns when it next holds the mutex, and it does not sleep,
unless a `shutdown` is about to wake it. -/
def Ends (w : Watchdog) : Prop :=
  w.ReturnsNext ∧ ∀ wait, w.thread = .waiting wait false → .shutdown ∈ w.notifies

/-- A `shutdown` does not come while the thread is to wait for the generation to change, and no
`arm` or `disarm` overwrites it before the thread has returned. -/
def Orderly (w : Watchdog) : Event → Prop
  | .shutdown => w.thread.firedGeneration ≠ some w.generation
  | .arm _ _ | .disarm => w.state = .shutdown → w.thread = .returned
  | .notify _ | .wake | .run _ | .fire => True

/-- With the mutex free, nothing changes that the thread will look at. -/
theorem run_without_mutex {w w' : Watchdog} {es : List Event} {os : List Effect}
    (h : machine.run w es = some (w', os)) (hes : ∀ e ∈ es, ¬ e.TakesMutex) :
    w'.state = w.state ∧ w'.generation = w.generation ∧
      w'.thread.firedGeneration = w.thread.firedGeneration ∧
      (w.thread = .returned → w'.thread = .returned) := by
  refine Machine.run_induction (P := fun es w' _ => (∀ e ∈ es, ¬ e.TakesMutex) →
    w'.state = w.state ∧ w'.generation = w.generation ∧
      w'.thread.firedGeneration = w.thread.firedGeneration ∧
      (w.thread = .returned → w'.thread = .returned)) ?_ ?_ h hes
  · exact fun _ => ⟨rfl, rfl, rfl, id⟩
  · intro es s os e s' o _ ih hst hes
    obtain ⟨hstate, hgen, hfired, hret⟩ := ih fun x hx => hes x (List.mem_append_left _ hx)
    have he : ¬ e.TakesMutex := hes e (List.mem_append_right _ List.mem_cons_self)
    cases step_cases hst with
    | arm | disarm | shutdown | run => exact absurd trivial he
    | notify hn =>
      refine ⟨hstate, hgen, (firedGeneration_wakeThread _).trans hfired, fun hw => ?_⟩
      simp only [notifyOne, hret hw, wakeThread]
    | @wake wait hthread =>
      refine ⟨hstate, hgen, ?_, fun hw => ?_⟩
      · rw [← hfired, hthread]
        cases wait <;> rfl
      · rw [hret hw] at hthread
        cases hthread
    | fire hthread =>
      refine ⟨hstate, hgen, ?_, fun hw => ?_⟩
      · rw [← hfired, hthread]
        rfl
      · rw [hret hw] at hthread
        cases hthread

/-- A thread that has not returned can come to want the mutex, with nobody taking it before. -/
theorem exists_wants {w : Watchdog} (h : w.thread ≠ .returned) :
    ∃ es w' os, (∀ e ∈ es, ¬ e.TakesMutex) ∧ machine.run w es = some (w', os) ∧
      w'.thread.Wants := by
  cases hthread : w.thread with
  | starting => exact ⟨[], w, [], nofun, rfl, Or.inl hthread⟩
  | waiting wait woken =>
    cases woken with
    | true => exact ⟨[], w, [], nofun, rfl, Or.inr (Or.inl ⟨wait, hthread⟩)⟩
    | false =>
      have hwake : machine.step w .wake = some ({ w with thread := .waiting wait true }, []) := by
        simp only [machine, step, hthread]
      refine ⟨[.wake], _, _, ?_, Machine.run_cons hwake (Machine.run_nil _ _),
        Or.inr (Or.inl ⟨wait, rfl⟩)⟩
      intro e he
      rw [List.mem_singleton.mp he]
      exact id
  | firing g =>
    have hfire : machine.step w .fire = some ({ w with thread := .fired g }, [.fire g]) := by
      simp only [machine, step, hthread]
    refine ⟨[.fire], _, _, ?_, Machine.run_cons hfire (Machine.run_nil _ _),
      Or.inr (Or.inr ⟨g, rfl⟩)⟩
    intro e he
    rw [List.mem_singleton.mp he]
    exact id
  | fired g => exact ⟨[], w, [], nofun, rfl, Or.inr (Or.inr ⟨g, hthread⟩)⟩
  | returned => exact absurd hthread h

/-- A thread that finds the shutdown at the top of its loop returns. -/
theorem Section.eq_returned {w : Watchdog} {now : Nat} {t : Thread} {os : List Effect}
    (h : w.Section now t os) (hshut : w.state = .shutdown)
    (hne : w.thread.firedGeneration ≠ some w.generation) : t = .returned := by
  cases h with
  | rest hthread heq =>
    rw [heq] at hne
    exact absurd hthread hne
  | returned => rfl
  | idle htop hidle =>
    rw [hshut] at hidle
    cases hidle
  | early htop harmed | due htop harmed =>
    rw [hshut] at harmed
    cases harmed

theorem Thread.not_wants_returned : ¬ Thread.returned.Wants := by
  rintro (h | ⟨wait, h⟩ | ⟨g, h⟩) <;> cases h

/-- What it takes to return next. -/
theorem returnsNext_iff {w : Watchdog} :
    w.ReturnsNext ↔ w.thread = .returned ∨
      (w.state = .shutdown ∧ w.thread.firedGeneration ≠ some w.generation) := by
  constructor
  · intro hnext
    by_cases hret : w.thread = .returned
    · exact Or.inl hret
    · obtain ⟨es, w₁, os, hes, hrun, hwants⟩ := exists_wants hret
      obtain ⟨hstate, hgen, hfired, -⟩ := run_without_mutex hrun hes
      obtain ⟨t, os', hcritical⟩ := hwants.critical 0
      have hst : machine.step w₁ (.run 0) = some ({ w₁ with thread := t }, os') := by
        simp only [machine, step, hcritical, Option.map_some]
      have ht : t = .returned := hnext es 0 _ _ hes
        (Machine.run_append hrun (Machine.run_cons hst (Machine.run_nil _ _)))
      obtain ⟨-, hsection⟩ := critical_section hcritical
      rw [ht] at hsection
      cases hsection with
      | returned htop hshut =>
        refine Or.inr ⟨hstate.symm.trans hshut, fun hf => ?_⟩
        rw [← hfired, ← hgen] at hf
        exact htop _ hf rfl
  · rintro hdue es now w' os hes h
    obtain ⟨w₁, os₁, o, hrun, hst, -⟩ := Machine.run_snoc_inv h
    obtain ⟨hstate, hgen, hfired, hret⟩ := run_without_mutex hrun hes
    cases step_cases hst with
    | run hwants hsection =>
      rcases hdue with hthread | ⟨hshut, hne⟩
      · rw [hret hthread] at hwants
        exact absurd hwants Thread.not_wants_returned
      · rw [← hstate] at hshut
        rw [← hfired, ← hgen] at hne
        exact hsection.eq_returned hshut hne

/-- The state says `Shutdown` only after a `shutdown`. -/
theorem shutdown_mem_of_state {es : List Event} {w : Watchdog} {os : List Effect}
    (h : machine.run spawn es = some (w, os)) (hstate : w.state = .shutdown) :
    .shutdown ∈ es := by
  refine Machine.run_induction (P := fun es w _ => w.state = .shutdown → .shutdown ∈ es)
    (fun hs => by cases hs) ?_ h hstate
  intro es s os e s' o _ ih hst hs'
  cases step_cases hst with
  | shutdown => exact List.mem_append_right _ List.mem_cons_self
  | arm | disarm => cases hs'
  | notify | wake | run | fire => exact List.mem_append_left _ (ih hs')

/-- An `arm` or `disarm` keeps the thread on its way out only if it is out already. -/
theorem ends_transition_iff {w : Watchdog} {state : State} {notifies : List Notify}
    (hstate : state ≠ .shutdown) :
    Ends ⟨state, w.generation + 1, w.thread, notifies⟩ ↔ w.thread = .returned := by
  constructor
  · rintro ⟨hnext, -⟩
    rcases returnsNext_iff.mp hnext with hret | ⟨hshut, -⟩
    · exact hret
    · exact absurd hshut hstate
  · intro hret
    refine ⟨returnsNext_iff.mpr (Or.inl hret), fun wait hwait => ?_⟩
    rw [hret] at hwait
    cases hwait

theorem ends_arm_iff {w : Watchdog} (now slice : Nat) :
    (w.arm now slice).Ends ↔ w.thread = .returned :=
  ends_transition_iff (w := w) nofun

theorem ends_disarm_iff {w : Watchdog} : w.disarm.Ends ↔ w.thread = .returned :=
  ends_transition_iff (w := w) nofun

theorem ends_shutdown_iff {w : Watchdog} :
    w.shutdown.Ends ↔ w.thread.firedGeneration ≠ some w.generation := by
  constructor
  · rintro ⟨hnext, -⟩
    rcases returnsNext_iff.mp hnext with hret | ⟨-, hne⟩
    · have hret : w.thread = .returned := hret
      rw [hret]
      intro hnone
      cases hnone
    · exact hne
  · intro hne
    refine ⟨returnsNext_iff.mpr (Or.inr ⟨rfl, hne⟩), fun wait _ => ?_⟩
    exact List.mem_append_right _ List.mem_cons_self

/-- Once on its way out, the thread stays there, as long as nobody changes the state. -/
theorem Move.ends {w w' : Watchdog} {e : Event} {os : List Effect} (h : w.Move e w' os)
    (hends : w.Ends) (harm : ∀ now slice, e ≠ .arm now slice) (hdisarm : e ≠ .disarm)
    (hshutdown : e ≠ .shutdown) : w'.Ends := by
  have hnext := returnsNext_iff.mp hends.1
  cases h with
  | arm now slice => exact absurd rfl (harm now slice)
  | disarm => exact absurd rfl hdisarm
  | shutdown => exact absurd rfl hshutdown
  | @notify n hn =>
    refine ⟨returnsNext_iff.mpr ?_, fun wait hwait => ?_⟩
    · rcases hnext with hret | ⟨hshut, hne⟩
      · exact Or.inl (by simp only [notifyOne, hret, wakeThread])
      · refine Or.inr ⟨hshut, ?_⟩
        simpa only [notifyOne, firedGeneration_wakeThread] using hne
    · cases hthread : w.thread <;> simp [notifyOne, wakeThread, hthread] at hwait
  | @wake wait hthread =>
    refine ⟨returnsNext_iff.mpr ?_, nofun⟩
    rcases hnext with hret | ⟨hshut, hne⟩
    · rw [hret] at hthread
      cases hthread
    · refine Or.inr ⟨hshut, ?_⟩
      rw [hthread] at hne
      cases wait <;> exact hne
  | @run now t os hwants hsection =>
    have ht : t = .returned := by
      rcases hnext with hret | ⟨hshut, hne⟩
      · rw [hret] at hwants
        exact absurd hwants Thread.not_wants_returned
      · exact hsection.eq_returned hshut hne
    rw [ht]
    exact ⟨returnsNext_iff.mpr (Or.inl rfl), nofun⟩
  | @fire g hthread =>
    refine ⟨returnsNext_iff.mpr ?_, nofun⟩
    rcases hnext with hret | ⟨hshut, hne⟩
    · rw [hret] at hthread
      cases hthread
    · refine Or.inr ⟨hshut, ?_⟩
      rw [hthread] at hne
      exact hne

/-- **A shutdown ends the thread exactly in orderly runs.**  In every state behind a `shutdown`
the thread is on its way out, if and only if no `shutdown` comes while the thread is to wait for
the generation to change, and no `arm` or `disarm` comes between a `shutdown` and the thread's
return. -/
theorem shutdown_ends_iff {es : List Event} {w : Watchdog} {os : List Effect}
    (h : machine.run spawn es = some (w, os)) :
    machine.Always (fun pre w => .shutdown ∈ pre → w.Ends) spawn es ↔
      machine.Along Orderly spawn es := by
  refine Machine.always_iff_along (fun hmem => nomatch hmem) ?_ h
  intro es w os e w' o hrun hI hst
  have hmem : ∀ {x : Event}, .shutdown ∈ es ++ [x] → x ≠ .shutdown → .shutdown ∈ es := by
    intro x hx hne
    rcases List.mem_append.mp hx with hx | hx
    · exact hx
    · exact absurd (List.mem_singleton.mp hx).symm hne
  -- an `arm` or a `disarm`, behind which the state is another one
  have htransition : (.shutdown ∈ es → w.thread = .returned) ↔
      (w.state = .shutdown → w.thread = .returned) := by
    constructor
    · exact fun hall hstate => hall (shutdown_mem_of_state hrun hstate)
    · intro hstate hes
      rcases returnsNext_iff.mp (hI hes).1 with hret | ⟨hshut, -⟩
      · exact hret
      · exact hstate hshut
  cases step_cases hst with
  | arm now slice =>
    refine Iff.trans ⟨fun hI' hes => ?_, fun hI' hes => ?_⟩ htransition
    · exact (ends_arm_iff now slice).mp (hI' (List.mem_append_left _ hes))
    · exact (ends_arm_iff now slice).mpr (hI' (hmem hes nofun))
  | disarm =>
    refine Iff.trans ⟨fun hI' hes => ?_, fun hI' hes => ?_⟩ htransition
    · exact ends_disarm_iff.mp (hI' (List.mem_append_left _ hes))
    · exact ends_disarm_iff.mpr (hI' (hmem hes nofun))
  | shutdown =>
    refine ⟨fun hI' => ends_shutdown_iff.mp (hI' (List.mem_append_right _ List.mem_cons_self)),
      fun hne _ => ends_shutdown_iff.mpr hne⟩
  | notify | wake | run | fire =>
    refine ⟨fun _ => trivial, fun _ hes => ?_⟩
    exact (step_cases hst).ends (hI (hmem hes nofun)) nofun nofun nofun

/-- A shutdown between two requests. -/
theorem shutdown_ends_between :
    ∃ w, machine.run spawn
        [.run 0, .arm 0 5, .notify (.transition 1), .run 5, .fire, .disarm, .run 6, .shutdown,
          .notify .shutdown, .run 7] = some (w, [.due 1, .fire 1]) ∧
      (machine.Always (fun pre w => .shutdown ∈ pre → w.Ends) spawn
          [.run 0, .arm 0 5, .notify (.transition 1), .run 5, .fire, .disarm, .run 6, .shutdown,
            .notify .shutdown, .run 7] ↔
        machine.Along Orderly spawn
          [.run 0, .arm 0 5, .notify (.transition 1), .run 5, .fire, .disarm, .run 6, .shutdown,
            .notify .shutdown, .run 7]) :=
  ⟨_, rfl, shutdown_ends_iff
    (show machine.run spawn
      [.run 0, .arm 0 5, .notify (.transition 1), .run 5, .fire, .disarm, .run 6, .shutdown,
        .notify .shutdown, .run 7] = some (_, [.due 1, .fire 1]) from rfl)⟩

/-- The period is armed and fired for when the shutdown comes: its notification wakes the thread,
which finds the generation unchanged and goes back to its untimed wait. -/
theorem shutdown_slept_through :
    ¬ ∀ (es : List Event) (w : Watchdog) (os : List Effect),
      machine.run spawn es = some (w, os) →
      machine.Always (fun pre w => .shutdown ∈ pre → w.Ends) spawn es := by
  intro hall
  have hrun : machine.run spawn
      [.run 0, .arm 0 5, .notify (.transition 1), .run 5, .fire, .run 6, .shutdown,
        .notify .shutdown] =
      some (⟨.shutdown, 1, .waiting (.afterFire 1) true, []⟩, [.due 1, .fire 1]) := rfl
  have hends := (hall _ _ _ hrun).last hrun (by decide)
  have hret : Thread.waiting (.afterFire 1) false = .returned :=
    hends.1 [] 7 ⟨.shutdown, 1, .waiting (.afterFire 1) false, []⟩ [] nofun rfl
  cases hret

/-! ## 5. When a `fire` finds its period armed -/

/-- If the thread calls `fire` now, the period it fires for is armed. -/
def FiresArmed (w : Watchdog) : Prop :=
  ∀ w' os g, machine.step w .fire = some (w', os) → .fire g ∈ os → w.Armed g

/-- Nobody ends the period, or the watchdog, between the thread's decision to fire and the
`fire`. -/
def LetsFire (w : Watchdog) : Event → Prop
  | .arm _ _ | .disarm | .shutdown => ∀ g, w.thread ≠ .firing g
  | .notify _ | .wake | .run _ | .fire => True

theorem firesArmed_iff {w : Watchdog} :
    w.FiresArmed ↔ ∀ g, w.thread = .firing g → w.Armed g := by
  constructor
  · intro hfires g hthread
    refine hfires { w with thread := .fired g } [.fire g] g ?_ List.mem_cons_self
    simp only [machine, step, hthread]
  · intro harmed w' os g hst hg
    cases step_cases hst with
    | @fire f hthread =>
      cases List.mem_singleton.mp hg
      exact harmed g hthread

/-- **A `fire` finds its period armed exactly if nobody gets in between.**  Whenever the thread
calls `fire`, the period it decided to fire for is still armed, if and only if no `arm`, `disarm`
or `shutdown` takes the mutex between the decision and the `fire`. -/
theorem fire_while_armed_iff {es : List Event} {w : Watchdog} {os : List Effect}
    (h : machine.run spawn es = some (w, os)) :
    machine.Always (fun _ w => w.FiresArmed) spawn es ↔ machine.Along LetsFire spawn es := by
  refine Machine.always_iff_along (firesArmed_iff.mpr fun g hthread => by cases hthread) ?_ h
  intro es w os e w' o hrun hI hst
  have harmed : ∀ g, w.thread = .firing g → w.Armed g := firesArmed_iff.mp hI
  rw [firesArmed_iff]
  cases step_cases hst with
  | arm now slice | disarm =>
    constructor
    · intro hI' g hthread
      have hold : w.generation = g := (harmed g hthread).1
      have hnew : w.generation + 1 = g := (hI' g hthread).1
      omega
    · exact fun hne g hthread => absurd hthread (hne g)
  | shutdown =>
    constructor
    · intro hI' g hthread
      obtain ⟨-, deadline, hstate⟩ := hI' g hthread
      cases hstate
    · exact fun hne g hthread => absurd hthread (hne g)
  | notify hn =>
    refine ⟨fun _ => trivial, fun _ g hthread => harmed g ?_⟩
    cases ht : w.thread <;> simp only [notifyOne, wakeThread, ht, reduceCtorEq] at hthread
    exact hthread
  | wake hwait => exact ⟨fun _ => trivial, fun _ => nofun⟩
  | fire hfiring => exact ⟨fun _ => trivial, fun _ => nofun⟩
  | run hwants hsection =>
    refine ⟨fun _ => trivial, fun _ g hthread => ?_⟩
    cases hsection with
    | due htop hstate hnow =>
      cases hthread
      exact ⟨rfl, _, hstate⟩
    | rest | returned | idle | early => cases hthread

/-- Two requests, the first of which overruns its slice. -/
theorem fire_while_armed_overrun :
    ∃ w, machine.run spawn
        [.run 0, .arm 0 5, .notify (.transition 1), .run 5, .fire, .disarm, .arm 6 5, .run 7] =
        some (w, [.due 1, .fire 1]) ∧
      (machine.Always (fun _ w => w.FiresArmed) spawn
          [.run 0, .arm 0 5, .notify (.transition 1), .run 5, .fire, .disarm, .arm 6 5, .run 7] ↔
        machine.Along LetsFire spawn
          [.run 0, .arm 0 5, .notify (.transition 1), .run 5, .fire, .disarm, .arm 6 5, .run 7]) :=
  ⟨_, rfl, fire_while_armed_iff
    (show machine.run spawn
      [.run 0, .arm 0 5, .notify (.transition 1), .run 5, .fire, .disarm, .arm 6 5, .run 7] =
        some (_, [.due 1, .fire 1]) from rfl)⟩

/-- The thread finds the deadline passed and releases the mutex; the request ends, the next one
is armed for, and only then does the `fire` decided for the first one run. -/
theorem fire_charged_to_next :
    ¬ ∀ (es : List Event) (w : Watchdog) (os : List Effect),
      machine.run spawn es = some (w, os) →
      machine.Always (fun _ w => w.FiresArmed) spawn es := by
  intro hall
  have hrun : machine.run spawn
      [.run 0, .arm 0 5, .notify (.transition 1), .run 5, .disarm, .notify (.transition 2),
        .arm 6 5, .notify (.transition 3)] =
      some (⟨.armed 11, 3, .firing 1, []⟩, [.due 1]) := rfl
  have hgen : 3 = 1 := (firesArmed_iff.mp ((hall _ _ _ hrun).last hrun) 1 rfl).1
  omega

end Watchdog

end HelixRack
