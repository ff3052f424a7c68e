/-
# The shutdown flag of overlapping `HelixRack.serve` calls

`SHUTDOWN_REQUESTED` is one flag for the whole process.  A `serve` call clears it, installs its
traps and runs; a trap sets it; every running server polls it in `cancelled`.  The calls, the
signals and the polls interleave freely, so the process is a machine whose events are the
single steps of all of them.

A server must not lose a signal that was handled while it ran.  It does if, and only if, another
call clears the flag before the server has polled (`request_observed_iff`): the reset protects
the traps of the call that makes it, and nobody else's.
-/
import HelixRack.Signals

namespace HelixRack

/-! ## 1. The process -/

/-- Where a `serve` call is. -/
inductive CallPhase (α : Type) where
  | notStarted
  /-- `_reset_shutdown_request` has run, `install_shutdown_traps` has not. -/
  | reset
  /-- The traps are installed and `_serve_native` runs; `cancelled` is still pending. -/
  | serving (call : Serving α)
  /-- `cancelled` has resolved. -/
  | draining (call : Serving α)
  | ended

/-- What all the calls share, and the calls themselves, numbered. -/
structure Process (α : Type) where
  /-- `SHUTDOWN_REQUESTED`. -/
  shutdownRequested : Bool
  traps : Traps α
  calls : Nat → CallPhase α

inductive ProcessEvent where
  /-- The call begins, with `_reset_shutdown_request`. -/
  | reset (i : Nat)
  /-- `install_shutdown_traps`, and on into `_serve_native`. -/
  | install (i : Nat)
  /-- One turn of the loop of `cancelled`, where `cancel` holds the given value. -/
  | poll (i : Nat) (cancel : Bool)
  /-- `_serve_native` returns or raises, and the `ensure` runs. -/
  | finish (i : Nat)
  /-- The installed handler of a signal runs. -/
  | signal (signal : Signal) (signo : Nat)
  deriving DecidableEq, Repr

/-- A call has loaded `SHUTDOWN_REQUESTED`. -/
structure Observation where
  call : Nat
  shutdownRequested : Bool
  deriving DecidableEq, Repr

/-- Whether a handler that did this has called `_request_shutdown`. -/
def requestsShutdown {α : Type} (effects : List (TrapEffect α)) : Bool :=
  effects.any fun
    | .requestShutdown => true
    | _ => false

namespace Process

variable {α : Type}

/-- No call has started yet. -/
def idle (shutdownRequested : Bool) (trapGeneration : Nat)
    (installed : Signal → TrapHandler α) : Process α :=
  { shutdownRequested, traps := Traps.idle trapGeneration installed, calls := fun _ => .notStarted }

def setCall (p : Process α) (i : Nat) (phase : CallPhase α) : Process α :=
  { p with calls := fun j => if j = i then phase else p.calls j }

/-- `reset_shutdown_request`. -/
def resetShutdownRequest (p : Process α) : Process α := { p with shutdownRequested := false }

/-- What the handler of a signal does to the flag, by way of `request_shutdown`. -/
def handleSignal (world : World α) (signal : Signal) (signo : Nat) (p : Process α) : Process α :=
  let ran := (p.traps.installed signal).call world signo
  { p with shutdownRequested := p.shutdownRequested || requestsShutdown ran.effects }

/-- The condition of the loop of `cancelled`; `cancel` is loaded first. -/
def cancelled (p : Process α) (i : Nat) (call : Serving α) (cancel : Bool) :
    Process α × List Observation :=
  if cancel then (p.setCall i (.draining call), [])
  else if p.shutdownRequested then (p.setCall i (.draining call), [⟨i, true⟩])
  else (p, [⟨i, false⟩])

/-- `restore_shutdown_traps`. -/
def restoreShutdownTraps (p : Process α) (call : Serving α) : Process α :=
  { p with traps := p.traps.restoreShutdownTraps call }

def step (world : World α) (p : Process α) : ProcessEvent → Option (Process α × List Observation)
  | .reset i =>
    match p.calls i with
    | .notStarted => some (p.resetShutdownRequest.setCall i .reset, [])
    | _ => none
  | .install i =>
    match p.calls i with
    | .reset =>
      let (traps, call) := p.traps.installShutdownTraps
      some ({ p with traps }.setCall i (.serving call), [])
    | _ => none
  | .poll i cancel =>
    match p.calls i with
    | .serving call => some (p.cancelled i call cancel)
    | _ => none
  | .finish i =>
    match p.calls i with
    | .serving call | .draining call => some ((p.restoreShutdownTraps call).setCall i .ended, [])
    | _ => none
  | .signal signal signo => some (p.handleSignal world signal signo, [])

/-- Any number of calls, signals and polls, in any order. -/
def machine (world : World α) : Machine (Process α) ProcessEvent Observation where
  step := step world

/-- The call has its traps installed and still polls. -/
def Serves (p : Process α) (i : Nat) : Prop := ∃ call, p.calls i = .serving call

/-- The call has installed its traps, some time ago perhaps. -/
def Installed (p : Process α) (i : Nat) : Prop := p.calls i ≠ .notStarted ∧ p.calls i ≠ .reset

theorem Serves.installed {p : Process α} {i : Nat} (h : p.Serves i) : p.Installed i := by
  obtain ⟨call, hcall⟩ := h
  rw [Installed, hcall]
  exact ⟨nofun, nofun⟩

@[simp] theorem setCall_shutdownRequested (p : Process α) (i : Nat) (phase : CallPhase α) :
    (p.setCall i phase).shutdownRequested = p.shutdownRequested := rfl

@[simp] theorem setCall_traps (p : Process α) (i : Nat) (phase : CallPhase α) :
    (p.setCall i phase).traps = p.traps := rfl

@[simp] theorem setCall_calls_self (p : Process α) (i : Nat) (phase : CallPhase α) :
    (p.setCall i phase).calls i = phase := if_pos rfl

theorem setCall_calls_of_ne (p : Process α) {i j : Nat} (phase : CallPhase α) (h : j ≠ i) :
    (p.setCall i phase).calls j = p.calls j := if_neg h

/-! ## 2. What a step can do -/

variable {world : World α}

/-- The ways a step can go. -/
inductive Move (world : World α) (p : Process α) :
    ProcessEvent → Process α → List Observation → Prop
  | reset {i : Nat} (hcall : p.calls i = .notStarted) :
      Move world p (.reset i) (p.resetShutdownRequest.setCall i .reset) []
  | install {i : Nat} (hcall : p.calls i = .reset) :
      Move world p (.install i)
        ({ p with traps := p.traps.installShutdownTraps.1 }.setCall i
          (.serving p.traps.installShutdownTraps.2)) []
  | killed {i : Nat} {call : Serving α} (hcall : p.calls i = .serving call) :
      Move world p (.poll i true) (p.setCall i (.draining call)) []
  | noticed {i : Nat} {call : Serving α} (hcall : p.calls i = .serving call)
      (hflag : p.shutdownRequested = true) :
      Move world p (.poll i false) (p.setCall i (.draining call)) [⟨i, true⟩]
  | sleep {i : Nat} {call : Serving α} (hcall : p.calls i = .serving call)
      (hflag : p.shutdownRequested = false) : Move world p (.poll i false) p [⟨i, false⟩]
  | finish {i : Nat} {call : Serving α}
      (hcall : p.calls i = .serving call ∨ p.calls i = .draining call) :
      Move world p (.finish i) ((p.restoreShutdownTraps call).setCall i .ended) []
  | signal (signal : Signal) (signo : Nat) :
      Move world p (.signal signal signo) (p.handleSignal world signal signo) []

theorem step_cases {p p' : Process α} {e : ProcessEvent} {os : List Observation}
    (h : (machine world).step p e = some (p', os)) : p.Move world e p' os := by
  change step world p e = some (p', os) at h
  cases e with
  | reset i =>
    cases hcall : p.calls i <;> simp only [step, hcall, Option.some.injEq, reduceCtorEq] at h
    cases h
    exact .reset hcall
  | install i =>
    cases hcall : p.calls i <;> simp only [step, hcall, Option.some.injEq, reduceCtorEq] at h
    cases h
    exact .install hcall
  | poll i cancel =>
    cases hcall : p.calls i <;> simp only [step, hcall, Option.some.injEq, reduceCtorEq] at h
    unfold cancelled at h
    cases cancel with
    | true =>
      cases h
      exact .killed hcall
    | false =>
      cases hflag : p.shutdownRequested <;> rw [hflag] at h <;> cases h
      · exact .sleep hcall hflag
      · exact .noticed hcall hflag
  | finish i =>
    cases hcall : p.calls i <;> simp only [step, hcall, Option.some.injEq, reduceCtorEq] at h
    · cases h
      exact .finish (Or.inl hcall)
    · cases h
      exact .finish (Or.inr hcall)
  | signal signal signo =>
    cases h
    exact .signal signal signo

/-- A call only goes forward. -/
theorem Move.installed {p p' : Process α} {e : ProcessEvent} {os : List Observation} {i : Nat}
    (h : p.Move world e p' os) (hi : p.Installed i) : p'.Installed i := by
  have hset : ∀ (q : Process α) (j : Nat) (phase : CallPhase α), q.calls = p.calls →
      phase ≠ .notStarted → (j = i → phase ≠ .reset) → (q.setCall j phase).Installed i := by
    intro q j phase hq hstart hreset
    by_cases hij : i = j
    · subst hij
      rw [Installed, setCall_calls_self]
      exact ⟨hstart, hreset rfl⟩
    · rw [Installed, setCall_calls_of_ne q phase hij, hq]
      exact hi
  cases h with
  | reset hcall =>
    refine hset _ _ _ rfl nofun ?_
    rintro rfl
    exact absurd hcall hi.1
  | install | killed | noticed | finish => exact hset _ _ _ rfl nofun fun _ => nofun
  | sleep | signal => exact hi

/-- A call that serves has served before, unless it has only just installed its traps. -/
theorem Move.serves_before {p p' : Process α} {e : ProcessEvent} {os : List Observation}
    {i : Nat} (h : p.Move world e p' os) (hi : p.Installed i) (hs : p'.Serves i) :
    p.Serves i := by
  have hset : ∀ (q : Process α) (j : Nat) (phase : CallPhase α), q.calls = p.calls →
      (i = j → ∀ call, phase ≠ .serving call) → (q.setCall j phase).Serves i → p.Serves i := by
    rintro q j phase hq hphase ⟨call, hcall⟩
    by_cases hij : i = j
    · subst hij
      rw [setCall_calls_self] at hcall
      exact absurd hcall (hphase rfl call)
    · rw [setCall_calls_of_ne q phase hij, hq] at hcall
      exact ⟨call, hcall⟩
  cases h with
  | install hcall =>
    refine hset _ _ _ rfl ?_ hs
    rintro rfl
    exact absurd hcall hi.2
  | reset | killed | noticed | finish =>
    refine hset _ _ _ rfl ?_ hs
    intro _ call heq
    cases heq
  | sleep | signal => exact hs

/-- Only a reset clears the flag. -/
theorem Move.shutdownRequested {p p' : Process α} {e : ProcessEvent} {os : List Observation}
    (h : p.Move world e p' os) (hne : ∀ i, e ≠ .reset i) (hflag : p.shutdownRequested = true) :
    p'.shutdownRequested = true := by
  cases h with
  | @reset i => exact absurd rfl (hne i)
  | install | killed | noticed | sleep | finish => exact hflag
  | signal signal signo => rw [handleSignal, hflag, Bool.true_or]

/-- A HelixRack trap sets the flag, whatever its `warn` and the handlers behind it do. -/
theorem handleSignal_of_isTrap {p : Process α} {signal : Signal} (signo : Nat)
    (h : (p.traps.installed signal).IsTrap signal) :
    (p.handleSignal world signal signo).shutdownRequested = true := by
  obtain ⟨generation, previous, heq⟩ := h
  have hran := (TrapHandler.call_trap world signo generation signal previous).1
  simp only [handleSignal, heq, hran, requestsShutdown, List.any_cons, Bool.true_or, Bool.or_true]

/-- What a poll sees. -/
theorem poll_observes {p p' : Process α} {i : Nat} {os : List Observation}
    (h : (machine world).step p (.poll i false) = some (p', os)) :
    os = [⟨i, p.shutdownRequested⟩] := by
  cases step_cases h with
  | noticed hcall hflag | sleep hcall hflag => rw [hflag]

theorem Serves.poll {p : Process α} {i : Nat} (h : p.Serves i) :
    ∃ p', (machine world).step p (.poll i false) = some (p', [⟨i, p.shutdownRequested⟩]) := by
  obtain ⟨call, hcall⟩ := h
  cases hflag : p.shutdownRequested
  · exact ⟨p, by simp only [machine, step, hcall, cancelled, hflag, Bool.false_eq_true, if_false]⟩
  · exact ⟨p.setCall i (.draining call),
      by simp only [machine, step, hcall, cancelled, hflag, Bool.false_eq_true, if_false, if_true]⟩

/-! ## 3. Requests a server has not seen yet -/

/-- During `es` a HelixRack trap handled a signal while the call was serving, and the call has
not polled since. -/
def Unseen (world : World α) (p₀ : Process α) (es : List ProcessEvent) (i : Nat) : Prop :=
  ∃ early signal signo mid p os, es = early ++ .signal signal signo :: mid ∧
    (machine world).run p₀ early = some (p, os) ∧ p.Serves i ∧
    (p.traps.installed signal).IsTrap signal ∧ ∀ cancel, .poll i cancel ∉ mid

/-- No call clears the flag while a server still has a request to see. -/
def Undisturbed (world : World α) (p₀ : Process α) (es : List ProcessEvent) : Prop :=
  ∀ pre j post, es = pre ++ .reset j :: post → ∀ i p os,
    (machine world).run p₀ pre = some (p, os) → p.Serves i → ¬ Unseen world p₀ pre i

/-- Whenever a server with a request to see polls, it sees the request. -/
def Observes (world : World α) (p₀ : Process α) (es : List ProcessEvent) : Prop :=
  ∀ pre post, es = pre ++ post → ∀ i p os,
    (machine world).run p₀ pre = some (p, os) → p.Serves i → Unseen world p₀ pre i →
      ∀ p' os', (machine world).step p (.poll i false) = some (p', os') → os' = [⟨i, true⟩]

variable {p₀ : Process α}

theorem Unseen.snoc {es : List ProcessEvent} {e : ProcessEvent} {i : Nat}
    (h : Unseen world p₀ es i) (he : ∀ cancel, e ≠ .poll i cancel) :
    Unseen world p₀ (es ++ [e]) i := by
  obtain ⟨early, signal, signo, mid, p, os, rfl, hrun, hs, htrap, hmid⟩ := h
  refine ⟨early, signal, signo, mid ++ [e], p, os, by simp, hrun, hs, htrap, ?_⟩
  intro cancel hmem
  rcases List.mem_append.mp hmem with hmem | hmem
  · exact hmid cancel hmem
  · exact he cancel (List.mem_singleton.mp hmem).symm

/-- A request is unseen because it is new, or because it was unseen and the last event was no
poll. -/
theorem Unseen.of_snoc {es : List ProcessEvent} {e : ProcessEvent} {i : Nat}
    {p : Process α} {os : List Observation} (hrun : (machine world).run p₀ es = some (p, os))
    (h : Unseen world p₀ (es ++ [e]) i) :
    (∃ signal signo, e = .signal signal signo ∧ (p.traps.installed signal).IsTrap signal) ∨
      (Unseen world p₀ es i ∧ ∀ cancel, e ≠ .poll i cancel) := by
  obtain ⟨early, signal, signo, mid, q, os', he, hrun', hs, htrap, hmid⟩ := h
  rcases snoc_eq_append_cons he with ⟨rfl, rfl, -⟩ | ⟨mid', rfl, rfl⟩
  · rw [hrun] at hrun'
    cases hrun'
    exact Or.inl ⟨signal, signo, rfl, htrap⟩
  · refine Or.inr ⟨⟨early, signal, signo, mid', q, os', rfl, hrun', hs, htrap, ?_⟩, ?_⟩
    · intro cancel hmem
      exact hmid cancel (List.mem_append_left _ hmem)
    · rintro cancel rfl
      exact hmid cancel (List.mem_append_right _ List.mem_cons_self)

/-- Whoever has a request to see has installed its traps before. -/
theorem Unseen.installed {es : List ProcessEvent} {i : Nat} {p : Process α}
    {os : List Observation} (h : Unseen world p₀ es i)
    (hrun : (machine world).run p₀ es = some (p, os)) : p.Installed i := by
  obtain ⟨early, signal, signo, mid, q, os', rfl, hrun', hs, -, -⟩ := h
  obtain ⟨q', _, _, hq, hmid, -⟩ := Machine.run_append_inv hrun
  rw [hrun'] at hq
  cases hq
  exact Machine.run_invariant (I := fun q => q.Installed i) hs.installed
    (fun _ _ _ _ hi hst => (step_cases hst).installed hi) hmid

theorem Undisturbed.init {es : List ProcessEvent} {e : ProcessEvent}
    (h : Undisturbed world p₀ (es ++ [e])) : Undisturbed world p₀ es := by
  intro pre j post he
  exact h pre j (post ++ [e]) (by rw [he]; simp)

/-- As long as no reset comes in between, the flag keeps every request until it is seen. -/
theorem Undisturbed.shutdownRequested {es : List ProcessEvent} {p : Process α}
    {os : List Observation} (h : Undisturbed world p₀ es)
    (hrun : (machine world).run p₀ es = some (p, os)) {i : Nat} (hs : p.Serves i)
    (hu : Unseen world p₀ es i) : p.shutdownRequested = true := by
  refine Machine.run_induction (P := fun es p _ => Undisturbed world p₀ es → p.Serves i →
    Unseen world p₀ es i → p.shutdownRequested = true) ?_ ?_ hrun h hs hu
  · rintro - - ⟨early, signal, signo, mid, p, os, he, -⟩
    exact absurd he.symm (List.append_ne_nil_of_right_ne_nil _ (List.cons_ne_nil _ _))
  · intro es p os e p' o hrun ih hst hund hs hu
    have hmove := step_cases hst
    rcases hu.of_snoc hrun with ⟨signal, signo, rfl, htrap⟩ | ⟨hbefore, -⟩
    · cases hmove
      exact handleSignal_of_isTrap signo htrap
    · have hs : p.Serves i := hmove.serves_before (hbefore.installed hrun) hs
      refine hmove.shutdownRequested ?_ (ih hund.init hs hbefore)
      rintro j rfl
      exact hund es j [] rfl i p os hrun hs hbefore

/-- **A handled signal is lost exactly if a reset comes in between.**  In a run that starts with
no call under way, every server that polls after a signal was handled while it served sees the
request, if and only if no `serve` call clears the flag while such a server has yet to poll. -/
theorem request_observed_iff {shutdownRequested : Bool} {trapGeneration : Nat}
    {installed : Signal → TrapHandler α} {es : List ProcessEvent} {p : Process α}
    {os : List Observation}
    (h : (machine world).run (idle shutdownRequested trapGeneration installed) es =
      some (p, os)) :
    Observes world (idle shutdownRequested trapGeneration installed) es ↔
      Undisturbed world (idle shutdownRequested trapGeneration installed) es := by
  constructor
  · intro hobs pre j post he i q os' hrun hs hu
    rw [he] at h
    obtain ⟨q₁, _, _, hq, hrest, -⟩ := Machine.run_append_inv h
    rw [hrun] at hq
    cases hq
    obtain ⟨q', o, _, hst, -, -⟩ := Machine.run_cons_inv hrest
    have hrun' := Machine.run_append hrun (Machine.run_cons hst (Machine.run_nil _ q'))
    cases step_cases hst with
    | reset hcall =>
      have hij : i ≠ j := by
        rintro rfl
        exact hs.installed.1 hcall
      have hs' : (q.resetShutdownRequest.setCall j .reset).Serves i := by
        obtain ⟨call, hserving⟩ := hs
        exact ⟨call, (setCall_calls_of_ne _ _ hij).trans hserving⟩
      -- the server polls right after the reset
      have hpolls : ∃ q'', (machine world).step (q.resetShutdownRequest.setCall j .reset)
          (.poll i false) = some (q'', [⟨i, false⟩]) := hs'.poll
      obtain ⟨q'', hpoll⟩ := hpolls
      have hseen := hobs (pre ++ [.reset j]) post (by rw [he]; simp) i _ _ hrun' hs'
        (hu.snoc fun _ => nofun) q'' _ hpoll
      cases hseen
  · intro hund pre post he i q os' hrun hs hu p' os'' hpoll
    have hpre : Undisturbed world (idle shutdownRequested trapGeneration installed) pre := by
      intro pre' j post' he'
      exact hund pre' j (post' ++ post) (by rw [he, he']; simp)
    rw [poll_observes hpoll, hpre.shutdownRequested hrun hs hu]

/-- Two servers run, and both see the one signal. -/
theorem request_observed_both :
    ∃ p, (machine ⟨fun _ => false, fun _ => false⟩).run
        (idle false 0 fun _ : Signal => TrapHandler.callable ())
        [.reset 0, .install 0, .reset 1, .install 1, .signal .TERM 15, .poll 0 false,
          .poll 1 false] = some (p, [⟨0, true⟩, ⟨1, true⟩]) ∧
      (Observes ⟨fun _ => false, fun _ => false⟩
          (idle false 0 fun _ : Signal => TrapHandler.callable ())
          [.reset 0, .install 0, .reset 1, .install 1, .signal .TERM 15, .poll 0 false,
            .poll 1 false] ↔
        Undisturbed ⟨fun _ => false, fun _ => false⟩
          (idle false 0 fun _ : Signal => TrapHandler.callable ())
          [.reset 0, .install 0, .reset 1, .install 1, .signal .TERM 15, .poll 0 false,
            .poll 1 false]) :=
  ⟨_, rfl, request_observed_iff
    (show (machine ⟨fun _ => false, fun _ => false⟩).run
        (idle false 0 fun _ : Signal => TrapHandler.callable ())
        [.reset 0, .install 0, .reset 1, .install 1, .signal .TERM 15, .poll 0 false,
          .poll 1 false] = some (_, [⟨0, true⟩, ⟨1, true⟩]) from rfl)⟩

/-- A server runs, its trap handles `SIGTERM`, and a second call starts before the 20 ms of the
first one's poll are over: the first never learns of the signal. -/
theorem request_erased :
    ¬ ∀ (α : Type) (world : World α) (shutdownRequested : Bool) (trapGeneration : Nat)
      (installed : Signal → TrapHandler α) (es : List ProcessEvent) (p : Process α)
      (os : List Observation),
      (machine world).run (idle shutdownRequested trapGeneration installed) es = some (p, os) →
      Observes world (idle shutdownRequested trapGeneration installed) es := by
  intro hall
  let world : World Unit := ⟨fun _ => false, fun _ => false⟩
  let handlers : Signal → TrapHandler Unit := fun _ => .command (some "DEFAULT")
  have hobs := hall Unit world false 0 handlers
    [.reset 0, .install 0, .signal .TERM 15, .reset 1] _ _ rfl
  have hunseen : Unseen world (idle false 0 handlers)
      [.reset 0, .install 0, .signal .TERM 15, .reset 1] 0 :=
    ⟨[.reset 0, .install 0], .TERM, 15, [.reset 1], _, _, rfl, rfl, ⟨_, rfl⟩, ⟨_, _, rfl⟩,
      fun cancel => by cases cancel <;> decide⟩
  have hseen := hobs _ [] rfl 0 _ _ rfl ⟨_, rfl⟩ hunseen _ _ rfl
  cases hseen

end Process

end HelixRack
