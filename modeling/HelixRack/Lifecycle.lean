/-
# The life of a `serve` call, from its first line to the `ensure`

Three things about every run of the program, whatever the calls, the signals and the clients do.

* A call that has ended has ended for a reason, and has let its clients go properly
  (`every_return_explained`).  The reason is read off the flags, which tell what has happened
  (`shutdownRequested_iff`, `cancel_iff`).
* A call that has not ended can still do so, on its own (`can_return`).
* A signal that is handled while any call runs stops every server (`signal_stops_servers`).
-/
import HelixRack.Program

namespace HelixRack

namespace Program

variable {α σ : Type} {prog : Program α σ} {trapGeneration : Nat}
  {original : Signal → TrapHandler α} {i : Nat} {config : Config} {s s' : ProgramState α σ}
  {n : Native σ}

/-! ## 1. What the flags say -/

variable (prog) in
/-- The handler of a signal calls `_request_shutdown`. -/
def Asks (s : ProgramState α σ) : ProgramEvent → Prop
  | .signal signal signo => requestsShutdown (prog.handled s.process signal signo).effects = true
  | _ => False

def Clears (e : ProgramEvent) : Prop := ∃ i, e = .reset i

theorem Turns.shutdownRequested {p p' : Process α} {e : ProcessEvent} (h : prog.Turns p e p')
    (hreset : ∀ i, e ≠ .reset i) (hsignal : ∀ signal signo, e ≠ .signal signal signo) :
    p'.shutdownRequested = p.shutdownRequested := by
  obtain ⟨os, hmove⟩ := h.move
  cases hmove with
  | @reset i => exact absurd rfl (hreset i)
  | signal signal signo => exact absurd rfl (hsignal signal signo)
  | install | killed | noticed | sleep | finish => rfl

/-- **`SHUTDOWN_REQUESTED` is set** if and only if a handler has called `_request_shutdown` and
no call has started since. -/
theorem shutdownRequested_iff {es : List ProgramEvent} {os : List (ProgramEffect α)}
    (h : prog.machine.run (.idle trapGeneration original) es = some (s, os)) :
    s.process.shutdownRequested = true ↔
      prog.machine.Raised prog.Asks Clears (.idle trapGeneration original) es := by
  refine Machine.flag_iff_raised
    (fun s : ProgramState α σ => s.process.shutdownRequested = true) Bool.false_ne_true ?_ h
  intro s e s' o hst
  have hkept : ∀ {e : ProgramEvent}, s'.process.shutdownRequested = s.process.shutdownRequested →
      ¬ prog.Asks s e → ¬ Clears e → (s'.process.shutdownRequested = true ↔
        prog.Asks s e ∨ (s.process.shutdownRequested = true ∧ ¬ Clears e)) := by
    intro e heq hasks hclears
    rw [heq]
    simp only [hasks, hclears, not_false_eq_true, and_true, false_or]
  have hnot : ∀ {e : ProgramEvent}, (∀ i, e ≠ .reset i) → ¬ Clears e := by
    rintro e he ⟨i, hi⟩
    exact he i hi
  cases machine_step hst with
  | @reset i p' hturns =>
    obtain ⟨os', hmove⟩ := hturns.move
    cases hmove with
    | reset hcall =>
      refine iff_of_false Bool.false_ne_true ?_
      rintro (hasks | ⟨-, hkeeps⟩)
      · exact hasks
      · exact hkeeps ⟨i, rfl⟩
  | install hturns | polled hinside hcall hturns hnative | finish hreturned hturns
  | kill hkillable hturns =>
    exact hkept (hturns.shutdownRequested (by simp) (by simp)) id (hnot (by simp))
  | start | native | unblock => exact hkept rfl id (hnot (by simp))
  | @signal signal signo p' hturns =>
    obtain ⟨os', hmove⟩ := hturns.move
    cases hmove with
    | signal =>
      have hclears : ¬ Clears (.signal signal signo) := hnot (by simp)
      simp only [Process.handleSignal, Asks, handled, Bool.or_eq_true, hclears,
        not_false_eq_true, and_true]
      exact or_comm

theorem enter_cancel (i : Nat) : (prog.enter i).cancel = false := by
  unfold enter
  split <;> rfl

theorem started_cancel (i : Nat) (config : Config) (point : Startup) (ok : Bool) :
    (prog.started i config point ok).cancel = false := by
  rcases started_cases prog i config point ok with ⟨next, heq | heq⟩ | heq <;> rw [heq] <;> rfl

/-- **The flag of `without_gvl` is set** if and only if `unblock` was called for it. -/
theorem cancel_iff {es : List ProgramEvent} {os : List (ProgramEffect α)}
    (h : prog.machine.run (.idle trapGeneration original) es = some (s, os)) :
    (s.natives i).cancel = true ↔
      prog.machine.Raised (fun _ e => e = .unblock i) (fun e => e = .install i)
        (.idle trapGeneration original) es := by
  refine Machine.flag_iff_raised
    (fun s : ProgramState α σ => (s.natives i).cancel = true) ?_ ?_ h
  · exact Bool.false_ne_true
  intro s e s' o hst
  have hmove := machine_step hst
  have hkept : e ≠ .unblock i → e ≠ .install i → (s'.natives i).cancel = (s.natives i).cancel →
      ((s'.natives i).cancel = true ↔
        e = .unblock i ∨ ((s.natives i).cancel = true ∧ ¬ e = .install i)) := by
    intro hunblock hinstall heq
    rw [heq]
    simp only [hunblock, hinstall, not_false_eq_true, and_true, false_or]
  by_cases hcall : e.call = some i
  case neg =>
    have hother : ∀ e', e'.call = some i → e ≠ e' := by
      rintro e' he' rfl
      exact hcall he'
    exact hkept (hother _ rfl) (hother _ rfl) (by rw [(hmove.frame hcall).2])
  cases hmove with
  | reset | finish | kill => exact hkept (by simp) (by simp) rfl
  | install hturns =>
    cases hcall
    refine iff_of_false ?_ (by simp)
    rw [ProgramState.setNative_natives_self, enter_cancel]
    exact Bool.false_ne_true
  | start hinside hcall' =>
    cases hcall
    refine hkept (by simp) (by simp) ?_
    rw [ProgramState.setNative_natives_self, started_cancel, hcall']
    rfl
  | polled hinside hrunning hturns hnative | native hinside hrunning hpoll hnative =>
    cases hcall
    refine hkept (by simp) (by simp) ?_
    rw [ProgramState.setNative_natives_self, hrunning]
    rfl
  | unblock hinside hrunning =>
    cases hcall
    rw [ProgramState.setNative_natives_self]
    exact iff_of_true rfl (Or.inl rfl)
  | signal => cases hcall

/-! ## 2. Why a server stops -/

/-- The turn of `cancelled` that has stopped the server of a call. -/
structure Stopped (prog : Program α σ) (s₀ : ProgramState α σ) (es : List ProgramEvent) (i : Nat)
    (pre post : List ProgramEvent) : Prop where
  turn : es = pre ++ .native i (.cancelled true) :: post
  reason : .unblock i ∈ pre ∨ prog.machine.Raised prog.Asks Clears s₀ pre
  closed : ∀ ok, .native i (.accept ok) ∉ post

theorem Stopped.snoc {s₀ : ProgramState α σ} {es pre post : List ProgramEvent} {e : ProgramEvent}
    (h : prog.Stopped s₀ es i pre post) (he : ∀ ok, e ≠ .native i (.accept ok)) :
    prog.Stopped s₀ (es ++ [e]) i pre (post ++ [e]) := by
  refine ⟨by rw [h.turn, List.append_assoc, List.cons_append], h.reason, fun ok hmem => ?_⟩
  rcases List.mem_append.mp hmem with hmem | hmem
  · exact h.closed ok hmem
  · exact he ok (List.mem_singleton.mp hmem).symm

/-- **A server that has closed its listener was stopped**, for its reason. -/
theorem stopped_of_closed {es : List ProgramEvent} {os : List (ProgramEffect α)}
    (h : prog.machine.run (.idle trapGeneration original) es = some (s, os)) {cancel : Bool}
    (hcall : s.natives i = .running config cancel n) (hclosed : n.stage.closed = true) :
    ∃ pre post, prog.Stopped (.idle trapGeneration original) es i pre post := by
  refine Machine.run_induction (P := fun es s _ => ∀ config cancel n,
    s.natives i = .running config cancel n → n.stage.closed = true →
    ∃ pre post, prog.Stopped (.idle trapGeneration original) es i pre post) ?_ ?_ h config cancel n
    hcall hclosed
  · intro config cancel n hcall
    cases hcall
  · intro es s os e s' o hrun ih hst config cancel n hcall hclosed
    have hmove := machine_step hst
    have hkept : ∀ {cancel' : Bool}, s.natives i = .running config cancel' n →
        (∀ ok, e ≠ .native i (.accept ok)) →
        ∃ pre post, prog.Stopped (.idle trapGeneration original) (es ++ [e]) i pre post := by
      intro cancel' hbefore he
      obtain ⟨pre, post, hstopped⟩ := ih config cancel' n hbefore hclosed
      exact ⟨pre, _, hstopped.snoc he⟩
    by_cases hown : e.call = some i
    case neg =>
      rw [(hmove.frame hown).2] at hcall
      refine hkept hcall ?_
      rintro ok rfl
      exact hown rfl
    cases hmove with
    | reset | finish | kill => exact hkept hcall (by simp)
    | install hturns =>
      cases hown
      rw [ProgramState.setNative_natives_self, enter] at hcall
      split at hcall <;> cases hcall
    | @start _ ok config' point hinside hstarting =>
      cases hown
      rw [ProgramState.setNative_natives_self] at hcall
      rcases started_cases prog i config' point ok with ⟨next, heq | heq⟩ | heq <;>
        rw [heq] at hcall <;> cases hcall
      cases hclosed
    | unblock hinside hrunning =>
      cases hown
      rw [ProgramState.setNative_natives_self] at hcall
      cases hcall
      exact hkept hrunning (by simp)
    | polled hinside hrunning hturns hnative =>
      cases hown
      rw [ProgramState.setNative_natives_self] at hcall
      cases hcall
      obtain ⟨hiff, hstays⟩ := Server.native_closed hnative
      rcases hiff.mp hclosed with hbefore | hnow
      · exact absurd rfl ((hstays hbefore).2 _)
      · -- this is the turn
        have hreads := NativeEvent.cancelled.inj hnow
        rw [hreads]
        refine ⟨es, [], rfl, ?_, fun ok => List.not_mem_nil⟩
        rcases (Bool.or_eq_true _ _).mp hreads with hcancel | hflag
        · obtain ⟨early, x, mid, t, os', rfl, -, rfl, -⟩ :=
            (cancel_iff (i := i) hrun).mp (by rw [hrunning]; exact hcancel)
          exact Or.inl (List.mem_append_right _ List.mem_cons_self)
        · exact Or.inr ((shutdownRequested_iff hrun).mp hflag)
    | @native _ _ _ native event r hinside hrunning hpoll hnative =>
      cases hown
      rw [ProgramState.setNative_natives_self] at hcall
      cases hcall
      obtain ⟨hiff, hstays⟩ := Server.native_closed hnative
      rcases hiff.mp hclosed with hbefore | hnow
      · obtain ⟨pre, post, hstopped⟩ := ih _ _ _ hrunning hbefore
        refine ⟨pre, _, hstopped.snoc ?_⟩
        rintro ok ⟨⟩
        exact (hstays hbefore).1 ok rfl
      · exact absurd hnow (hpoll true)
    | signal => cases hown

/-- Settings that were passed on have passed the checks. -/
theorem checked_of_run {es : List ProgramEvent} {os : List (ProgramEffect α)}
    (h : prog.machine.run (.idle trapGeneration original) es = some (s, os))
    (hpassed : (s.natives i).passed = some config) :
    (prog.calls i).settings.check = .ok config := by
  refine Machine.run_invariant (I := fun s : ProgramState α σ => ∀ config,
    (s.natives i).passed = some config → (prog.calls i).settings.check = .ok config) ?_ ?_ h
    config hpassed
  · intro config hpassed
    cases hpassed
  intro s e s' o hi hst config hpassed
  have hmove := machine_step hst
  by_cases hown : e.call = some i
  case neg =>
    rw [(hmove.frame hown).2] at hpassed
    exact hi config hpassed
  cases hmove with
  | reset | finish | kill => exact hi config hpassed
  | install hturns =>
    cases hown
    rw [ProgramState.setNative_natives_self, enter] at hpassed
    split at hpassed <;> cases hpassed
    assumption
  | @start _ ok config' point hinside hcall =>
    cases hown
    rw [ProgramState.setNative_natives_self] at hpassed
    refine hi config ?_
    rw [hcall]
    rcases started_cases prog i config' point ok with ⟨next, heq | heq⟩ | heq <;>
      rw [heq] at hpassed <;> cases hpassed <;> rfl
  | polled hinside hrunning | native hinside hrunning | unblock hinside hrunning =>
    cases hown
    rw [ProgramState.setNative_natives_self] at hpassed
    refine hi config ?_
    rw [hrunning]
    exact hpassed
  | signal => cases hown

/-- A start that has failed has failed at a step. -/
theorem failed_of_run {es : List ProgramEvent} {os : List (ProgramEffect α)}
    (h : prog.machine.run (.idle trapGeneration original) es = some (s, os)) {point : Startup}
    (hfailed : s.natives i = .failed point) : .start i false ∈ es := by
  refine Machine.run_induction (P := fun es s _ => s.natives i = .failed point →
    .start i false ∈ es) (fun hfailed => by cases hfailed) ?_ h hfailed
  intro es s os e s' o hrun ih hst hfailed
  have hmove := machine_step hst
  by_cases hown : e.call = some i
  case neg =>
    rw [(hmove.frame hown).2] at hfailed
    exact List.mem_append_left _ (ih hfailed)
  cases hmove with
  | reset | finish | kill => exact List.mem_append_left _ (ih hfailed)
  | install hturns =>
    cases hown
    rw [ProgramState.setNative_natives_self, enter] at hfailed
    split at hfailed <;> cases hfailed
  | @start _ ok config' point' hinside hcall =>
    cases hown
    rw [ProgramState.setNative_natives_self] at hfailed
    cases ok with
    | false => exact List.mem_append_right _ List.mem_cons_self
    | true =>
      simp only [started, if_true] at hfailed
      split at hfailed <;> cases hfailed
  | polled | native | unblock =>
    cases hown
    rw [ProgramState.setNative_natives_self] at hfailed
    cases hfailed
  | signal => cases hown

/-- A call that has ended has left `_serve_native` behind. -/
theorem killable_of_ended {es : List ProgramEvent} {os : List (ProgramEffect α)}
    (h : prog.machine.run (.idle trapGeneration original) es = some (s, os))
    (hended : s.process.calls i = .ended) :
    (s.natives i).killable = true ∧ (.kill i ∉ es → (s.natives i).returned = true) := by
  refine Machine.run_induction (P := fun es s _ => s.process.calls i = .ended →
    (s.natives i).killable = true ∧ (.kill i ∉ es → (s.natives i).returned = true)) ?_ ?_ h hended
  · intro hended
    cases hended
  · intro es s os e s' o hrun ih hst hended
    have hmove := machine_step hst
    by_cases hown : e.call = some i
    case neg =>
      obtain ⟨hcalls, hnatives⟩ := hmove.frame hown
      rw [hcalls] at hended
      rw [hnatives]
      obtain ⟨hkillable, hreturned⟩ := ih hended
      exact ⟨hkillable, fun hkill => hreturned fun hmem => hkill (List.mem_append_left _ hmem)⟩
    cases hmove with
    | reset hturns =>
      cases hown
      rw [hturns.reset.2] at hended
      cases hended
    | install hturns =>
      cases hown
      obtain ⟨-, call, hserving⟩ := hturns.install
      rw [ProgramState.setNative_process, hserving] at hended
      cases hended
    | polled hinside hrunning hturns hnative =>
      cases hown
      obtain ⟨call, -, hafter⟩ := hturns.poll
      rw [ProgramState.setNative_process, hafter] at hended
      split at hended <;> cases hended
    | native hinside hrunning hpoll hnative | start hinside hrunning
    | unblock hinside hrunning =>
      cases hown
      simp only [ProgramState.setNative_process] at hended
      rw [hended] at hinside
      cases hinside
    | finish hreturned hturns =>
      cases hown
      exact ⟨NativeCall.killable_of_returned hreturned, fun _ => hreturned⟩
    | kill hkillable hturns =>
      cases hown
      exact ⟨hkillable, fun hkill => absurd (List.mem_append_right _ List.mem_cons_self) hkill⟩
    | signal => cases hown

/-! ## 3. What a call can do -/

end Program

namespace Startup

/-- How much is left to do before `block_on`. -/
def remaining : Startup → Nat
  | .prepareApp => 3
  | .spawnWatchdog => 2
  | .buildRuntime => 1

theorem remaining_of_next {point next : Startup} (h : point.next = some next) :
    point.remaining = next.remaining + 1 := by
  cases point <;> cases h <;> rfl

theorem remaining_of_last {point : Startup} (h : point.next = none) : point.remaining = 1 := by
  cases point <;> cases h
  rfl

end Startup

/-- An event of the `i`-th call that neither kills it nor keeps it from its `block_on`. -/
def ProgramEvent.Regular (i : Nat) (e : ProgramEvent) : Prop :=
  e.call = some i ∧ e ≠ .kill i ∧ e ≠ .start i false

namespace Program

variable {α σ : Type} {prog : Program α σ} {trapGeneration : Nat}
  {original : Signal → TrapHandler α} {i : Nat} {config : Config} {s s' : ProgramState α σ}
  {n : Native σ}

theorem step_native {cancel : Bool} {event : NativeEvent} {r : Native σ × List Effect}
    (hinside : (s.process.calls i).held.isSome) (hcall : s.natives i = .running config cancel n)
    (hpoll : ∀ requested, event ≠ .cancelled requested)
    (hnative : (prog.server i config).native.step n event = some r) :
    prog.machine.step s (.native i event) =
      some (s.setNative i (.running config cancel r.1), r.2.map .task) := by
  obtain ⟨call, hheld⟩ := Option.isSome_iff_exists.mp hinside
  have hpolled : prog.polled s.process i cancel event = some s.process := by
    cases event with
    | cancelled requested => exact absurd rfl (hpoll requested)
    | bind | accept | backedOff | wake | notified | elapsed | drop => rfl
  have hnative : (prog.server i config).nativeStep n event = some r := hnative
  simp only [machine, step, hheld, hcall, hpolled, hnative, Option.bind_some, Option.map_some]

variable (prog) in
theorem step_started {point : Startup} (hinside : (s.process.calls i).held.isSome)
    (hcall : s.natives i = .starting config point) (ok : Bool) :
    prog.machine.step s (.start i ok) =
      some (s.setNative i (prog.started i config point ok), []) := by
  obtain ⟨call, hheld⟩ := Option.isSome_iff_exists.mp hinside
  simp only [machine, step, hheld, hcall]

variable (prog) in
/-- With nothing that fails, a call comes to `block_on`. -/
theorem run_starting {point : Startup} (hinside : (s.process.calls i).held.isSome)
    (hcall : s.natives i = .starting config point) :
    ∃ s', prog.machine.run s (List.replicate point.remaining (.start i true)) = some (s', []) ∧
      s'.process = s.process ∧ s'.natives i = .running config false (.new (prog.calls i).app) := by
  induction hk : point.remaining generalizing point s with
  | zero => cases point <;> cases hk
  | succ k ih =>
    have hstep := step_started prog hinside hcall true
    cases hnext : point.next with
    | none =>
      simp only [started, hnext, if_true] at hstep
      rw [Startup.remaining_of_last hnext] at hk
      cases hk
      exact ⟨_, Machine.run_cons hstep (Machine.run_nil _ _), rfl,
        ProgramState.setNative_natives_self _ _ _⟩
    | some next =>
      simp only [started, hnext, if_true] at hstep
      rw [Startup.remaining_of_next hnext] at hk
      obtain ⟨s', hrun, hprocess, hrunning⟩ := ih
        (s := s.setNative i (.starting config next)) hinside
        (ProgramState.setNative_natives_self _ _ _) (Nat.succ.inj hk)
      exact ⟨s', Machine.run_cons hstep hrun, hprocess, hrunning⟩

variable (prog) in
/-- A first call begins, and comes to `block_on`. -/
theorem run_start (trapGeneration : Nat) (original : Signal → TrapHandler α)
    (hcheck : (prog.calls 0).settings.check = .ok config) :
    ∃ s₁ call, prog.machine.run (.idle trapGeneration original)
          ([.reset 0, .install 0] ++ List.replicate 3 (.start 0 true)) = some (s₁, []) ∧
      s₁.process.calls 0 = .serving call ∧
      s₁.natives 0 = .running config false (.new (prog.calls 0).app) := by
  have hfirst : ∃ s call, prog.machine.run (.idle trapGeneration original)
      [.reset 0, .install 0] = some (s, []) ∧ s.process.calls 0 = .serving call ∧
        s.natives 0 = prog.enter 0 := ⟨_, _, rfl, rfl, rfl⟩
  obtain ⟨s, call, hrun, hserving, henter⟩ := hfirst
  simp only [enter, hcheck] at henter
  obtain ⟨s₁, hstarts, hprocess, hrunning⟩ :=
    run_starting prog (by rw [hserving]; rfl) henter
  exact ⟨s₁, call, Machine.run_append hrun hstarts, by rw [hprocess, hserving], hrunning⟩

/-- What its server can do without `cancelled`, a call can do. -/
theorem run_native {cancel : Bool} {nes : List NativeEvent} {n' : Native σ} {os : List Effect}
    (hinside : (s.process.calls i).held.isSome) (hcall : s.natives i = .running config cancel n)
    (hpoll : ∀ requested, .cancelled requested ∉ nes)
    (h : (prog.server i config).native.run n nes = some (n', os)) :
    ∃ s', prog.machine.run s (nes.map (.native i)) = some (s', os.map .task) ∧
      s'.process = s.process ∧ s'.natives i = .running config cancel n' := by
  induction nes generalizing s n os with
  | nil =>
    cases h
    exact ⟨s, rfl, rfl, hcall⟩
  | cons event nes ih =>
    obtain ⟨m, o, os', hst, hrun, rfl⟩ := Machine.run_cons_inv h
    have hfirst := step_native hinside hcall
      (fun requested he => hpoll requested (by rw [he]; exact List.mem_cons_self)) hst
    obtain ⟨s', hrest, hprocess, hnative⟩ := ih
      (s := s.setNative i (.running config cancel m)) hinside
      (ProgramState.setNative_natives_self _ _ _)
      (fun requested hmem => hpoll requested (List.mem_cons_of_mem _ hmem)) hrun
    refine ⟨s', ?_, hprocess, hnative⟩
    rw [List.map_cons, List.map_append]
    exact Machine.run_cons hfirst hrest

theorem step_unblock {cancel : Bool} (hinside : (s.process.calls i).held.isSome)
    (hcall : s.natives i = .running config cancel n) :
    prog.machine.step s (.unblock i) = some (s.setNative i (.running config true n), []) := by
  obtain ⟨call, hheld⟩ := Option.isSome_iff_exists.mp hinside
  simp only [machine, step, hheld, hcall]

variable (prog) in
/-- A turn of `cancelled` that reads `true`. -/
theorem step_cancelled {call : Serving α} {cancel : Bool} {r : Native σ × List Effect}
    (hserving : s.process.calls i = .serving call)
    (hcall : s.natives i = .running config cancel n)
    (hreads : (cancel || s.process.shutdownRequested) = true)
    (hnative : (prog.server i config).native.step n (.cancelled true) = some r) :
    prog.machine.step s (.native i (.cancelled true)) =
      some ((⟨s.process.setCall i (.draining call), s.natives⟩ : ProgramState α σ).setNative i
        (.running config cancel r.1), r.2.map .task) := by
  have hpoll : (s.process.step prog.world (.poll i cancel)).map Prod.fst =
      some (s.process.setCall i (.draining call)) := by
    cases cancel with
    | true => simp only [Process.step, hserving, Process.cancelled, if_true, Option.map_some]
    | false =>
      rw [Bool.false_or] at hreads
      simp only [Process.step, hserving, Process.cancelled, Bool.false_eq_true, if_false, hreads,
        if_true, Option.map_some]
  have hpolled : prog.polled s.process i cancel (.cancelled true) =
      some (s.process.setCall i (.draining call)) := by
    simp only [polled, hreads, if_true, hpoll]
  have hnative : (prog.server i config).nativeStep n (.cancelled true) = some r := hnative
  simp only [machine, step, hserving, CallPhase.held, hcall, hpolled, hnative, Option.bind_some,
    Option.map_some]

variable (prog) in
/-- `_serve_native` has returned, and the `ensure` runs. -/
theorem step_finish (hinside : (s.process.calls i).held.isSome)
    (hreturned : (s.natives i).returned = true) :
    ∃ s', prog.machine.step s (.finish i) = some (s', []) ∧ s'.process.calls i = .ended := by
  have hends : ∃ p', s.process.step prog.world (.finish i) = some (p', []) ∧
      p'.calls i = .ended := by
    cases hphase : s.process.calls i with
    | notStarted | reset | ended =>
      rw [hphase] at hinside
      cases hinside
    | serving call | draining call =>
      exact ⟨(s.process.restoreShutdownTraps call).setCall i .ended,
        by simp only [Process.step, hphase], Process.setCall_calls_self _ _ _⟩
  obtain ⟨p', hstep, hended⟩ := hends
  refine ⟨⟨p', s.natives⟩, ?_, hended⟩
  simp only [machine, step, hreturned, if_true, hstep, Option.map_some]

/-- As long as `cancelled` is pending, or still to come, the call has not noticed a shutdown. -/
structure Joined (s : ProgramState α σ) (i : Nat) : Prop where
  called : (s.process.calls i).held.isSome → s.natives i ≠ .notCalled
  serving : (s.process.calls i).held.isSome → (s.natives i).pending = true →
    ∃ call, s.process.calls i = .serving call

theorem joined_of_run {es : List ProgramEvent} {os : List (ProgramEffect α)}
    (h : prog.machine.run (.idle trapGeneration original) es = some (s, os)) (i : Nat) :
    Joined s i := by
  refine Machine.run_invariant (I := fun s : ProgramState α σ => Joined s i) ?_ ?_ h
  · exact ⟨nofun, nofun⟩
  intro s e s' o hi hst
  have hmove := machine_step hst
  by_cases hown : e.call = some i
  case neg =>
    obtain ⟨hcalls, hnatives⟩ := hmove.frame hown
    constructor <;> rw [hcalls, hnatives]
    · exact hi.called
    · exact hi.serving
  cases hmove with
  | @reset _ p' hturns =>
    cases hown
    have hnot : ¬ (p'.calls i).held.isSome := by
      rw [hturns.reset.2]
      exact Bool.false_ne_true
    exact ⟨fun hinside => absurd hinside hnot, fun hinside => absurd hinside hnot⟩
  | install hturns =>
    cases hown
    refine ⟨fun _ => ?_, fun _ _ => hturns.install.2⟩
    rw [ProgramState.setNative_natives_self, enter]
    split <;> simp
  | @start _ ok config point hinside hcall =>
    cases hown
    refine ⟨fun _ => ?_, fun _ _ => hi.serving hinside (by rw [hcall]; rfl)⟩
    rw [ProgramState.setNative_natives_self]
    rcases started_cases prog i config point ok with ⟨next, heq | heq⟩ | heq <;> rw [heq] <;> simp
  | polled hinside hrunning hturns hnative =>
    cases hown
    constructor <;> intro _ <;> rw [ProgramState.setNative_natives_self]
    · simp
    · intro hpending
      obtain ⟨call, -, hafter⟩ := hturns.poll
      refine ⟨call, hafter.trans (if_neg fun hreads => ?_)⟩
      rw [hreads] at hnative
      simp only [NativeCall.pending, (Server.native_closed hnative).1.mpr (Or.inr rfl),
        Bool.not_true, Bool.false_eq_true] at hpending
  | native hinside hrunning hpoll hnative =>
    cases hown
    constructor <;> intro _ <;> rw [ProgramState.setNative_natives_self]
    · simp
    · intro hpending
      refine hi.serving hinside ?_
      rw [hrunning]
      simp only [NativeCall.pending, Bool.not_eq_true', Bool.eq_false_iff] at hpending ⊢
      exact fun hclosed => hpending ((Server.native_closed hnative).1.mpr (Or.inl hclosed))
  | unblock hinside hrunning =>
    cases hown
    constructor <;> intro _ <;> rw [ProgramState.setNative_natives_self]
    · simp
    · exact fun hpending => hi.serving hinside (by rw [hrunning]; exact hpending)
  | @finish _ p' hreturned hturns | @kill _ p' hkillable hturns =>
    cases hown
    have hnot : ¬ (p'.calls i).held.isSome := by
      rw [hturns.finish.2]
      exact Bool.false_ne_true
    exact ⟨fun hinside => absurd hinside hnot, fun hinside => absurd hinside hnot⟩
  | signal => cases hown

variable (prog) in
/-- From the end of `block_on` on, a call comes to its end. -/
theorem run_to_end {cancel : Bool} {ending : Ending}
    (hinside : (s.process.calls i).held.isSome) (hcall : s.natives i = .running config cancel n)
    (hstage : n.stage = .left ending) :
    ∃ es s' os, prog.machine.run s es = some (s', os) ∧ s'.process.calls i = .ended ∧
      ∀ e ∈ es, e.Regular i ∧ e ≠ .unblock i := by
  obtain ⟨drops, n', nos, hrun, hstage', hended, hdrops⟩ :=
    Server.native_drop_all (prog.server i config) hstage
  have hpoll : ∀ requested, .cancelled requested ∉ drops := by
    intro requested hmem
    obtain ⟨k, hk⟩ := hdrops _ hmem
    cases hk
  obtain ⟨s₁, hrun₁, hprocess, hnative⟩ := run_native hinside hcall hpoll hrun
  have hreturned : (s₁.natives i).returned = true := by
    rw [hnative]
    refine Bool.and_eq_true_iff.mpr ⟨?_, ?_⟩
    · simp only [Native.left, hstage']
    · exact List.all_eq_true.mpr fun c hc => decide_eq_true (hended c hc)
  obtain ⟨s', hfinish, hcalls⟩ :=
    step_finish prog (by rw [hprocess]; exact hinside) hreturned
  refine ⟨_, s', _, Machine.run_append hrun₁ (Machine.run_cons hfinish (Machine.run_nil _ _)),
    hcalls, fun e he => ?_⟩
  rcases List.mem_append.mp he with he | he
  · obtain ⟨event, -, rfl⟩ := List.mem_map.mp he
    exact ⟨⟨rfl, by simp, by simp⟩, by simp⟩
  · rw [List.mem_singleton.mp he]
    exact ⟨⟨rfl, by simp, by simp⟩, by simp⟩

variable (prog) in
/-- From the shutdown on, a call comes to its end. -/
theorem run_from_closed {cancel : Bool} (hinside : (s.process.calls i).held.isSome)
    (hcall : s.natives i = .running config cancel n) (hclosed : n.stage.closed = true) :
    ∃ es s' os, prog.machine.run s es = some (s', os) ∧ s'.process.calls i = .ended ∧
      ∀ e ∈ es, e.Regular i ∧ e ≠ .unblock i := by
  cases hstage : n.stage with
  | binding | accepting | backingOff =>
    rw [hstage] at hclosed
    cases hclosed
  | left ending => exact run_to_end prog hinside hcall hstage
  | draining f =>
    -- the grace period runs out
    have helapsed : ∃ ending, (prog.server i config).native.step n .elapsed =
        some (⟨n.system, .left ending⟩, []) := by
      refine ⟨if f.Ready n.system.counter.drained ∧ n.system.counter.inFlightRequests = 0 then
        .drained else .timedOut, ?_⟩
      simp only [Server.native, Server.nativeStep, NativeEvent.label, hstage, Stage.next,
        Option.map_some]
    obtain ⟨ending, helapsed⟩ := helapsed
    have hstep := step_native hinside hcall (fun _ => by simp) helapsed
    obtain ⟨es, s', os, hrun, hended, hes⟩ := run_to_end prog
      (s := s.setNative i (.running config cancel ⟨n.system, .left ending⟩)) hinside
      (ProgramState.setNative_natives_self _ _ _) rfl
    refine ⟨_, s', _, Machine.run_cons hstep hrun, hended, fun e he => ?_⟩
    rcases List.mem_cons.mp he with rfl | he
    · exact ⟨⟨rfl, by simp, by simp⟩, by simp⟩
    · exact hes e he

variable (prog) in
/-- ...and so it does once `cancelled` reads `true`. -/
theorem run_from_requested {cancel : Bool} {call : Serving α}
    (hserving : s.process.calls i = .serving call)
    (hcall : s.natives i = .running config cancel n)
    (hstage : n.stage = .accepting ∨ n.stage = .backingOff)
    (hreads : (cancel || s.process.shutdownRequested) = true) :
    ∃ es s' os, prog.machine.run s es = some (s', os) ∧ s'.process.calls i = .ended ∧
      ∀ e ∈ es, e.Regular i ∧ e ≠ .unblock i := by
  have hturn : (prog.server i config).native.step n (.cancelled true) =
      some (⟨n.system, n.system.counter.drainTurn⟩, []) := by
    rcases hstage with hstage | hstage <;>
      simp only [Server.native, Server.nativeStep, NativeEvent.label, hstage, Stage.next, if_true,
        Option.map_some]
  have hstep := step_cancelled prog hserving hcall hreads hturn
  have hinside' : ((s.process.setCall i (.draining call)).calls i).held.isSome := by
    rw [Process.setCall_calls_self]
    rfl
  obtain ⟨es, s', os, hrun, hended, hes⟩ := run_from_closed prog
    (s := (⟨s.process.setCall i (.draining call), s.natives⟩ : ProgramState α σ).setNative i
      (.running config cancel ⟨n.system, n.system.counter.drainTurn⟩)) hinside'
    (ProgramState.setNative_natives_self _ _ _) n.system.counter.drainTurn_closed
  refine ⟨_, s', _, Machine.run_cons hstep hrun, hended, fun e he => ?_⟩
  rcases List.mem_cons.mp he with rfl | he
  · exact ⟨⟨rfl, by simp, by simp⟩, by simp⟩
  · exact hes e he

variable (prog) in
/-- While `select!` is pending, a call comes to its end, if need be by an `unblock`. -/
theorem run_from_open {cancel : Bool} {call : Serving α}
    (hserving : s.process.calls i = .serving call)
    (hcall : s.natives i = .running config cancel n)
    (hstage : n.stage = .accepting ∨ n.stage = .backingOff) :
    ∃ es s' os, prog.machine.run s es = some (s', os) ∧ s'.process.calls i = .ended ∧
      (∀ e ∈ es, e.Regular i) ∧
      (s.process.shutdownRequested = true → .unblock i ∉ es) := by
  cases hreads : cancel || s.process.shutdownRequested with
  | true =>
    obtain ⟨es, s', os, hrun, hended, hes⟩ :=
      run_from_requested prog hserving hcall hstage hreads
    exact ⟨es, s', os, hrun, hended, fun e he => (hes e he).1, fun _ hmem => (hes _ hmem).2 rfl⟩
  | false =>
    have hinside : (s.process.calls i).held.isSome := by
      rw [hserving]
      rfl
    obtain ⟨es, s', os, hrun, hended, hes⟩ := run_from_requested prog
      (s := s.setNative i (.running config true n)) hserving
      (ProgramState.setNative_natives_self _ _ _) hstage rfl
    refine ⟨.unblock i :: es, s', _, Machine.run_cons (step_unblock hinside hcall) hrun, hended,
      fun e he => ?_, fun hflag => ?_⟩
    · rcases List.mem_cons.mp he with rfl | he
      · exact ⟨rfl, by simp, by simp⟩
      · exact (hes e he).1
    · rw [(Bool.or_eq_false_iff.mp hreads).2] at hflag
      cases hflag

variable (prog) in
/-- ...and also before the port is bound. -/
theorem run_from_binding {cancel : Bool} {call : Serving α}
    (hserving : s.process.calls i = .serving call)
    (hcall : s.natives i = .running config cancel n) (hstage : n.stage = .binding) :
    ∃ es s' os, prog.machine.run s es = some (s', os) ∧ s'.process.calls i = .ended ∧
      (∀ e ∈ es, e.Regular i) ∧ (s.process.shutdownRequested = true → .unblock i ∉ es) := by
  have hbind : (prog.server i config).native.step n (.bind true) =
      some (⟨n.system, .accepting⟩, []) := by
    simp only [Server.native, Server.nativeStep, NativeEvent.label, hstage, Stage.next,
      Option.map_some]
  have hinside : (s.process.calls i).held.isSome := by
    rw [hserving]
    rfl
  obtain ⟨es, s', os, hrun, hended, hes, hflag⟩ := run_from_open prog
    (s := s.setNative i (.running config cancel ⟨n.system, .accepting⟩)) hserving
    (ProgramState.setNative_natives_self _ _ _) (Or.inl rfl)
  refine ⟨_, s', _, Machine.run_cons (step_native hinside hcall (fun _ => by simp) hbind) hrun,
    hended, fun e he => ?_, fun hset hmem => ?_⟩
  · rcases List.mem_cons.mp he with rfl | he
    · exact ⟨rfl, by simp, by simp⟩
    · exact hes e he
  · rcases List.mem_cons.mp hmem with he | hmem
    · cases he
    · exact hflag hset hmem

/-! ## 4. A stopped server stays stopped -/

/-- What a step does to a server: nothing, or a step of its own. -/
theorem Move.running {e : ProgramEvent} {r : ProgramState α σ × List (ProgramEffect α)}
    (hmove : prog.Move s e r) {cancel : Bool} (hinstalled : s.process.Installed i)
    (hcall : s.natives i = .running config cancel n) :
    r.1.process.Installed i ∧ ∃ cancel' n', r.1.natives i = .running config cancel' n' ∧
      ((n' = n ∧ ∀ event, e ≠ .native i event) ∨
        ∃ event os, e = .native i event ∧
          (prog.server i config).native.step n event = some (n', os)) := by
  by_cases hown : e.call = some i
  case neg =>
    obtain ⟨hcalls, hnatives⟩ := hmove.frame hown
    refine ⟨?_, cancel, n, hnatives.trans hcall, Or.inl ⟨rfl, ?_⟩⟩
    · rw [Process.Installed, hcalls]
      exact hinstalled
    · rintro event rfl
      exact hown rfl
  cases hmove with
  | reset hturns =>
    cases hown
    exact absurd hturns.reset.1 hinstalled.1
  | install hturns =>
    cases hown
    exact absurd hturns.install.1 hinstalled.2
  | start hinside hrunning =>
    cases hown
    rw [hcall] at hrunning
    cases hrunning
  | polled hinside hrunning hturns hnative =>
    cases hown
    rw [hcall] at hrunning
    cases hrunning
    exact ⟨hturns.installed hinstalled, _, _, ProgramState.setNative_natives_self _ _ _,
      Or.inr ⟨_, _, rfl, hnative⟩⟩
  | native hinside hrunning hpoll hnative =>
    cases hown
    rw [hcall] at hrunning
    cases hrunning
    exact ⟨hinstalled, _, _, ProgramState.setNative_natives_self _ _ _,
      Or.inr ⟨_, _, rfl, hnative⟩⟩
  | unblock hinside hrunning =>
    cases hown
    rw [hcall] at hrunning
    cases hrunning
    exact ⟨hinstalled, _, _, ProgramState.setNative_natives_self _ _ _, Or.inl ⟨rfl, by simp⟩⟩
  | finish hreturned hturns | kill hkillable hturns =>
    cases hown
    exact ⟨hturns.installed hinstalled, _, _, hcall, Or.inl ⟨rfl, by simp⟩⟩
  | signal => cases hown

/-- Behind the turn that stops it, a server accepts nobody. -/
theorem Move.closed {e : ProgramEvent} {r : ProgramState α σ × List (ProgramEffect α)}
    (hmove : prog.Move s e r) {cancel : Bool} (hinstalled : s.process.Installed i)
    (hcall : s.natives i = .running config cancel n) (hclosed : n.stage.closed = true) :
    (∀ ok, e ≠ .native i (.accept ok)) ∧ r.1.process.Installed i ∧
      ∃ cancel' n', r.1.natives i = .running config cancel' n' ∧ n'.stage.closed = true := by
  obtain ⟨hinstalled', cancel', n', hcall', ⟨rfl, he⟩ | ⟨event, os, rfl, hnative⟩⟩ :=
    hmove.running hinstalled hcall
  · exact ⟨fun ok => he _, hinstalled', cancel', _, hcall', hclosed⟩
  · obtain ⟨hiff, hstays⟩ := Server.native_closed hnative
    refine ⟨?_, hinstalled', cancel', n', hcall', hiff.mpr (Or.inl hclosed)⟩
    rintro ok ⟨⟩
    exact (hstays hclosed).1 ok rfl

/-- Things happen to a server only once `block_on` runs. -/
theorem running_of_native {original : Signal → TrapHandler α} {es : List ProgramEvent}
    {os : List (ProgramEffect α)}
    (h : prog.machine.run (.idle trapGeneration original) es = some (s, os)) {event : NativeEvent}
    (hmem : .native i event ∈ es) :
    s.process.Installed i ∧ ∃ config cancel n, s.natives i = .running config cancel n := by
  refine Machine.run_induction (P := fun es s _ => .native i event ∈ es →
    s.process.Installed i ∧ ∃ config cancel n, s.natives i = .running config cancel n)
    (fun hmem => absurd hmem List.not_mem_nil) ?_ h hmem
  intro es s os e s' o hrun ih hst hmem
  have hmove := machine_step hst
  rcases List.mem_append.mp hmem with hmem | hmem
  · obtain ⟨hinstalled, config, cancel, n, hcall⟩ := ih hmem
    obtain ⟨hinstalled', cancel', n', hcall', -⟩ := hmove.running hinstalled hcall
    exact ⟨hinstalled', config, cancel', n', hcall'⟩
  · rw [← List.mem_singleton.mp hmem] at hmove
    cases hmove with
    | polled hinside hcall hturns hnative =>
      exact ⟨hturns.installed (installed_of_held hinside), _, _, _,
        ProgramState.setNative_natives_self _ _ _⟩
    | native hinside hcall hpoll hnative =>
      exact ⟨installed_of_held hinside, _, _, _, ProgramState.setNative_natives_self _ _ _⟩

end Program

/-! A server answers two clients, and then there is a `SIGTERM`. -/

namespace Once

def config : Config where
  port := 8080
  bind := "0.0.0.0"
  keepAliveTimeoutSeconds := 15
  maxKeepalive := 3
  cpuTimeSliceMs := 5
  gracePeriodSeconds := 30
  port_le := by decide
  maxKeepalive_pos := by decide

def program : Program Signal Nat where
  world := ⟨fun _ => false, fun _ => false⟩
  httparse := Single.numbered.httparse
  combineWrite := true
  calls := fun _ => ⟨Single.numbered.handler, 0, config.settings⟩

theorem server_eq : program.server 0 config = Single.numbered := rfl

theorem check_settings : config.settings.check = .ok config := Settings.check_eq_ok_iff.mpr rfl

def labels : List Label := Single.labels 3 (Single.number 0) (Single.number 1)

def events : List ProgramEvent :=
  ([.reset 0, .install 0] ++ List.replicate 3 (.start 0 true)) ++
    (.bind true :: labels.map Label.native).map (.native 0)

/-- The two clients are answered. -/
theorem run_events : ∃ s os n call,
    program.machine.run (.idle 0 fun signal => .callable signal) events = some (s, os) ∧
      s.process.calls 0 = .serving call ∧ s.natives 0 = .running config false n ∧
      n.stage = .accepting := by
  obtain ⟨c, c', t, los, hlog, -⟩ := Single.run_numbered
  have hnative := Machine.run_cons
    (rfl : Single.numbered.native.step (.new 0) (.bind true) = some (⟨.new 0, .accepting⟩, []))
    (Server.native_of_serve (Machine.run_of_logged hlog) Single.not_drop_mem_labels)
  rw [← server_eq] at hnative
  obtain ⟨s₁, call, hrun, hserving, hcall⟩ :=
    Program.run_start program 0 (fun signal => .callable signal) check_settings
  have hinside : (s₁.process.calls 0).held.isSome := by
    rw [hserving]
    rfl
  have hpoll : ∀ requested, NativeEvent.cancelled requested ∉
      .bind true :: labels.map Label.native := by
    intro requested
    simp [labels, Single.labels, Single.events, Label.native]
  obtain ⟨s, hnatives, hprocess, hnative'⟩ :=
    Program.run_native hinside hcall hpoll hnative
  exact ⟨s, _, _, call, Machine.run_append hrun hnatives, by rw [hprocess, hserving], hnative', rfl⟩

theorem bind_mem : .native 0 (.bind true) ∈ events :=
  List.mem_append_right _ List.mem_cons_self

/-- The watchdog thread cannot be spawned. -/
def unserved : List ProgramEvent :=
  [.reset 0, .install 0, .start 0 true, .start 0 false, .finish 0]

theorem run_unserved : ∃ s los,
    program.machine.logged.run (.idle 0 fun signal => .callable signal) unserved =
        some (s, los) ∧ s.process.calls 0 = .ended := ⟨_, _, rfl, rfl⟩

end Once

namespace Program

variable {α σ : Type} {prog : Program α σ} {trapGeneration : Nat} {i : Nat}
  {s : ProgramState α σ}

/-! ## 5. The life of a call -/

/-- How a call ends that has never come to `block_on`: with no server that anything could have
happened to, and for a reason. -/
structure Unserved (prog : Program α σ) (es : List ProgramEvent) (i : Nat) : Prop where
  idle : ∀ event, .native i event ∉ es
  reason : (∃ message, (prog.calls i).settings.check = .error message) ∨
    .start i false ∈ es ∨ .kill i ∈ es

/-- How a call ends that has come to `block_on`: its server alone has come to its end, with
nobody accepted if the port could not be bound, and otherwise stopped for its reason; a `drain`
that has returned of itself has cut nobody off, and unless its thread was killed no task is
left. -/
structure Returned (prog : Program α σ) (s₀ : ProgramState α σ) (es : List ProgramEvent)
    (los : List (ProgramEvent × ProgramEffect α)) (i : Nat) (config : Config) (n : Native σ)
    (ending : Ending) : Prop where
  run : (prog.server i config).native.logged.run (.new (prog.calls i).app)
    ((inside (α := α) i).inputs es) = some (n, (inside i).outputs los)
  stage : n.stage = .left ending
  unbound : ending = .bindFailed → n.system.conns = []
  stopped : ending ≠ .bindFailed → ∃ pre post, prog.Stopped s₀ es i pre post
  whole : ending = .drained → ∀ k, k < n.system.conns.length →
    (prog.server i config).Whole ((inside (α := α) i).inputs es) ((inside i).outputs los) k
  ended : .kill i ∉ es → ∀ c ∈ n.system.conns, c.await.Ended

/-- **A call returns for a reason, and lets its clients go properly**, once it has come to
`block_on`; and where it has not, nothing has happened to anybody. -/
theorem every_return_explained {original : Signal → TrapHandler α} {es : List ProgramEvent}
    {los : List (ProgramEvent × ProgramEffect α)}
    (h : prog.machine.logged.run (.idle trapGeneration original) es = some (s, los))
    (hended : s.process.calls i = .ended) :
    prog.Unserved es i ∨
      ∃ config n ending, (prog.calls i).settings.check = .ok config ∧
        prog.Returned (.idle trapGeneration original) es los i config n ending := by
  have hrun := Machine.run_of_logged h
  have hidle : (∀ config cancel n, s.natives i ≠ .running config cancel n) →
      ∀ event, .native i event ∉ es := by
    intro hnone event hmem
    obtain ⟨-, config, cancel, n, hcall⟩ := running_of_native hrun hmem
    exact hnone config cancel n hcall
  cases hcheck : (prog.calls i).settings.check with
  | error message =>
    refine Or.inl ⟨hidle fun config cancel n hcall => ?_, Or.inl ⟨message, hcheck⟩⟩
    have hpassed : (s.natives i).passed = some config := by
      rw [hcall]
      rfl
    have hok := checked_of_run hrun hpassed
    rw [hcheck] at hok
    cases hok
  | ok config =>
    obtain ⟨n, hnative, hfollows⟩ := native_of_program hcheck h
    obtain ⟨hkillable, hreturned⟩ := killable_of_ended hrun hended
    cases hfollows with
    | before hbefore => exact absurd ⟨by rw [hended]; simp, by rw [hended]; simp⟩ hbefore
    | starting hinstalled hcall =>
      refine Or.inl ⟨hidle fun config cancel n hrunning => ?_, Or.inr ?_⟩
      · rw [hrunning] at hcall
        rcases hcall with hcall | hcall <;> cases hcall
      · rcases hcall with hcall | hcall
        · -- it returns only if it is killed
          by_contra hnot
          have hback := hreturned fun hmem => hnot (Or.inr hmem)
          rw [hcall] at hback
          cases hback
        · exact Or.inl (failed_of_run hrun hcall)
    | @running cancel _ hinstalled hcall =>
      rw [hcall] at hkillable hreturned
      obtain ⟨ending, hstage⟩ : ∃ ending, n.stage = .left ending := by
        simp only [NativeCall.killable, Native.left] at hkillable
        split at hkillable
        · exact ⟨_, ‹_›⟩
        · cases hkillable
      refine Or.inr ⟨config, n, ending, rfl, hnative, hstage, ?_, ?_, ?_, ?_⟩
      · rintro rfl
        exact (Server.native_inv (Machine.run_of_logged hnative)).unbound (Or.inr hstage)
      · intro hbound
        refine stopped_of_closed hrun hcall ?_
        rw [hstage]
        cases ending with
        | bindFailed => exact absurd rfl hbound
        | drained | timedOut => rfl
      · rintro rfl k hk
        exact Server.drained_whole hnative hstage hk
      · intro hkill c hc
        have hall := (Bool.and_eq_true_iff.mp (hreturned hkill)).2
        exact of_decide_eq_true (List.all_eq_true.mp hall c hc)

/-- The two clients are answered, and then the server is stopped; and where there is no thread to
be had for the watchdog, nobody is served. -/
theorem every_return_explained_once :
    (∃ es s los n ending,
      Once.program.machine.logged.run (.idle 0 fun signal => .callable signal) es =
          some (s, los) ∧
        Once.program.Returned (.idle 0 fun signal => .callable signal) es los 0 Once.config n
          ending) ∧
      ∃ s los,
        Once.program.machine.logged.run (.idle 0 fun signal => .callable signal)
            Once.unserved = some (s, los) ∧
          s.process.calls 0 = .ended ∧ Once.program.Unserved Once.unserved 0 := by
  constructor
  · obtain ⟨s, os, n, call, hrun, hserving, hcall, hstage⟩ := Once.run_events
    obtain ⟨es, s', os', hrest, hended, -⟩ :=
      run_from_open Once.program hserving hcall (Or.inl hstage)
    obtain ⟨los, hlog, -⟩ := Machine.run_logged (Machine.run_append hrun hrest)
    rcases every_return_explained hlog hended with hunserved | ⟨config, n', ending, hok, hreturned⟩
    · exact absurd (List.mem_append_left _ Once.bind_mem) (hunserved.idle (.bind true))
    · have hchecked : Once.config.settings.check = .ok config := hok
      rw [Once.check_settings] at hchecked
      cases hchecked
      exact ⟨_, s', los, n', ending, hlog, hreturned⟩
  · obtain ⟨s, los, hlog, hended⟩ := Once.run_unserved
    refine ⟨s, los, hlog, hended, ?_⟩
    rcases every_return_explained hlog hended with hunserved | ⟨config, n, ending, -, hreturned⟩
    · exact hunserved
    · -- its server has done nothing
      have hnil : n = .new 0 := congrArg Prod.fst (Option.some.inj hreturned.run).symm
      have hstage := hreturned.stage
      rw [hnil] at hstage
      cases hstage

/-- **No call is stuck**: whatever has happened, a call that is inside can come to its end by
events of its own, without a kill and with nothing that fails, and without an `unblock` if a
shutdown was requested. -/
theorem can_return {original : Signal → TrapHandler α} {es : List ProgramEvent}
    {os : List (ProgramEffect α)}
    (h : prog.machine.run (.idle trapGeneration original) es = some (s, os))
    (hinside : (s.process.calls i).held.isSome) :
    ∃ es' s' os', prog.machine.run s es' = some (s', os') ∧ s'.process.calls i = .ended ∧
      (∀ e ∈ es', e.Regular i) ∧
      (s.process.shutdownRequested = true → .unblock i ∉ es') := by
  have hends : (∃ es' s' os', prog.machine.run s es' = some (s', os') ∧
      s'.process.calls i = .ended ∧ ∀ e ∈ es', e.Regular i ∧ e ≠ .unblock i) →
      ∃ es' s' os', prog.machine.run s es' = some (s', os') ∧ s'.process.calls i = .ended ∧
        (∀ e ∈ es', e.Regular i) ∧ (s.process.shutdownRequested = true → .unblock i ∉ es') := by
    rintro ⟨es', s', os', hrun, hended, hes⟩
    exact ⟨es', s', os', hrun, hended, fun e he => (hes e he).1, fun _ hmem => (hes _ hmem).2 rfl⟩
  have hjoined := joined_of_run h i
  cases hcall : s.natives i with
  | notCalled => exact absurd hcall (hjoined.called hinside)
  | rejected | failed =>
    obtain ⟨s', hfinish, hended⟩ := step_finish prog hinside (by rw [hcall]; rfl)
    refine hends ⟨_, s', _, Machine.run_cons hfinish (Machine.run_nil _ _), hended, ?_⟩
    intro e he
    rw [List.mem_singleton.mp he]
    exact ⟨⟨rfl, by simp, by simp⟩, by simp⟩
  | starting config point =>
    obtain ⟨call, hserving⟩ := hjoined.serving hinside (by rw [hcall]; rfl)
    obtain ⟨s₁, hstarts, hprocess, hrunning⟩ := run_starting prog hinside hcall
    obtain ⟨es', s', os', hrun, hended, hes, hflag⟩ :=
      run_from_binding prog (by rw [hprocess, hserving]) hrunning rfl
    rw [hprocess] at hflag
    refine ⟨_, s', _, Machine.run_append hstarts hrun, hended, fun e he => ?_, fun hset hmem => ?_⟩
    · rcases List.mem_append.mp he with he | he
      · rw [List.eq_of_mem_replicate he]
        exact ⟨rfl, by simp, by simp⟩
      · exact hes e he
    · rcases List.mem_append.mp hmem with hmem | hmem
      · cases List.eq_of_mem_replicate hmem
      · exact hflag hset hmem
  | running config cancel n =>
    -- as long as the listener is open, `cancelled` has yet to read `true`
    have hserves : n.stage.closed = false → ∃ call, s.process.calls i = .serving call := by
      intro hopen
      refine hjoined.serving hinside ?_
      rw [hcall, NativeCall.pending, hopen]
      rfl
    cases hstage : n.stage with
    | draining f =>
      exact hends (run_from_closed prog hinside hcall (by rw [hstage]; rfl))
    | left ending => exact hends (run_to_end prog hinside hcall hstage)
    | accepting =>
      obtain ⟨call, hserving⟩ := hserves (by rw [hstage]; rfl)
      exact run_from_open prog hserving hcall (Or.inl hstage)
    | backingOff =>
      obtain ⟨call, hserving⟩ := hserves (by rw [hstage]; rfl)
      exact run_from_open prog hserving hcall (Or.inr hstage)
    | binding =>
      obtain ⟨call, hserving⟩ := hserves (by rw [hstage]; rfl)
      exact run_from_binding prog hserving hcall hstage

theorem can_return_once : ∃ s os,
    Once.program.machine.run (.idle 0 fun signal => .callable signal) Once.events =
      some (s, os) ∧
    ∃ es' s' os', Once.program.machine.run s es' = some (s', os') ∧
      s'.process.calls 0 = .ended ∧ (∀ e ∈ es', e.Regular 0) ∧
      (s.process.shutdownRequested = true → .unblock 0 ∉ es') := by
  obtain ⟨s, os, n, call, hrun, hserving, -, -⟩ := Once.run_events
  have hinside : (s.process.calls 0).held.isSome := by
    rw [hserving]
    rfl
  exact ⟨s, os, hrun, can_return hrun hinside⟩

end Program

end HelixRack
