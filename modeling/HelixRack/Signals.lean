/-
# The shutdown traps of overlapping `HelixRack.serve` calls

`lib/helix_rack.rb` as a machine on the process's signal handlers: a `serve` call installs
its traps when it starts, keeps the handlers it replaced, and puts them back when it ends,
unless a later call has installed traps since.  A trap is a closure over the handler it
replaced, so the handlers form chains; `TrapHandler.base` is what a chain ends in, `layers`
how long it is.

Two facts about every order of starts and finishes: while a call runs, the installed handlers
are traps whose chains end in the embedder's own handlers (`signals_reach_embedder`); and the
embedder's handlers are back in the end exactly if no call started while another was running
(`handlers_given_back_iff`).
-/
import HelixRack.Machine

namespace HelixRack

/-! ## 1. Handlers, and running them -/

/-- The signals `serve` traps. -/
inductive Signal where
  | TERM
  | INT
  deriving DecidableEq, Repr

/-- What `Signal.trap` takes and returns.  `α` is the embedder's own callables. -/
inductive TrapHandler (α : Type) where
  /-- A command such as `"DEFAULT"` or `"IGNORE"`, or `nil`. -/
  | command (name : Option String)
  | callable (callee : α)
  /-- The block of the `generation`-th `install_shutdown_traps`, over its
  `previous_handler`. -/
  | trap (generation : Nat) (signal : Signal) (previous : TrapHandler α)
  deriving DecidableEq, Repr

/-- What running a handler does, in order. -/
inductive TrapEffect (α : Type) where
  /-- `_request_shutdown`. -/
  | requestShutdown
  | warn (signal : Signal)
  | called (callee : α) (signo : Nat)
  deriving DecidableEq, Repr

/-- A piece of Ruby that ran: what it did, and whether it raised a `StandardError`. -/
structure Ruby (α : Type) where
  effects : List (TrapEffect α)
  raised : Bool

/-- What the code of others does: whether the `warn` of a link raises, and whether a callable
of the embedder does. -/
structure World (α : Type) where
  warnRaises : Nat → Bool
  calleeRaises : α → Bool

namespace Ruby

variable {α : Type}

def skip : Ruby α := ⟨[], false⟩

/-- `first; second`. -/
def andThen (first second : Ruby α) : Ruby α :=
  if first.raised then first else ⟨first.effects ++ second.effects, second.raised⟩

/-- `begin; ..; rescue StandardError; nil; end`. -/
def rescueStandardError (body : Ruby α) : Ruby α := { body with raised := false }

end Ruby

/-- `handle_shutdown_signal`; `chain` is `previous_handler.call(signo)`, where the handler
responds to it. -/
def handleShutdownSignal {α : Type} (warnRaises : Bool) (signal : Signal) (chain : Ruby α) :
    Ruby α :=
  Ruby.andThen ⟨[.requestShutdown], false⟩
    (Ruby.andThen (Ruby.rescueStandardError ⟨[.warn signal], warnRaises⟩)
      chain.rescueStandardError)

namespace TrapHandler

variable {α : Type}

/-- `respond_to?(:call)`. -/
def respondsToCall : TrapHandler α → Bool
  | .command _ => false
  | .callable _ | .trap _ _ _ => true

/-- Running a handler. -/
def call (world : World α) (signo : Nat) : TrapHandler α → Ruby α
  | .command _ => .skip
  | .callable callee => ⟨[.called callee signo], world.calleeRaises callee⟩
  | .trap generation signal previous =>
    handleShutdownSignal (world.warnRaises generation) signal
      (if previous.respondsToCall then previous.call world signo else .skip)

/-- What a chain of traps ends in. -/
def base : TrapHandler α → TrapHandler α
  | .trap _ _ previous => previous.base
  | h => h

/-- How many traps a chain has. -/
def layers : TrapHandler α → Nat
  | .trap _ _ previous => previous.layers + 1
  | _ => 0

/-- A HelixRack trap for the given signal. -/
def IsTrap (signal : Signal) (h : TrapHandler α) : Prop :=
  ∃ generation previous, h = .trap generation signal previous

end TrapHandler

/-- The embedder's callables that ran, each with the signal number it was given. -/
def embedderCalls {α : Type} (effects : List (TrapEffect α)) : List (α × Nat) :=
  effects.filterMap fun
    | .called callee signo => some (callee, signo)
    | _ => none

namespace TrapHandler

variable {α : Type} (world : World α) (signo : Nat)

/-- A trap requests the shutdown, goes on to its previous handler, and raises nothing,
whatever its `warn` and its callee raise. -/
theorem call_trap (generation : Nat) (signal : Signal) (previous : TrapHandler α) :
    ((TrapHandler.trap generation signal previous).call world signo).effects =
        .requestShutdown :: .warn signal :: (previous.call world signo).effects ∧
      ((TrapHandler.trap generation signal previous).call world signo).raised = false := by
  cases previous <;> exact ⟨rfl, rfl⟩

/-- **The chain reaches its base once**, and no other callable of the embedder. -/
theorem embedderCalls_call (h : TrapHandler α) :
    embedderCalls (h.call world signo).effects =
      match h.base with
      | .callable callee => [(callee, signo)]
      | _ => [] := by
  induction h with
  | command name => rfl
  | callable callee => rfl
  | trap generation signal previous ih =>
    obtain ⟨heffects, -⟩ := call_trap world signo generation signal previous
    rw [heffects]
    exact ih

end TrapHandler

/-! ## 2. `serve` calls that come and go -/

/-- A `serve` call between its install and its restore. -/
structure Serving (α : Type) where
  generation : Nat
  previousTraps : Signal → TrapHandler α

/-- The process: `@trap_generation`, the installed handlers, and the calls that run. -/
structure Traps (α : Type) where
  trapGeneration : Nat
  installed : Signal → TrapHandler α
  serving : List (Serving α)

inductive ServeCall where
  /-- A call installs its traps. -/
  | start
  /-- The `i`-th of the running calls ends, by return or by raise. -/
  | finish (i : Nat)
  deriving DecidableEq, Repr

namespace Traps

variable {α : Type}

/-- A process in which no `serve` call runs. -/
def idle (trapGeneration : Nat) (installed : Signal → TrapHandler α) : Traps α :=
  { trapGeneration, installed, serving := [] }

/-- `install_shutdown_traps`: the traps installed, and the pair it returns. -/
def installShutdownTraps (t : Traps α) : Traps α × Serving α :=
  let generation := t.trapGeneration + 1
  ({ t with
      trapGeneration := generation
      installed := fun signal => .trap generation signal (t.installed signal) },
    { generation, previousTraps := t.installed })

/-- `restore_shutdown_traps`. -/
def restoreShutdownTraps (t : Traps α) (call : Serving α) : Traps α :=
  if call.generation = t.trapGeneration then { t with installed := call.previousTraps } else t

def step (t : Traps α) : ServeCall → Option (Traps α)
  | .start =>
    let (t', call) := t.installShutdownTraps
    some { t' with serving := t.serving ++ [call] }
  | .finish i =>
    t.serving[i]?.map fun call =>
      { t.restoreShutdownTraps call with serving := t.serving.eraseIdx i }

variable (α) in
/-- Starts and finishes in any order. -/
def machine : Machine (Traps α) ServeCall Empty where
  step := fun t e => (t.step e).map fun t' => (t', [])

/-- The ways a step can go. -/
inductive Move (t : Traps α) : ServeCall → Traps α → Prop
  | start : Move t .start
      ⟨t.trapGeneration + 1,
        fun signal => .trap (t.trapGeneration + 1) signal (t.installed signal),
        t.serving ++ [⟨t.trapGeneration + 1, t.installed⟩]⟩
  | restore {i : Nat} {call : Serving α} (hget : t.serving[i]? = some call)
      (hgen : call.generation = t.trapGeneration) :
      Move t (.finish i) ⟨t.trapGeneration, call.previousTraps, t.serving.eraseIdx i⟩
  | stale {i : Nat} {call : Serving α} (hget : t.serving[i]? = some call)
      (hgen : call.generation ≠ t.trapGeneration) :
      Move t (.finish i) ⟨t.trapGeneration, t.installed, t.serving.eraseIdx i⟩

theorem machine_step {t t' : Traps α} {e : ServeCall} {os : List Empty}
    (h : (machine α).step t e = some (t', os)) : t.Move e t' := by
  simp only [machine, Option.map_eq_some_iff] at h
  obtain ⟨u, hu, heq⟩ := h
  cases heq
  cases e with
  | start =>
    cases hu
    exact .start
  | finish i =>
    simp only [step, Option.map_eq_some_iff] at hu
    obtain ⟨call, hget, rfl⟩ := hu
    unfold restoreShutdownTraps
    split
    · rename_i hgen
      exact .restore hget hgen
    · rename_i hgen
      exact .stale hget hgen

/-! ## 3. A running server keeps its signals -/

/-- **What holds while calls come and go**, over the handlers `original` that were installed
before the first. -/
structure Inv (original : Signal → TrapHandler α) (t : Traps α) : Prop where
  base_installed : ∀ signal, (t.installed signal).base = (original signal).base
  base_previous : ∀ call ∈ t.serving, ∀ signal,
    (call.previousTraps signal).base = (original signal).base
  generation_le : ∀ call ∈ t.serving, call.generation ≤ t.trapGeneration
  armed : t.serving ≠ [] → ∀ signal, (t.installed signal).IsTrap signal
  /-- What the newest call puts back is a trap too, if another call still runs. -/
  armed_previous : ∀ call ∈ t.serving, call.generation = t.trapGeneration →
    2 ≤ t.serving.length → ∀ signal, (call.previousTraps signal).IsTrap signal

theorem idle_inv (trapGeneration : Nat) (installed : Signal → TrapHandler α) :
    (idle trapGeneration installed).Inv installed where
  base_installed signal := rfl
  base_previous call hcall := by cases hcall
  generation_le call hcall := by cases hcall
  armed h := absurd rfl h
  armed_previous call hcall := by cases hcall

/-- One call fewer is running. -/
theorem mem_and_length_eraseIdx {calls : List (Serving α)} {i : Nat} {call : Serving α}
    (h : calls[i]? = some call) : call ∈ calls ∧ (calls.eraseIdx i).length + 1 = calls.length := by
  have hlt : i < calls.length := (List.getElem?_eq_some_iff.mp h).1
  refine ⟨List.mem_of_getElem? h, ?_⟩
  rw [List.length_eraseIdx_of_lt hlt]
  omega

theorem Move.inv {original : Signal → TrapHandler α} {t t' : Traps α} {e : ServeCall}
    (hi : t.Inv original) (h : t.Move e t') : t'.Inv original := by
  cases h with
  | start =>
    refine ⟨fun signal => hi.base_installed signal, ?_, ?_, ?_, ?_⟩
    · intro call hcall signal
      rcases List.mem_append.mp hcall with hold | hnew
      · exact hi.base_previous call hold signal
      · rw [List.mem_singleton.mp hnew]
        exact hi.base_installed signal
    · intro call hcall
      rcases List.mem_append.mp hcall with hold | hnew
      · exact Nat.le_succ_of_le (hi.generation_le call hold)
      · have hcall : call = ⟨t.trapGeneration + 1, t.installed⟩ := List.mem_singleton.mp hnew
        subst hcall
        exact Nat.le_refl _
    · intro _ signal
      exact ⟨_, _, rfl⟩
    · intro call hcall hgen hlen signal
      rcases List.mem_append.mp hcall with hold | hnew
      · have hle := hi.generation_le call hold
        simp only at hgen
        omega
      · rw [List.mem_singleton.mp hnew]
        refine hi.armed ?_ signal
        rintro hnil
        simp [hnil] at hlen
  | @restore i call hget hgen =>
    have hmem : ∀ c ∈ t.serving.eraseIdx i, c ∈ t.serving :=
      fun c hc => List.mem_of_mem_eraseIdx hc
    obtain ⟨hcall, hlen⟩ := mem_and_length_eraseIdx hget
    refine ⟨hi.base_previous call hcall, fun c hc => hi.base_previous c (hmem c hc),
      fun c hc => hi.generation_le c (hmem c hc), fun hne => ?_, fun c hc hg h2 => ?_⟩
    · have hpos : 0 < (t.serving.eraseIdx i).length := List.length_pos_iff.mpr hne
      exact hi.armed_previous call hcall hgen (by omega)
    · exact hi.armed_previous c (hmem c hc) hg (by simp only at h2; omega)
  | @stale i call hget hgen =>
    have hmem : ∀ c ∈ t.serving.eraseIdx i, c ∈ t.serving :=
      fun c hc => List.mem_of_mem_eraseIdx hc
    obtain ⟨hcall, hlen⟩ := mem_and_length_eraseIdx hget
    refine ⟨hi.base_installed, fun c hc => hi.base_previous c (hmem c hc),
      fun c hc => hi.generation_le c (hmem c hc), fun _ => hi.armed (List.ne_nil_of_mem hcall),
      fun c hc hg h2 => ?_⟩
    exact hi.armed_previous c (hmem c hc) hg (by simp only at h2; omega)

theorem run_inv {trapGeneration : Nat} {installed : Signal → TrapHandler α}
    {es : List ServeCall} {t : Traps α} {os : List Empty}
    (h : (machine α).run (idle trapGeneration installed) es = some (t, os)) :
    t.Inv installed :=
  Machine.run_invariant (idle_inv trapGeneration installed)
    (fun _ _ _ _ hi hst => (machine_step hst).inv hi) h

/-- **A running server is never disconnected from its signals.**  While some call runs, the
handler of either signal is a trap; running it requests the shutdown, calls the embedder's
own handler exactly once, if that is a callable (and nothing else of the embedder's), and raises
nothing. -/
theorem signals_reach_embedder {trapGeneration : Nat} {original : Signal → TrapHandler α}
    {es : List ServeCall} {t : Traps α} {os : List Empty}
    (h : (machine α).run (idle trapGeneration original) es = some (t, os))
    (hrunning : t.serving ≠ []) (signal : Signal) (world : World α) (signo : Nat) :
    (t.installed signal).IsTrap signal ∧
      .requestShutdown ∈ ((t.installed signal).call world signo).effects ∧
      (∀ callee, original signal = .callable callee →
        embedderCalls ((t.installed signal).call world signo).effects = [(callee, signo)]) ∧
      ((t.installed signal).call world signo).raised = false := by
  have hi := run_inv h
  have htrap := hi.armed hrunning signal
  refine ⟨htrap, ?_⟩
  have hcalls := TrapHandler.embedderCalls_call world signo (t.installed signal)
  rw [hi.base_installed signal] at hcalls
  obtain ⟨generation, previous, heq⟩ := htrap
  rw [heq] at hcalls ⊢
  obtain ⟨heffects, hraised⟩ := TrapHandler.call_trap world signo generation signal previous
  refine ⟨?_, fun callee hcallee => ?_, hraised⟩
  · rw [heffects]
    exact List.mem_cons_self
  · rw [hcallee] at hcalls
    exact hcalls

/-- An embedder with a handler of its own for `TERM` only. -/
def termOnly : Signal → TrapHandler Unit
  | .TERM => .callable ()
  | .INT => .command (some "DEFAULT")

/-- Two calls overlap, and the one that started last has ended; every `warn` and the
embedder's handler raise. -/
theorem signals_reach_embedder_overlap :
    ∃ t, (machine Unit).run (idle 0 termOnly) [.start, .start, .finish 1] = some (t, []) ∧
      (t.installed .TERM).IsTrap .TERM ∧
      .requestShutdown ∈ ((t.installed .TERM).call ⟨fun _ => true, fun _ => true⟩ 15).effects ∧
      embedderCalls ((t.installed .TERM).call ⟨fun _ => true, fun _ => true⟩ 15).effects =
        [((), 15)] ∧
      ((t.installed .TERM).call ⟨fun _ => true, fun _ => true⟩ 15).raised = false := by
  have hrun : (machine Unit).run (idle 0 termOnly) [.start, .start, .finish 1] =
      some (⟨2, fun signal => .trap 1 signal (termOnly signal), [⟨1, termOnly⟩]⟩, []) := rfl
  obtain ⟨htrap, hrequest, hcalls, hraised⟩ := signals_reach_embedder hrun
    (List.cons_ne_nil _ _) .TERM ⟨fun _ => true, fun _ => true⟩ 15
  exact ⟨_, hrun, htrap, hrequest, hcalls () rfl, hraised⟩

/-! ## 4. When the handlers are given back -/

/-- No call starts while another is running. -/
def Apart (t : Traps α) (e : ServeCall) : Prop := e = .start → t.serving = []

/-- Before any overlap: the original handlers, or one call's traps right on top of them. -/
def Clean (original : Signal → TrapHandler α) (t : Traps α) : Prop :=
  (t.serving = [] ∧ t.installed = original) ∨
    (t.serving = [⟨t.trapGeneration, original⟩] ∧
      t.installed = fun signal => .trap t.trapGeneration signal (original signal))

/-- After an overlap: some trap stays on top of the original handlers, and the newest call
puts no less back. -/
def Covered (original : Signal → TrapHandler α) (t : Traps α) : Prop :=
  ∀ signal, (original signal).layers < (t.installed signal).layers ∧
    ∀ call ∈ t.serving, call.generation = t.trapGeneration →
      (original signal).layers < (call.previousTraps signal).layers

theorem Move.clean {original : Signal → TrapHandler α} {t t' : Traps α} {e : ServeCall}
    (hc : t.Clean original) (hq : t.Apart e) (h : t.Move e t') : t'.Clean original := by
  cases h with
  | start =>
    have hnil : t.serving = [] := hq rfl
    rcases hc with ⟨-, hinst⟩ | ⟨hone, -⟩
    · refine Or.inr ⟨?_, ?_⟩
      · simp only [hnil, hinst, List.nil_append]
      · simp only [hinst]
    · rw [hnil] at hone
      cases hone
  | @restore i call hget hgen =>
    rcases hc with ⟨hnil, -⟩ | ⟨hone, -⟩
    · rw [hnil] at hget
      cases hget
    · rw [hone] at hget
      cases i with
      | zero =>
        cases hget
        refine Or.inl ⟨?_, rfl⟩
        rw [hone]
        rfl
      | succ i => cases hget
  | @stale i call hget hgen =>
    rcases hc with ⟨hnil, -⟩ | ⟨hone, -⟩
    · rw [hnil] at hget
      cases hget
    · rw [hone] at hget
      cases i with
      | zero =>
        cases hget
        exact absurd rfl hgen
      | succ i => cases hget

theorem Move.covered {original : Signal → TrapHandler α} {t t' : Traps α} {e : ServeCall}
    (hi : t.Inv original) (hc : t.Covered original) (h : t.Move e t') :
    t'.Covered original := by
  intro signal
  obtain ⟨hinst, hprev⟩ := hc signal
  cases h with
  | start =>
    refine ⟨Nat.lt_succ_of_lt hinst, fun call hcall hgen => ?_⟩
    rcases List.mem_append.mp hcall with hold | hnew
    · have hle := hi.generation_le call hold
      simp only at hgen
      omega
    · rw [List.mem_singleton.mp hnew]
      exact hinst
  | @restore i call hget hgen =>
    refine ⟨hprev call (List.mem_of_getElem? hget) hgen, fun c hc' hgen' => ?_⟩
    exact hprev c (List.mem_of_mem_eraseIdx hc') hgen'
  | @stale i call hget hgen =>
    exact ⟨hinst, fun c hc' hgen' => hprev c (List.mem_of_mem_eraseIdx hc') hgen'⟩

/-- The first overlap. -/
theorem Move.covered_of_overlap {original : Signal → TrapHandler α} {t t' : Traps α}
    {e : ServeCall} (hi : t.Inv original) (hc : t.Clean original) (hq : ¬ t.Apart e)
    (h : t.Move e t') : t'.Covered original := by
  cases h with
  | start =>
    rcases hc with ⟨hnil, -⟩ | ⟨-, hinst⟩
    · exact absurd (fun _ => hnil) hq
    · have hlayers : ∀ signal, (original signal).layers < (t.installed signal).layers := by
        intro signal
        rw [hinst]
        exact Nat.lt_succ_self _
      intro signal
      refine ⟨Nat.lt_succ_of_lt (hlayers signal), fun call hcall hgen => ?_⟩
      rcases List.mem_append.mp hcall with hold | hnew
      · have hle := hi.generation_le call hold
        simp only at hgen
        omega
      · rw [List.mem_singleton.mp hnew]
        exact hlayers signal
  | restore hget hgen | stale hget hgen => exact absurd (fun he => by cases he) hq

/-- A run is clean as long as the calls stay apart, and covered from the first overlap on. -/
theorem clean_or_covered {trapGeneration : Nat} {original : Signal → TrapHandler α}
    {es : List ServeCall} {t : Traps α} {os : List Empty}
    (h : (machine α).run (idle trapGeneration original) es = some (t, os)) :
    ((machine α).Along Apart (idle trapGeneration original) es ∧ t.Clean original) ∨
      (¬ (machine α).Along Apart (idle trapGeneration original) es ∧ t.Covered original) := by
  refine Machine.run_induction (P := fun es t _ =>
    ((machine α).Along Apart (idle trapGeneration original) es ∧ t.Clean original) ∨
      (¬ (machine α).Along Apart (idle trapGeneration original) es ∧ t.Covered original))
    (Or.inl ⟨.nil, Or.inl ⟨rfl, rfl⟩⟩) ?_ h
  intro es t os e t' o hrun ih hst
  have hmove := machine_step hst
  rcases ih with ⟨hapart, hclean⟩ | ⟨hoverlap, hcovered⟩
  · by_cases hq : t.Apart e
    · exact Or.inl ⟨hapart.snoc hrun hq, hmove.clean hclean hq⟩
    · exact Or.inr ⟨fun hal => hq (hal.last hrun),
        hmove.covered_of_overlap (run_inv hrun) hclean hq⟩
  · exact Or.inr ⟨fun hal => hoverlap hal.init, hmove.covered (run_inv hrun) hcovered⟩

/-- **The handlers are given back exactly if the calls stay apart.**  Once every call has
ended, the handlers from before the first are installed again if and only if no call started
while another was running. -/
theorem handlers_given_back_iff {trapGeneration : Nat} {original : Signal → TrapHandler α}
    {es : List ServeCall} {t : Traps α} {os : List Empty}
    (h : (machine α).run (idle trapGeneration original) es = some (t, os))
    (hended : t.serving = []) :
    t.installed = original ↔
      (machine α).Along Apart (idle trapGeneration original) es := by
  rcases clean_or_covered h with ⟨hapart, hclean⟩ | ⟨hoverlap, hcovered⟩
  · refine ⟨fun _ => hapart, fun _ => ?_⟩
    rcases hclean with ⟨-, hinst⟩ | ⟨hone, -⟩
    · exact hinst
    · rw [hended] at hone
      cases hone
  · refine ⟨fun heq => ?_, fun hal => absurd hal hoverlap⟩
    have hlt := (hcovered .TERM).1
    rw [heq] at hlt
    exact absurd hlt (Nat.lt_irrefl _)

theorem handlers_given_back_apart :
    ∃ t, (machine Unit).run (idle 0 fun _ => .callable ()) [.start, .finish 0, .start, .finish 0] =
        some (t, []) ∧
      (t.installed = (fun _ => .callable ()) ↔
        (machine Unit).Along Apart (idle 0 fun _ => .callable ())
          [.start, .finish 0, .start, .finish 0]) :=
  ⟨_, rfl, handlers_given_back_iff
    (show (machine Unit).run (idle 0 fun _ => .callable ())
      [.start, .finish 0, .start, .finish 0] = some (_, []) from rfl) rfl⟩

/-- A second call starts before the first has ended, and ends last: the first call's trap
stays installed. -/
theorem trap_left_behind :
    ¬ ∀ (α : Type) (trapGeneration : Nat) (original : Signal → TrapHandler α)
      (es : List ServeCall) (t : Traps α) (os : List Empty),
      (machine α).run (idle trapGeneration original) es = some (t, os) →
      t.serving = [] → t.installed = original := by
  intro hall
  have hback := hall Unit 0 (fun _ => .callable ()) [.start, .start, .finish 0, .finish 0]
    ⟨2, fun signal => .trap 1 signal (.callable ()), []⟩ [] rfl rfl
  cases congrFun hback .TERM

end Traps

end HelixRack
