/-
# Runs written down, and runs matched by runs

Two ways to say of a machine what it does in terms of another one, and nothing of any particular
program.

* `Machine.logged` is a machine with each output under the event that brought it about; it has
  the same runs (`run_logged`, `run_of_logged`).  From such a log one can take the part that
  belongs to a component of the machine.
* `Machine.Simulates` says that whatever one machine does, step by step, another one can do in
  some number of steps, as far as two observers can tell, each of whom makes of the events and of
  the outputs of his machine what he likes.  `Simulates.run` carries this over to whole runs.
-/
import HelixRack.Machine

namespace HelixRack.Machine

variable {S E O T F P X Y : Type}

/-! ## 1. Runs, written down -/

/-- The machine with each output under its event. -/
def logged (m : Machine S E O) : Machine S E (E × O) where
  step := fun s e => (m.step s e).map fun (s', os) => (s', os.map fun o => (e, o))

variable {m : Machine S E O}

theorem step_logged_iff {s s' : S} {e : E} {los : List (E × O)} :
    m.logged.step s e = some (s', los) ↔
      ∃ os, m.step s e = some (s', os) ∧ los = os.map fun o => (e, o) := by
  simp only [logged, Option.map_eq_some_iff, Prod.mk.injEq, Prod.exists]
  constructor
  · rintro ⟨t, os, hst, rfl, rfl⟩
    exact ⟨os, hst, rfl⟩
  · rintro ⟨os, hst, rfl⟩
    exact ⟨s', os, hst, rfl, rfl⟩

theorem map_snd_log (e : E) (os : List O) : (os.map fun o => (e, o)).map Prod.snd = os := by
  rw [List.map_map]
  exact List.map_id os

/-- Every run can be written down. -/
theorem run_logged {s s' : S} {es : List E} {os : List O} (h : m.run s es = some (s', os)) :
    ∃ los, m.logged.run s es = some (s', los) ∧ los.map Prod.snd = os := by
  refine run_induction (P := fun es s' os =>
    ∃ los, m.logged.run s es = some (s', los) ∧ los.map Prod.snd = os) ⟨[], rfl, rfl⟩ ?_ h
  rintro es t os e t' o - ⟨los, hlog, rfl⟩ hst
  have hone := run_cons (step_logged_iff.mpr ⟨o, hst, rfl⟩) (run_nil m.logged t')
  rw [List.append_nil] at hone
  exact ⟨_, run_append hlog hone, by rw [List.map_append, map_snd_log]⟩

/-- ...and a run that was written down is one. -/
theorem run_of_logged {s s' : S} {es : List E} {los : List (E × O)}
    (h : m.logged.run s es = some (s', los)) : m.run s es = some (s', los.map Prod.snd) := by
  refine run_induction (P := fun es s' los => m.run s es = some (s', los.map Prod.snd)) rfl ?_ h
  intro es t los e t' lo _ ih hst
  obtain ⟨o, hstep, rfl⟩ := step_logged_iff.mp hst
  have hone := run_cons hstep (run_nil m t')
  rw [List.append_nil] at hone
  rw [List.map_append, map_snd_log]
  exact run_append ih hone

/-- An output stands under an event of the run. -/
theorem mem_log {s s' : S} {es : List E} {los : List (E × O)}
    (h : m.logged.run s es = some (s', los)) : ∀ lo ∈ los, lo.1 ∈ es := by
  refine run_induction (P := fun es _ los => ∀ lo ∈ los, lo.1 ∈ es) nofun ?_ h
  intro es t los e t' lo _ ih hst x hx
  obtain ⟨o, -, rfl⟩ := step_logged_iff.mp hst
  rcases List.mem_append.mp hx with hx | hx
  · exact List.mem_append_left _ (ih x hx)
  · obtain ⟨y, -, rfl⟩ := List.mem_map.mp hx
    exact List.mem_append_right _ List.mem_cons_self

/-! ## 2. Runs matched by runs -/

end Machine

/-- What an observer makes of the events and of the outputs of a machine. -/
structure Observer (E O Y X : Type) where
  input : E → List Y
  output : O → List X

namespace Observer

variable {E O X Y : Type}

/-- An observer who sees everything. -/
def all : Observer E O E O where
  input e := [e]
  output o := [o]

/-- ..and one who sees the outputs only. -/
def outer : Observer E O Y O where
  input _ := []
  output o := [o]

variable (v : Observer E O Y X)

/-- ...of a list of events. -/
def inputs (es : List E) : List Y := es.flatMap v.input

/-- ...of a list of outputs. -/
def outputs (os : List O) : List X := os.flatMap v.output

@[simp] theorem inputs_nil : v.inputs [] = [] := rfl
@[simp] theorem outputs_nil : v.outputs [] = [] := rfl

@[simp] theorem inputs_cons (e : E) (es : List E) :
    v.inputs (e :: es) = v.input e ++ v.inputs es := List.flatMap_cons

@[simp] theorem outputs_cons (o : O) (os : List O) :
    v.outputs (o :: os) = v.output o ++ v.outputs os := List.flatMap_cons

theorem inputs_singleton (e : E) : v.inputs [e] = v.input e := List.flatMap_singleton _ _

theorem inputs_append (es es' : List E) : v.inputs (es ++ es') = v.inputs es ++ v.inputs es' :=
  List.flatMap_append

theorem outputs_append (os os' : List O) :
    v.outputs (os ++ os') = v.outputs os ++ v.outputs os' := List.flatMap_append

@[simp] theorem all_inputs (es : List E) : (all : Observer E O E O).inputs es = es :=
  List.flatMap_singleton' es

@[simp] theorem all_outputs (os : List O) : (all : Observer E O E O).outputs os = os :=
  List.flatMap_singleton' os

@[simp] theorem outer_inputs (es : List E) : (outer : Observer E O Y O).inputs es = [] :=
  List.flatMap_eq_nil_iff.mpr fun _ _ => rfl

@[simp] theorem outer_outputs (os : List O) : (outer : Observer E O Y O).outputs os = os :=
  List.flatMap_singleton' os

end Observer

namespace Machine

variable {S E O T F P X Y : Type} {m : Machine S E O} {n : Machine T F P}
  {v : Observer E O Y X} {w : Observer F P Y X} {R : S → T → Prop}

/-- **Each step of `m`**, under the eyes of `v`, is a run of `n` under the eyes of `w`, and `R`
holds again behind it. -/
def Simulates (n : Machine T F P) (w : Observer F P Y X) (m : Machine S E O) (v : Observer E O Y X)
    (R : S → T → Prop) : Prop :=
  ∀ {s s' t e os}, R s t → m.step s e = some (s', os) →
    ∃ t' fs ps, n.run t fs = some (t', ps) ∧ R s' t' ∧ w.inputs fs = v.input e ∧
      w.outputs ps = v.outputs os

/-- **...and so is each of its runs.** -/
theorem Simulates.run (hsim : n.Simulates w m v R) {s s' : S} {t : T} {es : List E} {os : List O}
    (hR : R s t) (h : m.run s es = some (s', os)) :
    ∃ t' fs ps, n.run t fs = some (t', ps) ∧ R s' t' ∧ w.inputs fs = v.inputs es ∧
      w.outputs ps = v.outputs os := by
  refine run_induction (P := fun es s' os => ∃ t' fs ps, n.run t fs = some (t', ps) ∧ R s' t' ∧
    w.inputs fs = v.inputs es ∧ w.outputs ps = v.outputs os) ⟨t, [], [], rfl, hR, rfl, rfl⟩ ?_ h
  rintro es s₁ os e s₂ o - ⟨t₁, fs, ps, hrun, hR₁, hin, hout⟩ hst
  obtain ⟨t₂, fs', ps', hrun', hR₂, hin', hout'⟩ := hsim hR₁ hst
  refine ⟨t₂, fs ++ fs', ps ++ ps', run_append hrun hrun', hR₂, ?_, ?_⟩
  · rw [w.inputs_append, v.inputs_append, hin, hin', v.inputs_cons, v.inputs_nil, List.append_nil]
  · rw [w.outputs_append, v.outputs_append, hout, hout']

end Machine

end HelixRack
