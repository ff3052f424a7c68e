/-
# Partial machines with output, and their runs

A task that is suspended at its await points is a machine: in each state some events can
happen, and an event takes the machine to its next state and emits a list of outputs.  This
module has nothing of any particular program in it.  It gives

* `Machine.run`, the state and the output after a list of events, `none` when some event of
  the list cannot happen where it is due;
* `Machine.run_induction`, the one induction over runs that every whole-run property of
  this development goes through;
* `Machine.Along`, for runs all of whose steps meet a condition on the state before the
  step;
* `Machine.Always`, for runs all of whose states have a property, and the condition on the steps
  that comes to the same (`always_iff_along`);
* `Machine.within`, for runs that an environment allows;
* `Machine.Raised`, what the value of a flag says about the run so far (`flag_iff_raised`).
-/
import Mathlib.Data.List.Induction

namespace HelixRack

/-- Where an element of a list with one more at the end stands: it is the last one, or it stands
in the list. -/
theorem snoc_eq_append_cons {E : Type} {es pre post : List E} {e x : E}
    (h : es ++ [e] = pre ++ x :: post) :
    (pre = es ∧ x = e ∧ post = []) ∨ ∃ post', post = post' ++ [e] ∧ es = pre ++ x :: post' := by
  rcases List.eq_nil_or_concat post with rfl | ⟨post', y, rfl⟩
  · obtain ⟨hes, hx⟩ := List.append_inj' h rfl
    exact Or.inl ⟨hes.symm, (List.singleton_inj.mp hx).symm, rfl⟩
  · have h' : es ++ [e] = (pre ++ x :: post') ++ [y] := by simpa using h
    obtain ⟨hes, hy⟩ := List.append_inj' h' rfl
    exact Or.inr ⟨post', by rw [List.singleton_inj.mp hy, List.concat_eq_append], hes⟩

/-- A machine with states `S`, events `E` and outputs `O`.  `step s e = none` says that the
event `e` cannot happen in the state `s`. -/
structure Machine (S E O : Type) where
  step : S → E → Option (S × List O)

namespace Machine

variable {S E O : Type} (m : Machine S E O)

/-! ## 1. Runs -/

/-- The state reached by a list of events, with everything emitted on the way. -/
def run (s : S) : List E → Option (S × List O)
  | [] => some (s, [])
  | e :: es =>
    (m.step s e).bind fun (s', os) => (run s' es).map fun (s'', os') => (s'', os ++ os')

@[simp] theorem run_nil (s : S) : m.run s [] = some (s, []) := rfl

variable {m}

theorem run_cons_of_step {s s' : S} {e : E} {os : List O} (h : m.step s e = some (s', os))
    (es : List E) :
    m.run s (e :: es) = (m.run s' es).map fun (s'', os') => (s'', os ++ os') := by
  simp [run, h]

/-- A step on the left of a run. -/
theorem run_cons {s s' s'' : S} {e : E} {es : List E} {os os' : List O}
    (h : m.step s e = some (s', os)) (hr : m.run s' es = some (s'', os')) :
    m.run s (e :: es) = some (s'', os ++ os') := by
  rw [run_cons_of_step h, hr, Option.map_some]

theorem run_cons_inv {s s'' : S} {e : E} {es : List E} {os : List O}
    (h : m.run s (e :: es) = some (s'', os)) :
    ∃ s' o os', m.step s e = some (s', o) ∧ m.run s' es = some (s'', os') ∧ os = o ++ os' := by
  cases hst : m.step s e with
  | none => simp [run, hst] at h
  | some p =>
    obtain ⟨s', o⟩ := p
    rw [run_cons_of_step hst] at h
    cases hr : m.run s' es with
    | none => simp [hr] at h
    | some q =>
      obtain ⟨t, os'⟩ := q
      rw [hr] at h
      simp only [Option.map_some, Option.some.injEq, Prod.mk.injEq] at h
      obtain ⟨rfl, rfl⟩ := h
      exact ⟨s', o, os', rfl, hr, rfl⟩

/-- Runs compose. -/
theorem run_append {s s' s'' : S} {es es' : List E} {os os' : List O}
    (h : m.run s es = some (s', os)) (h' : m.run s' es' = some (s'', os')) :
    m.run s (es ++ es') = some (s'', os ++ os') := by
  induction es generalizing s os with
  | nil =>
    simp only [run_nil, Option.some.injEq, Prod.mk.injEq] at h
    obtain ⟨rfl, rfl⟩ := h
    exact h'
  | cons e es ih =>
    obtain ⟨t, o, os₁, hst, hr, rfl⟩ := run_cons_inv h
    rw [List.cons_append, List.append_assoc]
    exact run_cons hst (ih hr)

/-- ...and come apart at any point. -/
theorem run_append_inv {s s'' : S} {es es' : List E} {os : List O}
    (h : m.run s (es ++ es') = some (s'', os)) :
    ∃ s' os₁ os₂, m.run s es = some (s', os₁) ∧ m.run s' es' = some (s'', os₂) ∧
      os = os₁ ++ os₂ := by
  induction es generalizing s os with
  | nil => exact ⟨s, [], os, rfl, h, rfl⟩
  | cons e es ih =>
    obtain ⟨t, o, os', hst, hr, rfl⟩ := run_cons_inv h
    obtain ⟨s', os₁, os₂, h₁, h₂, rfl⟩ := ih hr
    exact ⟨s', o ++ os₁, os₂, run_cons hst h₁, h₂, (List.append_assoc _ _ _).symm⟩

theorem run_snoc_inv {s s'' : S} {es : List E} {e : E} {os : List O}
    (h : m.run s (es ++ [e]) = some (s'', os)) :
    ∃ s' os₁ o, m.run s es = some (s', os₁) ∧ m.step s' e = some (s'', o) ∧ os = os₁ ++ o := by
  obtain ⟨s', os₁, os₂, h₁, h₂, rfl⟩ := run_append_inv h
  obtain ⟨t, o, os', hst, hr, rfl⟩ := run_cons_inv h₂
  simp only [run_nil, Option.some.injEq, Prod.mk.injEq] at hr
  obtain ⟨rfl, rfl⟩ := hr
  exact ⟨s', os₁, o, h₁, hst, by simp⟩

/-- **Induction over a run, last step last.**  `P` may speak of the events so far, the state
and everything emitted. -/
theorem run_induction {P : List E → S → List O → Prop} {s₀ : S} (init : P [] s₀ [])
    (snoc : ∀ es s os e s' o, m.run s₀ es = some (s, os) → P es s os →
      m.step s e = some (s', o) → P (es ++ [e]) s' (os ++ o)) :
    ∀ {es : List E} {s : S} {os : List O}, m.run s₀ es = some (s, os) → P es s os := by
  intro es
  induction es using List.reverseRecOn with
  | nil =>
    intro s os h
    simp only [run_nil, Option.some.injEq, Prod.mk.injEq] at h
    obtain ⟨rfl, rfl⟩ := h
    exact init
  | append_singleton es e ih =>
    intro s os h
    obtain ⟨s', os₁, o, hr, hst, rfl⟩ := run_snoc_inv h
    exact snoc es s' os₁ e s o hr (ih hr) hst

/-- A property of states that every step keeps holds in every state a run reaches. -/
theorem run_invariant {I : S → Prop} {s₀ s : S} {es : List E} {os : List O} (init : I s₀)
    (step : ∀ s e s' o, I s → m.step s e = some (s', o) → I s')
    (h : m.run s₀ es = some (s, os)) : I s :=
  run_induction (P := fun _ s _ => I s) init
    (fun _ s _ e s' o _ ih hst => step s e s' o ih hst) h

/-! ## 2. Runs under a condition on every step -/

variable (m) in
/-- Every step of the run `es` from `s₀` meets `Q`, which reads the state before the step and
the event. -/
def Along (Q : S → E → Prop) (s₀ : S) (es : List E) : Prop :=
  ∀ pre e post, es = pre ++ e :: post → ∀ s os, m.run s₀ pre = some (s, os) → Q s e

theorem Along.nil {Q : S → E → Prop} {s₀ : S} : m.Along Q s₀ [] := by
  intro pre e post he
  exact absurd he.symm (List.append_ne_nil_of_right_ne_nil _ (List.cons_ne_nil _ _))

theorem Along.cons {Q : S → E → Prop} {s s' : S} {e : E} {es : List E} {o : List O}
    (hq : Q s e) (hst : m.step s e = some (s', o)) (h : m.Along Q s' es) :
    m.Along Q s (e :: es) := by
  intro pre e' post he t os hr
  cases pre with
  | nil =>
    cases he
    simp only [run_nil, Option.some.injEq, Prod.mk.injEq] at hr
    obtain ⟨rfl, -⟩ := hr
    exact hq
  | cons x pre =>
    cases he
    obtain ⟨u, o', os', hst', hr', -⟩ := run_cons_inv hr
    rw [hst] at hst'
    cases hst'
    exact h pre e' post rfl t os' hr'

theorem Along.head {Q : S → E → Prop} {s : S} {e : E} {es : List E}
    (h : m.Along Q s (e :: es)) : Q s e := h [] e es rfl s [] rfl

theorem Along.tail {Q : S → E → Prop} {s s' : S} {e : E} {es : List E} {o : List O}
    (h : m.Along Q s (e :: es)) (hst : m.step s e = some (s', o)) : m.Along Q s' es := by
  rintro pre e' post rfl t os hr
  exact h (e :: pre) e' post rfl t (o ++ os) (run_cons hst hr)

theorem Along.init {Q : S → E → Prop} {s₀ : S} {es : List E} {e : E}
    (h : m.Along Q s₀ (es ++ [e])) : m.Along Q s₀ es := by
  intro pre e' post he s os hr
  exact h pre e' (post ++ [e]) (by rw [he]; simp) s os hr

theorem Along.snoc {Q : S → E → Prop} {s₀ s : S} {es : List E} {e : E} {os : List O}
    (h : m.Along Q s₀ es) (hr : m.run s₀ es = some (s, os)) (hq : Q s e) :
    m.Along Q s₀ (es ++ [e]) := by
  intro pre e' post he t os' hr'
  rcases snoc_eq_append_cons he with ⟨rfl, rfl, -⟩ | ⟨post', -, hes⟩
  · rw [hr] at hr'
    cases hr'
    exact hq
  · exact h pre e' post' hes t os' hr'

theorem Along.last {Q : S → E → Prop} {s₀ s : S} {es : List E} {e : E} {os : List O}
    (h : m.Along Q s₀ (es ++ [e])) (hr : m.run s₀ es = some (s, os)) : Q s e :=
  h es e [] rfl s os hr

/-- **Induction over a run whose steps all meet `Q`.** -/
theorem along_induction {Q : S → E → Prop} {P : List E → S → List O → Prop} {s₀ : S}
    (init : P [] s₀ [])
    (snoc : ∀ es s os e s' o, m.run s₀ es = some (s, os) → P es s os → Q s e →
      m.step s e = some (s', o) → P (es ++ [e]) s' (os ++ o))
    {es : List E} {s : S} {os : List O} (hQ : m.Along Q s₀ es)
    (h : m.run s₀ es = some (s, os)) : P es s os := by
  refine run_induction (P := fun es s os => m.Along Q s₀ es → P es s os)
    (fun _ => init) ?_ h hQ
  intro es s os e s' o hr ih hst hal
  exact snoc es s os e s' o hr (ih hal.init) (hal.last hr) hst

/-! ## 3. Runs all of whose states have a property -/

variable (m) in
/-- Every state that the run `es` from `s₀` passes has the property `I`, which may also speak of
the events that led there. -/
def Always (I : List E → S → Prop) (s₀ : S) (es : List E) : Prop :=
  ∀ pre post, es = pre ++ post → ∀ s os, m.run s₀ pre = some (s, os) → I pre s

theorem Always.last {I : List E → S → Prop} {s₀ s : S} {es : List E} {os : List O}
    (h : m.Always I s₀ es) (hr : m.run s₀ es = some (s, os)) : I es s :=
  h es [] (List.append_nil es).symm s os hr

theorem Always.init {I : List E → S → Prop} {s₀ : S} {es : List E} {e : E}
    (h : m.Always I s₀ (es ++ [e])) : m.Always I s₀ es := by
  intro pre post he
  exact h pre (post ++ [e]) (by rw [he, List.append_assoc])

theorem Always.snoc {I : List E → S → Prop} {s₀ s : S} {es : List E} {e : E} {os : List O}
    (h : m.Always I s₀ es) (hr : m.run s₀ (es ++ [e]) = some (s, os)) (hi : I (es ++ [e]) s) :
    m.Always I s₀ (es ++ [e]) := by
  intro pre post he t os' hr'
  rcases List.eq_nil_or_concat post with rfl | ⟨post', x, rfl⟩
  · rw [List.append_nil] at he
    rw [he] at hr hi
    rw [hr] at hr'
    cases hr'
    exact hi
  · have he' : es ++ [e] = (pre ++ post') ++ [x] := by simpa using he
    obtain ⟨hes, -⟩ := List.append_inj' he' rfl
    exact h pre post' hes t os' hr'

/-- **The exact condition for a property of all states.**  If from every state with the property
a step leads to a state with the property just when it meets `Q`, the states of a run all have
the property just when its steps all meet `Q`. -/
theorem always_iff_along {I : List E → S → Prop} {Q : S → E → Prop} {s₀ : S} (init : I [] s₀)
    (snoc : ∀ es s os e s' o, m.run s₀ es = some (s, os) → I es s →
      m.step s e = some (s', o) → (I (es ++ [e]) s' ↔ Q s e))
    {es : List E} {s : S} {os : List O} (h : m.run s₀ es = some (s, os)) :
    m.Always I s₀ es ↔ m.Along Q s₀ es := by
  refine run_induction (P := fun es _ _ => m.Always I s₀ es ↔ m.Along Q s₀ es) ?_ ?_ h
  · refine ⟨fun _ => .nil, fun _ pre post he t os hr => ?_⟩
    obtain ⟨rfl, -⟩ := List.append_eq_nil_iff.mp he.symm
    cases hr
    exact init
  · intro es s os e s' o hr ih hst
    have hr' : m.run s₀ (es ++ [e]) = some (s', os ++ o) := by
      have hone := run_cons hst (run_nil m s')
      rw [List.append_nil] at hone
      exact run_append hr hone
    constructor
    · intro hall
      exact (ih.mp hall.init).snoc hr
        ((snoc es s os e s' o hr (hall.init.last hr) hst).mp (hall.last hr'))
    · intro hal
      have hbefore : m.Always I s₀ es := ih.mpr hal.init
      exact hbefore.snoc hr' ((snoc es s os e s' o hr (hbefore.last hr) hst).mpr (hal.last hr))

/-! ## 4. Machines in an environment -/

section Within

variable {R : Type} {allow : R → E → Option R}

variable (m) in
/-- The machine in an environment that decides, event by event, what may happen next. -/
def within (allow : R → E → Option R) : Machine (S × R) E O where
  step := fun (s, r) e =>
    (allow r e).bind fun r' => (m.step s e).map fun (s', os) => ((s', r'), os)

theorem step_within_iff {s s' : S} {r r' : R} {e : E} {os : List O} :
    (m.within allow).step (s, r) e = some ((s', r'), os) ↔
      allow r e = some r' ∧ m.step s e = some (s', os) := by
  simp only [within, Option.bind_eq_some_iff, Option.map_eq_some_iff, Prod.mk.injEq, Prod.exists]
  constructor
  · rintro ⟨r'', hr, t, o, hst, ⟨rfl, rfl⟩, rfl⟩
    exact ⟨hr, hst⟩
  · rintro ⟨hr, hst⟩
    exact ⟨r', hr, s', os, hst, ⟨rfl, rfl⟩, rfl⟩

/-- A run in an environment is a run that the environment allows. -/
theorem run_within_iff {s s' : S} {r r' : R} {es : List E} {os : List O} :
    (m.within allow).run (s, r) es = some ((s', r'), os) ↔
      es.foldlM allow r = some r' ∧ m.run s es = some (s', os) := by
  induction es generalizing s r os with
  | nil =>
    simp only [run_nil, List.foldlM_nil, Option.some.injEq, Prod.mk.injEq, Option.pure_def]
    constructor
    · rintro ⟨⟨rfl, rfl⟩, rfl⟩
      exact ⟨rfl, rfl, rfl⟩
    · rintro ⟨rfl, rfl, rfl⟩
      exact ⟨⟨rfl, rfl⟩, rfl⟩
  | cons e es ih =>
    rw [List.foldlM_cons]
    constructor
    · intro h
      obtain ⟨⟨t, q⟩, o, os', hst, hr, rfl⟩ := run_cons_inv h
      obtain ⟨hallow, hstep⟩ := step_within_iff.mp hst
      obtain ⟨hallows, hrun⟩ := ih.mp hr
      rw [hallow]
      exact ⟨hallows, run_cons hstep hrun⟩
    · rintro ⟨hallows, h⟩
      obtain ⟨t, o, os', hstep, hrun, rfl⟩ := run_cons_inv h
      obtain ⟨q, hallow, hallows⟩ := Option.bind_eq_some_iff.mp hallows
      exact run_cons (step_within_iff.mpr ⟨hallow, hstep⟩) (ih.mpr ⟨hallows, hrun⟩)

end Within

/-! ## 5. Flags -/

section Flag

variable {sets : S → E → Prop} {clears : E → Prop} {s₀ : S}

variable (m) in
/-- A step of the run has set a flag, and no step has cleared it since. -/
def Raised (sets : S → E → Prop) (clears : E → Prop) (s₀ : S) (es : List E) : Prop :=
  ∃ early e mid s os, es = early ++ e :: mid ∧ m.run s₀ early = some (s, os) ∧ sets s e ∧
    ∀ x ∈ mid, ¬ clears x

theorem raised_snoc_iff {es : List E} {e : E} {s : S} {os : List O}
    (hr : m.run s₀ es = some (s, os)) :
    m.Raised sets clears s₀ (es ++ [e]) ↔ sets s e ∨ (m.Raised sets clears s₀ es ∧ ¬ clears e) := by
  constructor
  · rintro ⟨early, x, mid, t, os', he, hr', hsets, hmid⟩
    rcases snoc_eq_append_cons he with ⟨rfl, rfl, -⟩ | ⟨mid', rfl, hes⟩
    · rw [hr] at hr'
      cases hr'
      exact Or.inl hsets
    · refine Or.inr ⟨⟨early, x, mid', t, os', hes, hr', hsets, fun y hy => ?_⟩, ?_⟩
      · exact hmid y (List.mem_append_left _ hy)
      · exact hmid e (List.mem_append_right _ List.mem_cons_self)
  · rintro (hsets | ⟨⟨early, x, mid, t, os', rfl, hr', hsets, hmid⟩, hkeeps⟩)
    · exact ⟨es, e, [], s, os, rfl, hr, hsets, fun x hx => absurd hx List.not_mem_nil⟩
    · refine ⟨early, x, mid ++ [e], t, os', by simp, hr', hsets, fun y hy => ?_⟩
      rcases List.mem_append.mp hy with hy | hy
      · exact hmid y hy
      · rw [List.mem_singleton.mp hy]
        exact hkeeps

/-- **A flag tells whether it was raised**, if it is down at first and every step either sets it,
clears it or leaves it as it is. -/
theorem flag_iff_raised (flag : S → Prop) (init : ¬ flag s₀)
    (step : ∀ s e s' o, m.step s e = some (s', o) →
      (flag s' ↔ sets s e ∨ (flag s ∧ ¬ clears e)))
    {es : List E} {s : S} {os : List O} (h : m.run s₀ es = some (s, os)) :
    flag s ↔ m.Raised sets clears s₀ es := by
  refine run_induction (P := fun es s _ => flag s ↔ m.Raised sets clears s₀ es) ?_ ?_ h
  · refine iff_of_false init ?_
    rintro ⟨early, e, mid, s, os, he, -⟩
    exact absurd he.symm (List.append_ne_nil_of_right_ne_nil _ (List.cons_ne_nil _ _))
  · intro es s os e s' o hr ih hst
    rw [step s e s' o hst, raised_snoc_iff hr, ih]

end Flag

end Machine

end HelixRack
