/-
# Machines whose steps are checked, and machines that stop

Two things that a machine and its runs are compared with, and nothing of any particular program.

* `Machine.checked` is a machine given by steps that may fault; a fault is a state from which
  nothing follows.  `run_checked` and `checked_run` compare it with a machine whose steps do not:
  where each checked step agrees with the plain one or faults in a way that is accounted for, the
  two have the same runs up to such a fault.
* `Machine.Terminates` says that all runs from a state are finite; `terminates_of_measure` and
  `terminates_of_pair` show it by measures that go down in the states with some invariant.
-/
import HelixRack.Machine
import Mathlib.Order.WellFounded

namespace HelixRack.Machine

variable {S E O F : Type}

/-! ## 1. Checked steps -/

/-- The machine with these steps; a fault is its last state. -/
def checked (step : S → E → Except F (Option (S × List O))) : Machine (Except F S) E O where
  step
    | .ok s, e => match step s e with
      | .ok next => next.map fun (s', os) => (.ok s', os)
      | .error f => some (.error f, [])
    | .error _, _ => none

section Checked

variable {m : Machine S E O} {step : S → E → Except F (Option (S × List O))} {s₀ : S}

/-- In the states of a run, where `J` holds, the checked step does what the plain one does and
keeps `J`, or it faults, and `Bad` accounts for that. -/
def Accounted (m : Machine S E O) (step : S → E → Except F (Option (S × List O)))
    (s₀ : S) (J : S → Prop) (Bad : List E → F → Prop) : Prop :=
  ∀ es s os e, m.run s₀ es = some (s, os) → J s →
    (step s e = .ok (m.step s e) ∧ ∀ s' o, m.step s e = some (s', o) → J s') ∨
      ∃ f, step s e = .error f ∧ Bad (es ++ [e]) f

variable {J : S → Prop} {Bad : List E → F → Prop}

/-- **A checked run is a plain one, or ends in a fault that is accounted for.** -/
theorem run_checked (h : Accounted m step s₀ J Bad) (init : J s₀) {es : List E} {r : Except F S}
    {os : List O} (hr : (checked step).run (.ok s₀) es = some (r, os)) :
    (∃ s, r = .ok s ∧ m.run s₀ es = some (s, os) ∧ J s) ∨ ∃ f, r = .error f ∧ Bad es f := by
  refine run_induction (P := fun es r os =>
    (∃ s, r = .ok s ∧ m.run s₀ es = some (s, os) ∧ J s) ∨ ∃ f, r = .error f ∧ Bad es f)
    (Or.inl ⟨s₀, rfl, rfl, init⟩) ?_ hr
  rintro es r os e r' o - (⟨s, rfl, hrun, hs⟩ | ⟨f, rfl, -⟩) hst
  · rcases h es s os e hrun hs with ⟨hok, hkeep⟩ | ⟨f, hfault, hbad⟩
    · simp only [checked, hok, Option.map_eq_some_iff] at hst
      obtain ⟨⟨s', o'⟩, hstep, heq⟩ := hst
      cases heq
      have hone := run_cons hstep (run_nil m s')
      rw [List.append_nil] at hone
      exact Or.inl ⟨s', rfl, run_append hrun hone, hkeep s' _ hstep⟩
    · simp only [checked, hfault] at hst
      cases hst
      exact Or.inr ⟨f, rfl, hbad⟩
  · cases hst

/-- **A plain run is a checked one**, if no fault on the way is accounted for. -/
theorem checked_run (h : Accounted m step s₀ J Bad) (init : J s₀) {es : List E} {s : S}
    {os : List O} (hr : m.run s₀ es = some (s, os)) (hgood : ∀ pre, pre <+: es → ∀ f, ¬ Bad pre f) :
    (checked step).run (.ok s₀) es = some (.ok s, os) := by
  refine (run_induction (P := fun es s os => (∀ pre, pre <+: es → ∀ f, ¬ Bad pre f) →
    (checked step).run (.ok s₀) es = some (.ok s, os) ∧ J s) (fun _ => ⟨rfl, init⟩) ?_ hr hgood).1
  intro es s os e s' o hrun ih hst hgood
  have hbefore := ih fun pre hpre => hgood pre (hpre.trans (List.prefix_append es [e]))
  rcases h es s os e hrun hbefore.2 with ⟨hok, hkeep⟩ | ⟨f, -, hbad⟩
  · have hone : (checked step).step (.ok s) e = some (.ok s', o) := by
      simp only [checked, hok, hst, Option.map_some]
    have hlast := run_cons hone (run_nil _ _)
    rw [List.append_nil] at hlast
    exact ⟨run_append hbefore.1 hlast, hkeep s' o hst⟩
  · exact absurd hbad (hgood _ List.prefix_rfl f)

end Checked

/-! ## 2. Machines that stop -/

section Terminates

variable {m : Machine S E O}

variable (m) in
/-- `s'` comes right after `s`. -/
def Next (s' s : S) : Prop := ∃ e o, m.step s e = some (s', o)

variable (m) in
/-- Every run from `s` is finite. -/
def Terminates (s : S) : Prop := Acc m.Next s

/-- ...so that there is no infinite one. -/
theorem Terminates.no_infinite_run {s : S} (h : m.Terminates s) :
    ¬ ∃ states : ℕ → S, states 0 = s ∧ ∀ n, m.Next (states (n + 1)) (states n) :=
  fun hinf => not_acc_iff_exists_descending_chain.mpr hinf h

/-- **Termination by a measure.**  From the states with the property `I`, a step leads to a state
that is done, by `D`, or to one with `I` and a smaller measure. -/
theorem terminates_of_measure {α : Type} {r : α → α → Prop} (hr : WellFounded r) (μ : S → α)
    {I D : S → Prop} (done : ∀ s e, D s → m.step s e = none)
    (step : ∀ s e s' o, I s → m.step s e = some (s', o) → D s' ∨ (I s' ∧ r (μ s') (μ s)))
    {s : S} (hs : I s) : m.Terminates s := by
  refine hr.induction (C := fun a => ∀ s, μ s = a → I s → m.Terminates s) (μ s) ?_ s rfl hs
  rintro _ ih s rfl hs
  refine Acc.intro s ?_
  rintro s' ⟨e, o, hst⟩
  rcases step s e s' o hs hst with hdone | ⟨hs', hlt⟩
  · refine Acc.intro s' ?_
    rintro s'' ⟨e', o', hst'⟩
    rw [done s' e' hdone] at hst'
    cases hst'
  · exact ih (μ s') hlt s' rfl hs'

/-- ...or by two, of which the first never grows, and the second shrinks where it does not. -/
theorem terminates_of_pair (μ ν : S → Nat) {I D : S → Prop} (done : ∀ s e, D s → m.step s e = none)
    (step : ∀ s e s' o, I s → m.step s e = some (s', o) →
      D s' ∨ (I s' ∧ (μ s' < μ s ∨ (μ s' ≤ μ s ∧ ν s' < ν s))))
    {s : S} (hs : I s) : m.Terminates s := by
  have hwf : WellFounded (Prod.Lex (· < · : Nat → Nat → Prop) (· < · : Nat → Nat → Prop)) :=
    WellFounded.prod_lex Nat.lt_wfRel.wf Nat.lt_wfRel.wf
  refine terminates_of_measure hwf (fun s => (μ s, ν s)) done ?_ hs
  intro s e s' o hs hst
  rcases step s e s' o hs hst with hdone | ⟨hs', hless | ⟨hle, hless⟩⟩
  · exact Or.inl hdone
  · exact Or.inr ⟨hs', Prod.Lex.left _ _ hless⟩
  · refine Or.inr ⟨hs', ?_⟩
    rcases Nat.lt_or_eq_of_le hle with hlt | heq
    · exact Prod.Lex.left _ _ hlt
    · simp only [heq]
      exact Prod.Lex.right _ hless

end Terminates

end HelixRack.Machine
