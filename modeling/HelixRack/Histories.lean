/-
# Sequential objects and their histories

An object is asked one thing after the other; it answers each before it is asked the next, and
remembers what it likes in between.  A history is a list of questions with the answers they got.
`Object.Legal` says that an object, from some state on, gives these answers when it is asked these
questions in this order.  There is nothing of any particular program in this module.

* Histories compose (`legal_append`), and an answer was given where the questions before it
  have led to (`Legal.answer`).
* Every history is one of `replay`, which gives recorded answers (`replay_legal`): who talks to an
  object cannot tell it from a record.
* An object without a memory gives the same answers from every state (`Stateless.legal_iff`).
* An object may stand in for another one, more abstract (`Refines`), if only for the questions it
  answers as that one does, in the states it is asked them in.
* Where several clients ask, a history names them (`named`), and each has its part in it (`part`).
  A client whose own questions are all of that kind has its part of a history of the other object
  (`Refines.part`), whatever the other clients ask.
-/

namespace HelixRack

/-- From a state and a question to an answer and the next state. -/
abbrev Object (σ Q A : Type) := σ → Q → A × σ

namespace Object

variable {σ Q A : Type} {obj : Object σ Q A} {s : σ} {h h' : List (Q × A)}

/-! ## 1. Legal histories -/

variable (obj) in
/-- The state after the questions of a history. -/
def after (s : σ) (h : List (Q × A)) : σ := h.foldl (fun s qa => (obj s qa.1).2) s

variable (obj) in
/-- The object gives these answers. -/
def Legal : σ → List (Q × A) → Prop
  | _, [] => True
  | s, (q, a) :: h => (obj s q).1 = a ∧ Legal (obj s q).2 h

@[simp] theorem after_nil (s : σ) : obj.after s [] = s := rfl

@[simp] theorem after_cons (s : σ) (q : Q) (a : A) (h : List (Q × A)) :
    obj.after s ((q, a) :: h) = obj.after (obj s q).2 h := rfl

theorem after_append (s : σ) (h h' : List (Q × A)) :
    obj.after s (h ++ h') = obj.after (obj.after s h) h' := List.foldl_append

@[simp] theorem legal_nil (s : σ) : obj.Legal s [] := trivial

@[simp] theorem legal_cons {q : Q} {a : A} :
    obj.Legal s ((q, a) :: h) ↔ (obj s q).1 = a ∧ obj.Legal (obj s q).2 h := Iff.rfl

/-- Histories compose. -/
theorem legal_append :
    obj.Legal s (h ++ h') ↔ obj.Legal s h ∧ obj.Legal (obj.after s h) h' := by
  induction h generalizing s with
  | nil => simp
  | cons qa h ih =>
    obtain ⟨q, a⟩ := qa
    rw [List.cons_append, legal_cons, legal_cons, after_cons, ih, and_assoc]

variable (obj) in
/-- Being asked keeps the property of states. -/
def Keeps (I : σ → Prop) : Prop := ∀ s q, I s → I (obj s q).2

theorem Keeps.after {I : σ → Prop} (hk : obj.Keeps I) (hs : I s) : I (obj.after s h) := by
  induction h generalizing s with
  | nil => exact hs
  | cons qa h ih => exact ih (hk s qa.1 hs)

/-- Every answer was given in the state that the questions before it have led to. -/
theorem Legal.answer {pre post : List (Q × A)} {q : Q} {a : A}
    (hl : obj.Legal s (pre ++ (q, a) :: post)) : (obj (obj.after s pre) q).1 = a :=
  (legal_cons.mp (legal_append.mp hl).2).1

/-- Anything can be asked. -/
theorem exists_legal (obj : Object σ Q A) (s : σ) (qs : List Q) :
    ∃ h, obj.Legal s h ∧ h.map Prod.fst = qs := by
  induction qs generalizing s with
  | nil => exact ⟨[], trivial, rfl⟩
  | cons q qs ih =>
    obtain ⟨h, hl, hqs⟩ := ih (obj s q).2
    exact ⟨(q, (obj s q).1) :: h, ⟨rfl, hl⟩, congrArg (q :: ·) hqs⟩

/-! ## 2. Records, and objects without a memory -/

/-- The object that gives recorded answers, and any answer once there are no more of them. -/
def replay [Inhabited A] : Object (List A) Q A
  | [], _ => (default, [])
  | a :: answers, _ => (a, answers)

/-- **Every history is one of its own record.** -/
theorem replay_legal [Inhabited A] (h : List (Q × A)) :
    (replay : Object (List A) Q A).Legal (h.map Prod.snd) h := by
  induction h with
  | nil => trivial
  | cons qa h ih => exact ⟨rfl, ih⟩

variable (obj) in
/-- The answers have nothing to do with what was asked before. -/
def Stateless : Prop := ∀ s s' q, (obj s q).1 = (obj s' q).1

theorem Stateless.legal_iff (hs : obj.Stateless) (s₀ : σ) :
    obj.Legal s h ↔ ∀ qa ∈ h, (obj s₀ qa.1).1 = qa.2 := by
  induction h generalizing s with
  | nil => simp
  | cons qa h ih =>
    obtain ⟨q, a⟩ := qa
    rw [legal_cons, ih, List.forall_mem_cons, hs s s₀ q]

/-- Of a history, an object without a memory may be asked any part. -/
theorem Stateless.legal_of_sublist (hs : obj.Stateless) (hl : obj.Legal s h) (hsub : h'.Sublist h)
    (s' : σ) : obj.Legal s' h' := by
  rw [hs.legal_iff s] at hl ⊢
  exact fun qa hmem => hl qa (hsub.subset hmem)

/-! ## 3. One object in place of another -/

section Refines

variable {τ B : Type} {spec : Object τ Q B} {view : B → A} {R : σ → τ → Prop} {C : τ → Q → Prop}

variable (obj spec view R C) in
/-- Asked the same from states that `R` relates, the two are in such states again; and `obj` has
answered what `view` shows of the answer of `spec`, where `C` holds. -/
def Refines : Prop :=
  ∀ s t q, R s t → R (obj s q).2 (spec t q).2 ∧ (C t q → (obj s q).1 = view (spec t q).1)

/-- A history, with what is shown of its answers. -/
def shown (view : B → A) (h : List (Q × B)) : List (Q × A) := h.map fun qb => (qb.1, view qb.2)

theorem Refines.after {t : τ} {l : List (Q × B)} (hr : obj.Refines spec view R C) (hR : R s t)
    (hsame : h.map Prod.fst = l.map Prod.fst) : R (obj.after s h) (spec.after t l) := by
  induction h generalizing s t l with
  | nil =>
    rw [List.map_eq_nil_iff.mp hsame.symm]
    exact hR
  | cons qa h ih =>
    cases l with
    | nil => cases hsame
    | cons qb l =>
      obtain ⟨hq, hrest⟩ := List.cons.inj hsame
      rw [after_cons, after_cons, hq]
      exact ih (hr s t qb.1 hR).1 hrest

end Refines

/-! ## 4. Several clients -/

section Clients

variable {ι : Type} {k : List ((ι × Q) × A)}

variable (obj) in
/-- The object, told who asks. -/
def named : Object σ (ι × Q) A := fun s q => obj s q.2

/-- The history, without the names. -/
def unnamed (k : List ((ι × Q) × A)) : List (Q × A) := k.map fun qa => (qa.1.2, qa.2)

theorem unnamed_append (k k' : List ((ι × Q) × A)) : unnamed (k ++ k') = unnamed k ++ unnamed k' :=
  List.map_append

/-- What one client has asked, and was answered. -/
def part [DecidableEq ι] (i : ι) (k : List ((ι × Q) × A)) : List (Q × A) :=
  unnamed (k.filter fun qa => qa.1.1 = i)

theorem part_sublist [DecidableEq ι] (i : ι) (k : List ((ι × Q) × A)) :
    (part i k).Sublist (unnamed k) := List.filter_sublist.map _

theorem named_legal_iff : (obj.named : Object σ (ι × Q) A).Legal s k ↔ obj.Legal s (unnamed k) := by
  induction k generalizing s with
  | nil => exact Iff.rfl
  | cons qa k ih => exact and_congr Iff.rfl ih

variable {τ B : Type} {spec : Object τ Q B} {view : B → A} {R : σ → τ → Prop} {C : τ → Q → Prop}
  {l : List ((ι × Q) × B)}

theorem unnamed_questions (hsame : k.map Prod.fst = l.map Prod.fst) :
    (unnamed k).map Prod.fst = (unnamed l).map Prod.fst := by
  have hboth := congrArg (List.map Prod.snd) hsame
  simpa only [unnamed, List.map_map, Function.comp_def] using hboth

/-- Anything can be asked by anybody. -/
theorem exists_named_legal (spec : Object τ Q B) (t : τ) (qs : List (ι × Q)) :
    ∃ l, spec.Legal t (unnamed l) ∧ l.map Prod.fst = qs := by
  obtain ⟨l, hl, hqs⟩ := exists_legal (spec.named : Object τ (ι × Q) B) t qs
  exact ⟨l, named_legal_iff.mp hl, hqs⟩

/-- **Each client has its own part of the refinement**: where `C` holds of all that one client
asks, it is shown its part of the history of `spec`, whatever the others have asked. -/
theorem Refines.part [DecidableEq ι] {t : τ} {i : ι} (hr : obj.Refines spec view R C)
    (hR : R s t) (hl : obj.Legal s (unnamed k)) (hl' : spec.Legal t (unnamed l))
    (hsame : k.map Prod.fst = l.map Prod.fst)
    (hC : ∀ pre q b post, l = pre ++ ((i, q), b) :: post → C (spec.after t (unnamed pre)) q) :
    Object.part i k = shown view (Object.part i l) := by
  induction k generalizing s t l with
  | nil => rw [List.map_eq_nil_iff.mp hsame.symm]; rfl
  | cons qa k ih =>
    cases l with
    | nil => cases hsame
    | cons qb l =>
      obtain ⟨⟨j, q⟩, a⟩ := qa
      obtain ⟨⟨j', q'⟩, b⟩ := qb
      obtain ⟨hq, hrest⟩ := List.cons.inj hsame
      cases hq
      obtain ⟨rfl, hlegal⟩ : (obj s q).1 = a ∧ obj.Legal (obj s q).2 (unnamed k) := hl
      obtain ⟨rfl, hlegal'⟩ : (spec t q).1 = b ∧ spec.Legal (spec t q).2 (unnamed l) := hl'
      obtain ⟨hnext, hanswer⟩ := hr s t q hR
      have htail := ih hnext hlegal hlegal' hrest fun pre q₁ b₁ post heq =>
        hC (_ :: pre) q₁ b₁ post (congrArg (_ :: ·) heq)
      by_cases hj : j = i
      · subst hj
        have hfirst := hanswer (hC [] q _ l rfl)
        simp only [Object.part, List.filter_cons, decide_true, if_true, unnamed, List.map_cons,
          shown, hfirst] at htail ⊢
        rw [htail]
      · simp only [Object.part, List.filter_cons, hj, decide_false, Bool.false_eq_true, if_false]
        exact htail

end Clients

end Object

end HelixRack
