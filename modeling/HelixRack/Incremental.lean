/-
# Incremental parsers

A parser that is offered a growing buffer answers "complete, and this long", "not yet" or
"never".  What a caller that re-parses after every read relies on is that the answer only
depends on the item's own bytes: more input does not change a final answer, and input after
the item is not looked at.  `IncrementalParser` carries these laws as fields, so a parser
without them cannot be built.

The second half builds parsers with these laws from a finite prefix code: a table of
complete items, no one a prefix of another.
-/
import Mathlib.Data.List.Infix

namespace HelixRack

/-- What a parser says about a buffer. -/
inductive Status (β : Type) where
  /-- The buffer starts with a complete item of `consumed` elements. -/
  | complete (consumed : Nat) (out : β)
  /-- The buffer may still become one; `out` is what has been parsed of it so far. -/
  | incomplete (out : β)
  /-- No continuation of the buffer starts with an item. -/
  | invalid
  deriving DecidableEq, Repr

/-- A parser whose final answers are stable under more input, and which reads an item's own
elements only. -/
structure IncrementalParser (α β : Type) where
  parse : List α → Status β
  complete_pos : ∀ {xs n b}, parse xs = .complete n b → 0 < n
  complete_le : ∀ {xs n b}, parse xs = .complete n b → n ≤ xs.length
  complete_append : ∀ {xs n b} ys, parse xs = .complete n b → parse (xs ++ ys) = .complete n b
  complete_take : ∀ {xs n b}, parse xs = .complete n b → parse (xs.take n) = .complete n b
  invalid_append : ∀ {xs} ys, parse xs = .invalid → parse (xs ++ ys) = .invalid

namespace IncrementalParser

variable {α β : Type} (p : IncrementalParser α β)

/-! ## 1. Consequences of the laws -/

/-- The buffer is the beginning of an item and not yet a whole one. -/
def Pending (xs : List α) : Prop := ∃ out, p.parse xs = .incomplete out

variable {p}

theorem parse_nil_ne_complete {n : Nat} {b : β} : p.parse [] ≠ .complete n b := by
  intro h
  have h1 := p.complete_pos h
  have h2 := p.complete_le h
  simp only [List.length_nil] at h2
  omega

/-- A prefix of a pending buffer is pending: it cannot have been decided already. -/
theorem Pending.of_append {xs ys : List α} (h : p.Pending (xs ++ ys)) : p.Pending xs := by
  obtain ⟨out, h⟩ := h
  cases hx : p.parse xs with
  | complete n b => rw [p.complete_append ys hx] at h; cases h
  | incomplete b => exact ⟨b, hx⟩
  | invalid => rw [p.invalid_append ys hx] at h; cases h

/-- From its end on, the item is complete. -/
theorem complete_of_le {xs ys : List α} {n : Nat} {b : β}
    (h : p.parse (xs ++ ys) = .complete n b) (hle : n ≤ xs.length) :
    p.parse xs = .complete n b := by
  have h1 := p.complete_take h
  rw [List.take_append_of_le_length hle] at h1
  have h2 := p.complete_append (xs.drop n) h1
  rwa [List.take_append_drop] at h2

/-! ## 2. Parsers from prefix codes -/

section Code

/-- No item of the table is a prefix of another. -/
def PrefixFree (code : List (List α × β)) : Prop :=
  ∀ u ∈ code, ∀ v ∈ code, u.1 <+: v.1 → u = v

theorem PrefixFree.singleton (w : List α × β) : PrefixFree [w] := by
  intro u hu v hv _
  rw [List.mem_singleton.mp hu, List.mem_singleton.mp hv]

theorem PrefixFree.pair {u v : List α × β} (huv : ¬ u.1 <+: v.1) (hvu : ¬ v.1 <+: u.1) :
    PrefixFree [u, v] := by
  intro w hw x hx h
  simp only [List.mem_cons, List.not_mem_nil, or_false] at hw hx
  rcases hw with rfl | rfl <;> rcases hx with rfl | rfl
  · rfl
  · exact absurd h huv
  · exact absurd h hvu
  · rfl

variable [DecidableEq α] [Inhabited β]

/-- Look the buffer up in the table. -/
def codeParse (code : List (List α × β)) (xs : List α) : Status β :=
  match code.find? fun w => decide (w.1 <+: xs) with
  | some w => .complete w.1.length w.2
  | none => if ∃ w ∈ code, xs <+: w.1 then .incomplete default else .invalid

theorem codeParse_complete_iff {code : List (List α × β)} (hpf : PrefixFree code)
    {xs : List α} {n : Nat} {b : β} :
    codeParse code xs = .complete n b ↔ ∃ w ∈ code, w.1 <+: xs ∧ w.1.length = n ∧ w.2 = b := by
  unfold codeParse
  cases hf : code.find? fun w => decide (w.1 <+: xs) with
  | some u =>
    have hu : u.1 <+: xs := by simpa using List.find?_some hf
    have hmem : u ∈ code := List.mem_of_find?_eq_some hf
    constructor
    · intro h
      simp only [Status.complete.injEq] at h
      exact ⟨u, hmem, hu, h.1, h.2⟩
    · rintro ⟨w, hw, hwx, rfl, rfl⟩
      rcases List.prefix_or_prefix_of_prefix hu hwx with h | h
      · rw [hpf u hmem w hw h]
      · rw [hpf w hw u hmem h]
  | none =>
    have hno : ∀ w ∈ code, ¬ w.1 <+: xs := by simpa using hf
    constructor
    · intro h
      simp only at h
      split at h <;> cases h
    · rintro ⟨w, hw, hwx, -⟩
      exact absurd hwx (hno w hw)

/-- An item of the table is complete where it ends. -/
theorem codeParse_item {code : List (List α × β)} (hpf : PrefixFree code) {xs : List α} {b : β}
    (hw : (xs, b) ∈ code) : codeParse code xs = .complete xs.length b :=
  (codeParse_complete_iff hpf).mpr ⟨_, hw, List.prefix_rfl, rfl, rfl⟩

theorem codeParse_invalid_iff {code : List (List α × β)} {xs : List α} :
    codeParse code xs = .invalid ↔
      (∀ w ∈ code, ¬ w.1 <+: xs) ∧ ∀ w ∈ code, ¬ xs <+: w.1 := by
  unfold codeParse
  cases hf : code.find? fun w => decide (w.1 <+: xs) with
  | some u =>
    have hu : u.1 <+: xs := by simpa using List.find?_some hf
    have hmem : u ∈ code := List.mem_of_find?_eq_some hf
    simp only [reduceCtorEq, false_iff, not_and]
    exact fun h => absurd hu (h u hmem)
  | none =>
    have hno : ∀ w ∈ code, ¬ w.1 <+: xs := by simpa using hf
    simp only [ite_eq_right_iff, reduceCtorEq, imp_false, not_exists, not_and]
    exact ⟨fun h => ⟨hno, h⟩, fun h => h.2⟩

/-- A proper beginning of some item is pending. -/
theorem codeParse_pending {code : List (List α × β)} {xs : List α} {w : List α × β}
    (hno : ∀ w ∈ code, ¬ w.1 <+: xs) (hw : w ∈ code) (hx : xs <+: w.1) :
    codeParse code xs = .incomplete default := by
  have hf : (code.find? fun w => decide (w.1 <+: xs)) = none := by simpa using hno
  unfold codeParse
  rw [hf]
  exact if_pos ⟨w, hw, hx⟩

/-- **A prefix code parses incrementally.** -/
def ofCode (code : List (List α × β)) (hpf : PrefixFree code) (hne : ∀ w ∈ code, w.1 ≠ []) :
    IncrementalParser α β where
  parse := codeParse code
  complete_pos h := by
    obtain ⟨w, hw, -, rfl, -⟩ := (codeParse_complete_iff hpf).mp h
    exact List.length_pos_iff.mpr (hne w hw)
  complete_le h := by
    obtain ⟨w, -, hwx, rfl, -⟩ := (codeParse_complete_iff hpf).mp h
    exact hwx.length_le
  complete_append ys h := by
    obtain ⟨w, hw, hwx, hn, hb⟩ := (codeParse_complete_iff hpf).mp h
    exact (codeParse_complete_iff hpf).mpr
      ⟨w, hw, hwx.trans (List.prefix_append _ _), hn, hb⟩
  complete_take h := by
    obtain ⟨w, hw, hwx, rfl, hb⟩ := (codeParse_complete_iff hpf).mp h
    exact (codeParse_complete_iff hpf).mpr
      ⟨w, hw, by rw [← List.prefix_iff_eq_take.mp hwx], rfl, hb⟩
  invalid_append {xs} ys h := by
    obtain ⟨h1, h2⟩ := codeParse_invalid_iff.mp h
    refine codeParse_invalid_iff.mpr ⟨fun w hw hwx => ?_, fun w hw hxw => ?_⟩
    · rcases List.prefix_or_prefix_of_prefix hwx (List.prefix_append xs ys) with hp | hp
      · exact h1 w hw hp
      · exact h2 w hw hp
    · exact h2 w hw ((List.prefix_append xs ys).trans hxw)

@[simp] theorem ofCode_parse (code : List (List α × β)) (hpf : PrefixFree code)
    (hne : ∀ w ∈ code, w.1 ≠ []) : (ofCode code hpf hne).parse = codeParse code := rfl

/-- Before the first byte, everything is pending. -/
theorem ofCode_pending_nil {code : List (List α × β)} (hpf : PrefixFree code)
    (hne : ∀ w ∈ code, w.1 ≠ []) {w : List α × β} (hw : w ∈ code) :
    (ofCode code hpf hne).Pending [] := by
  have hno : ∀ w ∈ code, ¬ w.1 <+: [] := fun v hv h => hne v hv (List.prefix_nil.mp h)
  exact ⟨default, codeParse_pending hno hw List.nil_prefix⟩

end Code

end IncrementalParser

end HelixRack
