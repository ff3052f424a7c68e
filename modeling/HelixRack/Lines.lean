/-
# Cutting a sequence at separators

The cuts a reader of a line-based format makes: at a separator, at a two-element line end, at
every line end, and into one item after another.  Each comes with the lemma that it undoes the
writing: what stands in front of the first separator is what was put there.  For all the lines
this holds exactly when no line has a line end inside (`cutLines_flatMap_iff`); in general each
text that was written as a line comes apart into lines of its own (`cutLines_flatMap`).  Nothing
here is about bytes or about any one format.
-/
import Mathlib.Data.List.Basic
import Mathlib.Data.List.Infix

namespace HelixRack

variable {α β ι : Type}

/-! ## 1. Separators -/

section Cut

variable [DecidableEq α]

/-- The elements in front of the first `sep`, and those behind it. -/
def cutAt (sep : α) : List α → Option (List α × List α)
  | [] => none
  | a :: rest =>
    if a = sep then some ([], rest)
    else (cutAt sep rest).map fun (front, back) => (a :: front, back)

/-- The elements in front of the first line end `cr, lf`, and those behind it. -/
def splitLine (cr lf : α) : List α → Option (List α × List α)
  | a :: b :: rest =>
    if a = cr ∧ b = lf then some ([], rest)
    else (splitLine cr lf (b :: rest)).map fun (line, back) => (a :: line, back)
  | [_] | [] => none

theorem cutAt_append {sep : α} {front : List α} (h : sep ∉ front) (back : List α) :
    cutAt sep (front ++ sep :: back) = some (front, back) := by
  induction front with
  | nil => simp [cutAt]
  | cons a front ih =>
    have hne : a ≠ sep := fun heq => h (heq ▸ List.mem_cons_self)
    have hrest : sep ∉ front := fun hmem => h (List.mem_cons_of_mem _ hmem)
    simp [cutAt, hne, ih hrest]

theorem splitLine_append {cr lf : α} {line : List α} (h : cr ∉ line) (back : List α) :
    splitLine cr lf (line ++ cr :: lf :: back) = some (line, back) := by
  induction line with
  | nil => simp [splitLine]
  | cons a line ih =>
    have hne : a ≠ cr := fun heq => h (heq ▸ List.mem_cons_self)
    have hrest : cr ∉ line := fun hmem => h (List.mem_cons_of_mem _ hmem)
    have htail := ih hrest
    cases line with
    | nil =>
      simp only [List.nil_append] at htail
      simp [splitLine, hne]
    | cons b line =>
      rw [List.cons_append] at htail
      simp only [List.cons_append, splitLine, hne, false_and, if_false, htail, Option.map_some]

/-! ## 2. All the lines -/

/-- The lines that are ended, and what stands behind the last line end. -/
def cutLines (cr lf : α) : List α → List (List α) × List α
  | a :: b :: rest =>
    if a = cr ∧ b = lf then
      let (lines, tail) := cutLines cr lf rest
      ([] :: lines, tail)
    else match cutLines cr lf (b :: rest) with
      | (line :: lines, tail) => ((a :: line) :: lines, tail)
      | ([], tail) => ([], a :: tail)
  | [a] => ([], [a])
  | [] => ([], [])

variable {cr lf : α}

/-- A line without a line end inside is cut off whole, whatever follows.  It may end in `cr`. -/
theorem cutLines_append (hne : cr ≠ lf) {line : List α} (h : ¬ [cr, lf] <:+: line)
    (back : List α) :
    cutLines cr lf (line ++ cr :: lf :: back) =
      (line :: (cutLines cr lf back).1, (cutLines cr lf back).2) := by
  induction line with
  | nil => simp only [List.nil_append, cutLines, and_self, if_true]
  | cons a line ih =>
    have hrest : ¬ [cr, lf] <:+: line := fun hin => h (List.infix_cons hin)
    have htail := ih hrest
    cases line with
    | nil =>
      have hnot : ¬ (a = cr ∧ cr = lf) := fun heq => hne heq.2
      rw [List.nil_append] at htail
      simp only [List.cons_append, List.nil_append]
      rw [cutLines, if_neg hnot, htail]
    | cons b line =>
      have hnot : ¬ (a = cr ∧ b = lf) := by
        rintro ⟨rfl, rfl⟩
        exact h ⟨[], line, rfl⟩
      rw [List.cons_append] at htail
      simp only [List.cons_append]
      rw [cutLines, if_neg hnot, htail]

omit [DecidableEq α] in
/-- A line end does not reach over an element that is no part of it. -/
theorem pair_infix_append_cons {sep : α} (hcr : sep ≠ cr) (hlf : sep ≠ lf) {front back : List α} :
    [cr, lf] <:+: front ++ sep :: back ↔ [cr, lf] <:+: front ∨ [cr, lf] <:+: back := by
  induction front with
  | nil =>
    rw [List.nil_append, List.infix_cons_iff, List.cons_prefix_cons]
    constructor
    · rintro (⟨heq, -⟩ | hin)
      · exact absurd heq.symm hcr
      · exact Or.inr hin
    · rintro (hin | hin)
      · exact absurd hin.length_le (by simp)
      · exact Or.inr hin
  | cons a front ih =>
    rw [List.cons_append, List.infix_cons_iff, ih, List.infix_cons_iff, or_assoc]
    refine or_congr_left ?_
    cases front with
    | nil =>
      constructor
      · intro hpre
        obtain ⟨-, hpre'⟩ := List.cons_prefix_cons.mp hpre
        exact absurd (List.cons_prefix_cons.mp hpre').1.symm hlf
      · exact fun hpre => absurd hpre.length_le (by simp)
    | cons b front =>
      simp only [List.cons_append, List.cons_prefix_cons, List.nil_prefix, and_true]

/-- Nothing is lost. -/
theorem cutLines_join (input : List α) :
    (cutLines cr lf input).1.flatMap (· ++ [cr, lf]) ++ (cutLines cr lf input).2 = input := by
  fun_induction cutLines cr lf input with
  | case1 a b rest heq lines tail hcut ih =>
    obtain ⟨rfl, rfl⟩ := heq
    rw [hcut] at ih
    rw [List.flatMap_cons, List.nil_append, List.append_assoc, ih]
    rfl
  | case2 a b rest hne line lines tail hcut ih =>
    rw [hcut, List.flatMap_cons] at ih
    rw [List.flatMap_cons, List.cons_append, List.cons_append, List.cons_append, ih]
  | case3 a b rest hne tail hcut ih =>
    rw [hcut] at ih
    exact congrArg (a :: ·) ih
  | case4 a => rfl
  | case5 => rfl

/-- No line has a line end inside. -/
theorem not_infix_of_mem_cutLines {input line : List α} (h : line ∈ (cutLines cr lf input).1) :
    ¬ [cr, lf] <:+: line := by
  fun_induction cutLines cr lf input generalizing line with
  | case1 a b rest heq lines tail hcut ih =>
    rcases List.mem_cons.mp h with rfl | hmem
    · exact fun hin => absurd hin.length_le (by simp)
    · rw [hcut] at ih
      exact ih hmem
  | case2 a b rest hne front lines tail hcut ih =>
    rw [hcut] at ih
    rcases List.mem_cons.mp h with rfl | hmem
    · rw [List.infix_cons_iff]
      rintro (hstart | hin)
      · -- the line goes on with the `b` that follows `a`
        have hjoin : (cutLines cr lf (b :: rest)).1.flatMap (· ++ [cr, lf]) ++
            (cutLines cr lf (b :: rest)).2 = b :: rest := cutLines_join _
        rw [hcut, List.flatMap_cons] at hjoin
        cases front with
        | nil => exact absurd hstart.length_le (by simp)
        | cons x front =>
          obtain ⟨hcr, hstart'⟩ := List.cons_prefix_cons.mp hstart
          obtain ⟨hlf, -⟩ := List.cons_prefix_cons.mp hstart'
          have hx : x = b := (List.cons.inj hjoin).1
          exact hne ⟨hcr.symm, hx ▸ hlf.symm⟩
      · exact ih List.mem_cons_self hin
    · exact ih (List.mem_cons_of_mem _ hmem)
  | case3 a b rest hne tail hcut ih => cases h
  | case4 a => cases h
  | case5 => cases h

/-- ...and neither has what stands behind the last of them. -/
theorem not_infix_cutLines_tail (input : List α) : ¬ [cr, lf] <:+: (cutLines cr lf input).2 := by
  fun_induction cutLines cr lf input with
  | case1 a b rest heq lines tail hcut ih =>
    rw [hcut] at ih
    exact ih
  | case2 a b rest hne front lines tail hcut ih =>
    rw [hcut] at ih
    exact ih
  | case3 a b rest hne tail hcut ih =>
    have hjoin : (cutLines cr lf (b :: rest)).1.flatMap (· ++ [cr, lf]) ++
        (cutLines cr lf (b :: rest)).2 = b :: rest := cutLines_join _
    rw [hcut] at hjoin ih
    have htail : tail = b :: rest := hjoin
    rw [List.infix_cons_iff, htail]
    rintro (hstart | hin)
    · obtain ⟨hcr, hstart'⟩ := List.cons_prefix_cons.mp hstart
      exact hne ⟨hcr.symm, (List.cons_prefix_cons.mp hstart').1.symm⟩
    · exact ih (htail ▸ hin)
  | case4 a => exact fun hin => absurd hin.length_le (by simp)
  | case5 => exact fun hin => absurd hin.length_le (by simp)

theorem cutLines_of_not_infix {input : List α} (h : ¬ [cr, lf] <:+: input) :
    cutLines cr lf input = ([], input) := by
  have hjoin : (cutLines cr lf input).1.flatMap (· ++ [cr, lf]) ++ (cutLines cr lf input).2 =
    input := cutLines_join input
  cases hcut : cutLines cr lf input with
  | mk lines tail =>
    rw [hcut] at hjoin
    cases lines with
    | nil => rw [← hjoin, List.flatMap_nil, List.nil_append]
    | cons line lines =>
      refine absurd ?_ h
      rw [← hjoin, List.flatMap_cons]
      exact ⟨line, lines.flatMap (· ++ [cr, lf]) ++ tail, by simp⟩

/-- Whole lines in front are cut off one by one. -/
theorem cutLines_lines_append (hne : cr ≠ lf) {lines : List (List α)}
    (h : ∀ line ∈ lines, ¬ [cr, lf] <:+: line) (back : List α) :
    cutLines cr lf (lines.flatMap (· ++ [cr, lf]) ++ back) =
      (lines ++ (cutLines cr lf back).1, (cutLines cr lf back).2) := by
  induction lines with
  | nil => rfl
  | cons line lines ih =>
    have hline : ¬ [cr, lf] <:+: line := h line List.mem_cons_self
    have hlines := ih fun l hl => h l (List.mem_cons_of_mem _ hl)
    rw [List.flatMap_cons, List.append_assoc, List.append_assoc, List.cons_append,
      List.cons_append, List.nil_append, cutLines_append hne hline, hlines]
    rfl

/-- **Any text in front** is cut as it would be on its own, up to its last line. -/
theorem cutLines_append_cut (hne : cr ≠ lf) (front back : List α) :
    cutLines cr lf (front ++ back) =
      ((cutLines cr lf front).1 ++ (cutLines cr lf ((cutLines cr lf front).2 ++ back)).1,
        (cutLines cr lf ((cutLines cr lf front).2 ++ back)).2) := by
  have hjoin : (cutLines cr lf front).1.flatMap (· ++ [cr, lf]) ++ (cutLines cr lf front).2 =
    front := cutLines_join front
  conv_lhs => rw [← hjoin, List.append_assoc]
  exact cutLines_lines_append hne (fun _ => not_infix_of_mem_cutLines) _

/-- The lines of a text that is ended by a line end: the last one is whole too. -/
def endedLines (cr lf : α) (text : List α) : List (List α) :=
  (cutLines cr lf text).1 ++ [(cutLines cr lf text).2]

/-- **Texts written as lines** come apart into the lines of each. -/
theorem cutLines_flatMap (hne : cr ≠ lf) (texts : List (List α)) :
    cutLines cr lf (texts.flatMap (· ++ [cr, lf])) = (texts.flatMap (endedLines cr lf), []) := by
  induction texts with
  | nil => rfl
  | cons text texts ih =>
    have hlast : ¬ [cr, lf] <:+: (cutLines cr lf text).2 := not_infix_cutLines_tail text
    have htail := cutLines_append hne hlast (texts.flatMap (· ++ [cr, lf]))
    rw [List.flatMap_cons, List.append_assoc, cutLines_append_cut hne, List.cons_append,
      List.cons_append, List.nil_append, htail, ih, List.flatMap_cons, endedLines,
      List.append_assoc]
    rfl

/-- A last line without a line end inside goes on from the line it is appended to. -/
theorem endedLines_append_cons (hne : cr ≠ lf) {sep : α} (hcr : sep ≠ cr) (hlf : sep ≠ lf)
    (front : List α) {back : List α} (h : ¬ [cr, lf] <:+: back) :
    endedLines cr lf (front ++ sep :: back) =
      (cutLines cr lf front).1 ++ [(cutLines cr lf front).2 ++ sep :: back] := by
  have hlast : ¬ [cr, lf] <:+: (cutLines cr lf front).2 ++ sep :: back := by
    rw [pair_infix_append_cons hcr hlf]
    rintro (hin | hin)
    · exact not_infix_cutLines_tail front hin
    · exact h hin
  rw [endedLines, cutLines_append_cut hne, cutLines_of_not_infix hlast, List.append_nil]

theorem endedLines_eq_singleton {text : List α} (h : ¬ [cr, lf] <:+: text) :
    endedLines cr lf text = [text] := by
  rw [endedLines, cutLines_of_not_infix h, List.nil_append]

/-- **Lines and their ends correspond one to one** exactly when no line has a line end inside. -/
theorem cutLines_flatMap_iff (hne : cr ≠ lf) {lines : List (List α)} :
    cutLines cr lf (lines.flatMap (· ++ [cr, lf])) = (lines, []) ↔
      ∀ line ∈ lines, ¬ [cr, lf] <:+: line := by
  constructor
  · intro hcut line hmem
    have hmem' : line ∈ (cutLines cr lf (lines.flatMap (· ++ [cr, lf]))).1 := by
      rw [hcut]
      exact hmem
    exact not_infix_of_mem_cutLines hmem'
  · intro h
    have hlines := cutLines_lines_append hne h []
    rw [List.append_nil] at hlines
    rw [hlines, cutLines, List.append_nil]

end Cut

/-! ## 3. One item after another -/

/-- Read one item for each index, each behind the one before. -/
def readAll (read : ι → List α → Option (β × List α)) :
    List ι → List α → Option (List β × List α)
  | [], input => some ([], input)
  | i :: is, input =>
    (read i input).bind fun (item, rest) =>
      (readAll read is rest).map fun (items, rest') => (item :: items, rest')

/-- **Reading undoes writing, item by item.** -/
theorem readAll_flatMap {κ : Type} {read : ι → List α → Option (β × List α)} {index : κ → ι}
    {write : κ → List α} {item : κ → β} {ks : List κ}
    (h : ∀ k ∈ ks, ∀ rest, read (index k) (write k ++ rest) = some (item k, rest))
    (rest : List α) :
    readAll read (ks.map index) (ks.flatMap write ++ rest) = some (ks.map item, rest) := by
  induction ks with
  | nil => rfl
  | cons k ks ih =>
    have hk := h k List.mem_cons_self
    have hks : ∀ k ∈ ks, ∀ rest, read (index k) (write k ++ rest) = some (item k, rest) :=
      fun j hj => h j (List.mem_cons_of_mem _ hj)
    rw [List.map_cons, List.flatMap_cons, List.append_assoc]
    simp only [readAll, hk, Option.bind_some, ih hks, Option.map_some, List.map_cons]

end HelixRack
