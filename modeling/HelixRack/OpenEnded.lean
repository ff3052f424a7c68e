/-
# A line that says where the body ends

`ensure_framing` looks for `Content-Length` and `Transfer-Encoding` among the trimmed names of the
header list, and `serialize_head` writes the names untrimmed.  A name with white space around it
is framing to the one, and nothing to a client that goes by the line.  `framing_line_iff` says for
which header lists the head has a line whose name, as it stands in front of the colon, is one of
the two.  Names are any strings here: one with a line end in it is several lines.
-/
import HelixRack.HeadLines

namespace HelixRack

/-! ## 1. Framing lines -/

/-- `Content-Length` or `Transfer-Encoding`, in some letter case and nothing else. -/
def isFramingName (name : String) : Bool :=
  eqIgnoreAsciiCase name "content-length" || eqIgnoreAsciiCase name "transfer-encoding"

/-- A line whose field name, exactly as it stands in front of the colon, frames the body. -/
def isFramingLine (line : Bytes) : Bool :=
  match (cutAt 58 line).bind fun (name, _) => fromUtf8 name with
  | some name => isFramingName name
  | none => false

/-- A header name that puts such a line on the wire: one of the lines of `name:` is one. -/
def FramesAs (name : String) : Prop :=
  ∃ line ∈ endedLines 13 10 (asBytes name ++ [58]), isFramingLine line = true

instance (name : String) : Decidable (FramesAs name) :=
  inferInstanceAs (Decidable (∃ line ∈ _, _))

/-- What stands behind the first colon does not matter. -/
theorem isFramingLine_append_cons (front back : Bytes) :
    isFramingLine (front ++ 58 :: back) = isFramingLine (front ++ [58]) := by
  have hcut : ∀ back : Bytes, (cutAt 58 (front ++ 58 :: back)).map Prod.fst =
      some (front.takeWhile (· != 58)) := by
    intro back
    induction front with
    | nil => rfl
    | cons b front ih =>
      by_cases hb : b = 58
      · subst hb
        rfl
      · have hne : (b != 58) = true := by simpa using hb
        rw [List.cons_append, cutAt, if_neg hb, List.takeWhile_cons, if_pos hne, Option.map_map]
        rw [← Option.map_some, ← ih, Option.map_map]
        rfl
  have hname : ∀ back : Bytes, ((cutAt 58 (front ++ 58 :: back)).bind fun (name, _) =>
      fromUtf8 name) = fromUtf8 (front.takeWhile (· != 58)) := by
    intro back
    obtain ⟨⟨name, rest⟩, hsplit, hfst⟩ := Option.map_eq_some_iff.mp (hcut back)
    rw [hsplit, Option.bind_some, ← hfst]
  rw [isFramingLine, isFramingLine, hname, hname]

/-- A header puts a framing line on the wire just when its name does. -/
theorem framesAs_iff (header : String × String) (hvalue : NoLineEnd header.2) :
    FramesAs header.1 ↔
      ∃ line ∈ endedLines 13 10 (fieldText header), isFramingLine line = true := by
  have hcolon : asBytes ": " = [58, 32] := by decide
  have htext : fieldText header = asBytes header.1 ++ 58 :: (32 :: asBytes header.2) := by
    simp only [fieldText, hcolon, List.append_assoc, List.cons_append, List.nil_append]
  have hback : ¬ [13, 10] <:+: 32 :: asBytes header.2 := by
    intro hin
    have hspace : [13, 10] <:+: ([] : Bytes) ++ 32 :: asBytes header.2 := hin
    rw [pair_infix_append_cons (by decide) (by decide)] at hspace
    rcases hspace with h | h
    · exact absurd h.length_le (by decide)
    · exact hvalue h
  have hnil : ¬ [13, 10] <:+: ([] : Bytes) := by decide
  rw [FramesAs, htext, endedLines_append_cons (by decide) (by decide) (by decide) _ hnil,
    endedLines_append_cons (by decide) (by decide) (by decide) _ hback]
  simp only [List.mem_append, List.mem_singleton, or_and_right, exists_or, exists_eq_left]
  rw [isFramingLine_append_cons _ (32 :: asBytes header.2)]

/-! ## 2. The framing lines of a head -/

theorem isFramingLine_statusText (status : UInt16) : isFramingLine (statusText status) = false := by
  rw [isFramingLine, cutAt_statusText]
  rfl

/-- The framing lines of a head are those of its header list. -/
theorem framingLine_serializeHead_iff (response : HandlerResponse)
    (hvalues : ∀ header ∈ response.headers, NoLineEnd header.2) :
    (∃ line ∈ (cutLines 13 10 (serializeHead response)).1, isFramingLine line = true) ↔
      ∃ header ∈ response.headers, FramesAs header.1 := by
  have hempty : ¬ [13, 10] <:+: ([] : Bytes) := by decide
  rw [serializeHead_eq_lines, cutLines_flatMap (by decide)]
  simp only [List.mem_flatMap]
  constructor
  · rintro ⟨line, ⟨text, htext, hmem⟩, hline⟩
    rcases List.mem_append.mp htext with htext | htext
    · rcases List.mem_cons.mp htext with rfl | htext
      · rw [endedLines_eq_singleton (noLineEnd_statusText _), List.mem_singleton] at hmem
        rw [hmem, isFramingLine_statusText] at hline
        cases hline
      · obtain ⟨header, hheader, rfl⟩ := List.mem_map.mp htext
        exact ⟨header, hheader, (framesAs_iff header (hvalues header hheader)).mpr
          ⟨line, hmem, hline⟩⟩
    · rw [List.mem_singleton.mp htext, endedLines_eq_singleton hempty, List.mem_singleton] at hmem
      rw [hmem] at hline
      cases hline
  · rintro ⟨header, hheader, hframes⟩
    obtain ⟨line, hmem, hline⟩ := (framesAs_iff header (hvalues header hheader)).mp hframes
    refine ⟨line, ⟨fieldText header, ?_, hmem⟩, hline⟩
    exact List.mem_append_left _ (List.mem_cons_of_mem _ (List.mem_map_of_mem hheader))

/-- The header list on the wire frames the body just when an entry that the `Connection` filter
kept does, or the engine was left to add `Content-Length`. -/
theorem framesAs_finalHeaders (last : Bool) (response : HandlerResponse) :
    (∃ header ∈ finalHeaders last response, FramesAs header.1) ↔
      (∃ header ∈ stripConnection response.headers, FramesAs header.1) ∨
        hasFraming (stripConnection response.headers) = false := by
  have hclose : ¬ FramesAs "Connection" := by decide
  have hlength : FramesAs "Content-Length" := by decide
  have hframed : (∃ header ∈ finalHeaders last response, FramesAs header.1) ↔
      ∃ header ∈ framedHeaders response, FramesAs header.1 := by
    cases last with
    | true =>
      simp only [finalHeaders, if_true, List.mem_append, List.mem_singleton, or_and_right,
        exists_or, exists_eq_left, hclose, or_false]
    | false => simp only [finalHeaders, Bool.false_eq_true, if_false]
  rw [hframed]
  cases h : hasFraming (stripConnection response.headers) with
  | true => simp only [framedHeaders_of_hasFraming h, Bool.true_eq_false, or_false]
  | false =>
    simp only [framedHeaders_of_not (ne_true_of_eq_false h), List.mem_append, List.mem_singleton,
      or_and_right, exists_or, exists_eq_left, hlength, or_true]

/-- **Which heads say where the body ends.**  The head that is sent for a response, whatever the
names of its headers are, has a line whose name is exactly `Content-Length` or
`Transfer-Encoding`, if and only if an entry that the `Connection` filter kept brings one, or none
of the kept names is one of the two after trimming. -/
theorem framing_line_iff {σ : Type} (srv : Server σ) (k bodyEnd : Nat) (toHead : Bool)
    {response r : HandlerResponse} (h : EnsuresFraming response r)
    (hvalues : ∀ header ∈ response.headers, NoLineEnd header.2) :
    (∃ line ∈ (cutLines 13 10
        (srv.replyHead k { bodyEnd, isHead := toHead, response := r })).1,
      isFramingLine line = true) ↔
      (∃ header ∈ stripConnection response.headers, FramesAs header.1) ∨
        hasFraming (stripConnection response.headers) = false := by
  rw [h.eq, Server.replyHead_framed, framingLine_serializeHead_iff, framesAs_finalHeaders]
  have hkept : ∀ header ∈ stripConnection response.headers, NoLineEnd header.2 :=
    fun header hmem => hvalues header (List.mem_of_mem_filter hmem)
  have hadded : ∀ n : Nat, NoLineEnd (toString n) := noLineEnd_toString
  have hclose : NoLineEnd "close" := by decide
  exact (forall_finalHeaders (P := fun header => NoLineEnd header.2) hadded hclose).mpr hkept

theorem framing_line_cookie :
    ∃ line ∈ (cutLines 13 10 ((Single.server 1 Single.cookie).replyHead 0
        { bodyEnd := 18, isHead := false, response := { Single.cookie with
          headers := [("Set-Cookie", "a=b"), ("Content-Length", "0")] } })).1,
      isFramingLine line = true := by
  have hframed : EnsuresFraming Single.cookie { Single.cookie with
      headers := [("Set-Cookie", "a=b"), ("Content-Length", "0")] } := .framed (by decide)
  exact (framing_line_iff (Single.server 1 Single.cookie) 0 18 false hframed (by decide)).mpr
    (Or.inr (by decide))

/-- A `Content-Length` with a space in front. -/
def Single.padded : HandlerResponse :=
  { status := 200, headers := [(" Content-Length", "2")], body := .inMemory (asBytes "ok") }

/-- **Not every head**: a padded name is framing to `ensure_framing` and to nobody else. -/
theorem padded_name_open_ended :
    ¬ ∀ (σ : Type) (srv : Server σ) (k bodyEnd : Nat) (toHead : Bool)
      (response r : HandlerResponse), EnsuresFraming response r →
      (∀ header ∈ response.headers, NoLineEnd header.1 ∧ NoLineEnd header.2) →
      ∃ line ∈ (cutLines 13 10
        (srv.replyHead k { bodyEnd, isHead := toHead, response := r })).1,
        isFramingLine line = true := by
  intro hall
  have hframed : EnsuresFraming Single.padded
      { Single.padded with headers := framedHeaders Single.padded } := .framed (by decide)
  have hline := hall Unit (Single.server 2 Single.padded) 0 0 false Single.padded _ hframed
    (by decide)
  rw [Server.replyHead_framed, framingLine_serializeHead_iff _ (by decide)] at hline
  obtain ⟨header, hmem, hframes⟩ := hline
  exact absurd hframes ((by decide : ∀ header ∈ finalHeaders false Single.padded,
    ¬ FramesAs header.1) header hmem)

end HelixRack
