/-
# The lines of the response head

`serialize_head` writes the handler's names and values as they are.  Whether the lines on the
wire are the status line, one line for each entry of the header list and the empty line, is then a
question about these strings: `head_lines_iff` says that it is so exactly when none of them has a
line end inside.  Even then a name with a colon in it can be another name for the client, and what
that does to the `Connection` lines is said with it.
-/
import HelixRack.KeepAlive

namespace HelixRack

/-! ## 1. The lines that should be there -/

/-- The status line, without its end. -/
def statusText (status : UInt16) : Bytes :=
  asBytes ("HTTP/1.1 " ++ toString status.toNat ++ " " ++ reasonPhrase status)

/-- The line of a header, without its end. -/
def fieldText (header : String × String) : Bytes :=
  asBytes header.1 ++ asBytes ": " ++ asBytes header.2

/-- A status line, one line for each entry, and the empty line. -/
def headLines (response : HandlerResponse) : List Bytes :=
  statusText response.status :: response.headers.map fieldText ++ [[]]

theorem serializeHead_eq_lines (response : HandlerResponse) :
    serializeHead response = (headLines response).flatMap (· ++ [13, 10]) := by
  have hstatus : statusLine response.status = statusText response.status ++ [13, 10] := by
    rw [statusLine, statusText, asBytes_append, asBytes_crlf]
  have hheader : ∀ header : String × String, headerLine header = fieldText header ++ [13, 10] := by
    intro header
    rw [headerLine, fieldText, asBytes_crlf]
  simp only [serializeHead, headLines, List.flatMap_append, List.flatMap_cons, List.flatMap_nil,
    List.flatMap_map, hstatus, asBytes_crlf, List.nil_append, List.append_nil]
  refine congrArg (· ++ [13, 10]) (congrArg _ ?_)
  exact List.flatMap_congr fun header _ => hheader header

/-! ## 2. Line ends inside -/

/-- No line end in a string's bytes. -/
def NoLineEnd (s : String) : Prop := ¬ [13, 10] <:+: asBytes s

instance (s : String) : Decidable (NoLineEnd s) := inferInstanceAs (Decidable (¬ _))

theorem not_infix_of_not_mem {bytes : Bytes} (h : 13 ∉ bytes) : ¬ [13, 10] <:+: bytes :=
  fun hin => h (hin.subset List.mem_cons_self)

theorem noLineEnd_toString (n : Nat) : NoLineEnd (toString n) := by
  refine not_infix_of_not_mem (not_mem_asBytes (c := '\r') (fun hmem => ?_) (by decide))
  cases isDigit_of_mem_toString hmem

/-- An ASCII character that is not in the version, the number or the reason phrase. -/
theorem not_mem_statusText {status : UInt16} {c : Char} (hversion : c ∉ "HTTP/1.1 ".toList)
    (hdigit : c.isDigit = false) (hspace : c ≠ ' ') (hreason : c ∉ (reasonPhrase status).toList)
    (hlt : c.toNat < 128) : UInt8.ofNat c.toNat ∉ statusText status := by
  refine not_mem_asBytes (fun hmem => ?_) hlt
  simp only [String.toList_append, List.mem_append] at hmem
  rcases hmem with ((hmem | hmem) | hmem) | hmem
  · exact hversion hmem
  · rw [isDigit_of_mem_toString hmem] at hdigit
    cases hdigit
  · exact hspace (List.mem_singleton.mp hmem)
  · exact hreason hmem

theorem noLineEnd_statusText (status : UInt16) : ¬ [13, 10] <:+: statusText status :=
  not_infix_of_not_mem (not_mem_statusText (c := '\r') (by decide) (by decide) (by decide)
    (not_mem_reasonPhrase _) (by decide))

theorem fieldText_iff (header : String × String) :
    ¬ [13, 10] <:+: fieldText header ↔ NoLineEnd header.1 ∧ NoLineEnd header.2 := by
  have hcolon : fieldText header = asBytes header.1 ++ 58 :: ([] ++ 32 :: asBytes header.2) := by
    have h : asBytes ": " = [58, 32] := by decide
    simp only [fieldText, h, List.append_assoc, List.cons_append, List.nil_append]
  have hnil : ¬ [13, 10] <:+: ([] : Bytes) := by decide
  rw [hcolon, pair_infix_append_cons (by decide) (by decide),
    pair_infix_append_cons (by decide) (by decide), not_or, not_or]
  exact ⟨fun h => ⟨h.1, h.2.2⟩, fun h => ⟨h.1, hnil, h.2⟩⟩

/-- **Entries and lines correspond one to one** exactly when no entry has a line end inside. -/
theorem cutLines_serializeHead_iff (response : HandlerResponse) :
    cutLines 13 10 (serializeHead response) = (headLines response, []) ↔
      ∀ header ∈ response.headers, NoLineEnd header.1 ∧ NoLineEnd header.2 := by
  have hempty : ¬ [13, 10] <:+: ([] : Bytes) := by decide
  rw [serializeHead_eq_lines, cutLines_flatMap_iff (by decide)]
  constructor
  · intro h header hmem
    refine (fieldText_iff header).mp (h _ ?_)
    exact List.mem_append_left _ (List.mem_cons_of_mem _ (List.mem_map_of_mem hmem))
  · intro h line hline
    rcases List.mem_append.mp hline with hline | hline
    · rcases List.mem_cons.mp hline with rfl | hline
      · exact noLineEnd_statusText _
      · obtain ⟨header, hmem, rfl⟩ := List.mem_map.mp hline
        exact (fieldText_iff header).mpr (h header hmem)
    · rw [List.mem_singleton.mp hline]
      exact hempty

/-- What the engine adds to the header list has no line end in it. -/
theorem forall_finalHeaders {P : String × String → Prop} {last : Bool} {response : HandlerResponse}
    (hlength : ∀ n : Nat, P ("Content-Length", toString n)) (hclose : P ("Connection", "close")) :
    (∀ header ∈ finalHeaders last response, P header) ↔
      ∀ header ∈ stripConnection response.headers, P header := by
  have hframed : (∀ header ∈ framedHeaders response, P header) ↔
      ∀ header ∈ stripConnection response.headers, P header := by
    by_cases h : hasFraming (stripConnection response.headers) = true
    · rw [framedHeaders_of_hasFraming h]
    · simp only [framedHeaders_of_not h, List.forall_mem_append, List.forall_mem_singleton, hlength,
        and_true]
  rw [← hframed]
  cases last with
  | true =>
    simp only [finalHeaders, if_true, List.forall_mem_append, List.forall_mem_singleton, hclose,
      and_true]
  | false => simp only [finalHeaders, Bool.false_eq_true, if_false]

/-! ## 3. `Connection` lines -/

/-- The name a client finds in front of the first colon. -/
def fieldName (name : String) : String := String.ofList (name.toList.takeWhile (· != ':'))

/-- A line that names `Connection`. -/
def isConnectionLine (line : Bytes) : Bool :=
  match (cutAt 58 line).bind fun (name, _) => fromUtf8 name with
  | some name => eqIgnoreAsciiCase (trim name) "connection"
  | none => false

theorem cutAt_eq_none {sep : UInt8} {bytes : Bytes} (h : sep ∉ bytes) : cutAt sep bytes = none := by
  induction bytes with
  | nil => rfl
  | cons b bytes ih =>
    have hne : b ≠ sep := fun heq => h (heq ▸ List.mem_cons_self)
    rw [cutAt, if_neg hne, ih fun hmem => h (List.mem_cons_of_mem _ hmem)]
    rfl

/-- The status line names no field. -/
theorem cutAt_statusText (status : UInt16) : cutAt 58 (statusText status) = none := by
  have hreason : ':' ∉ (reasonPhrase status).toList := by
    unfold reasonPhrase
    split <;> decide
  have hcolon : 58 ∉ statusText status :=
    not_mem_statusText (c := ':') (by decide) (by decide) (by decide) hreason (by decide)
  exact cutAt_eq_none hcolon

theorem isConnectionLine_statusText (status : UInt16) :
    isConnectionLine (statusText status) = false := by
  rw [isConnectionLine, cutAt_statusText]
  rfl

theorem cutAt_fieldText (header : String × String) :
    ∃ rest, cutAt 58 (fieldText header) = some (asBytes (fieldName header.1), rest) := by
  have hfront : 58 ∉ asBytes (fieldName header.1) := by
    refine not_mem_asBytes (c := ':') (fun hmem => ?_) (by decide)
    rw [fieldName, String.toList_ofList] at hmem
    have h := List.mem_takeWhile_imp hmem
    cases h
  have hsplit : asBytes header.1 = asBytes (fieldName header.1) ++
      (header.1.toList.dropWhile (· != ':')).flatMap String.utf8EncodeChar := by
    rw [fieldName, asBytes_ofList, ← List.flatMap_append, List.takeWhile_append_dropWhile, asBytes]
  have hcolon : asBytes ": " = [58, 32] := by decide
  cases hback : header.1.toList.dropWhile (· != ':') with
  | nil =>
    rw [hback, List.flatMap_nil, List.append_nil] at hsplit
    refine ⟨32 :: asBytes header.2, ?_⟩
    rw [fieldText, hsplit, hcolon, List.append_assoc]
    exact cutAt_append hfront _
  | cons c cs =>
    have hne : header.1.toList.dropWhile (· != ':') ≠ [] := by
      rw [hback]
      exact List.cons_ne_nil c cs
    have hc : c = ':' := by
      have h := List.head_dropWhile_not (· != ':') hne
      simpa [hback] using h
    have hencode : String.utf8EncodeChar ':' = [58] := by decide
    rw [hback, hc, List.flatMap_cons, hencode] at hsplit
    refine ⟨cs.flatMap String.utf8EncodeChar ++ asBytes ": " ++ asBytes header.2, ?_⟩
    rw [fieldText, hsplit]
    simp only [List.append_assoc, List.cons_append, List.nil_append]
    exact cutAt_append hfront _

theorem isConnectionLine_fieldText (header : String × String) :
    isConnectionLine (fieldText header) =
      eqIgnoreAsciiCase (trim (fieldName header.1)) "connection" := by
  obtain ⟨rest, hcut⟩ := cutAt_fieldText header
  simp only [isConnectionLine, hcut, Option.bind_some, fromUtf8_asBytes]

/-- The `Connection` lines are the engine's exactly when no entry the filter kept turns into one. -/
theorem connectionLines_iff (last : Bool) (response : HandlerResponse) :
    (headLines { response with headers := finalHeaders last response }).filter isConnectionLine =
        (if last then [fieldText ("Connection", "close")] else []) ↔
      ∀ header ∈ stripConnection response.headers,
        eqIgnoreAsciiCase (trim (fieldName header.1)) "connection" = false := by
  have hempty : isConnectionLine [] = false := rfl
  have hlength : ∀ n : Nat,
      isConnectionLine (fieldText ("Content-Length", toString n)) = false := by
    intro n
    have hname : eqIgnoreAsciiCase (trim (fieldName "Content-Length")) "connection" = false := by
      decide
    rw [isConnectionLine_fieldText, hname]
  have hclose : isConnectionLine (fieldText ("Connection", "close")) = true := by
    rw [isConnectionLine_fieldText]
    decide
  have hframed : ((framedHeaders response).map fieldText).filter isConnectionLine =
      ((stripConnection response.headers).map fieldText).filter isConnectionLine := by
    by_cases h : hasFraming (stripConnection response.headers) = true
    · rw [framedHeaders_of_hasFraming h]
    · simp only [framedHeaders_of_not h, List.map_append, List.map_cons, List.map_nil,
        List.filter_append, List.filter_cons, hlength, Bool.false_eq_true, if_false,
        List.filter_nil, List.append_nil]
  have hfinal : (headLines { response with headers := finalHeaders last response }).filter
      isConnectionLine = ((stripConnection response.headers).map fieldText).filter
        isConnectionLine ++ (if last then [fieldText ("Connection", "close")] else []) := by
    cases last with
    | true =>
      simp only [headLines, finalHeaders, if_true, List.filter_append, List.filter_cons,
        isConnectionLine_statusText, Bool.false_eq_true, if_false, List.map_append, List.map_cons,
        List.map_nil, hframed, hclose, hempty, List.filter_nil, List.append_nil]
    | false =>
      simp only [headLines, finalHeaders, Bool.false_eq_true, if_false, List.filter_append,
        List.filter_cons, isConnectionLine_statusText, hframed, hempty, List.filter_nil,
        List.append_nil]
  rw [hfinal, List.append_left_eq_self, List.filter_eq_nil_iff]
  constructor
  · intro h header hmem
    have hline := h _ (List.mem_map_of_mem hmem)
    rw [isConnectionLine_fieldText] at hline
    exact Bool.eq_false_iff.mpr hline
  · intro h line hline
    obtain ⟨header, hmem, rfl⟩ := List.mem_map.mp hline
    rw [isConnectionLine_fieldText, h header hmem]
    exact Bool.false_ne_true

/-! ## 4. The head the engine sends -/

/-- `ensure_framing` is through with a response that is behind the `Connection` filter. -/
inductive EnsuresFraming (response : HandlerResponse) : HandlerResponse → Prop
  | framed {r : HandlerResponse}
      (h : ensureFraming { response with headers := stripConnection response.headers } =
        .framed r) :
      EnsuresFraming response r
  | measured {file : File}
      (h : ensureFraming { response with headers := stripConnection response.headers } =
        .awaitMetadata file) :
      EnsuresFraming response (HandlerResponse.pushContentLength
        { response with headers := stripConnection response.headers } file.contents.length)

theorem EnsuresFraming.eq {response r : HandlerResponse} (h : EnsuresFraming response r) :
    r = { response with headers := framedHeaders response } := by
  cases h with
  | framed h => exact Server.ensureFraming_framed h
  | measured h => exact (Server.ensureFraming_metadata h).2

/-- The bytes of a head are the lines of the final header list, and only the engine says
`Connection` in them. -/
structure EngineDecides (last : Bool) (response : HandlerResponse) (bytes : Bytes) : Prop where
  lines : cutLines 13 10 bytes =
    (headLines { response with headers := finalHeaders last response }, [])
  connection : (cutLines 13 10 bytes).1.filter isConnectionLine =
    if last then [fieldText ("Connection", "close")] else []

/-- **Who decides the lines of the head.**  Cut at line ends, the head that is sent for a response
is a status line, one line for each entry of the final header list, in order, and the empty line,
if and only if no entry the `Connection` filter kept has a line end in its name or its value.  The
engine then also has the only `Connection` line if no name among these turns into `Connection` at
a colon inside. -/
theorem head_lines_iff {σ : Type} (srv : Server σ) (k bodyEnd : Nat) (toHead : Bool)
    {response r : HandlerResponse} (h : EnsuresFraming response r) :
    (cutLines 13 10 (srv.replyHead k { bodyEnd, isHead := toHead, response := r }) =
        (headLines { response with
          headers := finalHeaders (decide (k + 1 ≥ srv.maxKeepalive)) response }, []) ↔
      ∀ header ∈ stripConnection response.headers, NoLineEnd header.1 ∧ NoLineEnd header.2) ∧
    (EngineDecides (decide (k + 1 ≥ srv.maxKeepalive)) response
        (srv.replyHead k { bodyEnd, isHead := toHead, response := r }) ↔
      ∀ header ∈ stripConnection response.headers, (NoLineEnd header.1 ∧ NoLineEnd header.2) ∧
        eqIgnoreAsciiCase (trim (fieldName header.1)) "connection" = false) := by
  rw [h.eq, Server.replyHead_framed]
  have hlines := cutLines_serializeHead_iff { response with
    headers := finalHeaders (decide (k + 1 ≥ srv.maxKeepalive)) response }
  have hadded : ∀ n : Nat, NoLineEnd "Content-Length" ∧ NoLineEnd (toString n) :=
    fun n => ⟨by decide, noLineEnd_toString n⟩
  have hclose : NoLineEnd "Connection" ∧ NoLineEnd "close" := ⟨by decide, by decide⟩
  rw [forall_finalHeaders hadded hclose] at hlines
  refine ⟨hlines, ?_⟩
  constructor
  · rintro ⟨hcut, hconnection⟩ header hmem
    rw [hcut] at hconnection
    exact ⟨hlines.mp hcut header hmem, (connectionLines_iff _ _).mp hconnection header hmem⟩
  · intro hall
    have hcut := hlines.mpr fun header hmem => (hall header hmem).1
    refine ⟨hcut, ?_⟩
    rw [hcut]
    exact (connectionLines_iff _ _).mpr fun header hmem => (hall header hmem).2

/-- Two headers, one of which the filter drops. -/
def Single.cookie : HandlerResponse :=
  { status := 200, headers := [("Set-Cookie", "a=b"), (" connection", "keep-alive")],
    body := .inMemory [] }

theorem head_lines_cookie :
    EngineDecides true Single.cookie ((Single.server 1 Single.cookie).replyHead 0
      { bodyEnd := 18, isHead := false, response := { Single.cookie with
        headers := [("Set-Cookie", "a=b"), ("Content-Length", "0")] } }) := by
  have hframed : EnsuresFraming Single.cookie { Single.cookie with
      headers := [("Set-Cookie", "a=b"), ("Content-Length", "0")] } := .framed (by decide)
  exact (head_lines_iff (Single.server 1 Single.cookie) 0 18 false hframed).2.mpr (by decide)

/-- A value with a line end in it. -/
def Single.splitting : HandlerResponse :=
  { status := 200, headers := [("Content-Length", "0"), ("X", "1\r\nConnection: keep-alive")],
    body := .inMemory [] }

/-- **Not the engine alone**: the handler's value brings a `Connection` line of its own. -/
theorem head_line_injected :
    ¬ ∀ (σ : Type) (srv : Server σ) (k bodyEnd : Nat) (toHead : Bool)
      (response r : HandlerResponse),
      EnsuresFraming response r →
      cutLines 13 10 (srv.replyHead k { bodyEnd, isHead := toHead, response := r }) =
        (headLines { response with
          headers := finalHeaders (decide (k + 1 ≥ srv.maxKeepalive)) response }, []) := by
  intro hall
  have hframed : EnsuresFraming Single.splitting
      { Single.splitting with headers := framedHeaders Single.splitting } := .framed (by decide)
  have hcut := hall Unit (Single.server 2 Single.splitting) 0 0 false Single.splitting _ hframed
  rw [Server.replyHead_framed] at hcut
  have hclean := (cutLines_serializeHead_iff _).mp hcut ("X", "1\r\nConnection: keep-alive")
    (by decide)
  exact absurd hclean.2 (by decide)

end HelixRack
