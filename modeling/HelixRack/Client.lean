/-
# An HTTP/1.1 client

What the other end of the connection makes of the bytes it gets: a status line, header lines
up to the empty one, then the body that `Content-Length` announces, and none behind the answer
to a `HEAD`.  This is the specification side, written from the protocol and not from the
engine; `readResponse_serializeHead` says that it reads back what `serialize_head` and a body
of the announced length put on the wire.
-/
import HelixRack.Lines
import HelixRack.Response

namespace HelixRack

/-! ## 1. The reader -/

/-- A response as the client has read it. -/
structure ClientResponse where
  status : Nat
  headers : List (String × String)
  body : Bytes
  deriving DecidableEq, Repr

/-- A number in decimal digits. -/
def decimal (s : String) : Option Nat :=
  if s.toList ≠ [] ∧ s.toList.all Char.isDigit then some (Nat.ofDigitChars 10 s.toList 0)
  else none

/-- Optional whitespace around a field value. -/
def isOws (b : UInt8) : Bool := b == 32 || b == 9

def trimOws (bytes : Bytes) : Bytes := (bytes.dropWhile isOws).rdropWhile isOws

/-- `HTTP/1.1 SP 3DIGIT SP reason`. -/
def readStatusLine (line : Bytes) : Option Nat :=
  (cutAt 32 line).bind fun (version, rest) =>
    (cutAt 32 rest).bind fun (code, _) =>
      if version = asBytes "HTTP/1.1" ∧ code.length = 3 then (fromUtf8 code).bind decimal
      else none

/-- `name ":" OWS value OWS`. -/
def readField (line : Bytes) : Option (String × String) :=
  (cutAt 58 line).bind fun (name, value) =>
    if name = [] then none
    else (fromUtf8 name).bind fun name =>
      (fromUtf8 (trimOws value)).map fun value => (name, value)

/-- Header lines up to the empty one. -/
def readFields : Nat → Bytes → Option (List (String × String) × Bytes)
  | 0, _ => none
  | fuel + 1, bytes =>
    (splitLine 13 10 bytes).bind fun (line, rest) =>
      if line = [] then some ([], rest)
      else (readField line).bind fun field =>
        (readFields fuel rest).map fun (fields, rest') => (field :: fields, rest')

/-- The length `Content-Length` announces. -/
def announcedLength (headers : List (String × String)) : Option Nat :=
  (headers.find? fun (name, _) => eqIgnoreAsciiCase name "content-length").bind
    fun (_, value) => decimal value

/-- No body follows, whatever the header says. -/
def bodiless (toHead : Bool) (status : Nat) : Bool :=
  toHead || decide (status < 200) || status == 204 || status == 304

/-- Read one response; the client knows whether it answers a `HEAD`. -/
def readResponse (toHead : Bool) (bytes : Bytes) : Option (ClientResponse × Bytes) :=
  (splitLine 13 10 bytes).bind fun (line, afterLine) =>
    (readStatusLine line).bind fun status =>
      (readFields (afterLine.length + 1) afterLine).bind fun (headers, afterHead) =>
        if bodiless toHead status then some (⟨status, headers, []⟩, afterHead)
        else (announcedLength headers).bind fun n =>
          if n ≤ afterHead.length then
            some (⟨status, headers, afterHead.take n⟩, afterHead.drop n)
          else none

/-! ## 2. Strings that survive -/

/-- The characters of a token. -/
def isTchar (c : Char) : Bool := c.isAlphanum || "!#$%&'*+-.^_`|~".toList.contains c

def IsToken (s : String) : Prop := s.toList ≠ [] ∧ ∀ c ∈ s.toList, isTchar c = true

/-- No line end inside, and no optional whitespace around. -/
structure IsFieldValue (s : String) : Prop where
  no_cr : '\r' ∉ s.toList
  no_lf : '\n' ∉ s.toList
  head : ∀ c, s.toList.head? = some c → c ≠ ' ' ∧ c ≠ '\t'
  last : ∀ c, s.toList.getLast? = some c → c ≠ ' ' ∧ c ≠ '\t'

theorem isTchar_range {c : Char} (h : isTchar c = true) : 33 ≤ c.toNat ∧ c.toNat ≤ 126 := by
  have hv : c.val.toNat = c.toNat := rfl
  rw [isTchar, Bool.or_eq_true] at h
  rcases h with halnum | hmark
  · delta Char.isAlphanum Char.isAlpha Char.isUpper Char.isLower Char.isDigit at halnum
    simp only [Bool.or_eq_true, decide_eq_true_eq, Bool.and_eq_true, ge_iff_le,
      UInt32.le_iff_toNat_le, hv] at halnum
    rcases halnum with (⟨h1, h2⟩ | ⟨h1, h2⟩) | ⟨h1, h2⟩ <;>
      · simp at h1 h2
        omega
  · have hall : "!#$%&'*+-.^_`|~".toList.all
        (fun d => decide (33 ≤ d.toNat ∧ d.toNat ≤ 126)) = true := by decide
    exact of_decide_eq_true (List.all_eq_true.mp hall c (List.contains_iff_mem.mp hmark))

theorem IsToken.not_mem {s : String} (h : IsToken s) {c : Char} (hc : isTchar c = false) :
    c ∉ s.toList := by
  intro hmem
  rw [h.2 c hmem] at hc
  cases hc

theorem IsToken.asBytes_ne_nil {s : String} (h : IsToken s) : asBytes s ≠ [] := by
  obtain ⟨c, cs, hcs⟩ := List.exists_cons_of_ne_nil h.1
  simp [asBytes, hcs, String.utf8EncodeChar_ne_nil]

/-- A token has no whitespace to trim. -/
theorem IsToken.trim_eq {s : String} (h : IsToken s) : trim s = s := by
  have hno : ∀ c ∈ s.toList, isWhitespace c = false := by
    intro c hc
    obtain ⟨h1, h2⟩ := isTchar_range (h.2 c hc)
    simp only [isWhitespace, Bool.or_eq_false_iff, Bool.and_eq_false_iff,
      decide_eq_false_iff_not, beq_eq_false_iff_ne, ne_eq]
    omega
  have hfront : s.toList.dropWhile isWhitespace = s.toList := by
    refine List.dropWhile_eq_self_iff.mpr fun hpos => ?_
    rw [hno _ (List.getElem_mem hpos)]
    exact Bool.false_ne_true
  have hback : s.toList.rdropWhile isWhitespace = s.toList := by
    refine List.rdropWhile_eq_self_iff.mpr fun hne => ?_
    rw [hno _ (List.getLast_mem hne)]
    exact Bool.false_ne_true
  rw [trim, hfront, hback, String.ofList_toList]

/-- Optional whitespace in an encoding is a space or a tab in the string. -/
theorem ows_of_mem {c : Char} {b : UInt8} (hb : b ∈ String.utf8EncodeChar c)
    (h : isOws b = true) : c = ' ' ∨ c = '\t' := by
  rw [isOws, Bool.or_eq_true, beq_iff_eq, beq_iff_eq] at h
  rcases h with rfl | rfl
  · exact Or.inl (Char.toNat_inj.mp (mem_utf8EncodeChar_of_lt hb (by decide)))
  · exact Or.inr (Char.toNat_inj.mp (mem_utf8EncodeChar_of_lt hb (by decide)))

/-- The space `serialize_head` puts behind the colon is all there is to trim. -/
theorem IsFieldValue.trimOws_eq {s : String} (h : IsFieldValue s) :
    trimOws (32 :: asBytes s) = asBytes s := by
  have hspace : (32 :: asBytes s).dropWhile isOws = (asBytes s).dropWhile isOws :=
    List.dropWhile_cons_of_pos (by decide)
  have hfront : (asBytes s).dropWhile isOws = asBytes s := by
    cases hcs : s.toList with
    | nil => simp [asBytes, hcs]
    | cons c cs =>
      obtain ⟨b, bs, hb⟩ :=
        List.exists_cons_of_ne_nil (String.utf8EncodeChar_ne_nil (c := c))
      have hbytes : asBytes s = b :: (bs ++ cs.flatMap String.utf8EncodeChar) := by
        simp [asBytes, hcs, hb]
      rw [hbytes, List.dropWhile_cons_of_neg]
      intro hows
      obtain ⟨h1, h2⟩ := h.head c (by rw [hcs]; rfl)
      have hmem : b ∈ String.utf8EncodeChar c := by
        rw [hb]
        exact List.mem_cons_self
      rcases ows_of_mem hmem hows with heq | heq
      · exact h1 heq
      · exact h2 heq
  have hback : (asBytes s).rdropWhile isOws = asBytes s := by
    rcases List.eq_nil_or_concat s.toList with hnil | ⟨cs, c, hcs⟩
    · simp [asBytes, hnil, List.rdropWhile_nil]
    · obtain ⟨bs, b, hb⟩ : ∃ bs b, String.utf8EncodeChar c = bs ++ [b] := by
        rcases List.eq_nil_or_concat (String.utf8EncodeChar c) with hnil | ⟨bs, b, hb⟩
        · exact absurd hnil String.utf8EncodeChar_ne_nil
        · exact ⟨bs, b, by rw [hb, List.concat_eq_append]⟩
      have hbytes : asBytes s = (cs.flatMap String.utf8EncodeChar ++ bs) ++ [b] := by
        simp [asBytes, hcs, hb]
      rw [hbytes, List.rdropWhile_concat_neg]
      intro hows
      obtain ⟨h1, h2⟩ := h.last c (by rw [hcs]; simp)
      have hmem : b ∈ String.utf8EncodeChar c := by
        rw [hb]
        exact List.mem_append_right _ List.mem_cons_self
      rcases ows_of_mem hmem hows with heq | heq
      · exact h1 heq
      · exact h2 heq
  rw [trimOws, hspace, hfront, hback]

/-! ## 3. Numbers -/

theorem toString_toList (n : Nat) : (toString n).toList = Nat.toDigits 10 n := Nat.toList_repr

theorem isDigit_of_mem_toString {n : Nat} {c : Char} (h : c ∈ (toString n).toList) :
    c.isDigit = true := by
  rw [toString_toList] at h
  exact Nat.isDigit_of_mem_toDigits (by decide) (by decide) h

theorem decimal_toString (n : Nat) : decimal (toString n) = some n := by
  have hall : (toString n).toList.all Char.isDigit = true :=
    List.all_eq_true.mpr fun c hc => isDigit_of_mem_toString hc
  have hne : (toString n).toList ≠ [] := by
    rw [toString_toList]
    exact Nat.toDigits_ne_nil
  rw [decimal, if_pos ⟨hne, hall⟩, toString_toList, Nat.ofDigitChars_ten_toDigits]

/-- A printed number is a field value. -/
theorem isFieldValue_toString (n : Nat) : IsFieldValue (toString n) := by
  have hno : ∀ c ∈ (toString n).toList, c ≠ ' ' ∧ c ≠ '\t' ∧ c ≠ '\r' ∧ c ≠ '\n' := by
    intro c hc
    have hdigit := isDigit_of_mem_toString hc
    refine ⟨?_, ?_, ?_, ?_⟩ <;> rintro rfl <;> cases hdigit
  refine ⟨fun h => (hno _ h).2.2.1 rfl, fun h => (hno _ h).2.2.2 rfl, fun c hc => ?_,
    fun c hc => ?_⟩
  · have := hno c (List.mem_of_mem_head? hc)
    exact ⟨this.1, this.2.1⟩
  · have := hno c (List.mem_of_mem_getLast? hc)
    exact ⟨this.1, this.2.1⟩

/-! ## 4. What `serialize_head` wrote is read back -/

theorem asBytes_crlf : asBytes "\r\n" = [13, 10] := by decide

theorem not_mem_reasonPhrase (status : UInt16) : '\r' ∉ (reasonPhrase status).toList := by
  unfold reasonPhrase
  split <;> decide

/-- The status line, cut where the client cuts it. -/
theorem statusLine_eq (status : UInt16) :
    statusLine status = (asBytes "HTTP/1.1" ++ 32 :: (asBytes (toString status.toNat) ++
      32 :: asBytes (reasonPhrase status))) ++ [13, 10] := by
  have hversion : asBytes "HTTP/1.1 " = asBytes "HTTP/1.1" ++ [32] := by decide
  have hspace : asBytes " " = [32] := by decide
  simp only [statusLine, asBytes_append, hversion, hspace, asBytes_crlf, List.append_assoc,
    List.cons_append, List.nil_append]

theorem readStatusLine_status {status : UInt16} (hlow : 100 ≤ status.toNat)
    (hhigh : status.toNat ≤ 999) :
    readStatusLine (asBytes "HTTP/1.1" ++ 32 :: (asBytes (toString status.toNat) ++
      32 :: asBytes (reasonPhrase status))) = some status.toNat := by
  have hversion : (32 : UInt8) ∉ asBytes "HTTP/1.1" := by decide
  have hcode : (32 : UInt8) ∉ asBytes (toString status.toNat) := by
    refine not_mem_asBytes (c := ' ') (fun hmem => ?_) (by decide)
    cases isDigit_of_mem_toString hmem
  have hlen : (asBytes (toString status.toNat)).length = 3 := by
    have hascii : ∀ cs : List Char, (∀ c ∈ cs, c.isDigit = true) →
        (cs.flatMap String.utf8EncodeChar).length = cs.length := by
      intro cs hcs
      induction cs with
      | nil => rfl
      | cons c cs ih =>
        have hc : c.isDigit = true := hcs c List.mem_cons_self
        have hone : c.utf8Size = 1 := by
          simp only [Char.isDigit, Bool.and_eq_true, decide_eq_true_eq, ge_iff_le,
            UInt32.le_iff_toNat_le] at hc
          rw [Char.utf8Size_eq_one_iff, UInt32.le_iff_toNat_le]
          simp at hc ⊢
          omega
        have htail := ih fun d hd => hcs d (List.mem_cons_of_mem _ hd)
        rw [List.flatMap_cons, List.length_append, htail, String.length_utf8EncodeChar, hone,
          List.length_cons, Nat.add_comm]
    rw [asBytes, hascii _ fun c hc => isDigit_of_mem_toString hc, toString_toList]
    have h3 : (Nat.toDigits 10 status.toNat).length ≤ 3 :=
      (Nat.length_toDigits_le_iff (by decide) (by decide)).mpr (by omega)
    have h2 : ¬ (Nat.toDigits 10 status.toNat).length ≤ 2 := by
      rw [Nat.length_toDigits_le_iff (by decide) (by decide)]
      omega
    omega
  rw [readStatusLine, cutAt_append hversion]
  simp only [Option.bind_some, cutAt_append hcode, hlen, and_self, if_true, fromUtf8_asBytes,
    decimal_toString]

theorem headerLine_eq (name value : String) :
    headerLine (name, value) = (asBytes name ++ 58 :: (32 :: asBytes value)) ++ [13, 10] := by
  have hcolon : asBytes ": " = [58, 32] := by decide
  simp only [headerLine, hcolon, asBytes_crlf, List.append_assoc, List.cons_append,
    List.nil_append]

theorem readField_header {name value : String} (hn : IsToken name) (hv : IsFieldValue value) :
    readField (asBytes name ++ 58 :: (32 :: asBytes value)) = some (name, value) := by
  have hcolon : (58 : UInt8) ∉ asBytes name :=
    not_mem_asBytes (c := ':') (hn.not_mem (by decide)) (by decide)
  simp only [readField, cutAt_append hcolon, Option.bind_some, if_neg hn.asBytes_ne_nil,
    fromUtf8_asBytes, hv.trimOws_eq, Option.map_some]

/-- Every name is a token, and every value a field value. -/
def WellFormed (headers : List (String × String)) : Prop :=
  ∀ header ∈ headers, IsToken header.1 ∧ IsFieldValue header.2

theorem readFields_headers {headers : List (String × String)} (h : WellFormed headers)
    {fuel : Nat} (hfuel : headers.length < fuel) (rest : Bytes) :
    readFields fuel (headers.flatMap headerLine ++ 13 :: 10 :: rest) = some (headers, rest) := by
  induction headers generalizing fuel with
  | nil =>
    obtain ⟨fuel, rfl⟩ : ∃ k, fuel = k + 1 := ⟨fuel - 1, by simp at hfuel; omega⟩
    have hline : splitLine (13 : UInt8) 10 (13 :: 10 :: rest) = some ([], rest) :=
      splitLine_append List.not_mem_nil rest
    simp only [readFields, List.flatMap_nil, List.nil_append, hline, Option.bind_some, if_true]
  | cons header headers ih =>
    obtain ⟨name, value⟩ := header
    obtain ⟨fuel, rfl⟩ : ∃ k, fuel = k + 1 := ⟨fuel - 1, by simp at hfuel; omega⟩
    obtain ⟨hname, hvalue⟩ := h _ List.mem_cons_self
    have hrest : WellFormed headers := fun x hx => h x (List.mem_cons_of_mem _ hx)
    have hcr : (13 : UInt8) ∉ asBytes name ++ 58 :: (32 :: asBytes value) := by
      intro hmem
      rcases List.mem_append.mp hmem with hmem | hmem
      · exact not_mem_asBytes (c := '\r') (hname.not_mem (by decide)) (by decide) hmem
      · simp only [List.mem_cons] at hmem
        rcases hmem with heq | heq | hmem
        · exact absurd heq (by decide)
        · exact absurd heq (by decide)
        · exact not_mem_asBytes (c := '\r') hvalue.no_cr (by decide) hmem
    have hne : asBytes name ++ 58 :: (32 :: asBytes value) ≠ [] :=
      List.append_ne_nil_of_right_ne_nil _ (List.cons_ne_nil _ _)
    have hshort : headers.length < fuel := by simpa using hfuel
    have htail := ih hrest hshort
    have hcut : List.flatMap headerLine ((name, value) :: headers) ++ 13 :: 10 :: rest
        = (asBytes name ++ 58 :: (32 :: asBytes value)) ++
          13 :: 10 :: (headers.flatMap headerLine ++ 13 :: 10 :: rest) := by
      rw [List.flatMap_cons, headerLine_eq]
      simp only [List.append_assoc, List.cons_append, List.nil_append]
    rw [hcut, readFields, splitLine_append hcr]
    simp only [Option.bind_some, if_neg hne, readField_header hname hvalue, htail,
      Option.map_some]

theorem length_le_flatMap_headerLine (headers : List (String × String)) :
    headers.length ≤ (headers.flatMap headerLine).length := by
  induction headers with
  | nil => exact Nat.le_refl _
  | cons header headers ih =>
    obtain ⟨name, value⟩ := header
    rw [List.flatMap_cons, List.length_append, headerLine_eq]
    simp only [List.length_cons, List.length_append, List.length_nil]
    omega

/-- **A response is read back.**  The client gets the status, the header list and the body,
and stops where the body ends. -/
theorem readResponse_serializeHead {toHead : Bool} {response : HandlerResponse} {body : Bytes}
    (hlow : 100 ≤ response.status.toNat) (hhigh : response.status.toNat ≤ 999)
    (hheaders : WellFormed response.headers)
    (hbody : if bodiless toHead response.status.toNat = true then body = []
      else announcedLength response.headers = some body.length) (rest : Bytes) :
    readResponse toHead (serializeHead response ++ body ++ rest) =
      some (⟨response.status.toNat, response.headers, body⟩, rest) := by
  have hcr : (13 : UInt8) ∉ asBytes "HTTP/1.1" ++ 32 :: (asBytes (toString response.status.toNat)
      ++ 32 :: asBytes (reasonPhrase response.status)) := by
    intro hmem
    simp only [List.mem_append, List.mem_cons] at hmem
    rcases hmem with hmem | heq | hmem | heq | hmem
    · exact absurd hmem (by decide)
    · exact absurd heq (by decide)
    · refine not_mem_asBytes (c := '\r') (fun hdigit => ?_) (by decide) hmem
      cases isDigit_of_mem_toString hdigit
    · exact absurd heq (by decide)
    · exact not_mem_asBytes (c := '\r') (not_mem_reasonPhrase _) (by decide) hmem
  have hcut : serializeHead response ++ body ++ rest
      = (asBytes "HTTP/1.1" ++ 32 :: (asBytes (toString response.status.toNat)
        ++ 32 :: asBytes (reasonPhrase response.status))) ++
        13 :: 10 :: (response.headers.flatMap headerLine ++ 13 :: 10 :: (body ++ rest)) := by
    rw [serializeHead, statusLine_eq, asBytes_crlf]
    simp only [List.append_assoc, List.cons_append, List.nil_append]
  have hfuel : response.headers.length <
      (response.headers.flatMap headerLine ++ 13 :: 10 :: (body ++ rest)).length + 1 := by
    have hle := length_le_flatMap_headerLine response.headers
    rw [List.length_append]
    omega
  rw [hcut, readResponse, splitLine_append hcr]
  simp only [Option.bind_some, readStatusLine_status hlow hhigh,
    readFields_headers hheaders hfuel]
  split
  · rename_i hnone
    rw [if_pos hnone] at hbody
    rw [hbody, List.nil_append]
  · rename_i hsome
    rw [if_neg hsome] at hbody
    have hle : body.length ≤ (body ++ rest).length := by
      rw [List.length_append]
      omega
    simp only [hbody, Option.bind_some, if_pos hle, List.take_left, List.drop_left]

end HelixRack
