/-
# Which `Content-Length` is accepted

`content_length` leaves the reading of a value to `str::trim` and `usize::from_str`.  Between the
two they take more than a run of digits with optional whitespace around it: `trim` takes off any
Unicode white space, and `from_str` a leading `+`.  `numeral` is the grammar of the field, over the
bytes; `content_length_grammar_iff` says for which header lists the code keeps to it.
-/
import HelixRack.Client
import HelixRack.Connection

namespace HelixRack

/-! ## 1. The grammar, and what the code takes -/

/-- An ASCII digit. -/
def isDigitByte (b : UInt8) : Bool := decide (48 ≤ b.toNat ∧ b.toNat ≤ 57)

/-- The number that a field value denotes by the grammar: optional spaces and tabs around at least
one digit, no more than fits a `usize`. -/
def numeral (value : Bytes) : Option Nat :=
  let digits := trimOws value
  if digits ≠ [] ∧ digits.all isDigitByte then
    let n := digits.foldl (fun n b => 10 * n + (b.toNat - 48)) 0
    if n ≤ usizeMax then some n else none
  else none

/-- The number that `content_length` takes a field value for. -/
def lenientLength (value : Bytes) : Option Nat :=
  (fromUtf8 value).bind fun text => parseUsize (trim text)

/-- The values of the `Content-Length` fields. -/
def lengthValues (headers : List Header) : List Bytes :=
  (headers.filter fun header => eqIgnoreAsciiCase header.name "content-length").map Header.value

/-- The fields declare the length `n`, read in this way: there is none and `n` is 0, or each of
them says `n`. -/
def Declares (read : Bytes → Option Nat) (values : List Bytes) (n : Nat) : Prop :=
  (values = [] ∧ n = 0) ∨ (values ≠ [] ∧ ∀ value ∈ values, read value = some n)

/-! ## 2. The loop of `content_length` -/

theorem lengthValues_skip {header : Header} {rest : List Header}
    (h : eqIgnoreAsciiCase header.name "content-length" = false) :
    lengthValues (header :: rest) = lengthValues rest := by
  simp only [lengthValues, List.filter_cons, h, Bool.false_eq_true, if_false]

theorem lengthValues_cons {header : Header} {rest : List Header}
    (h : eqIgnoreAsciiCase header.name "content-length" = true) :
    lengthValues (header :: rest) = header.value :: lengthValues rest := by
  simp only [lengthValues, List.filter_cons, h, if_true, List.map_cons]

/-- What the loop makes of a `Content-Length` field that it can read... -/
theorem contentLengthFrom_field {found : Option Nat} {header : Header} {rest : List Header}
    {n : Nat} (h : eqIgnoreAsciiCase header.name "content-length" = true)
    (hn : lenientLength header.value = some n) :
    contentLengthFrom found (header :: rest) =
      if found = none ∨ found = some n then contentLengthFrom (some n) rest
      else .error (.text "conflicting Content-Length headers") := by
  obtain ⟨value, hv, hparse⟩ := Option.bind_eq_some_iff.mp hn
  rw [contentLengthFrom, h]
  simp only [Bool.not_true, Bool.false_eq_true, if_false, hv, hparse]
  cases found with
  | none => simp only [true_or, if_true]
  | some existing =>
    simp only [reduceCtorEq, false_or, Option.some.injEq]
    split
    · rename_i heq
      rw [heq]
    · rfl

/-- ...and of one that it cannot. -/
theorem contentLengthFrom_malformed {found : Option Nat} {header : Header} {rest : List Header}
    (h : eqIgnoreAsciiCase header.name "content-length" = true)
    (hn : lenientLength header.value = none) {n : Nat} :
    contentLengthFrom found (header :: rest) ≠ .ok n := by
  rw [contentLengthFrom, h]
  simp only [Bool.not_true, Bool.false_eq_true, if_false]
  cases hv : fromUtf8 header.value with
  | none =>
    intro h
    cases h
  | some value =>
    rw [lenientLength, hv, Option.bind_some] at hn
    simp only [hn]
    intro h
    cases h

/-- Once a length was found, every further field has to say the same. -/
theorem contentLengthFrom_some_iff {m n : Nat} (headers : List Header) :
    contentLengthFrom (some m) headers = .ok n ↔
      n = m ∧ ∀ value ∈ lengthValues headers, lenientLength value = some m := by
  induction headers with
  | nil =>
    simp only [contentLengthFrom, Option.getD_some, Except.ok.injEq, lengthValues,
      List.filter_nil, List.map_nil, List.not_mem_nil, false_implies, implies_true, and_true]
    exact eq_comm
  | cons header rest ih =>
    cases hname : eqIgnoreAsciiCase header.name "content-length" with
    | false => rw [contentLengthFrom_skip hname, lengthValues_skip hname, ih]
    | true =>
      rw [lengthValues_cons hname, List.forall_mem_cons]
      cases hvalue : lenientLength header.value with
      | none =>
        constructor
        · intro h
          exact absurd h (contentLengthFrom_malformed hname hvalue)
        · intro h
          cases h.2.1
      | some k =>
        rw [contentLengthFrom_field hname hvalue]
        by_cases hk : k = m
        · rw [hk, if_pos (Or.inr rfl), ih]
          exact and_congr_right fun _ => (and_iff_right rfl).symm
        · have hne : ¬ ((some m : Option Nat) = none ∨ some m = some k) := by
            rintro (h | h)
            · cases h
            · exact hk (Option.some.inj h).symm
          rw [if_neg hne]
          constructor
          · intro h
            cases h
          · intro h
            exact absurd (Option.some.inj h.2.1) hk

/-- **What `content_length` accepts.** -/
theorem contentLength_iff (headers : List Header) (n : Nat) :
    contentLength headers = .ok n ↔ Declares lenientLength (lengthValues headers) n := by
  unfold contentLength
  induction headers with
  | nil =>
    simp only [contentLengthFrom, Option.getD_none, Except.ok.injEq, Declares, lengthValues,
      List.filter_nil, List.map_nil, true_and, ne_eq, not_true, false_and, or_false]
    exact eq_comm
  | cons header rest ih =>
    cases hname : eqIgnoreAsciiCase header.name "content-length" with
    | false => rw [contentLengthFrom_skip hname, lengthValues_skip hname, ih]
    | true =>
      rw [lengthValues_cons hname]
      simp only [Declares, reduceCtorEq, false_and, false_or, ne_eq, not_false_eq_true, true_and,
        List.forall_mem_cons]
      cases hvalue : lenientLength header.value with
      | none =>
        constructor
        · intro h
          exact absurd h (contentLengthFrom_malformed hname hvalue)
        · intro h
          cases h.1
      | some k =>
        rw [contentLengthFrom_field hname hvalue, if_pos (Or.inl rfl), contentLengthFrom_some_iff]
        constructor
        · rintro ⟨rfl, hrest⟩
          exact ⟨rfl, hrest⟩
        · rintro ⟨hk, hrest⟩
          cases hk
          exact ⟨rfl, hrest⟩

/-! ## 3. The code takes what the grammar allows -/

/-- An ASCII byte as a character. -/
def asciiChar (b : UInt8) : Char := Char.ofNat b.toNat

theorem toNat_asciiChar {b : UInt8} (hb : b.toNat < 128) : (asciiChar b).toNat = b.toNat := by
  have hvalid : b.toNat.isValidChar := Or.inl (by omega)
  rw [asciiChar, Char.ofNat, dif_pos hvalid]
  rfl

theorem utf8EncodeChar_asciiChar {b : UInt8} (hb : b.toNat < 128) :
    String.utf8EncodeChar (asciiChar b) = [b] := by
  have hv : (asciiChar b).val.toNat = b.toNat := toNat_asciiChar hb
  have hle : b.toNat ≤ 127 := by omega
  simp only [String.utf8EncodeChar, hv, if_pos hle]
  exact congrArg (· :: []) (UInt8.ofNat_toNat)

/-- ASCII bytes are the text of their characters. -/
theorem fromUtf8_ascii {bytes : Bytes} (h : ∀ b ∈ bytes, b.toNat < 128) :
    fromUtf8 bytes = some (String.ofList (bytes.map asciiChar)) := by
  have hbytes : asBytes (String.ofList (bytes.map asciiChar)) = bytes := by
    rw [asBytes_ofList, List.flatMap_map]
    calc bytes.flatMap (fun b => String.utf8EncodeChar (asciiChar b))
        = bytes.flatMap ([·]) :=
          List.flatMap_congr fun b hb => utf8EncodeChar_asciiChar (h b hb)
      _ = bytes := by rw [List.flatMap_singleton']
  rw [← fromUtf8_asBytes (String.ofList (bytes.map asciiChar)), hbytes]

/-- Trimming the images is the image of the trimmed list, where both see the same elements. -/
theorem dropWhile_map_of_forall {α β : Type} {f : α → β} {p : β → Bool} {q : α → Bool} {l : List α}
    (h : ∀ a ∈ l, p (f a) = q a) : (l.map f).dropWhile p = (l.dropWhile q).map f := by
  induction l with
  | nil => rfl
  | cons a l ih =>
    have ha : p (f a) = q a := h a List.mem_cons_self
    have hl := ih fun b hb => h b (List.mem_cons_of_mem _ hb)
    cases hq : q a with
    | true => simp only [List.map_cons, List.dropWhile_cons, ha, hq, if_true, hl]
    | false => simp only [List.map_cons, List.dropWhile_cons, ha, hq, Bool.false_eq_true, if_false]

theorem rdropWhile_map_of_forall {α β : Type} {f : α → β} {p : β → Bool} {q : α → Bool}
    {l : List α} (h : ∀ a ∈ l, p (f a) = q a) :
    (l.map f).rdropWhile p = (l.rdropWhile q).map f := by
  have hreverse : ∀ a ∈ l.reverse, p (f a) = q a := fun a ha => h a (List.mem_reverse.mp ha)
  rw [List.rdropWhile, List.rdropWhile, ← List.map_reverse, dropWhile_map_of_forall hreverse,
    List.map_reverse]

/-- A value in the grammar is made of digits, spaces and tabs. -/
theorem ows_or_digit_of_mem {value : Bytes} (h : (trimOws value).all isDigitByte = true) {b : UInt8}
    (hb : b ∈ value) : isOws b = true ∨ isDigitByte b = true := by
  rw [← List.takeWhile_append_dropWhile (p := isOws) (l := value)] at hb
  rcases List.mem_append.mp hb with hfront | hrest
  · exact Or.inl (List.mem_takeWhile_imp hfront)
  · rw [← List.rdropWhile_append_rtakeWhile (p := isOws) (l := value.dropWhile isOws)] at hrest
    rcases List.mem_append.mp hrest with hdigits | hback
    · exact Or.inr (List.all_eq_true.mp h b hdigits)
    · exact Or.inl (List.mem_rtakeWhile_imp hback)

/-- On the bytes of such a value, `trim` sees no other white space. -/
theorem isWhitespace_asciiChar {b : UInt8} (h : isOws b = true ∨ isDigitByte b = true) :
    isWhitespace (asciiChar b) = isOws b := by
  rcases h with hows | hdigit
  · rw [hows]
    rw [isOws, Bool.or_eq_true, beq_iff_eq, beq_iff_eq] at hows
    rcases hows with rfl | rfl <;> decide
  · obtain ⟨hlow, hhigh⟩ := of_decide_eq_true hdigit
    have hnot : isOws b = false := by
      rw [isOws, Bool.or_eq_false_iff, beq_eq_false_iff_ne, beq_eq_false_iff_ne]
      constructor <;>
        · rintro rfl
          exact absurd hlow (by decide)
    have hnat : (asciiChar b).toNat = b.toNat := toNat_asciiChar (by omega)
    rw [hnot]
    simp only [isWhitespace, hnat, Bool.or_eq_false_iff, Bool.and_eq_false_iff,
      decide_eq_false_iff_not, beq_eq_false_iff_ne, ne_eq]
    omega

theorem trim_ascii {value : Bytes} (h : (trimOws value).all isDigitByte = true) :
    trim (String.ofList (value.map asciiChar)) = String.ofList ((trimOws value).map asciiChar) := by
  have hspace : ∀ b ∈ value, isWhitespace (asciiChar b) = isOws b :=
    fun b hb => isWhitespace_asciiChar (ows_or_digit_of_mem h hb)
  have hrest : ∀ b ∈ value.dropWhile isOws, isWhitespace (asciiChar b) = isOws b :=
    fun b hb => hspace b ((List.dropWhile_suffix isOws).subset hb)
  rw [trim, String.toList_ofList, dropWhile_map_of_forall hspace, rdropWhile_map_of_forall hrest,
    trimOws]

/-- A digit, as a byte and as a character. -/
theorem isDigit_asciiChar {b : UInt8} (h : isDigitByte b = true) :
    (asciiChar b).isDigit = true ∧ (asciiChar b).toNat = b.toNat := by
  obtain ⟨hlow, hhigh⟩ := of_decide_eq_true h
  have hnat : (asciiChar b).toNat = b.toNat := toNat_asciiChar (by omega)
  have hval : (asciiChar b).val.toNat = b.toNat := hnat
  refine ⟨?_, hnat⟩
  rw [Char.isDigit, Bool.and_eq_true, decide_eq_true_eq, decide_eq_true_eq, ge_iff_le,
    UInt32.le_iff_toNat_le, UInt32.le_iff_toNat_le, hval]
  exact ⟨hlow, hhigh⟩

/-- A run of digits is parsed as the number it denotes. -/
theorem parseUsize_digits {digits : Bytes} (hne : digits ≠ [])
    (h : digits.all isDigitByte = true) :
    parseUsize (String.ofList (digits.map asciiChar)) =
      let n := digits.foldl (fun n b => 10 * n + (b.toNat - 48)) 0
      if n ≤ usizeMax then some n else none := by
  have hdigit : ∀ b ∈ digits, isDigitByte b = true := List.all_eq_true.mp h
  have hchars : (digits.map asciiChar).all Char.isDigit = true := by
    rw [List.all_map]
    exact List.all_eq_true.mpr fun b hb => (isDigit_asciiChar (hdigit b hb)).1
  have hnumber : Nat.ofDigitChars 10 (digits.map asciiChar) 0 =
      digits.foldl (fun n b => 10 * n + (b.toNat - 48)) 0 := by
    rw [Nat.ofDigitChars_eq_foldl, List.foldl_map]
    refine List.foldl_ext _ _ _ fun n b hb => ?_
    rw [(isDigit_asciiChar (hdigit b hb)).2]
    rfl
  have hne' : digits.map asciiChar ≠ [] := by simpa using hne
  rw [← hnumber, parseUsize, String.toList_ofList]
  generalize digits.map asciiChar = cs at hchars hne'
  split
  · rw [List.all_cons, Bool.and_eq_true] at hchars
    exact absurd hchars.1 (by decide)
  · rw [if_pos ⟨hne', hchars⟩]

/-- **What the grammar allows is taken, for the same number.** -/
theorem lenientLength_of_numeral {value : Bytes} {n : Nat} (h : numeral value = some n) :
    lenientLength value = some n := by
  unfold numeral at h
  simp only at h
  split at h
  · rename_i hdigits
    obtain ⟨hne, hall⟩ := hdigits
    have hascii : ∀ b ∈ value, b.toNat < 128 := by
      intro b hb
      rcases ows_or_digit_of_mem hall hb with hows | hdigit
      · rw [isOws, Bool.or_eq_true, beq_iff_eq, beq_iff_eq] at hows
        rcases hows with rfl | rfl <;> decide
      · have hrange := of_decide_eq_true hdigit
        omega
    rw [lenientLength, fromUtf8_ascii hascii, Option.bind_some, trim_ascii hall,
      parseUsize_digits hne hall]
    exact h
  · cases h

/-! ## 4. Where the code keeps to the grammar -/

/-- `content_length` keeps to the grammar on these headers: it returns `Ok(n)` exactly if they
declare `n` by the grammar, and the order of the fields plays no part. -/
structure KeepsGrammar (headers : List Header) : Prop where
  ok_iff : ∀ n, contentLength headers = .ok n ↔ Declares numeral (lengthValues headers) n
  order : ∀ headers', headers'.Perm headers →
    ∀ n, contentLength headers' = .ok n ↔ contentLength headers = .ok n

theorem declares_perm {read : Bytes → Option Nat} {values values' : List Bytes} {n : Nat}
    (h : values.Perm values') : Declares read values n ↔ Declares read values' n := by
  have hnil : values = [] ↔ values' = [] := by
    constructor <;> rintro rfl
    · exact h.nil_eq.symm
    · exact h.eq_nil
  have hmem : (∀ value ∈ values, read value = some n) ↔ ∀ value ∈ values', read value = some n :=
    forall_congr' fun value => by rw [h.mem_iff]
  rw [Declares, Declares, ne_eq, ne_eq, hnil, hmem]

/-- The order of the fields never plays a part. -/
theorem contentLength_perm {headers headers' : List Header} (h : headers'.Perm headers) (n : Nat) :
    contentLength headers' = .ok n ↔ contentLength headers = .ok n := by
  rw [contentLength_iff, contentLength_iff]
  exact declares_perm ((h.filter _).map _)

/-- **The grammar of `Content-Length`.**  The code keeps to it exactly on the header lists whose
values are all in the grammar, or among whose values there is one that it cannot read at all, or
two that it reads as different numbers. -/
theorem content_length_grammar_iff (headers : List Header) :
    KeepsGrammar headers ↔
      (∀ value ∈ lengthValues headers, numeral value ≠ none) ∨
      (∃ value ∈ lengthValues headers, lenientLength value = none) ∨
      ∃ value ∈ lengthValues headers, ∃ value' ∈ lengthValues headers,
        lenientLength value ≠ lenientLength value' := by
  constructor
  · rintro ⟨hok, -⟩
    by_contra hnot
    simp only [not_or, not_exists, not_and, not_not] at hnot
    obtain ⟨hout, hread, hsame⟩ := hnot
    obtain ⟨value, hvalue, hnone⟩ : ∃ value ∈ lengthValues headers, numeral value = none := by
      by_contra hall
      exact hout fun value hvalue hnone => hall ⟨value, hvalue, hnone⟩
    obtain ⟨n, hn⟩ := Option.ne_none_iff_exists'.mp (hread value hvalue)
    have hne : lengthValues headers ≠ [] := List.ne_nil_of_mem hvalue
    have hlenient : Declares lenientLength (lengthValues headers) n :=
      Or.inr ⟨hne, fun value' hvalue' => (hsame value' hvalue' value hvalue).trans hn⟩
    rcases (hok n).mp ((contentLength_iff headers n).mpr hlenient) with ⟨hnil, -⟩ | ⟨-, hall⟩
    · exact hne hnil
    · rw [hall value hvalue] at hnone
      cases hnone
  · intro h
    refine ⟨fun n => ?_, fun headers' hperm n => contentLength_perm hperm n⟩
    rw [contentLength_iff]
    refine or_congr_right (and_congr_right fun hne => ?_)
    constructor
    · intro hall
      rcases h with hin | ⟨value, hvalue, hnone⟩ | ⟨value, hvalue, value', hvalue', hdiffer⟩
      · intro value hvalue
        obtain ⟨m, hm⟩ := Option.ne_none_iff_exists'.mp (hin value hvalue)
        have hread := hall value hvalue
        rw [lenientLength_of_numeral hm] at hread
        rw [hm, hread]
      · rw [hall value hvalue] at hnone
        cases hnone
      · exact absurd ((hall value hvalue).trans (hall value' hvalue').symm) hdiffer
    · exact fun hall value hvalue => lenientLength_of_numeral (hall value hvalue)

/-- **Not by the grammar**: a sign is taken. -/
theorem signed_length_accepted :
    ¬ ∀ (headers : List Header) (n : Nat),
      contentLength headers = .ok n ↔ Declares numeral (lengthValues headers) n := by
  intro hall
  have hname : eqIgnoreAsciiCase "Content-Length" "content-length" = true := by decide
  have hparse : parseUsize (trim "+5") = some 5 := by decide
  have htaken : contentLength [⟨"Content-Length", asBytes "+5"⟩] = .ok 5 := by
    rw [contentLength, contentLengthFrom_text hname hparse]
    rfl
  rcases (hall _ _).mp htaken with ⟨-, hzero⟩ | ⟨-, hvalues⟩
  · cases hzero
  · have hnumeral := hvalues (asBytes "+5") (by decide)
    exact absurd hnumeral (by decide)

end HelixRack
