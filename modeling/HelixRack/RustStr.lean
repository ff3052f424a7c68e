/-
# The string and byte-vector operations the engine uses

Rust's `str` is a sequence of Unicode scalar values held as UTF-8, and so is `String`; this
module gives the operations of `str`, `u16` and `Vec<u8>` that the engine calls, under their
Rust names, with the facts the proofs need of them.  Nothing here belongs to the engine.
-/
import Mathlib.Algebra.Group.Nat.Defs
import Mathlib.Data.List.DropRight
import Mathlib.Data.List.TakeDrop

namespace HelixRack

abbrev Bytes := List UInt8

/-! ## 1. `str` -/

/-- `str::as_bytes`. -/
def asBytes (s : String) : Bytes := s.toList.flatMap String.utf8EncodeChar

/-- `std::str::from_utf8`, `none` for its error. -/
def fromUtf8 (bytes : Bytes) : Option String := String.fromUTF8? ⟨bytes.toArray⟩

/-- `char::is_whitespace`: the Unicode property `White_Space`. -/
def isWhitespace (c : Char) : Bool :=
  let v := c.toNat
  (9 ≤ v && v ≤ 13) || v == 0x20 || v == 0x85 || v == 0xA0 || v == 0x1680 ||
    (0x2000 ≤ v && v ≤ 0x200A) || v == 0x2028 || v == 0x2029 || v == 0x202F || v == 0x205F ||
    v == 0x3000

/-- `str::trim`. -/
def trim (s : String) : String :=
  String.ofList ((s.toList.dropWhile isWhitespace).rdropWhile isWhitespace)

/-- `str::eq_ignore_ascii_case`. -/
def eqIgnoreAsciiCase (a b : String) : Bool :=
  a.toList.map Char.toLower == b.toList.map Char.toLower

/-- `str::split_once` at a character. -/
def splitOnce (s : String) (sep : Char) : Option (String × String) :=
  match s.toList.dropWhile (· != sep) with
  | [] => none
  | _ :: rest => some (String.ofList (s.toList.takeWhile (· != sep)), String.ofList rest)

/-- `usize::MAX` on the 64-bit targets the gem is built for. -/
def usizeMax : Nat := 2 ^ 64 - 1

/-- `str::parse::<usize>`: an optional `+`, then at least one ASCII digit and nothing else,
denoting a number that fits. -/
def parseUsize (s : String) : Option Nat :=
  let digits := match s.toList with
    | '+' :: ds => ds
    | ds => ds
  if digits ≠ [] ∧ digits.all Char.isDigit then
    let n := Nat.ofDigitChars 10 digits 0
    if n ≤ usizeMax then some n else none
  else none

theorem asBytes_append (s t : String) : asBytes (s ++ t) = asBytes s ++ asBytes t := by
  simp [asBytes]

theorem asBytes_ofList (cs : List Char) :
    asBytes (String.ofList cs) = cs.flatMap String.utf8EncodeChar := by
  simp [asBytes]

theorem fromUtf8_asBytes (s : String) : fromUtf8 (asBytes s) = some s := by
  have hs : (⟨(asBytes s).toArray⟩ : ByteArray) = s.toByteArray := by
    rw [← String.utf8Encode_toList, List.utf8Encode]
    simp [asBytes, ByteArray.ext_iff]
  rw [fromUtf8, hs, String.fromUTF8?, dif_pos s.isValidUTF8]
  rfl

/-- A byte below 128 in the encoding of a character is that character. -/
theorem mem_utf8EncodeChar_of_lt {c : Char} {b : UInt8} (hb : b ∈ String.utf8EncodeChar c)
    (hlt : b.toNat < 128) : c.toNat = b.toNat := by
  have hc : c.val.toNat = c.toNat := rfl
  simp only [String.utf8EncodeChar] at hb
  rw [hc] at hb
  split_ifs at hb with h1 h2 h3
  · simp only [List.mem_singleton] at hb
    rw [hb, UInt8.toNat_ofNat_of_lt' (by change _ < 256; omega)]
  all_goals
    exfalso
    simp only [List.mem_cons, List.not_mem_nil, or_false] at hb
    rcases hb with rfl | rfl | rfl | rfl <;>
      · rw [UInt8.toNat_ofNat_of_lt' (by change _ < 256; omega)] at hlt
        omega

theorem mem_asBytes_of_lt {s : String} {b : UInt8} (hb : b ∈ asBytes s) (hlt : b.toNat < 128) :
    ∃ c ∈ s.toList, c.toNat = b.toNat := by
  obtain ⟨c, hc, hmem⟩ := List.mem_flatMap.mp hb
  exact ⟨c, hc, mem_utf8EncodeChar_of_lt hmem hlt⟩

/-- A character that is not in a string leaves no byte in its encoding, if it is ASCII. -/
theorem not_mem_asBytes {s : String} {c : Char} (hc : c ∉ s.toList) (hlt : c.toNat < 128) :
    UInt8.ofNat c.toNat ∉ asBytes s := by
  intro hmem
  have hb : (UInt8.ofNat c.toNat).toNat = c.toNat :=
    UInt8.toNat_ofNat_of_lt' (by change _ < 256; omega)
  obtain ⟨d, hd, heq⟩ := mem_asBytes_of_lt hmem (by rw [hb]; exact hlt)
  rw [hb] at heq
  rw [Char.toNat_inj.mp heq] at hd
  exact hc hd

/-! ## 2. `Vec<u8>` -/

/-- `Vec::resize` with zeros. -/
def resize (buf : Bytes) (n : Nat) : Bytes := buf.take n ++ List.replicate (n - buf.length) 0

/-- What a read leaves in a buffer that had `filled` bytes in front. -/
def overwriteAt (buf : Bytes) (filled : Nat) (data : Bytes) : Bytes :=
  buf.take filled ++ data ++ buf.drop (filled + data.length)

/-- `slice::copy_within(src..end, 0)`. -/
def copyWithin (buf : Bytes) (src stop : Nat) : Bytes :=
  overwriteAt buf 0 ((buf.take stop).drop src)

@[simp] theorem length_resize (buf : Bytes) (n : Nat) : (resize buf n).length = n := by
  simp only [resize, List.length_append, List.length_take, List.length_replicate]
  omega

theorem take_resize {buf : Bytes} {n k : Nat} (hk : k ≤ buf.length) (hn : buf.length ≤ n) :
    (resize buf n).take k = buf.take k := by
  rw [resize, List.take_of_length_le hn, List.take_append_of_le_length hk]

theorem length_overwriteAt {buf data : Bytes} {filled : Nat}
    (h : filled + data.length ≤ buf.length) :
    (overwriteAt buf filled data).length = buf.length := by
  simp only [overwriteAt, List.length_append, List.length_take, List.length_drop]
  omega

theorem take_overwriteAt {buf data : Bytes} {filled : Nat}
    (h : filled + data.length ≤ buf.length) :
    (overwriteAt buf filled data).take (filled + data.length) = buf.take filled ++ data := by
  have hlen : (buf.take filled ++ data).length = filled + data.length := by
    simp only [List.length_append, List.length_take]
    omega
  rw [overwriteAt, List.take_append_of_le_length (by omega), List.take_of_length_le (by omega)]

theorem length_copyWithin {buf : Bytes} {src stop : Nat} (h : stop ≤ buf.length) :
    (copyWithin buf src stop).length = buf.length := by
  refine length_overwriteAt ?_
  simp only [List.length_drop, List.length_take]
  omega

/-- The bytes kept by the shift are the ones behind `src`. -/
theorem take_copyWithin {buf : Bytes} {src stop : Nat} (h : stop ≤ buf.length) :
    (copyWithin buf src stop).take (stop - src) = (buf.take stop).drop src := by
  have hlen : ((buf.take stop).drop src).length = stop - src := by
    simp only [List.length_drop, List.length_take]
    omega
  have h0 : (copyWithin buf src stop).take (0 + ((buf.take stop).drop src).length)
      = buf.take 0 ++ (buf.take stop).drop src := take_overwriteAt (by omega)
  rwa [hlen, Nat.zero_add, List.take_zero, List.nil_append] at h0

end HelixRack
