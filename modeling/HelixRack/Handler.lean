/-
# Requests, responses, and the handler between them

`engine/src/handler.rs` as data.  Two things are added that Rust leaves to the world outside
the process: what the operating system does with a spooled body's file (`File`), and what a
handler remembers from one call to the next (`Handler`, which also may panic).
-/
import HelixRack.RustStr

namespace HelixRack

/-! ## 1. What `httparse` reports -/

/-- `httparse::Header`. -/
structure Header where
  name : String
  value : Bytes
  deriving DecidableEq, Repr, Inhabited

/-- The fields of `httparse::Request` that `handle` reads. -/
structure Request where
  method : Option String
  path : Option String
  headers : List Header
  deriving DecidableEq, Repr, Inhabited

/-! ## 2. `ParsedRequest` and `HandlerResponse` -/

structure ParsedRequest where
  method : String
  path : String
  query : String
  headers : List (String × String)
  body : Bytes
  deriving DecidableEq, Repr, Inhabited

/-- The operations on a spooled body that can fail on their own. -/
inductive FileOp where
  /-- `try_clone` in `ensure_framing`. -/
  | cloneForLength
  | metadata
  /-- `try_clone` in `write_body`. -/
  | cloneForWrite
  | seek
  deriving DecidableEq, Repr

/-- An open `std::fs::File`: what is in it, where its cursor stands, and how the operating
system answers.  `readFault` is the offset at which reading fails, if it does. -/
structure File where
  contents : Bytes
  cursor : Nat
  faults : List FileOp
  readFault : Option Nat
  deriving DecidableEq, Repr, Inhabited

inductive ResponseBody where
  | inMemory (bytes : Bytes)
  | spooled (file : File)
  deriving DecidableEq, Repr, Inhabited

structure HandlerResponse where
  status : UInt16
  headers : List (String × String)
  body : ResponseBody
  deriving DecidableEq, Repr, Inhabited

/-- `Handler::call`, with the handler's own state passed through; `none` is a panic. -/
abbrev Handler (σ : Type) := σ → ParsedRequest → Option HandlerResponse × σ

/-! ## 3. Reading a spooled body back -/

namespace File

/-- Reading goes no further than this offset: the end of the file, or the fault. -/
def readLimit (f : File) : Nat :=
  match f.readFault with
  | some k => min k f.contents.length
  | none => f.contents.length

/-- Whether the read that is issued at `readLimit` fails, rather than reporting the end. -/
def faultsAtLimit (f : File) : Bool :=
  match f.readFault with
  | some k => k ≤ f.contents.length
  | none => false

/-- What is left to read from the cursor on. -/
def unread (f : File) : Bytes := (f.contents.take f.readLimit).drop f.cursor

/-- The cursor after `n` more bytes. -/
def advance (f : File) (n : Nat) : File := { f with cursor := f.cursor + n }

/-- `seek(SeekFrom::Start(pos))`. -/
def seekTo (f : File) (pos : Nat) : File := { f with cursor := pos }

/-- No operation on the file fails. -/
def Sound (f : File) : Prop := f.faults = [] ∧ f.readFault = none

instance (f : File) : Decidable f.Sound := inferInstanceAs (Decidable (_ ∧ _))

@[simp] theorem unread_advance (f : File) (n : Nat) :
    (f.advance n).unread = f.unread.drop n := by
  simp [unread, advance, readLimit]

@[simp] theorem faultsAtLimit_advance (f : File) (n : Nat) :
    (f.advance n).faultsAtLimit = f.faultsAtLimit := rfl

@[simp] theorem faultsAtLimit_seekTo (f : File) (n : Nat) :
    (f.seekTo n).faultsAtLimit = f.faultsAtLimit := rfl

/-- Reading goes through the file from the cursor on... -/
theorem unread_prefix (f : File) : f.unread <+: f.contents.drop f.cursor := by
  rw [unread, List.drop_take]
  exact List.take_prefix _ _

/-- ...to its end, if it does not fail. -/
theorem drop_of_unread_nil {f : File} (h : f.unread = []) (hok : f.faultsAtLimit = false) :
    f.contents.drop f.cursor = [] := by
  have hlimit : f.readLimit = f.contents.length := by
    cases hk : f.readFault with
    | none => simp only [readLimit, hk]
    | some k =>
      simp only [faultsAtLimit, hk, decide_eq_false_iff_not] at hok
      simp only [readLimit, hk]
      omega
  rw [unread, hlimit, List.take_length] at h
  exact h

theorem unread_seekTo_zero (f : File) :
    (f.seekTo 0).unread = f.contents.take f.readLimit := by
  simp [unread, seekTo, readLimit]

theorem Sound.faultsAtLimit {f : File} (h : f.Sound) : f.faultsAtLimit = false := by
  simp [File.faultsAtLimit, h.2]

theorem Sound.unread_eq {f : File} (h : f.Sound) : f.unread = f.contents.drop f.cursor := by
  rw [unread, readLimit, h.2, List.take_length]

theorem Sound.unread_seekTo_zero {f : File} (h : f.Sound) :
    (f.seekTo 0).unread = f.contents := by
  rw [File.unread_seekTo_zero, readLimit, h.2, List.take_length]

end File

namespace ResponseBody

/-- What the body says. -/
def bytes : ResponseBody → Bytes
  | .inMemory bytes => bytes
  | .spooled file => file.contents

/-- No operation on the body's file fails. -/
def Sound : ResponseBody → Prop
  | .inMemory _ => True
  | .spooled file => file.Sound

end ResponseBody

end HelixRack
