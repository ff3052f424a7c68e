/-
# Reading a Rack body

`read_body` of `ext/helix_rack/src/lib.rs` calls a Rack body's `#each` with a block that
collects the chunks in a thread-local: in memory up to `SPOOL_THRESHOLD_BYTES`, in a tempfile
beyond.  The `#each` is somebody else's code.  It is a `Script` here: a tree that yields, tries
to read another body on the same thread, and ends, in any order, and that sees what came of each
yield and of each nested attempt.

* Nested attempts are refused and touch nothing, a call leaves both thread-locals as a fresh
  thread has them, and its result has nothing to do with the calls before it or the attempts
  inside it (`body_reads_apart`).
* A body that is returned has all its chunks, unless a yield failed and `#each` went on to return
  (`no_hole_iff`).
-/
import HelixRack.Handler
import Mathlib.Algebra.Ring.Nat

namespace HelixRack

/-! ## 1. Errors, chunks, and writing a file -/

/-- The class of a Ruby exception. -/
inductive ErrorClass where
  | typeError
  | runtimeError
  | other (name : String)
  deriving DecidableEq, Repr

/-- `magnus::Error`. -/
structure RubyError where
  errorClass : ErrorClass
  message : String
  deriving DecidableEq, Repr

/-- The first argument of a `yield`. -/
inductive Chunk where
  /-- There is none. -/
  | absent
  /-- `RString::try_convert` refuses it, with this message. -/
  | notString (message : String)
  | string (bytes : Bytes)
  deriving DecidableEq, Repr

/-- What the operating system answers in the course of a `yield`, where it is asked. -/
structure SpoolIo where
  /-- `tempfile::tempfile()`: an error's text, or how the new file will behave when it is read. -/
  tempfile : Except String (List FileOp × Option Nat)
  /-- `write_all` of what was in memory fails after so many bytes. -/
  bufferedFault : Option (Nat × String)
  /-- `write_all` of the chunk fails after so many bytes. -/
  chunkFault : Option (Nat × String)

/-- No I/O error, now or later. -/
def SpoolIo.fine : SpoolIo :=
  { tempfile := .ok ([], none), bufferedFault := none, chunkFault := none }

namespace File

/-- `write` at the cursor. -/
def write (f : File) (bytes : Bytes) : File :=
  { f with
    contents := f.contents.take f.cursor ++ bytes ++ f.contents.drop (f.cursor + bytes.length)
    cursor := f.cursor + bytes.length }

/-- `write_all`, which may fail with only the beginning written. -/
def writeAll (f : File) (bytes : Bytes) (fault : Option (Nat × String)) :
    File × Except String Unit :=
  match fault with
  | some (k, message) =>
    if k < bytes.length then (f.write (bytes.take k), .error message) else (f.write bytes, .ok ())
  | none => (f.write bytes, .ok ())

/-- The cursor stands at the end. -/
def AtEnd (f : File) : Prop := f.cursor = f.contents.length

theorem AtEnd.write {f : File} (h : f.AtEnd) (bytes : Bytes) :
    (f.write bytes).AtEnd ∧ (f.write bytes).contents = f.contents ++ bytes := by
  have hcontents : (f.write bytes).contents = f.contents ++ bytes := by
    have hle : f.contents.length ≤ f.cursor := Nat.le_of_eq h.symm
    have hle' : f.contents.length ≤ f.cursor + bytes.length := Nat.le_add_right_of_le hle
    simp only [File.write, List.take_of_length_le hle, List.drop_of_length_le hle',
      List.append_nil]
  refine ⟨?_, hcontents⟩
  rw [AtEnd, hcontents, List.length_append, ← h]
  rfl

/-- What `write_all` leaves in a file: all of the bytes, or fewer. -/
theorem AtEnd.writeAll {f f' : File} (h : f.AtEnd) {bytes : Bytes} {fault : Option (Nat × String)}
    {r : Except String Unit} (hw : f.writeAll bytes fault = (f', r)) :
    f'.AtEnd ∧ ((r = .ok () ∧ f'.contents = f.contents ++ bytes) ∨
      ∃ k message, r = .error message ∧ k < bytes.length ∧
        f'.contents = f.contents ++ bytes.take k) := by
  unfold File.writeAll at hw
  split at hw
  · rename_i k message
    split at hw
    · rename_i hlt
      cases hw
      obtain ⟨hend, hcontents⟩ := h.write (bytes.take k)
      exact ⟨hend, Or.inr ⟨k, message, rfl, hlt, hcontents⟩⟩
    · cases hw
      obtain ⟨hend, hcontents⟩ := h.write bytes
      exact ⟨hend, Or.inl ⟨rfl, hcontents⟩⟩
  · cases hw
    obtain ⟨hend, hcontents⟩ := h.write bytes
    exact ⟨hend, Or.inl ⟨rfl, hcontents⟩⟩

end File

/-! ## 2. The accumulator -/

def spoolThresholdBytes : Nat := 1024 * 1024

inductive BodyAccumulator where
  | inMemory (buf : Bytes)
  | spooled (file : File)
  deriving DecidableEq, Repr

/-- An error of `std::io`, with `ruby.exception_runtime_error()`. -/
def ioError (message : String) : RubyError := ⟨.runtimeError, message⟩

/-- `spool_chunk`. -/
def spoolChunk (io : SpoolIo) (acc : BodyAccumulator) (bytes : Bytes) :
    BodyAccumulator × Except RubyError Unit :=
  match acc with
  | .inMemory buf =>
    if buf.length + bytes.length > spoolThresholdBytes then
      match io.tempfile with
      | .error message => (.inMemory buf, .error (ioError message))
      | .ok (faults, readFault) =>
        let file : File := { contents := [], cursor := 0, faults, readFault }
        match file.writeAll buf io.bufferedFault with
        | (_, .error message) => (.inMemory buf, .error (ioError message))
        | (file, .ok ()) =>
          match file.writeAll bytes io.chunkFault with
          | (_, .error message) => (.inMemory buf, .error (ioError message))
          | (file, .ok ()) => (.spooled file, .ok ())
    else (.inMemory (buf ++ bytes), .ok ())
  | .spooled file =>
    match file.writeAll bytes io.chunkFault with
    | (file, .error message) => (.spooled file, .error (ioError message))
    | (file, .ok ()) => (.spooled file, .ok ())

/-- `collect_chunk`. -/
def collectChunk (io : SpoolIo) (acc : BodyAccumulator) :
    Chunk → BodyAccumulator × Except RubyError Unit
  | .absent => (acc, .error ⟨.typeError, "Rack body#each yielded with no argument"⟩)
  | .notString message => (acc, .error ⟨.typeError, message⟩)
  | .string bytes => spoolChunk io acc bytes

namespace BodyAccumulator

/-- What has been collected. -/
def bytes : BodyAccumulator → Bytes
  | .inMemory buf => buf
  | .spooled file => file.contents

/-- The last `match` of `read_body`. -/
def toResponseBody : BodyAccumulator → ResponseBody
  | .inMemory buf => .inMemory buf
  | .spooled file => .spooled file

/-- In memory up to the threshold, and in a file, with its cursor at the end, beyond. -/
def Sized : BodyAccumulator → Prop
  | .inMemory buf => buf.length ≤ spoolThresholdBytes
  | .spooled file => file.AtEnd ∧ spoolThresholdBytes < file.contents.length

theorem sized_nil : (inMemory []).Sized := Nat.zero_le _

@[simp] theorem bytes_toResponseBody (acc : BodyAccumulator) :
    acc.toResponseBody.bytes = acc.bytes := by
  cases acc <;> rfl

end BodyAccumulator

/-- What a chunk that fails loses: a non-empty part of itself. -/
theorem spoolChunk_cases {io : SpoolIo} {acc acc' : BodyAccumulator} {bytes : Bytes}
    {r : Except RubyError Unit} (hs : acc.Sized) (h : spoolChunk io acc bytes = (acc', r)) :
    acc'.Sized ∧ ((r = .ok () ∧ acc'.bytes = acc.bytes ++ bytes) ∨
      ∃ e, r = .error e ∧ acc'.bytes.length < acc.bytes.length + bytes.length) := by
  cases acc with
  | inMemory buf =>
    have hbuf : buf.length ≤ spoolThresholdBytes := hs
    simp only [spoolChunk] at h
    split at h
    · rename_i hover
      have hlost : buf.length < buf.length + bytes.length := by omega
      split at h
      · rename_i message _
        cases h
        exact ⟨hs, Or.inr ⟨_, rfl, hlost⟩⟩
      · rename_i faults readFault _
        have hnew : File.AtEnd { contents := [], cursor := 0, faults, readFault } := rfl
        split at h
        · rename_i message _
          cases h
          exact ⟨hs, Or.inr ⟨_, rfl, hlost⟩⟩
        · rename_i file hbuffered
          obtain ⟨hend, hall | ⟨k, message, hfail, -⟩⟩ := hnew.writeAll hbuffered
          · split at h
            · rename_i message _
              cases h
              exact ⟨hs, Or.inr ⟨_, rfl, hlost⟩⟩
            · rename_i file' hchunk
              cases h
              obtain ⟨hend', hall' | ⟨k, message, hfail, -⟩⟩ := hend.writeAll hchunk
              · have hcontents : file'.contents = buf ++ bytes := by
                  rw [hall'.2, hall.2, List.nil_append]
                refine ⟨⟨hend', ?_⟩, Or.inl ⟨rfl, hcontents⟩⟩
                rw [hcontents, List.length_append]
                exact hover
              · cases hfail
          · cases hfail
    · rename_i hfits
      cases h
      refine ⟨?_, Or.inl ⟨rfl, rfl⟩⟩
      have hle : (buf ++ bytes).length ≤ spoolThresholdBytes := by
        rw [List.length_append]
        omega
      exact hle
  | spooled file =>
    obtain ⟨hend, hlong⟩ := hs
    simp only [spoolChunk] at h
    split at h
    · rename_i file' message hchunk
      cases h
      obtain ⟨hend', hall | ⟨k, message', -, hk, hcontents⟩⟩ := hend.writeAll hchunk
      · cases hall.1
      · have hlength : file'.contents.length = file.contents.length + k := by
          rw [hcontents, List.length_append, List.length_take_of_le (Nat.le_of_lt hk)]
        refine ⟨⟨hend', by omega⟩, Or.inr ⟨_, rfl, ?_⟩⟩
        simp only [BodyAccumulator.bytes]
        omega
    · rename_i file' hchunk
      cases h
      obtain ⟨hend', hall | ⟨k, message', hfail, -⟩⟩ := hend.writeAll hchunk
      · refine ⟨⟨hend', ?_⟩, Or.inl ⟨rfl, hall.2⟩⟩
        rw [hall.2, List.length_append]
        omega
      · cases hfail

/-! ## 3. `read_body`, and what `#each` does -/

/-- `READING_BODY` and `BODY_ACCUMULATOR`. -/
structure ThreadLocals where
  readingBody : Bool
  bodyAccumulator : BodyAccumulator
  deriving DecidableEq, Repr

namespace ThreadLocals

/-- As a thread starts out, and as `ResetOnDrop` leaves them. -/
def fresh : ThreadLocals := { readingBody := false, bodyAccumulator := .inMemory [] }

/-- As `body.block_call` finds them. -/
def reading : ThreadLocals := { readingBody := true, bodyAccumulator := .inMemory [] }

end ThreadLocals

/-- How a call of `#each` ends. -/
inductive EachEnd where
  | returned
  | raised (error : RubyError)
  /-- A panic unwinds through it. -/
  | unwound
  deriving DecidableEq, Repr

/-- A `yield` of `#each`, and what the block made of it. -/
structure Yield where
  chunk : Chunk
  result : Except RubyError Unit

/-- A call of `#each`: how it ended, what it left, and what it yielded. -/
structure EachRun where
  ended : EachEnd
  locals : ThreadLocals
  yields : List Yield

/-- How a call of `read_body` ends. -/
inductive ReadResult where
  | ok (body : ResponseBody)
  | err (error : RubyError)
  | unwound
  deriving DecidableEq, Repr

def reentrantRead : RubyError :=
  ⟨.runtimeError, "HelixRack: a Rack response body's #each triggered another request body read " ++
    "on the same thread before the first one finished -- refusing rather than silently " ++
    "corrupting either body"⟩

/-- `read_body` on a body with the given `#each`. -/
def readBody (each : ThreadLocals → EachRun) (l : ThreadLocals) : ReadResult × ThreadLocals :=
  if l.readingBody then (.err reentrantRead, { l with readingBody := true })
  else
    let run := each .reading
    let result := match run.ended with
      | .returned => .ok run.locals.bodyAccumulator.toResponseBody
      | .raised error => .err error
      | .unwound => .unwound
    -- `ResetOnDrop`, on every way out
    (result, .fresh)

/-- What a body's `#each` does next, as far as this thread's bodies are concerned. -/
inductive Script where
  | returns
  | raises (error : RubyError)
  | panics
  /-- It yields; if the block fails, that is raised at the `yield`. -/
  | yields (chunk : Chunk) (io : SpoolIo) (next : Except RubyError Unit → Script)
  /-- Something it calls reads the body with the given `#each`. -/
  | readsBody (inner : Script) (next : ReadResult → Script)

namespace Script

/-- `body.block_call("each", (), collect_chunk)`. -/
def each : Script → ThreadLocals → EachRun
  | .returns, l => ⟨.returned, l, []⟩
  | .raises error, l => ⟨.raised error, l, []⟩
  | .panics, l => ⟨.unwound, l, []⟩
  | .yields chunk io next, l =>
    let (acc, result) := collectChunk io l.bodyAccumulator chunk
    let run := (next result).each { l with bodyAccumulator := acc }
    { run with yields := ⟨chunk, result⟩ :: run.yields }
  | .readsBody inner next, l =>
    let (result, l') := readBody inner.each l
    (next result).each l'

/-- The script with every nested attempt refused out of hand: what the body does on its own. -/
def own : Script → Script
  | .returns => .returns
  | .raises error => .raises error
  | .panics => .panics
  | .yields chunk io next => .yields chunk io fun result => (next result).own
  | .readsBody _ next => (next (.err reentrantRead)).own

/-- The body yields these chunks and returns, and no I/O fails. -/
def ofChunks : List Bytes → Script
  | [] => .returns
  | chunk :: rest => .yields (.string chunk) .fine fun _ => ofChunks rest

/-- `Reached body script l`: in the course of a call of `read_body` that reads `body`, the `#each`
comes to `script` with the thread-locals `l`. -/
inductive Reached (body : Script) : Script → ThreadLocals → Prop
  | start : Reached body body .reading
  | yields {chunk : Chunk} {io : SpoolIo} {next : Except RubyError Unit → Script}
      {l : ThreadLocals} (h : Reached body (.yields chunk io next) l) :
      Reached body (next (collectChunk io l.bodyAccumulator chunk).2)
        { l with bodyAccumulator := (collectChunk io l.bodyAccumulator chunk).1 }
  | readsBody {inner : Script} {next : ReadResult → Script} {l : ThreadLocals}
      (h : Reached body (.readsBody inner next) l) :
      Reached body (next (readBody inner.each l).1) (readBody inner.each l).2

end Script

/-- One call of `read_body` after the other, with its result and what it leaves. -/
def readBodies : List Script → ThreadLocals → List (ReadResult × ThreadLocals)
  | [], _ => []
  | body :: rest, l => readBody body.each l :: readBodies rest (readBody body.each l).2

/-! ## 4. Calls keep apart -/

/-- A call that finds the flag set is refused, and changes nothing. -/
theorem readBody_of_reading {each : ThreadLocals → EachRun} {l : ThreadLocals}
    (h : l.readingBody = true) : readBody each l = (.err reentrantRead, l) := by
  cases l
  cases h
  rfl

/-- A call that does not leaves the thread-locals fresh, however it ends. -/
theorem readBody_of_not_reading {each : ThreadLocals → EachRun} {l : ThreadLocals}
    (h : l.readingBody = false) : readBody each l = readBody each .fresh := by
  simp only [readBody, h, ThreadLocals.fresh, Bool.false_eq_true, if_false]

theorem readBody_fresh_locals (each : ThreadLocals → EachRun) :
    (readBody each .fresh).2 = .fresh := rfl

namespace Script

/-- The flag stays up through the whole `#each`. -/
theorem Reached.readingBody {body script : Script} {l : ThreadLocals}
    (h : Reached body script l) : l.readingBody = true := by
  induction h with
  | start => rfl
  | yields h ih => exact ih
  | readsBody h ih =>
    rw [readBody_of_reading ih]
    exact ih

/-- Under the flag, the nested attempts might as well not be made. -/
theorem each_own (body : Script) {l : ThreadLocals} (h : l.readingBody = true) :
    body.own.each l = body.each l := by
  induction body generalizing l with
  | returns => rfl
  | raises error => rfl
  | panics => rfl
  | yields chunk io next ih =>
    rcases hcollect : collectChunk io l.bodyAccumulator chunk with ⟨acc, r⟩
    simp only [own, each, hcollect]
    have hrest : (next r).own.each { l with bodyAccumulator := acc } =
        (next r).each { l with bodyAccumulator := acc } := ih r h
    rw [hrest]
  | readsBody inner next ihInner ih =>
    simp only [own, each]
    rw [readBody_of_reading h]
    exact ih _ h

theorem readBody_own (body : Script) :
    readBody body.own.each .fresh = readBody body.each .fresh := by
  simp only [readBody, each_own body (l := .reading) rfl]

end Script

/-- **Body reads keep apart.**  A nested attempt, wherever it is made, is refused and leaves the
thread-locals as they are.  Calls made one after the other each end with the flag down and the
accumulator empty, and each with the result that its body would have had in a fresh thread, with
no nested attempt made at all. -/
theorem body_reads_apart :
    (∀ (body inner : Script) (next : ReadResult → Script) (l : ThreadLocals),
      body.Reached (.readsBody inner next) l → readBody inner.each l = (.err reentrantRead, l)) ∧
    ∀ (bodies : List Script),
      readBodies bodies .fresh =
        bodies.map fun body => ((readBody body.own.each .fresh).1, ThreadLocals.fresh) := by
  refine ⟨fun body inner next l h => readBody_of_reading h.readingBody, fun bodies => ?_⟩
  induction bodies with
  | nil => rfl
  | cons body rest ih =>
    rw [readBodies, List.map_cons, readBody_fresh_locals, ih, body.readBody_own]
    rfl

/-- A body that makes a nested attempt, in front of one that panics and one that just yields. -/
theorem body_reads_apart_nested :
    (Script.readsBody (.ofChunks [[1]]) fun _ => .ofChunks [[2]]).Reached
        (.readsBody (.ofChunks [[1]]) fun _ => .ofChunks [[2]]) .reading ∧
      readBody (Script.ofChunks [[1]]).each .reading = (.err reentrantRead, .reading) ∧
      readBodies [.readsBody (.ofChunks [[1]]) fun _ => .ofChunks [[2]],
          .yields (.string [3]) .fine fun _ => .panics, .ofChunks [[4], [5]]] .fresh =
        [(.ok (.inMemory [2]), .fresh), (.unwound, .fresh), (.ok (.inMemory [4, 5]), .fresh)] :=
  ⟨.start,
    body_reads_apart.1 (.readsBody (.ofChunks [[1]]) fun _ => .ofChunks [[2]]) _ _ _ .start,
    (body_reads_apart.2 _).trans (by decide)⟩

/-! ## 5. What a call of `#each` collects -/

namespace Yield

/-- The bytes of the chunk, if it is a `String`. -/
def bytes (y : Yield) : Bytes :=
  match y.chunk with
  | .string bytes => bytes
  | .absent | .notString _ => []

/-- The block raised an error. -/
def Failed (y : Yield) : Prop := ∃ error, y.result = .error error

/-- A `String` of which something is missing. -/
def lost (y : Yield) : Nat :=
  match y.chunk, y.result with
  | .string _, .error _ => 1
  | _, _ => 0

end Yield

/-- Everything yielded, in order. -/
def yieldedBytes (yields : List Yield) : Bytes := yields.flatMap Yield.bytes

/-- What one `yield` adds to the accumulator. -/
theorem collectChunk_cases {io : SpoolIo} {acc acc' : BodyAccumulator} {chunk : Chunk}
    {r : Except RubyError Unit} (hs : acc.Sized) (h : collectChunk io acc chunk = (acc', r)) :
    acc'.Sized ∧
      acc'.bytes.length + (Yield.lost ⟨chunk, r⟩) ≤
        acc.bytes.length + (Yield.bytes ⟨chunk, r⟩).length ∧
      (r = .ok () → (∃ bytes, chunk = .string bytes) ∧
        acc'.bytes = acc.bytes ++ Yield.bytes ⟨chunk, r⟩) := by
  cases chunk with
  | absent | notString message =>
    cases h
    exact ⟨hs, Nat.le_refl _, nofun⟩
  | string bytes =>
    obtain ⟨hs', ⟨rfl, hbytes⟩ | ⟨e, rfl, hlt⟩⟩ := spoolChunk_cases hs h
    · refine ⟨hs', ?_, fun _ => ⟨⟨bytes, rfl⟩, hbytes⟩⟩
      simp only [hbytes, Yield.lost, Yield.bytes, List.length_append, Nat.add_zero, Nat.le_refl]
    · exact ⟨hs', hlt, nofun⟩

/-- **What `#each` has collected when it ends.**  Whatever failed on the way: the accumulator is
in memory up to the threshold, and it is shorter than what was yielded by a byte at least for
every chunk that failed.  If nothing failed, it is what was yielded. -/
theorem Script.each_collects (body : Script) {l : ThreadLocals} (hl : l.readingBody = true)
    (hs : l.bodyAccumulator.Sized) :
    (body.each l).locals.bodyAccumulator.Sized ∧
      (body.each l).locals.bodyAccumulator.bytes.length +
          ((body.each l).yields.map Yield.lost).sum ≤
        l.bodyAccumulator.bytes.length + (yieldedBytes (body.each l).yields).length ∧
      ((∀ y ∈ (body.each l).yields, ¬ y.Failed) →
        (∀ y ∈ (body.each l).yields, ∃ bytes, y.chunk = .string bytes) ∧
          (body.each l).locals.bodyAccumulator.bytes =
            l.bodyAccumulator.bytes ++ yieldedBytes (body.each l).yields) := by
  induction body generalizing l with
  | returns | raises error | panics =>
    refine ⟨hs, Nat.le_refl _, fun _ => ⟨nofun, ?_⟩⟩
    exact (List.append_nil _).symm
  | readsBody inner next ihInner ih =>
    simp only [each]
    rw [readBody_of_reading hl]
    exact ih _ hl hs
  | yields chunk io next ih =>
    rcases hcollect : collectChunk io l.bodyAccumulator chunk with ⟨acc, r⟩
    obtain ⟨hs', hlen, hok⟩ := collectChunk_cases hs hcollect
    obtain ⟨hsized, hlens, hall⟩ := ih r (l := { l with bodyAccumulator := acc }) hl hs'
    simp only [each, hcollect, yieldedBytes, List.flatMap_cons, List.map_cons, List.sum_cons,
      List.length_append] at hlens ⊢
    refine ⟨hsized, by omega, fun hnone => ?_⟩
    have hfirst : r = .ok () := by
      cases r with
      | ok u => rfl
      | error e => exact absurd ⟨e, rfl⟩ (hnone _ List.mem_cons_self)
    obtain ⟨hstring, hbytes⟩ := hok hfirst
    obtain ⟨hstrings, hrest⟩ := hall fun y hy => hnone y (List.mem_cons_of_mem _ hy)
    refine ⟨fun y hy => ?_, ?_⟩
    · rcases List.mem_cons.mp hy with rfl | hy
      · exact hstring
      · exact hstrings y hy
    · rw [hrest, hbytes, List.append_assoc]
      rfl

/-- At no point does the accumulator hold more than the threshold in memory. -/
theorem Script.Reached.sized {body script : Script} {l : ThreadLocals}
    (h : Reached body script l) : l.bodyAccumulator.Sized := by
  induction h with
  | start => exact BodyAccumulator.sized_nil
  | @yields chunk io next l h ih =>
    rcases hcollect : collectChunk io l.bodyAccumulator chunk with ⟨acc, r⟩
    exact (collectChunk_cases ih hcollect).1
  | readsBody h ih =>
    rw [readBody_of_reading h.readingBody]
    exact ih

/-! ## 6. Holes -/

/-- The chunks stand in the bytes, each in full, one behind the other. -/
def Present : List Chunk → Bytes → Prop
  | [], _ => True
  | .string chunk :: rest, bytes =>
    ∃ before after, bytes = before ++ chunk ++ after ∧ Present rest after
  | .absent :: _, _ | .notString _ :: _, _ => False

theorem Present.length_le {yields : List Yield} {bytes : Bytes}
    (h : Present (yields.map Yield.chunk) bytes) :
    (yieldedBytes yields).length ≤ bytes.length ∧
      ∀ y ∈ yields, ∃ chunk, y.chunk = .string chunk := by
  induction yields generalizing bytes with
  | nil => exact ⟨Nat.zero_le _, nofun⟩
  | cons y rest ih =>
    rw [List.map_cons] at h
    cases hc : y.chunk with
    | absent | notString message =>
      rw [hc] at h
      cases h
    | string chunk =>
      rw [hc] at h
      obtain ⟨before, after, rfl, hrest⟩ := h
      obtain ⟨hle, hstrings⟩ := ih hrest
      refine ⟨?_, fun y' hy' => ?_⟩
      · simp only [yieldedBytes, List.flatMap_cons, List.length_append, Yield.bytes, hc] at hle ⊢
        omega
      · rcases List.mem_cons.mp hy' with rfl | hy'
        · exact ⟨chunk, hc⟩
        · exact hstrings y' hy'

theorem present_yieldedBytes {yields : List Yield}
    (h : ∀ y ∈ yields, ∃ bytes, y.chunk = .string bytes) :
    Present (yields.map Yield.chunk) (yieldedBytes yields) := by
  induction yields with
  | nil => trivial
  | cons y rest ih =>
    obtain ⟨bytes, hc⟩ := h y List.mem_cons_self
    rw [List.map_cons, hc]
    refine ⟨[], yieldedBytes rest, ?_, ih fun y' hy' => h y' (List.mem_cons_of_mem _ hy')⟩
    simp only [yieldedBytes, List.flatMap_cons, Yield.bytes, hc, List.nil_append]

/-- **A body without a hole.**  A body that `read_body` returns has every chunk that was yielded,
in full and in order, if and only if `#each` does not return after a yield has failed. -/
theorem no_hole_iff (body : Script) {l : ThreadLocals} (hl : l.readingBody = false) :
    (∀ response, (readBody body.each l).1 = .ok response →
        Present ((body.each .reading).yields.map Yield.chunk) response.bytes) ↔
      ((body.each .reading).ended = .returned →
        ∀ y ∈ (body.each .reading).yields, ¬ y.Failed) := by
  obtain ⟨-, hlen, hall⟩ := body.each_collects (l := .reading) rfl BodyAccumulator.sized_nil
  have hresult : ∀ response, (readBody body.each l).1 = .ok response ↔
      (body.each .reading).ended = .returned ∧
        response = (body.each .reading).locals.bodyAccumulator.toResponseBody := by
    intro response
    simp only [readBody, hl, Bool.false_eq_true, if_false]
    cases (body.each .reading).ended with
    | returned => simp only [ReadResult.ok.injEq, true_and, eq_comm]
    | raised error | unwound => simp only [reduceCtorEq, false_and]
  constructor
  · intro hpresent hret y hy hfailed
    have hin := hpresent _ ((hresult _).mpr ⟨hret, rfl⟩)
    obtain ⟨hle, hstrings⟩ := hin.length_le
    obtain ⟨bytes, hc⟩ := hstrings y hy
    obtain ⟨e, he⟩ := hfailed
    -- the chunk that failed is shorter in the body than it was yielded
    have hlost : 0 < y.lost := by simp only [Yield.lost, hc, he, Nat.lt_succ_self]
    have hsum : 0 < ((body.each .reading).yields.map Yield.lost).sum :=
      List.sum_pos_iff_exists_pos_nat.mpr ⟨y.lost, List.mem_map_of_mem hy, hlost⟩
    rw [BodyAccumulator.bytes_toResponseBody] at hle
    simp only [ThreadLocals.reading, BodyAccumulator.bytes, List.length_nil] at hlen hle hsum
    omega
  · rintro hnone response hok
    obtain ⟨hret, rfl⟩ := (hresult response).mp hok
    obtain ⟨hstrings, hbytes⟩ := hall (hnone hret)
    rw [BodyAccumulator.bytes_toResponseBody, hbytes]
    exact present_yieldedBytes hstrings

theorem no_hole_small :
    (∀ response, (readBody (Script.ofChunks [[1], [2, 3]]).each .fresh).1 = .ok response →
        Present (((Script.ofChunks [[1], [2, 3]]).each .reading).yields.map Yield.chunk)
          response.bytes) ↔
      (((Script.ofChunks [[1], [2, 3]]).each .reading).ended = .returned →
        ∀ y ∈ ((Script.ofChunks [[1], [2, 3]]).each .reading).yields, ¬ y.Failed) :=
  no_hole_iff (Script.ofChunks [[1], [2, 3]]) rfl

/-- No tempfile can be created for the first chunk; `#each` rescues the error and yields another
one. -/
def Script.rescues (large : Bytes) : Script :=
  .yields (.string large) { SpoolIo.fine with tempfile := .error "No space left on device" }
    fun _ => .yields (.string [1]) .fine fun _ => .returns

/-- The second chunk is served alone. -/
theorem rescues_each {large : Bytes} (h : spoolThresholdBytes < large.length) :
    (Script.rescues large).each .reading = ⟨.returned, ⟨true, .inMemory [1]⟩,
      [⟨.string large, .error (ioError "No space left on device")⟩, ⟨.string [1], .ok ()⟩]⟩ := by
  have hover : ([] : Bytes).length + large.length > spoolThresholdBytes := by
    rw [List.length_nil]
    omega
  have hfirst : spoolChunk { SpoolIo.fine with tempfile := .error "No space left on device" }
      (.inMemory []) large = (.inMemory [], .error (ioError "No space left on device")) := by
    simp only [spoolChunk, if_pos hover]
  have hsecond : spoolChunk .fine (.inMemory []) [1] = (.inMemory [1], .ok ()) := by decide
  simp only [Script.rescues, Script.each, ThreadLocals.reading, collectChunk, hfirst, hsecond]

theorem hole_served :
    ¬ ∀ (body : Script) (l : ThreadLocals), l.readingBody = false →
      ∀ response, (readBody body.each l).1 = .ok response →
        Present ((body.each .reading).yields.map Yield.chunk) response.bytes := by
  intro hall
  have hlarge :
      spoolThresholdBytes < (List.replicate (spoolThresholdBytes + 1) 0 : Bytes).length := by
    rw [List.length_replicate]
    exact Nat.lt_succ_self _
  have hhole : ∀ large : Bytes, spoolThresholdBytes < large.length → False := by
    intro large hlarge
    have hok : (readBody (Script.rescues large).each .fresh).1 = .ok (.inMemory [1]) := by
      simp only [readBody, ThreadLocals.fresh, Bool.false_eq_true, if_false, rescues_each hlarge,
        BodyAccumulator.toResponseBody]
    have hpresent := hall (Script.rescues large) .fresh rfl _ hok
    rw [rescues_each hlarge] at hpresent
    have hle := hpresent.length_le.1
    simp only [yieldedBytes, List.flatMap_cons, List.flatMap_nil, Yield.bytes, ResponseBody.bytes,
      List.length_append, List.length_cons, List.length_nil] at hle
    simp only [spoolThresholdBytes] at hlarge
    omega
  exact hhole _ hlarge

end HelixRack
