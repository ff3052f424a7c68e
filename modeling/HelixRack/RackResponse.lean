/-
# From a Rack response to a `HandlerResponse`

`RackAppHandler::handle` of `ext/helix_rack/src/lib.rs` takes the triple a Rack app returns through
a chain of conversions, and `Handler::call` turns whatever fails on the way into a 500.  Ruby and
magnus are outside the repository: the app is a function, and the three conversions of magnus are
parameters (`Magnus`) with their documented behaviour apart (`Magnus.Documented`).

`translated_iff` says which of the responses that Rack 3 allows get through: those without an
Array among the header values, in text that can be had as UTF-8, unless the thread is in the
middle of another body.
-/
import HelixRack.RackEnv
import HelixRack.StreamedBody
import Mathlib.Data.List.Forall2

namespace HelixRack

/-! ## 1. Ruby values, and magnus -/

/-- A Ruby `String`. -/
structure RString where
  bytes : Bytes
  encoding : String
  deriving DecidableEq, Repr

/-- A Ruby object, as far as it plays a part in a response. -/
inductive RubyValue where
  | integer (n : Int)
  | string (s : RString)
  | array (elements : List RubyValue)
  | hash (entries : List (RubyValue × RubyValue))
  | object (id : Nat)

/-- The conversions of magnus that `handle` calls. -/
structure Magnus where
  /-- `RString::to_string`: the text in UTF-8. -/
  toText : RString → Except RubyError String
  /-- `(u16, RHash, Value)::try_convert`. -/
  toTriple : RubyValue → Except RubyError (UInt16 × List (RubyValue × RubyValue) × RubyValue)
  /-- `RHash::to_vec::<String, String>`. -/
  toVec : List (RubyValue × RubyValue) → Except RubyError (List (String × String))

namespace Magnus

variable (m : Magnus)

/-- Key and value of a header, as text. -/
def toField (field : RString × RString) : Except RubyError (String × String) := do
  let name ← m.toText field.1
  let value ← m.toText field.2
  return (name, value)

/-- What magnus documents of the conversions. -/
structure Documented : Prop where
  /-- An Array of an Integer that fits, a Hash and anything is such a triple. -/
  triple : ∀ (status : Int) entries body, 0 ≤ status → status < 65536 →
    m.toTriple (.array [.integer status, .hash entries, body]) =
      .ok (UInt16.ofNat status.toNat, entries, body)
  /-- Keys and values that are Strings are converted one after the other. -/
  strings : ∀ fields : List (RString × RString),
    m.toVec (fields.map fun (k, v) => (.string k, .string v)) = fields.mapM m.toField
  /-- A value that is not a String is an error. -/
  not_string : ∀ entries : List (RubyValue × RubyValue),
    (∃ entry ∈ entries, ∀ s, entry.2 ≠ .string s) → ∃ e, m.toVec entries = .error e

end Magnus

/-- A traversal that may fail succeeds just when it does so at each element. -/
theorem mapM_eq_ok_iff {α β ε : Type} {f : α → Except ε β} {xs : List α} {ys : List β} :
    xs.mapM f = .ok ys ↔ List.Forall₂ (fun x y => f x = .ok y) xs ys := by
  induction xs generalizing ys with
  | nil =>
    rw [List.mapM_nil, List.forall₂_nil_left_iff]
    exact ⟨fun h => (Except.ok.inj h).symm, fun h => congrArg Except.ok h.symm⟩
  | cons x xs ih =>
    rw [List.mapM_cons]
    cases hx : f x with
    | error e =>
      constructor
      · intro h
        cases h
      · intro h
        cases h with
        | cons hy _ => rw [hx] at hy; cases hy
    | ok y =>
      cases hxs : xs.mapM f with
      | error e =>
        constructor
        · intro h
          cases h
        · intro h
          cases h with
          | cons hy hys => rw [ih.mpr hys] at hxs; cases hxs
      | ok zs =>
        constructor
        · intro h
          cases h
          exact .cons hx (ih.mp hxs)
        · intro h
          cases h with
          | cons hy hys =>
            rw [ih.mpr hys] at hxs
            rw [hx] at hy
            cases hy
            cases hxs
            rfl

theorem exists_mapM_eq_ok_iff {α β ε : Type} {f : α → Except ε β} {xs : List α} :
    (∃ ys, xs.mapM f = .ok ys) ↔ ∀ x ∈ xs, ∃ y, f x = .ok y := by
  simp only [mapM_eq_ok_iff]
  induction xs with
  | nil => exact ⟨fun _ _ hx => absurd hx List.not_mem_nil, fun _ => ⟨[], .nil⟩⟩
  | cons x xs ih =>
    rw [List.forall_mem_cons, ← ih]
    constructor
    · rintro ⟨_, _ | ⟨hy, hys⟩⟩
      exact ⟨⟨_, hy⟩, _, hys⟩
    · rintro ⟨⟨y, hy⟩, ys, hys⟩
      exact ⟨y :: ys, .cons hy hys⟩

/-! ## 2. The handler -/

/-- `RackAppHandler`, with the app behind it and what the app remembers from one call to the
next. -/
structure RackAppHandler (σ : Type) where
  /-- `app.call(env)`. -/
  app : σ → Env → Except RubyError RubyValue × σ
  /-- What the `#each` of a body does. -/
  each : σ → RubyValue → Script × σ
  /-- How the Ruby calls of `build_env` go. -/
  ruby : σ → RubyCalls
  magnus : Magnus
  port : String
  debugPanicHeaderEnabled : Bool

/-- How a call of `handle` ends. -/
inductive Handled where
  | ok (response : HandlerResponse)
  | err (error : RubyError)
  | panicked
  deriving DecidableEq, Repr

/-- `error_response`. -/
def errorResponse : HandlerResponse :=
  let body := asBytes "Internal Server Error\n"
  { status := 500
    headers := [("content-type", "text/plain; charset=utf-8"),
      ("content-length", toString body.length)]
    body := .inMemory body }

namespace RackAppHandler

variable {σ : Type} (h : RackAppHandler σ)

/-- The deliberate panic of `handle`. -/
def debugPanics (req : ParsedRequest) : Bool :=
  h.debugPanicHeaderEnabled && req.headers.any fun (name, value) =>
    eqIgnoreAsciiCase name "x-helixrack-debug-panic" && value == "1"

/-- `handle` from the app's return value on. -/
def translate (s : σ) (l : ThreadLocals) (value : RubyValue) : Handled × σ × ThreadLocals :=
  match h.magnus.toTriple value with
  | .error e => (.err e, s, l)
  | .ok (status, headers, body) =>
    match h.magnus.toVec headers with
    | .error e => (.err e, s, l)
    | .ok headers =>
      let (script, each) := h.each s body
      -- where `read_body` refuses, `#each` is not called
      let s := if l.readingBody then s else each
      match readBody script.each l with
      | (.ok body, l) => (.ok { status, headers, body }, s, l)
      | (.err e, l) => (.err e, s, l)
      | (.unwound, l) => (.panicked, s, l)

/-- `RackAppHandler::handle`. -/
def handle (s : σ) (l : ThreadLocals) (req : ParsedRequest) : Handled × σ × ThreadLocals :=
  if h.debugPanics req then (.panicked, s, l)
  else match buildEnv h.port (h.ruby s) req with
    | .error e => (.err e, s, l)
    | .ok env =>
      match h.app s env with
      | (.error e, s) => (.err e, s, l)
      | (.ok value, s) => h.translate s l value

/-- `Handler::call`: what went wrong is caught, and answered with a 500. -/
def call : Handler (σ × ThreadLocals) := fun (s, l) req =>
  let (handled, s, l) := h.handle s l req
  let response := match handled with
    | .ok response => response
    | .err _ | .panicked => errorResponse
  (some response, (s, l))

variable {h}

/-- Where the app returns, `handle` translates what it returned. -/
theorem handle_of_app {s s' : σ} {l : ThreadLocals} {req : ParsedRequest} {env : Env}
    {value : RubyValue} (hpanic : h.debugPanics req = false)
    (henv : buildEnv h.port (h.ruby s) req = .ok env) (happ : h.app s env = (.ok value, s')) :
    h.handle s l req = h.translate s' l value := by
  simp only [handle, hpanic, Bool.false_eq_true, if_false, henv, happ]

end RackAppHandler

/-! ## 3. The responses that Rack 3 allows -/

/-- A header value of Rack 3: a String, or an Array of Strings, each a header of its own. -/
inductive RackValue where
  | one (s : RString)
  | many (ss : List RString)
  deriving DecidableEq, Repr

namespace RackValue

/-- As the app returns it. -/
def toRuby : RackValue → RubyValue
  | .one s => .string s
  | .many ss => .array (ss.map .string)

/-- The Strings in it, in order. -/
def strings : RackValue → List RString
  | .one s => [s]
  | .many ss => ss

end RackValue

/-- The header Hash that the app returns. -/
def rackHash (fields : List (RString × RackValue)) : List (RubyValue × RubyValue) :=
  fields.map fun (name, value) => (.string name, value.toRuby)

/-- One field for each String value and each element of an Array. -/
def rackFields (fields : List (RString × RackValue)) : List (RString × RString) :=
  fields.flatMap fun (name, value) => value.strings.map fun s => (name, s)

/-- `handle` has translated a response: the same status, a header for each field, in order and
with the same text, and a body that holds the chunks. -/
def Translated (m : Magnus) (status : Int) (fields : List (RString × RackValue))
    (chunks : List Bytes) (handled : Handled) : Prop :=
  ∃ response, handled = .ok response ∧ (response.status.toNat : Int) = status ∧
    List.Forall₂ (fun field header => m.toField field = .ok header) (rackFields fields)
      response.headers ∧
    response.body.bytes = chunks.flatten

/-- Without Arrays, the Hash has Strings only... -/
theorem rackHash_of_one {fields : List (RString × RackValue)}
    (h : ∀ field ∈ fields, ∃ s, field.2 = .one s) :
    rackHash fields = (rackFields fields).map fun (k, v) => (.string k, .string v) := by
  induction fields with
  | nil => rfl
  | cons field fields ih =>
    obtain ⟨name, value⟩ := field
    obtain ⟨s, rfl⟩ : ∃ s, value = .one s := h _ List.mem_cons_self
    have hrest := ih fun field hmem => h field (List.mem_cons_of_mem _ hmem)
    rw [rackHash] at hrest
    rw [rackHash, List.map_cons, hrest]
    rfl

/-- ...and with one, it has a value that is none. -/
theorem not_string_of_many {fields : List (RString × RackValue)}
    (h : ¬ ∀ field ∈ fields, ∃ s, field.2 = .one s) :
    ∃ entry ∈ rackHash fields, ∀ s, entry.2 ≠ .string s := by
  simp only [not_forall, not_exists] at h
  obtain ⟨⟨name, value⟩, hmem, hmany⟩ := h
  refine ⟨(.string name, value.toRuby), List.mem_map.mpr ⟨(name, value), hmem, rfl⟩, ?_⟩
  intro s
  cases value with
  | one s => exact absurd rfl (hmany s)
  | many ss =>
    intro heq
    cases heq

/-! ## 4. Which of them get through -/

namespace RackAppHandler

variable {σ : Type} {h : RackAppHandler σ}

/-- **Which responses are translated.**  Of the triples that Rack 3 allows, returned by the app
and with a body that yields its chunks without an I/O error, `handle` translates those without an
Array among the header values, whose names and values can be had as text, where no other body is
being read.  Every other one is an error. -/
theorem translated_iff (hm : h.magnus.Documented) {s s' s'' : σ} {l : ThreadLocals}
    {req : ParsedRequest} {env : Env} {status : Int} {fields : List (RString × RackValue)}
    {body : RubyValue} {script : Script} {chunks : List Bytes}
    (hpanic : h.debugPanics req = false) (henv : buildEnv h.port (h.ruby s) req = .ok env)
    (happ : h.app s env = (.ok (.array [.integer status, .hash (rackHash fields), body]), s'))
    (hstatus : 100 ≤ status ∧ status ≤ 999) (hbody : h.each s' body = (script, s''))
    (hchunks : script.Yields chunks) :
    Translated h.magnus status fields chunks (h.handle s l req).1 ↔
      (∀ field ∈ fields, ∃ t, field.2 = .one t) ∧
        (∀ field ∈ rackFields fields, ∃ header, h.magnus.toField field = .ok header) ∧
        l.readingBody = false := by
  have htriple := hm.triple status (rackHash fields) body (by omega) (by omega)
  rw [handle_of_app hpanic henv happ, translate, htriple]
  simp only
  by_cases hone : ∀ field ∈ fields, ∃ t, field.2 = .one t
  · rw [rackHash_of_one hone, hm.strings]
    cases hvec : (rackFields fields).mapM h.magnus.toField with
    | error e =>
      constructor
      · rintro ⟨response, hok, -⟩
        cases hok
      · rintro ⟨-, htext, -⟩
        obtain ⟨headers, hok⟩ := exists_mapM_eq_ok_iff.mpr htext
        rw [hvec] at hok
        cases hok
    | ok headers =>
      have hheaders := mapM_eq_ok_iff.mp hvec
      have htext := exists_mapM_eq_ok_iff.mp ⟨headers, hvec⟩
      have hnumber : ((UInt16.ofNat status.toNat).toNat : Int) = status := by
        rw [UInt16.toNat_ofNat_of_lt' (by change _ < 2 ^ 16; omega)]
        omega
      simp only [hbody]
      cases hl : l.readingBody with
      | true =>
        rw [readBody_of_reading hl]
        constructor
        · rintro ⟨response, hok, -⟩
          cases hok
        · rintro ⟨-, -, hfree⟩
          cases hfree
      | false =>
        rw [hchunks.readBody_eq hl]
        refine ⟨fun _ => ⟨hone, htext, rfl⟩, fun _ => ⟨_, rfl, hnumber, hheaders, ?_⟩⟩
        simp only [BodyAccumulator.bytes_toResponseBody, BodyAccumulator.bytes_holding]
  · obtain ⟨e, herr⟩ := hm.not_string _ (not_string_of_many hone)
    rw [herr]
    constructor
    · rintro ⟨response, hok, -⟩
      cases hok
    · exact fun hall => absurd hall.1 hone

end RackAppHandler

/-! ## 5. An app that sets cookies -/

namespace Cookies

/-- The text of a String, taken to be in UTF-8. -/
def text (s : RString) : Except RubyError String :=
  match fromUtf8 s.bytes with
  | some text => .ok text
  | none => .error ⟨.other "EncodingError", "invalid byte sequence in UTF-8"⟩

/-- One entry of `to_vec::<String, String>`. -/
def entry : RubyValue × RubyValue → Except RubyError (String × String)
  | (.string name, .string value) => do
    let name ← text name
    let value ← text value
    return (name, value)
  | _ => .error ⟨.typeError, "no implicit conversion into String"⟩

/-- The conversions of magnus, for Strings in UTF-8. -/
def magnus : Magnus where
  toText := text
  toTriple
    | .array [.integer status, .hash entries, body] =>
      if 0 ≤ status ∧ status < 65536 then .ok (UInt16.ofNat status.toNat, entries, body)
      else .error ⟨.other "RangeError", "integer out of range for unsigned short"⟩
    | _ => .error ⟨.typeError, "no implicit conversion into Array"⟩
  toVec entries := entries.mapM entry

theorem magnus_documented : magnus.Documented where
  triple status entries body h0 h16 := if_pos ⟨h0, h16⟩
  strings fields := List.mapM_map
  not_string entries hnot := by
    obtain ⟨⟨name, value⟩, hmem, hvalue⟩ := hnot
    cases hvec : entries.mapM entry with
    | error e => exact ⟨e, hvec⟩
    | ok headers =>
      obtain ⟨header, hok⟩ := exists_mapM_eq_ok_iff.mp ⟨headers, hvec⟩ _ hmem
      cases name with
      | string s =>
        cases value with
        | string t => exact absurd rfl (hvalue t)
        | integer | array | hash | object => cases hok
      | integer | array | hash | object => cases hok

def ascii (s : String) : RString := ⟨asBytes s, "UTF-8"⟩

theorem toField_ascii (name value : String) :
    magnus.toField (ascii name, ascii value) = .ok (name, value) := by
  have htext : ∀ s, magnus.toText (ascii s) = .ok s := fun s => by
    simp only [magnus, text, ascii, fromUtf8_asBytes]
  simp only [Magnus.toField, htext]
  rfl

/-- An app that answers everything with these header fields and the body `ok`. -/
def handler (fields : List (RString × RackValue)) : RackAppHandler Unit where
  app _ _ := (.ok (.array [.integer 200, .hash (rackHash fields), .object 1]), ())
  each _ _ := (.ofChunks [asBytes "ok"], ())
  ruby _ := .fine
  magnus := magnus
  port := "8080"
  debugPanicHeaderEnabled := false

/-- `set-cookie` with one value. -/
def single : List (RString × RackValue) := [(ascii "set-cookie", .one (ascii "a=1"))]

/-- `set-cookie` with two. -/
def double : List (RString × RackValue) :=
  [(ascii "set-cookie", .many [ascii "a=1", ascii "b=2"])]

end Cookies

theorem translated_one_cookie :
    Translated Cookies.magnus 200 Cookies.single [asBytes "ok"]
      ((Cookies.handler Cookies.single).handle () .fresh (Echo.get [])).1 := by
  refine (RackAppHandler.translated_iff (h := Cookies.handler Cookies.single)
    Cookies.magnus_documented rfl rfl rfl (by decide) rfl (Script.yields_ofChunks _)).mpr
      ⟨?_, ?_, rfl⟩
  · exact List.forall_mem_singleton.mpr ⟨_, rfl⟩
  · exact List.forall_mem_singleton.mpr ⟨_, Cookies.toField_ascii "set-cookie" "a=1"⟩

/-- **An Array is a 500**: two cookies in the form that Rack 3 has for them. -/
theorem array_value_refused :
    ¬ ∀ (σ : Type) (h : RackAppHandler σ), h.magnus.Documented →
      ∀ (s s' s'' : σ) (l : ThreadLocals) (req : ParsedRequest) (env : Env) (status : Int)
        (fields : List (RString × RackValue)) (body : RubyValue) (script : Script)
        (chunks : List Bytes), h.debugPanics req = false →
        buildEnv h.port (h.ruby s) req = .ok env →
        h.app s env = (.ok (.array [.integer status, .hash (rackHash fields), body]), s') →
        100 ≤ status ∧ status ≤ 999 → h.each s' body = (script, s'') → script.Yields chunks →
        Translated h.magnus status fields chunks (h.handle s l req).1 := by
  intro hall
  obtain ⟨response, hok, -⟩ := hall Unit (Cookies.handler Cookies.double) Cookies.magnus_documented
    () () () .fresh (Echo.get []) _ 200 Cookies.double (.object 1) _ [asBytes "ok"] rfl rfl rfl
    (by decide) rfl (Script.yields_ofChunks _)
  cases hok

end HelixRack
