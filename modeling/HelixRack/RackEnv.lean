/-
# The Rack environment of a request

`build_env` of `ext/helix_rack/src/lib.rs` puts ten keys in a fresh Hash.  Method, path, query and
body can be read back from it; the header fields are not among what goes in.  So the environments
of two requests differ just when one of these four parts does (`env_differs_iff`), and a request's
headers are nothing that the application could see (`headers_unseen`).
-/
import HelixRack.ReadBody

namespace HelixRack

/-! ## 1. The Hash -/

/-- The values that `build_env` puts in. -/
inductive EnvValue where
  | string (s : String)
  | integers (ns : List Int)
  /-- A new `StringIO` over a binary String of these bytes. -/
  | binaryInput (bytes : Bytes)
  /-- Whatever `$stderr` refers to. -/
  | stderr
  deriving DecidableEq, Repr

/-- An `RHash` with String keys, in insertion order. -/
abbrev Env := List (String × EnvValue)

namespace Env

/-- `RHash::aset`: a key that is there keeps its place. -/
def aset : Env → String → EnvValue → Env
  | [], key, value => [(key, value)]
  | entry :: rest, key, value =>
    if entry.1 = key then (key, value) :: rest else entry :: aset rest key value

end Env

/-! ## 2. `build_env` -/

/-- How the Ruby calls of one `build_env` go, those that can raise. -/
structure RubyCalls where
  /-- `Object.const_get("StringIO")`. -/
  constGet : Except RubyError Unit
  /-- `StringIO.new(body)`. -/
  stringIONew : Except RubyError Unit
  /-- `eval("$stderr")`. -/
  evalStderr : Except RubyError Unit

/-- No call raises. -/
def RubyCalls.fine : RubyCalls :=
  { constGet := .ok (), stringIONew := .ok (), evalStderr := .ok () }

/-- `RackAppHandler::build_env`; `port` is the handler's field. -/
def buildEnv (port : String) (ruby : RubyCalls) (req : ParsedRequest) : Except RubyError Env := do
  let env : Env := []
  let env := env.aset "REQUEST_METHOD" (.string req.method)
  let env := env.aset "PATH_INFO" (.string req.path)
  let env := env.aset "QUERY_STRING" (.string req.query)
  let env := env.aset "SERVER_NAME" (.string "127.0.0.1")
  let env := env.aset "SERVER_PORT" (.string port)
  let env := env.aset "SERVER_PROTOCOL" (.string "HTTP/1.1")
  let env := env.aset "rack.version" (.integers [1, 3])
  ruby.constGet
  ruby.stringIONew
  let env := env.aset "rack.input" (.binaryInput req.body)
  ruby.evalStderr
  let env := env.aset "rack.errors" .stderr
  return env.aset "rack.url_scheme" (.string "http")

/-- The Hash of a request, where no call raises. -/
def rackEnv (port : String) (req : ParsedRequest) : Env :=
  [("REQUEST_METHOD", .string req.method), ("PATH_INFO", .string req.path),
    ("QUERY_STRING", .string req.query), ("SERVER_NAME", .string "127.0.0.1"),
    ("SERVER_PORT", .string port), ("SERVER_PROTOCOL", .string "HTTP/1.1"),
    ("rack.version", .integers [1, 3]), ("rack.input", .binaryInput req.body),
    ("rack.errors", .stderr), ("rack.url_scheme", .string "http")]

/-- `build_env` builds this Hash or fails. -/
theorem buildEnv_ok {port : String} {ruby : RubyCalls} {req : ParsedRequest} {env : Env}
    (h : buildEnv port ruby req = .ok env) : env = rackEnv port req := by
  obtain ⟨constGet, stringIONew, evalStderr⟩ := ruby
  cases constGet with
  | error e => cases h
  | ok =>
    cases stringIONew with
    | error e => cases h
    | ok =>
      cases evalStderr with
      | error e => cases h
      | ok =>
        cases h
        rfl

/-- What the application can read back. -/
theorem rackEnv_reads_back (port : String) (req : ParsedRequest) :
    (rackEnv port req).lookup "REQUEST_METHOD" = some (.string req.method) ∧
      (rackEnv port req).lookup "PATH_INFO" = some (.string req.path) ∧
      (rackEnv port req).lookup "QUERY_STRING" = some (.string req.query) ∧
      (rackEnv port req).lookup "rack.input" = some (.binaryInput req.body) :=
  ⟨rfl, rfl, rfl, rfl⟩

/-! ## 3. What Rack would have the headers look like -/

/-- The key of a header field: upper case, underscores for dashes, and `HTTP_` in front, but for
`CONTENT_TYPE` and `CONTENT_LENGTH`. -/
def rackKey (name : String) : String :=
  let key := String.ofList (name.toList.map fun c => if c = '-' then '_' else c.toUpper)
  if key = "CONTENT_TYPE" ∨ key = "CONTENT_LENGTH" then key else "HTTP_" ++ key

/-- The value under a key: that of the field with this key, or of all of them, joined. -/
def rackHeader (separator : String) (req : ParsedRequest) (key : String) : Option String :=
  match req.headers.filter fun (name, _) => rackKey name = key with
  | [] => none
  | field :: fields => some (separator.intercalate ((field :: fields).map Prod.snd))

/-- Two requests that are the same, but for their headers. -/
structure SameButHeaders (x y : ParsedRequest) : Prop where
  method : x.method = y.method
  path : x.path = y.path
  query : x.query = y.query
  body : x.body = y.body

/-- Two requests with the same headers, as Rack would have them. -/
def SameHeaders (separator : String) (x y : ParsedRequest) : Prop :=
  ∀ key, rackHeader separator x key = rackHeader separator y key

/-! ## 4. What the environment tells apart -/

theorem rackEnv_eq_iff {port : String} {x y : ParsedRequest} :
    rackEnv port x = rackEnv port y ↔ SameButHeaders x y := by
  constructor
  · intro h
    obtain ⟨hmethod, hpath, hquery, hbody⟩ := rackEnv_reads_back port x
    obtain ⟨hmethod', hpath', hquery', hbody'⟩ := rackEnv_reads_back port y
    rw [h] at hmethod hpath hquery hbody
    rw [hmethod] at hmethod'
    rw [hpath] at hpath'
    rw [hquery] at hquery'
    rw [hbody] at hbody'
    exact ⟨EnvValue.string.inj (Option.some.inj hmethod'),
      EnvValue.string.inj (Option.some.inj hpath'), EnvValue.string.inj (Option.some.inj hquery'),
      EnvValue.binaryInput.inj (Option.some.inj hbody')⟩
  · rintro ⟨hmethod, hpath, hquery, hbody⟩
    rw [rackEnv, rackEnv, hmethod, hpath, hquery, hbody]

/-- **What the environment loses.**  Requests that differ get different environments if they
differ in more than their headers, or not in their headers; those that differ in their headers
alone do not. -/
theorem env_differs_iff (separator port : String) {ruby ruby' : RubyCalls} {x y : ParsedRequest}
    {ex ey : Env} (hx : buildEnv port ruby x = .ok ex) (hy : buildEnv port ruby' y = .ok ey) :
    (¬ (SameButHeaders x y ∧ SameHeaders separator x y) → ex ≠ ey) ↔
      ¬ SameButHeaders x y ∨ SameHeaders separator x y := by
  rw [buildEnv_ok hx, buildEnv_ok hy, ne_eq, rackEnv_eq_iff]
  constructor
  · intro h
    by_cases hsame : SameButHeaders x y
    · refine Or.inr (by_contra fun hheaders => ?_)
      exact h (fun hboth => hheaders hboth.2) hsame
    · exact Or.inl hsame
  · rintro (hdiffer | hheaders) hnot hsame
    · exact hdiffer hsame
    · exact hnot ⟨hsame, hheaders⟩

namespace Echo

/-- `GET /`, with these headers. -/
def get (headers : List (String × String)) : ParsedRequest :=
  { method := "GET", path := "/", query := "", headers, body := [] }

/-- `POST /`, with this body. -/
def post (body : Bytes) : ParsedRequest :=
  { method := "POST", path := "/", query := "", headers := [], body }

end Echo

theorem env_differs_post :
    rackEnv "8080" (Echo.post [104, 105]) ≠ rackEnv "8080" (Echo.post [104, 111]) := by
  have hx : buildEnv "8080" .fine (Echo.post [104, 105]) = .ok (rackEnv "8080" _) := rfl
  have hy : buildEnv "8080" .fine (Echo.post [104, 111]) = .ok (rackEnv "8080" _) := rfl
  have hdiffer : ¬ SameButHeaders (Echo.post [104, 105]) (Echo.post [104, 111]) :=
    fun h => absurd h.body (by decide)
  exact (env_differs_iff ", " "8080" hx hy).mpr (Or.inl hdiffer) fun h => hdiffer h.1

/-- **Headers are lost**: with a cookie or without, the environment is the same. -/
theorem headers_unseen :
    ¬ ∀ (separator port : String) (ruby : RubyCalls) (x y : ParsedRequest) (ex ey : Env),
      buildEnv port ruby x = .ok ex → buildEnv port ruby y = .ok ey →
      ¬ (SameButHeaders x y ∧ SameHeaders separator x y) → ex ≠ ey := by
  intro hall
  refine hall ", " "8080" .fine (Echo.get [("Cookie", "a=b")]) (Echo.get []) _ _ rfl rfl ?_ rfl
  rintro ⟨-, hheaders⟩
  have hcookie := hheaders "HTTP_COOKIE"
  exact absurd hcookie (by decide)

end HelixRack
