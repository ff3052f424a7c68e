/-
# Streamed bodies arrive byte for byte

A body goes through two representations on its way from the handler to the socket: chunk by chunk
into the accumulator of `read_body`, which moves to a tempfile on the way, and out of that file
again, through a duplicate whose cursor stands at the end, in reads of any size.  Where no I/O
fails, what comes out is the concatenation of the chunks (`streamed_bodies`), and nothing else
about the chunks is left to see.
-/
import HelixRack.ReadBody
import HelixRack.KeepAlive

namespace HelixRack

/-! ## 1. The accumulator is a function of what it has collected -/

namespace File

/-- A file with these bytes, as `write_all` leaves it. -/
def holding (bytes : Bytes) : File :=
  { contents := bytes, cursor := bytes.length, faults := [], readFault := none }

theorem holding_sound (bytes : Bytes) : (holding bytes).Sound := ⟨rfl, rfl⟩

theorem writeAll_holding (bytes more : Bytes) :
    (holding bytes).writeAll more none = (holding (bytes ++ more), .ok ()) := by
  have hwrite : (holding bytes).write more = holding (bytes ++ more) := by
    simp only [File.write, holding, List.take_length, List.length_append,
      List.drop_of_length_le (Nat.le_add_right _ _), List.append_nil]
  rw [writeAll, hwrite]

end File

namespace BodyAccumulator

/-- The accumulator that has collected these bytes, where no I/O has failed. -/
def holding (bytes : Bytes) : BodyAccumulator :=
  if spoolThresholdBytes < bytes.length then .spooled (.holding bytes) else .inMemory bytes

@[simp] theorem bytes_holding (bytes : Bytes) : (holding bytes).bytes = bytes := by
  unfold holding
  split <;> rfl

theorem holding_sound (bytes : Bytes) : (holding bytes).toResponseBody.Sound := by
  unfold holding
  split
  · exact File.holding_sound bytes
  · trivial

theorem holding_spooled_iff (bytes : Bytes) :
    (∃ file, (holding bytes).toResponseBody = .spooled file) ↔
      spoolThresholdBytes < bytes.length := by
  unfold holding
  split
  · rename_i h
    exact ⟨fun _ => h, fun _ => ⟨_, rfl⟩⟩
  · rename_i h
    refine ⟨?_, fun hlt => absurd hlt h⟩
    rintro ⟨file, hfile⟩
    cases hfile

end BodyAccumulator

/-- **One chunk**, whichever side of the threshold it starts and ends on. -/
theorem spoolChunk_holding (bytes chunk : Bytes) :
    spoolChunk .fine (.holding bytes) chunk = (.holding (bytes ++ chunk), .ok ()) := by
  have hlength : (bytes ++ chunk).length = bytes.length + chunk.length := List.length_append
  unfold BodyAccumulator.holding
  by_cases hspooled : spoolThresholdBytes < bytes.length
  · have hstays : spoolThresholdBytes < (bytes ++ chunk).length := by omega
    rw [if_pos hspooled, if_pos hstays]
    simp only [spoolChunk, SpoolIo.fine, File.writeAll_holding]
  rw [if_neg hspooled]
  by_cases hover : spoolThresholdBytes < (bytes ++ chunk).length
  · have hgt : bytes.length + chunk.length > spoolThresholdBytes := by omega
    have hnew : ({ contents := [], cursor := 0, faults := [], readFault := none } : File)
        = .holding [] := rfl
    rw [if_pos hover]
    simp only [spoolChunk, if_pos hgt, SpoolIo.fine, hnew, File.writeAll_holding, List.nil_append]
  · have hle : ¬ bytes.length + chunk.length > spoolThresholdBytes := by omega
    rw [if_neg hover]
    simp only [spoolChunk, if_neg hle]

/-! ## 2. What `read_body` makes of the chunks -/

/-- The body's `#each` yields these `String`s and returns, and no I/O fails.  It may try to read
other bodies in between. -/
inductive Script.Yields : Script → List Bytes → Prop
  | returns : Yields .returns []
  | chunk {bytes : Bytes} {rest : List Bytes} {next : Except RubyError Unit → Script}
      (h : (next (.ok ())).Yields rest) :
      Yields (.yields (.string bytes) .fine next) (bytes :: rest)
  | refused {inner : Script} {next : ReadResult → Script} {chunks : List Bytes}
      (h : (next (.err reentrantRead)).Yields chunks) : Yields (.readsBody inner next) chunks

/-- Every sequence of chunks is yielded by some body. -/
theorem Script.yields_ofChunks (chunks : List Bytes) : (ofChunks chunks).Yields chunks := by
  induction chunks with
  | nil => exact .returns
  | cons bytes rest ih => exact .chunk ih

theorem Script.Yields.each {script : Script} {chunks : List Bytes} (h : script.Yields chunks)
    (before : Bytes) :
    (script.each { readingBody := true, bodyAccumulator := .holding before }).ended = .returned ∧
      (script.each { readingBody := true, bodyAccumulator := .holding before }).locals =
        { readingBody := true, bodyAccumulator := .holding (before ++ chunks.flatten) } := by
  induction h generalizing before with
  | returns =>
    rw [List.flatten_nil, List.append_nil]
    exact ⟨rfl, rfl⟩
  | @chunk bytes rest next h ih =>
    rw [List.flatten_cons, ← List.append_assoc]
    simp only [Script.each, collectChunk, spoolChunk_holding]
    exact ih (before ++ bytes)
  | @refused inner next chunks h ih =>
    simp only [Script.each]
    rw [readBody_of_reading rfl]
    exact ih before

/-- **The body is a function of the concatenation.** -/
theorem Script.Yields.readBody_eq {script : Script} {chunks : List Bytes} (h : script.Yields chunks)
    {l : ThreadLocals} (hl : l.readingBody = false) :
    readBody script.each l =
      (.ok (BodyAccumulator.holding chunks.flatten).toResponseBody, .fresh) := by
  obtain ⟨hended, hlocals⟩ := h.each []
  have hstart :
      ThreadLocals.reading = { readingBody := true, bodyAccumulator := .holding [] } := rfl
  rw [readBody_of_not_reading hl]
  simp only [readBody, ThreadLocals.fresh, Bool.false_eq_true, if_false, hstart, hended, hlocals,
    List.nil_append]

/-- A body that `read_body` returned for these chunks. -/
def Streamed (chunks : List Bytes) (body : ResponseBody) : Prop :=
  ∃ script : Script, script.Yields chunks ∧ (readBody script.each .fresh).1 = .ok body

theorem Streamed.eq_holding {chunks : List Bytes} {body : ResponseBody} (h : Streamed chunks body) :
    body = (BodyAccumulator.holding chunks.flatten).toResponseBody := by
  obtain ⟨script, hyields, hread⟩ := h
  rw [hyields.readBody_eq rfl] at hread
  exact (ReadResult.ok.inj hread).symm

theorem Streamed.bytes_eq {chunks : List Bytes} {body : ResponseBody} (h : Streamed chunks body) :
    body.bytes = chunks.flatten := by
  rw [h.eq_holding, BodyAccumulator.bytes_toResponseBody, BodyAccumulator.bytes_holding]

/-! ## 3. What goes on the wire -/

/-- Two exchanges that differ in the chunks of their bodies at most. -/
def SameBytes (x y : ParsedRequest × HandlerResponse) : Prop :=
  x.1 = y.1 ∧ x.2.status = y.2.status ∧ x.2.headers = y.2.headers ∧
    ∃ chunks chunks' : List Bytes, Streamed chunks x.2.body ∧ Streamed chunks' y.2.body ∧
      chunks.flatten = chunks'.flatten

theorem framedHeaders_congr {r r' : HandlerResponse} (hheaders : r.headers = r'.headers)
    (hbytes : r.body.bytes = r'.body.bytes) : framedHeaders r = framedHeaders r' := by
  unfold framedHeaders
  rw [hheaders, hbytes]

theorem serializeHead_congr {r r' : HandlerResponse} (hstatus : r.status = r'.status)
    (hheaders : r.headers = r'.headers) : serializeHead r = serializeHead r' := by
  unfold serializeHead
  rw [hstatus, hheaders]

/-- The wire image of a response sees the body's bytes only. -/
theorem wire_congr (m k : Nat) {x y : ParsedRequest × HandlerResponse} (hrequest : x.1 = y.1)
    (hstatus : x.2.status = y.2.status) (hheaders : x.2.headers = y.2.headers)
    (hbytes : x.2.body.bytes = y.2.body.bytes) : wire m k x = wire m k y := by
  have hfinal : finalHeaders (decide (k + 1 ≥ m)) x.2 = finalHeaders (decide (k + 1 ≥ m)) y.2 := by
    unfold finalHeaders
    rw [framedHeaders_congr hheaders hbytes]
  unfold wire
  refine congrArg₂ _ (serializeHead_congr hstatus hfinal) ?_
  simp only [clientView, hrequest, hbytes]

theorem wires_congr {m k : Nat} {xs ys : List (ParsedRequest × HandlerResponse)}
    (h : List.Forall₂ SameBytes xs ys) : wires m k xs = wires m k ys := by
  induction h generalizing k with
  | nil => rfl
  | @cons x y xs ys hxy _ ih =>
    obtain ⟨hrequest, hstatus, hheaders, chunks, chunks', hx, hy, hflatten⟩ := hxy
    have hbytes : x.2.body.bytes = y.2.body.bytes := by rw [hx.bytes_eq, hy.bytes_eq, hflatten]
    rw [wires_cons, wires_cons, ih, wire_congr m k hrequest hstatus hheaders hbytes]

/-- **Streamed bodies.**  Where no I/O fails, `read_body` spools exactly the bodies longer than
the threshold and never has more than that in memory; what is sent for a response with such a body
is its head and the concatenation of the chunks, whatever the reads of the file and the writes to
the socket are, and an injected `Content-Length` is its length.  So runs whose responses differ in
how their bodies came in chunks send the same. -/
theorem streamed_bodies {σ τ : Type} :
    (∀ (script : Script) (chunks : List Bytes) (l : ThreadLocals), script.Yields chunks →
      l.readingBody = false → ∃ body, readBody script.each l = (.ok body, .fresh) ∧
        body.bytes = chunks.flatten ∧ body.Sound ∧
        ((∃ file, body = .spooled file) ↔ spoolThresholdBytes < chunks.flatten.length)) ∧
    (∀ (script reached : Script) (l : ThreadLocals) (buf : Bytes), script.Reached reached l →
      l.bodyAccumulator = .inMemory buf → buf.length ≤ spoolThresholdBytes) ∧
    (∀ (srv : Server σ) (app app' : σ) (es : List Event) (c : Conn) (os : List Effect),
      srv.machine.run (Conn.new, app) es = some ((c, app'), os) → .writeError ∉ es →
      SoundCalls os → ∀ pre request response post chunks,
      answered os = pre ++ (request, response) :: post → Streamed chunks response.body →
      sentBytes os ++ c.owed srv = wires srv.maxKeepalive 0 pre ++
          (serializeHead { response with
              headers := finalHeaders (decide (pre.length + 1 ≥ srv.maxKeepalive)) response } ++
            if isHead request then [] else chunks.flatten) ++
          wires srv.maxKeepalive (pre.length + 1) post ∧
        (c.await.replying = false → c.owed srv = []) ∧
        (hasFraming (stripConnection response.headers) = false →
          framedHeaders response = stripConnection response.headers ++
            [("Content-Length", toString chunks.flatten.length)])) ∧
    (∀ (srv : Server σ) (srv' : Server τ) (app app₁ : σ) (app' app₁' : τ) (es es' : List Event)
      (c c' : Conn) (os os' : List Effect), srv.maxKeepalive = srv'.maxKeepalive →
      srv.machine.run (Conn.new, app) es = some ((c, app₁), os) → .writeError ∉ es →
      SoundCalls os → srv'.machine.run (Conn.new, app') es' = some ((c', app₁'), os') →
      .writeError ∉ es' → SoundCalls os' →
      List.Forall₂ SameBytes (answered os) (answered os') →
      sentBytes os ++ c.owed srv = sentBytes os' ++ c'.owed srv') := by
  refine ⟨?_, ?_, ?_, ?_⟩
  · intro script chunks l hyields hl
    refine ⟨_, hyields.readBody_eq hl, ?_, BodyAccumulator.holding_sound _,
      BodyAccumulator.holding_spooled_iff _⟩
    rw [BodyAccumulator.bytes_toResponseBody, BodyAccumulator.bytes_holding]
  · intro script reached l buf hreached hbuf
    have hsized := hreached.sized
    rw [hbuf] at hsized
    exact hsized
  · intro srv app app' es c os hrun hwrite hsound pre request response post chunks hsplit hbody
    obtain ⟨hbytes, -, -⟩ := Server.run_conserves hrun hwrite hsound
    refine ⟨?_, Conn.owed_of_not_replying, fun hframing => ?_⟩
    · rw [← hbytes, hsplit, wires_append, wires_cons, Nat.zero_add, ← List.append_assoc, wire,
        clientView, hbody.bytes_eq]
    · have hnot : ¬ hasFraming (stripConnection response.headers) = true := by
        rw [hframing]
        exact Bool.false_ne_true
      rw [framedHeaders_of_not hnot, hbody.bytes_eq]
  · intro srv srv' app app₁ app' app₁' es es' c c' os os' hmax hrun hwrite hsound hrun' hwrite'
      hsound' hsame
    obtain ⟨hbytes, -, -⟩ := Server.run_conserves hrun hwrite hsound
    obtain ⟨hbytes', -, -⟩ := Server.run_conserves hrun' hwrite' hsound'
    rw [← hbytes, ← hbytes', hmax, wires_congr hsame]

/-- Three bytes of body. -/
def Single.chunked : HandlerResponse :=
  { status := 200, headers := [], body := .inMemory [1, 2, 3] }

/-- A body over the threshold, and one in three chunks on the wire. -/
theorem streamed_bodies_chunked :
    (∃ body file, readBody (Script.ofChunks [List.replicate spoolThresholdBytes 7, [], [8]]).each
        .fresh = (.ok body, .fresh) ∧ body = .spooled file) ∧
      ∃ c, (Single.server 2 Single.chunked).machine.run (Conn.new, ()) [.poll,
          .read Single.head, .wrote (wire 2 0 (Single.parsed, Single.chunked)).length] =
            some ((c, ()), Single.effects 2 Single.chunked) ∧
        sentBytes (Single.effects 2 Single.chunked) =
          serializeHead ⟨200, [("Content-Length", "3")], .inMemory [1, 2, 3]⟩ ++ [1, 2, 3] := by
  obtain ⟨hread, -, hsent, -⟩ := streamed_bodies (σ := Unit) (τ := Unit)
  constructor
  · obtain ⟨body, heq, -, -, hspooled⟩ := hread _ _ .fresh
      (Script.yields_ofChunks [List.replicate spoolThresholdBytes 7, [], [8]]) rfl
    have hlong : spoolThresholdBytes <
        ([List.replicate spoolThresholdBytes 7, [], [8]] : List Bytes).flatten.length := by
      simp only [List.flatten_cons, List.flatten_nil, List.length_append, List.length_replicate,
        List.length_nil, List.length_cons]
      omega
    obtain ⟨file, hfile⟩ := hspooled.mpr hlong
    exact ⟨body, file, heq, hfile⟩
  · obtain ⟨c, hrun, hidle⟩ := Single.run_open Single.chunked
      (Nat.lt_succ_self 1) rfl
    have hsound : SoundCalls (Single.effects 2 Single.chunked) := by
      intro n request response hmem
      cases Single.eq_of_call hmem
      trivial
    have hbody : Streamed [[1], [], [2, 3]] (.inMemory [1, 2, 3]) :=
      ⟨_, Script.yields_ofChunks _, by decide⟩
    obtain ⟨hbytes, howed, -⟩ := hsent _ () () _ c _ hrun (by simp) hsound [] Single.parsed
      Single.chunked [] _ rfl hbody
    rw [howed hidle.not_replying, List.append_nil] at hbytes
    refine ⟨c, hrun, hbytes.trans ?_⟩
    have hfinal : finalHeaders (decide (0 + 1 ≥ 2)) Single.chunked =
        [("Content-Length", "3")] := by decide
    have hget : isHead Single.parsed = false := by decide
    rw [List.length_nil, wires_nil, wires_nil, List.nil_append, List.append_nil, hget]
    exact congrArg₂ _ (serializeHead_congr rfl hfinal) rfl

end HelixRack
