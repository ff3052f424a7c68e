/-
# Where requests start

`RequestStart b s`: cutting `b` request by request, as `handle` does, comes to `s`.  A
property of every request start in the buffer can only be broken by a read of header bytes:
a body read stops at the end of the body, and what is left behind an answered request was
there before.  `ran_induction` turns a condition on header reads into a fact about every
state of a run; the header cap, the memory bound and the shutdown guarantee are three
instances of it.
-/
import HelixRack.ReadBuffer

namespace HelixRack

namespace Server

variable {σ : Type} (srv : Server σ)

/-! ## 1. Cutting a stream into requests -/

/-- `s` is what is left of `b` after some number of complete requests. -/
inductive RequestStart : Bytes → Bytes → Prop
  | here (b : Bytes) : RequestStart b b
  | next {b s : Bytes} {consumed bodyEnd : Nat} :
      srv.Framed b consumed bodyEnd → bodyEnd ≤ b.length →
      RequestStart (b.drop bodyEnd) s → RequestStart b s

/-- `P` holds at every request start. -/
def AtStarts (P : Bytes → Prop) (b : Bytes) : Prop := ∀ s, srv.RequestStart b s → P s

variable {srv}

theorem AtStarts.here {P : Bytes → Prop} {b : Bytes} (h : srv.AtStarts P b) : P b :=
  h b (.here b)

/-- Behind a request, the starts are among the ones before it. -/
theorem AtStarts.drop {P : Bytes → Prop} {b : Bytes} {consumed bodyEnd : Nat}
    (h : srv.AtStarts P b) (hf : srv.Framed b consumed bodyEnd) (hle : bodyEnd ≤ b.length) :
    srv.AtStarts P (b.drop bodyEnd) := fun s hs => h s (.next hf hle hs)

theorem Framed.unique {b : Bytes} {n m consumed bodyEnd : Nat}
    (h : srv.Framed b n m) (h' : srv.Framed b consumed bodyEnd) : m = bodyEnd := by
  obtain ⟨r, l, hp, hl, -, rfl⟩ := h
  obtain ⟨r', l', hp', hl', -, rfl⟩ := h'
  rw [hp] at hp'
  cases hp'
  rw [hl] at hl'
  cases hl'
  rfl

theorem requestStart_nil {s : Bytes} (h : srv.RequestStart [] s) : s = [] := by
  cases h with
  | here => rfl
  | next hf hle _ =>
    have := hf.consumed_le
    rw [List.length_nil] at hle
    omega

/-- Bytes of a body that is still arriving add no request start but the empty one. -/
theorem AtStarts.append {P : Bytes → Prop} {b data : Bytes} {consumed bodyEnd : Nat}
    (hnil : P []) (hstable : ∀ more, P b → P (b ++ more))
    (hf : srv.Framed b consumed bodyEnd) (hle : (b ++ data).length ≤ bodyEnd)
    (h : srv.AtStarts P b) : srv.AtStarts P (b ++ data) := by
  intro s hs
  cases hs with
  | here => exact hstable data h.here
  | next hf' hle' hs' =>
    rw [hf'.unique (hf.append data), List.drop_of_length_le hle] at hs'
    rw [requestStart_nil hs']
    exact hnil

/-! ## 2. A condition on header reads is an invariant of the run -/

/-- A read of header bytes leaves `P` true at every request start in the buffer. -/
def HeaderReadsMeet (P : Bytes → Prop) (s : Conn × σ) (e : Event) : Prop :=
  ∀ data, s.1.await = .readHeader → e = .read data → srv.AtStarts P (s.1.received ++ data)

/-- `P` may not be lost when bytes are appended behind a complete header block. -/
def Settled (P : Bytes → Prop) : Prop :=
  ∀ b n request more, srv.parse b = .complete n request → P b → P (b ++ more)

/-- A finished request is shifted away, whatever is still to come behind the buffer. -/
theorem finishRequest_starts {P : Bytes → Prop} {c : Conn} (app : σ) {sending : Sending}
    (more : Bytes) (hs : c.Sized) (hr : c.Replying srv sending)
    (h : srv.AtStarts P (c.received ++ more)) :
    srv.AtStarts P ((srv.finishRequest app c sending).conn.received ++ more) := by
  rw [finishRequest, Poll.after_conn]
  split
  · exact h
  · obtain ⟨consumed, hf⟩ := hr.framed
    have hle : sending.bodyEnd ≤ c.received.length := by
      rw [Conn.length_received hs.filled_le]
      exact hr.bodyEnd_le
    have hle' : sending.bodyEnd ≤ (c.received ++ more).length := by
      rw [List.length_append]
      omega
    rw [nextRequest_received (hs.shift _), Conn.shift_received hs.filled_le,
      ← List.drop_append_of_le_length hle]
    exact h.drop (hf.append more) hle'

theorem afterWrite_starts {P : Bytes → Prop} {c : Conn} (app : σ) {next : AfterWrite}
    (more : Bytes) (hs : c.Sized) (hn : c.WriteInv srv next)
    (h : srv.AtStarts P (c.received ++ more)) :
    srv.AtStarts P ((srv.afterWrite app c next).conn.received ++ more) := by
  cases next with
  | headerRejected => exact h
  | requestRejected => exact h
  | body sending =>
    simp only [afterWrite, writeBody]
    split
    · split
      · exact finishRequest_starts app more hs hn h
      · exact h
    · split
      · exact h
      · exact h
  | chunk sending file => exact h
  | finish sending => exact finishRequest_starts app more hs hn h

/-- What one wakeup does to the request starts in the buffer. -/
theorem wakeup_starts {P : Bytes → Prop} (hnil : P []) (hset : srv.Settled P) {c : Conn}
    {app : σ} {e : Event} {p : Poll σ} (hi : c.Inv srv)
    (hQ : srv.HeaderReadsMeet P (c, app) e) (h : srv.AtStarts P c.received)
    (hw : c.Wakeup srv app e p) : srv.AtStarts P p.conn.received := by
  have hs := hi.toSized
  have ha := hi.atAwait
  cases hw with
  | start hc => rw [nextRequest_received hs]; exact h
  | header hc hne hlen =>
    rw [nextRequest_received (hs.fill hlen), Conn.fill_received hlen]
    exact hQ _ hc rfl
  | body hc hne hlen =>
    rw [hc] at ha
    obtain ⟨hf, hlt, hle, -⟩ := ha
    obtain ⟨request, hp⟩ := hf.complete
    rw [fillBody_received, Conn.fill_received (hlen.trans hle)]
    refine h.append hnil (fun more => hset _ _ _ more hp) hf ?_
    rw [List.length_append, Conn.length_received hs.filled_le]
    exact hlen
  | wroteAll hc hpos =>
    rw [hc] at ha
    rw [← List.append_nil c.received] at h
    have hstarts := afterWrite_starts app [] hs ha.2 h
    rwa [List.append_nil] at hstarts
  | fileEnd hc hend hok =>
    rw [hc] at ha
    rw [← List.append_nil c.received] at h
    have hstarts := finishRequest_starts app [] hs ha h
    rwa [List.append_nil] at hstarts
  | metadata | wrotePart | seek | chunk | eof | readError | elapsed | metadataFault
  | writeError | seekFault | fileFault => exact h

/-! ## 3. What a wakeup runs

A wakeup that gets anywhere runs the top of the inner loop on some request start, or goes on
with the body of the request at the front; every other wakeup calls no handler and leaves the
buffer's size alone. -/

/-- No handler was called. -/
def Quiet (os : List Effect) : Prop :=
  ∀ n request response, Effect.call n request response ∉ os

theorem quiet_nil : Quiet [] := fun _ _ _ => List.not_mem_nil

theorem quiet_finish : Quiet [.requestFinish] := fun _ _ _ h => by
  cases List.mem_singleton.mp h

theorem quiet_write (next : AfterWrite) (bytes : Bytes) : Quiet [next.effect bytes] := by
  intro _ _ _ h
  cases next <;> cases List.mem_singleton.mp h

theorem quiet_dropGuard (a : Await) : Quiet a.dropGuard := by
  unfold Await.dropGuard
  split
  · exact quiet_finish
  · exact quiet_nil

theorem Quiet.append {os os' : List Effect} (h : Quiet os) (h' : Quiet os') :
    Quiet (os ++ os') := by
  intro n request response hmem
  rcases List.mem_append.mp hmem with hm | hm
  · exact h _ _ _ hm
  · exact h' _ _ _ hm

/-- The code a wakeup ends in, with what it starts from. -/
inductive Ran (srv : Server σ) (P : Bytes → Prop) (c : Conn) (app : σ) : Poll σ → Prop
  | parse {c₀ : Conn} {os : List Effect} (sized : c₀.Sized) (start : P c₀.received)
      (room : c₀.buf.length = c.buf.length) (quiet : Quiet os) :
      Ran srv P c app ((srv.nextRequest app c₀).after os)
  | body {c₀ : Conn} {consumed bodyEnd : Nat} (framed : srv.Framed c.received consumed bodyEnd)
      (start : P c.received) (room : c₀.buf.length = c.buf.length) :
      Ran srv P c app (srv.fillBody app c₀ consumed bodyEnd)
  | other {p : Poll σ} (room : p.conn.buf.length = c.buf.length) (quiet : Quiet p.effects) :
      Ran srv P c app p

theorem finishRequest_ran {P : Bytes → Prop} {c : Conn} {app : σ} {sending : Sending}
    (hs : c.Sized) (hr : c.Replying srv sending) (h : srv.AtStarts P c.received)
    {os : List Effect} (hq : Quiet os) :
    Ran srv P c app ((srv.finishRequest app c sending).after os) := by
  rw [finishRequest, Poll.after_after]
  have hq' : Quiet (os ++ [.requestFinish]) := hq.append quiet_finish
  split
  · refine .other rfl ?_
    rw [Poll.after_effects, List.append_nil]
    exact hq'
  · obtain ⟨consumed, hf⟩ := hr.framed
    have hle : sending.bodyEnd ≤ c.received.length := by
      rw [Conn.length_received hs.filled_le]
      exact hr.bodyEnd_le
    refine .parse (hs.shift _) ?_ (Conn.shift_buf_length hs.filled_le _) hq'
    rw [Conn.shift_received hs.filled_le]
    exact (h.drop hf hle).here

theorem afterWrite_ran {P : Bytes → Prop} {c : Conn} {app : σ} {next : AfterWrite}
    (hs : c.Sized) (hn : c.WriteInv srv next) (h : srv.AtStarts P c.received)
    {os : List Effect} (hq : Quiet os) :
    Ran srv P c app ((srv.afterWrite app c next).after os) := by
  have hquiet : ∀ p : Poll σ, p.conn.buf = c.buf → Quiet p.effects →
      Ran srv P c app (p.after os) :=
    fun p hb he => .other (congrArg List.length hb) (hq.append he)
  cases next with
  | headerRejected => exact hquiet _ rfl quiet_nil
  | requestRejected => exact hquiet _ rfl quiet_finish
  | body sending =>
    simp only [afterWrite, writeBody]
    split
    · split
      · exact finishRequest_ran hs hn h hq
      · exact hquiet _ rfl quiet_nil
    · split
      · exact hquiet _ rfl quiet_finish
      · exact hquiet _ rfl quiet_nil
  | chunk sending file => exact hquiet _ rfl quiet_nil
  | finish sending => exact finishRequest_ran hs hn h hq

/-- **What a wakeup runs**, given that `P` holds at the request starts it can see. -/
theorem wakeup_ran {P : Bytes → Prop} {c : Conn} {app : σ} {e : Event} {p : Poll σ}
    (hi : c.Inv srv) (hQ : srv.HeaderReadsMeet P (c, app) e) (h : srv.AtStarts P c.received)
    (hw : c.Wakeup srv app e p) : Ran srv P c app p := by
  have hs := hi.toSized
  have ha := hi.atAwait
  have hleave : ∀ e : Exit, Ran srv P c app (c.leave app e) :=
    fun e => .other rfl (quiet_dropGuard _)
  cases hw with
  | start hc => exact .parse hs h.here rfl quiet_nil
  | header hc hne hlen =>
    refine .parse (hs.fill hlen) ?_ (Conn.fill_buf_length hlen) quiet_nil
    rw [Conn.fill_received hlen]
    exact (hQ _ hc rfl).here
  | body hc hne hlen =>
    rw [hc] at ha
    obtain ⟨hf, -, hle, -⟩ := ha
    exact .body hf h.here (Conn.fill_buf_length (hlen.trans hle))
  | wroteAll hc hpos =>
    rw [hc] at ha
    exact afterWrite_ran hs ha.2 h (quiet_write _ _)
  | fileEnd hc hend hok =>
    rw [hc] at ha
    exact finishRequest_ran hs ha h quiet_nil
  | wrotePart hc hpos hlt => exact .other rfl (quiet_write _ _)
  | metadata | seek | chunk => exact .other rfl quiet_nil
  | eof | readError | elapsed | metadataFault | writeError | seekFault | fileFault =>
    exact hleave _

/-- The handler is called for a header block of a request start. -/
theorem Ran.call {P : Bytes → Prop} {c : Conn} {app : σ} {p : Poll σ} (h : Ran srv P c app p)
    {n : Nat} {request : ParsedRequest} {response : Option HandlerResponse}
    (hmem : .call n request response ∈ p.effects) :
    ∃ b r, srv.parse b = .complete n r ∧ P b := by
  cases h with
  | @parse c₀ os sized start room quiet =>
    rcases List.mem_append.mp hmem with hos | hnext
    · exact absurd hos (quiet _ _ _)
    · obtain ⟨r, hp⟩ := nextRequest_call hnext
      exact ⟨c₀.received, r, hp, start⟩
  | body framed start room =>
    obtain ⟨r, hp⟩ := framed.complete
    rw [fillBody_call hmem]
    exact ⟨c.received, r, hp, start⟩
  | other room quiet => exact absurd hmem (quiet _ _ _)

/-- The buffer grows to the header cap, or to a request that begins at a request start. -/
theorem Ran.buf_length {P : Bytes → Prop} {c : Conn} {app : σ} {p : Poll σ}
    (h : Ran srv P c app p) :
    p.conn.buf.length ≤ max c.buf.length maxBufCapacity ∨
      ∃ b consumed bodyEnd, srv.Framed b consumed bodyEnd ∧ P b ∧
        p.conn.buf.length ≤ max c.buf.length bodyEnd := by
  cases h with
  | @parse c₀ os sized start room quiet =>
    rw [Poll.after_conn, ← room]
    rcases nextRequest_buf_length srv app sized with h | ⟨k, m, hf, hle⟩
    · exact Or.inl h
    · exact Or.inr ⟨c₀.received, k, m, hf, start, hle⟩
  | body framed start room =>
    rw [(fillBody_buf _ _).1, room]
    exact Or.inl (Nat.le_max_left _ _)
  | other room quiet =>
    rw [room]
    exact Or.inl (Nat.le_max_left _ _)

/-- **Induction over a run whose header reads meet `P`**, by what each wakeup runs. -/
theorem ran_induction {P : Bytes → Prop} {R : Conn → List Effect → Prop} (hnil : P [])
    (hset : srv.Settled P) (init : R Conn.new [])
    (ran : ∀ c app p os, Ran srv P c app p → R c os → R p.conn (os ++ p.effects)) {app : σ}
    {es : List Event} {c : Conn} {app' : σ} {os : List Effect}
    (hQ : srv.machine.Along (srv.HeaderReadsMeet P) (Conn.new, app) es)
    (h : srv.machine.run (Conn.new, app) es = some ((c, app'), os)) : R c os := by
  refine (Machine.along_induction
    (P := fun _ s os => s.1.Inv srv ∧ srv.AtStarts P s.1.received ∧ R s.1 os)
    ⟨Conn.new_inv, ?_, init⟩ ?_ hQ h).2.2
  · intro s hs
    rw [requestStart_nil hs]
    exact hnil
  · rintro _ ⟨c, app⟩ os e ⟨c', app'⟩ o _ ⟨hi, hstarts, hR⟩ hq hst
    have hw := machine_step hst
    exact ⟨hw.inv hi, wakeup_starts hnil hset hi hq hstarts hw,
      ran c app ⟨c', app', o⟩ os (wakeup_ran hi hq hstarts hw) hR⟩

end Server

end HelixRack
