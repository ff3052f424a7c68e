/-
# The header cap and the size of the read buffer

Both limits of `handle` are tested at one place each: a declared body before the buffer grows
for it, a header block only once a parse came back `Partial`.  A single read into a buffer
that an earlier body has grown can therefore complete a header block of any size the buffer
admits, without the header cap being looked at.  The theorems say that this is the only way
past the two limits: where no header read does that, no block above the cap reaches the
handler, and the buffer stays within the sum of both.
-/
import HelixRack.GrownBuffer

namespace HelixRack

namespace Server

variable {σ : Type} (srv : Server σ)

/-! ## 1. What a header read may complete -/

/-- If the bytes start with a complete header block, it is at most `limit` long. -/
def BlockWithin (limit : Nat) (b : Bytes) : Prop :=
  ∀ n request, srv.parse b = .complete n request → n ≤ limit

/-- If the bytes start with a header block that declares an acceptable body, both together
are at most `limit` long. -/
def RequestWithin (limit : Nat) (b : Bytes) : Prop :=
  ∀ consumed bodyEnd, srv.Framed b consumed bodyEnd → bodyEnd ≤ limit

variable {srv}

theorem blockWithin_nil (limit : Nat) : srv.BlockWithin limit [] := by
  intro n request h
  exact absurd h IncrementalParser.parse_nil_ne_complete

theorem blockWithin_settled (limit : Nat) : srv.Settled (srv.BlockWithin limit) := by
  intro b n request more hp h n' request' hp'
  rw [parse_append_of_complete hp] at hp'
  cases hp'
  exact h n request hp

theorem requestWithin_nil (limit : Nat) : srv.RequestWithin limit [] := by
  intro consumed bodyEnd h
  obtain ⟨request, hp⟩ := h.complete
  exact absurd hp IncrementalParser.parse_nil_ne_complete

theorem requestWithin_settled (limit : Nat) : srv.Settled (srv.RequestWithin limit) := by
  intro b n request more hp h consumed bodyEnd hf
  obtain ⟨request', bodyLen, hp', hrest⟩ := hf
  rw [parse_append_of_complete hp] at hp'
  cases hp'
  exact h n bodyEnd ⟨request, bodyLen, hp, hrest⟩

/-- A block within the header cap makes a request within both caps. -/
theorem BlockWithin.requestWithin {limit : Nat} {b : Bytes} (h : srv.BlockWithin limit b) :
    srv.RequestWithin (limit + maxBodyCapacity) b := by
  rintro consumed bodyEnd ⟨request, bodyLen, hp, -, hle, rfl⟩
  have hblock : consumed ≤ limit := h consumed request hp
  omega

theorem RequestStart.length_le {b s : Bytes} (h : srv.RequestStart b s) :
    s.length ≤ b.length := by
  induction h with
  | here b => exact le_rfl
  | next hf hle hs ih =>
    rw [List.length_drop] at ih
    omega

/-- A short buffer holds short blocks only. -/
theorem atStarts_blockWithin {limit : Nat} {b : Bytes} (h : b.length ≤ limit) :
    srv.AtStarts (srv.BlockWithin limit) b := by
  intro s hs n request hp
  exact (parse_le hp).trans (hs.length_le.trans h)

/-- Reads into a buffer that is no longer than the header cap meet the condition by
themselves: only room that a body has left lets a longer block in. -/
theorem headerReadsMeet_of_room {c : Conn} {app : σ} {e : Event} {p : Poll σ}
    (hi : c.Inv srv) (hw : c.Wakeup srv app e p) (h : c.buf.length ≤ maxBufCapacity) :
    srv.HeaderReadsMeet (srv.BlockWithin maxBufCapacity) (c, app) e := by
  rintro data hc rfl
  refine atStarts_blockWithin ?_
  rw [List.length_append, Conn.length_received hi.filled_le]
  cases hw with
  | header _ _ hlen => exact hlen.trans h
  | body hc' _ _ => rw [hc] at hc'; cases hc'
  | eof _ => exact (Nat.add_zero _).le.trans (hi.filled_le.trans h)

/-! ## 2. The header cap -/

/-- Once an unfinished header block has reached the cap, the 431 is being written. -/
theorem rejected_of_pending {c : Conn} (hi : c.Inv srv) (hp : srv.Pending c.received)
    (hcap : maxBufCapacity ≤ c.filled) :
    c.await.Ended ∨ ∃ rest, c.await = .write rest .headerRejected := by
  have ha := hi.atAwait
  have hnot : ∀ {k m : Nat}, ¬ srv.Framed c.received k m := by
    intro k m hf
    obtain ⟨request, hc⟩ := hf.complete
    exact hp.not_complete hc
  cases hc : c.await with
  | spawned =>
    rw [hc] at ha
    have h0 : c.filled = 0 := ha.1
    rw [h0] at hcap
    exact absurd hcap (by decide)
  | readHeader =>
    rw [hc] at ha
    exact absurd ha.2.1 (not_lt.mpr hcap)
  | readBody consumed bodyEnd =>
    rw [hc] at ha
    exact absurd ha.1 hnot
  | metadata answer file =>
    rw [hc] at ha
    obtain ⟨k, hf⟩ := ha.1.framed
    exact absurd hf hnot
  | seek sending file | readFile sending file =>
    rw [hc] at ha
    obtain ⟨k, hf⟩ := ha.framed
    exact absurd hf hnot
  | ended e => exact Or.inl ⟨e, rfl⟩
  | write rest next =>
    rw [hc] at ha
    cases next with
    | headerRejected => exact Or.inr ⟨rest, rfl⟩
    | requestRejected =>
      obtain ⟨n, request, hcomplete⟩ := ha.2
      exact absurd hcomplete hp.not_complete
    | body sending | chunk sending file | finish sending =>
      obtain ⟨k, hf⟩ := ha.2.framed
      exact absurd hf hnot

/-- **The header cap.**  Where no header read completes a block above `MAX_BUF_CAPACITY`, the
handler is never called for one, whatever the connection did before; a block that reaches the
cap unfinished is answered with 431. -/
theorem header_cap {app app' : σ} {es : List Event} {c : Conn} {os : List Effect}
    (hQ : srv.machine.Along (srv.HeaderReadsMeet (srv.BlockWithin maxBufCapacity))
      (Conn.new, app) es)
    (h : srv.machine.run (Conn.new, app) es = some ((c, app'), os)) :
    (∀ n request response, .call n request response ∈ os → n ≤ maxBufCapacity) ∧
      (srv.Pending c.received → maxBufCapacity ≤ c.filled →
        c.await.Ended ∨ ∃ rest, c.await = .write rest .headerRejected) := by
  refine ⟨?_, rejected_of_pending (run_inv h)⟩
  refine ran_induction (R := fun _ os =>
      ∀ n request response, .call n request response ∈ os → n ≤ maxBufCapacity)
    (blockWithin_nil _) (blockWithin_settled _) ?_ ?_ hQ h
  · intro n request response hmem
    cases hmem
  · intro c app p os hran ih n request response hmem
    rcases List.mem_append.mp hmem with hos | hp
    · exact ih n request response hos
    · obtain ⟨b, r, hparse, hb⟩ := hran.call hp
      exact hb n r hparse

theorem header_cap_upload :
    ∃ c, Upload.server.machine.run (Conn.new, ()) Upload.events =
        some ((c, ()), Upload.effects) ∧
      (∀ n request response, .call n request response ∈ Upload.effects →
        n ≤ maxBufCapacity) ∧
      (Upload.server.Pending c.received → maxBufCapacity ≤ c.filled →
        c.await.Ended ∨ ∃ rest, c.await = .write rest .headerRejected) := by
  obtain ⟨c, hrun, -, -, -, halong⟩ := Upload.run_events
  have hshort : Upload.head.length ≤ maxBufCapacity := by decide
  exact ⟨c, hrun, header_cap (halong _ (atStarts_blockWithin hshort)) hrun⟩

/-- After an upload, one read brings in a header block of 100049 bytes, and the handler is
called for it. -/
theorem large_header_called :
    ¬ ∀ (σ : Type) (srv : Server σ) (app app' : σ) (es : List Event) (c : Conn)
      (os : List Effect), srv.machine.run (Conn.new, app) es = some ((c, app'), os) →
      ∀ n request response, .call n request response ∈ os → n ≤ maxBufCapacity := by
  intro hall
  obtain ⟨c, hrun, hidle, hroom, hserved, -⟩ := Upload.run_events
  have hlarge : Upload.largeHead.length = 100049 := Upload.length_largeHead
  obtain ⟨body, hbody⟩ : ∃ body : Bytes, body.length = maxBodyCapacity :=
    ⟨List.replicate maxBodyCapacity 0, List.length_replicate⟩
  have hne : body ≠ [] := by
    rw [← List.length_pos_iff, hbody]
    decide
  have hl : contentLength Upload.largeRequest.headers = .ok body.length := by
    rw [hbody, Upload.contentLength_largeRequest]
  obtain ⟨c1, hread, hs1, hawait1, hrec1, hfilled1, hroom1, hserved1⟩ :=
    read_head () hidle Upload.parse_largeHead hl (List.length_pos_iff.mpr hne) hbody.le
      (by omega)
  have hk : c1.requestsServed + 1 < Upload.server.maxKeepalive := by
    rw [hserved1, hserved]
    decide
  obtain ⟨c2, next, hcall, -⟩ :=
    read_body hs1 hawait1 hrec1 hfilled1 hroom1 Upload.parse_largeHead hne
      Upload.parsedHeaders_largeRequest rfl rfl hk
  have hrest := Machine.run_cons hread (Machine.run_cons hcall (Machine.run_nil _ _))
  have hbound := hall _ _ _ _ _ _ _ (Machine.run_append hrun hrest) Upload.largeHead.length _ _
    (List.mem_append_right _ (List.mem_append_right _ (List.mem_append_left _
      List.mem_cons_self)))
  have hcap : maxBufCapacity = 65536 := rfl
  omega

/-! ## 3. The size of the buffer -/

/-- **The read buffer is bounded.**  Where no header read completes a request that is longer
than both caps together, the buffer never is. -/
theorem buffer_bounded {app app' : σ} {es : List Event} {c : Conn} {os : List Effect}
    (hQ : srv.machine.Along
      (srv.HeaderReadsMeet (srv.RequestWithin (maxBufCapacity + maxBodyCapacity)))
      (Conn.new, app) es)
    (h : srv.machine.run (Conn.new, app) es = some ((c, app'), os)) :
    c.buf.length ≤ maxBufCapacity + maxBodyCapacity := by
  refine ran_induction (R := fun c _ => c.buf.length ≤ maxBufCapacity + maxBodyCapacity)
    (requestWithin_nil _) (requestWithin_settled _) ?_ ?_ hQ h
  · rw [Conn.new, List.length_replicate]
    decide
  · intro c app p os hran ih
    have hmax : maxBufCapacity ≤ maxBufCapacity + maxBodyCapacity := Nat.le_add_right _ _
    rcases hran.buf_length with hle | ⟨b, consumed, bodyEnd, hf, hb, hle⟩
    · exact hle.trans (Nat.max_le.mpr ⟨ih, hmax⟩)
    · exact hle.trans (Nat.max_le.mpr ⟨ih, hb consumed bodyEnd hf⟩)

theorem buffer_bounded_upload :
    ∃ c, Upload.server.machine.run (Conn.new, ()) Upload.events =
        some ((c, ()), Upload.effects) ∧
      c.buf.length ≤ maxBufCapacity + maxBodyCapacity := by
  obtain ⟨c, hrun, -, -, -, halong⟩ := Upload.run_events
  have hshort : Upload.head.length ≤ maxBufCapacity := by decide
  have hstarts : Upload.server.AtStarts
      (Upload.server.RequestWithin (maxBufCapacity + maxBodyCapacity)) Upload.head :=
    fun s hs => (atStarts_blockWithin hshort s hs).requestWithin
  exact ⟨c, hrun, buffer_bounded (halong _ hstarts) hrun⟩

/-- After an upload, a header block of 100049 bytes arrives in one read and declares a body of
exactly `MAX_BODY_CAPACITY`. -/
theorem buffer_beyond_bound :
    ¬ ∀ (σ : Type) (srv : Server σ) (app app' : σ) (es : List Event) (c : Conn)
      (os : List Effect), srv.machine.run (Conn.new, app) es = some ((c, app'), os) →
      c.buf.length ≤ maxBufCapacity + maxBodyCapacity := by
  intro hall
  obtain ⟨c, hrun, hidle, hroom, -⟩ := Upload.run_events
  have hlarge : Upload.largeHead.length = 100049 := Upload.length_largeHead
  obtain ⟨c', hread, -, -, -, -, hlen, -⟩ :=
    read_head () hidle Upload.parse_largeHead Upload.contentLength_largeRequest (by decide)
      le_rfl (by omega)
  have hrun' := Machine.run_append hrun (Machine.run_cons hread (Machine.run_nil _ _))
  have hbound := hall _ _ _ _ _ _ _ hrun'
  have hcap : maxBufCapacity = 65536 := rfl
  omega

end Server

end HelixRack
