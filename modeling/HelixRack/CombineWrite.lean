/-
# The two builds of `write_response`

With the `combine-write` feature a head and the in-memory body behind it are one `write_all`, and
without it they are two.  So the two builds suspend at different points: where one task is about
to write the body, the other is in the middle of a write.  Counted in bytes they do the same.

* `Server.Agree` says at what points the two tasks of a connection can be; it is the only place
  where the head comes apart from the body.
* Each build's task simulates the other's, for an observer who counts bytes
  (`combined_simulates_plain`, `plain_simulates_combined`).
* A simulation of the task is one of the server (`serve_simulates`), so that the two builds of
  the server agree on every run (`builds_agree`).
-/
import HelixRack.Isolation
import HelixRack.Simulation
import Mathlib.Data.List.Forall2

namespace HelixRack

/-! ## 1. What is seen of a write, byte by byte -/

def Event.bytewise : Event → List Event
  | .wrote n => List.replicate n (.wrote 1)
  | e => [e]

def Effect.bytewise : Effect → List Effect
  | .sent bytes => bytes.map fun b => .sent [b]
  | .rejected bytes => bytes.map fun b => .rejected [b]
  | o => [o]

/-- Who counts the bytes that a task writes, and does not see how it cuts them. -/
def bytewise : Observer Event Effect Event Effect where
  input := Event.bytewise
  output := Effect.bytewise

@[simp] theorem bytewise_wrote (n : Nat) :
    bytewise.input (.wrote n) = List.replicate n (.wrote 1) :=
  rfl

@[simp] theorem bytewise_sent (bytes : Bytes) :
    bytewise.output (.sent bytes) = bytes.map fun b => .sent [b] := rfl

/-- The counter does not see it, either. -/
theorem recordAll_bytewise (k : ConnectionCounter Notify) (os : List Effect) :
    recordAll k (bytewise.outputs os) = recordAll k os := by
  have hwrite : ∀ (k : ConnectionCounter Notify) (f : UInt8 → Effect) (bytes : Bytes),
      (∀ b k, (f b).record k = k) → recordAll k (bytes.map f) = k := by
    intro k f bytes hf
    induction bytes generalizing k with
    | nil => rfl
    | cons b bytes ih =>
      rw [recordAll, List.map_cons, List.foldl_cons, hf]
      exact ih k
  induction os generalizing k with
  | nil => rfl
  | cons o os ih =>
    rw [bytewise.outputs_cons, recordAll, List.foldl_append, ← recordAll]
    refine (ih _).trans ?_
    have hhead : recordAll k (bytewise.output o) = o.record k := by
      cases o with
      | sent bytes => exact hwrite k (fun b => .sent [b]) bytes fun _ _ => rfl
      | rejected bytes => exact hwrite k (fun b => .rejected [b]) bytes fun _ _ => rfl
      | requestStart | requestFinish | call => rfl
    rw [← recordAll, hhead]
    rfl

namespace Server

variable {σ : Type}

/-! ## 2. The two builds, function by function -/

/-- The server, built with the feature or without. -/
def built (srv : Server σ) (combineWrite : Bool) : Server σ := { srv with combineWrite }

/-- Where the tasks of one connection are, without the feature and with it: at the same point,
or in the head, with the body behind it a write of its own or a part of the same. -/
inductive Agree : Conn → Conn → Prop
  | same (c : Conn) : Agree c c
  | head {c : Conn} {front content : Bytes} {sending : Sending} (hfront : front ≠ [])
      (hbody : sending.body = .inMemory content) :
      Agree (c.suspend (.write front (.body sending)))
        (c.suspend (.write (front ++ content) (.finish sending)))

/-- Two wakeups that come to the same. -/
structure PollAgree (p q : Poll σ) : Prop where
  conn : Agree p.conn q.conn
  app : p.app = q.app
  effects : p.effects = q.effects

theorem PollAgree.refl (p : Poll σ) : PollAgree p p := ⟨.same _, rfl, rfl⟩

theorem PollAgree.after {p q : Poll σ} (h : PollAgree p q) (os : List Effect) :
    PollAgree (p.after os) (q.after os) :=
  ⟨h.conn, h.app, congrArg (os ++ ·) h.effects⟩

variable (srv : Server σ)

theorem sendHead_agree (c : Conn) (answer : Answer) :
    Agree ((srv.built false).sendHead c answer) ((srv.built true).sendHead c answer) := by
  simp only [sendHead, built]
  by_cases hhead : answer.isHead = true
  · simp only [if_pos hhead]
    exact .same _
  · simp only [if_neg hhead]
    -- the `Connection: close` of the last allowed request leaves the body as it is
    by_cases hlast : c.requestsServed + 1 ≥ srv.maxKeepalive
    all_goals
      simp only [hlast, decide_true, decide_false, if_true, Bool.false_eq_true, if_false,
        HandlerResponse.pushHeader]
      cases hbody : answer.response.body with
      | spooled file => exact .same _
      | inMemory content =>
        exact .head (c := { c with requestsServed := c.requestsServed + 1 })
          (serializeHead_ne_nil _) rfl

theorem frameResponse_agree (c : Conn) (answer : Answer) :
    Agree ((srv.built false).frameResponse c answer).1 ((srv.built true).frameResponse c answer).1 ∧
      ((srv.built false).frameResponse c answer).2 =
        ((srv.built true).frameResponse c answer).2 := by
  unfold frameResponse
  split
  · exact ⟨sendHead_agree srv c _, rfl⟩
  · exact ⟨.same _, rfl⟩
  · exact ⟨.same _, rfl⟩

theorem answerRequest_agree (app : σ) (c : Conn) (consumed bodyEnd : Nat) :
    PollAgree ((srv.built false).answerRequest app c consumed bodyEnd)
      ((srv.built true).answerRequest app c consumed bodyEnd) := by
  have hcall : ∀ request, PollAgree ((srv.built false).callHandler app c consumed bodyEnd request)
      ((srv.built true).callHandler app c consumed bodyEnd request) := by
    intro request
    unfold callHandler
    cases hresponse : srv.handler app request with
    | mk response app' =>
      cases response with
      | none =>
        simp only [built, hresponse]
        exact .refl _
      | some response =>
        obtain ⟨hconn, heffects⟩ :=
          frameResponse_agree srv c (.start bodyEnd request response)
        simp only [built, hresponse] at hconn heffects ⊢
        exact ⟨hconn, rfl, congrArg (_ :: ·) heffects⟩
  have hparse : ∀ b, (srv.built b).parse c.received = srv.parse c.received := fun _ => rfl
  simp only [answerRequest, hparse]
  cases srv.parse c.received with
  | invalid => exact .refl _
  | complete n request | incomplete request =>
    simp only
    cases parsedHeaders request.headers with
    | none => exact .refl _
    | some headers => exact hcall _

theorem fillBody_agree (app : σ) (c : Conn) (consumed bodyEnd : Nat) :
    PollAgree ((srv.built false).fillBody app c consumed bodyEnd)
      ((srv.built true).fillBody app c consumed bodyEnd) := by
  unfold fillBody
  split
  · exact .refl _
  · exact answerRequest_agree srv app c consumed bodyEnd

theorem nextRequest_agree (app : σ) (c : Conn) :
    PollAgree ((srv.built false).nextRequest app c) ((srv.built true).nextRequest app c) := by
  have hparse : ∀ b, (srv.built b).parse c.received = srv.parse c.received := fun _ => rfl
  simp only [nextRequest, hparse]
  cases srv.parse c.received with
  | invalid | incomplete => exact .refl _
  | complete consumed request =>
    simp only
    cases contentLength request.headers with
    | error e => exact .refl _
    | ok bodyLen =>
      refine PollAgree.after ?_ _
      unfold startRequest
      split
      · exact .refl _
      · exact fillBody_agree srv app _ consumed _

theorem finishRequest_agree (app : σ) (c : Conn) (sending : Sending) :
    PollAgree ((srv.built false).finishRequest app c sending)
      ((srv.built true).finishRequest app c sending) := by
  unfold finishRequest
  refine PollAgree.after ?_ _
  split
  · exact .refl _
  · exact nextRequest_agree srv app _

theorem afterWrite_agree (app : σ) (c : Conn) (next : AfterWrite) :
    PollAgree ((srv.built false).afterWrite app c next)
      ((srv.built true).afterWrite app c next) := by
  cases next with
  | headerRejected | requestRejected | chunk => exact .refl _
  | finish sending => exact finishRequest_agree srv app c sending
  | body sending =>
    simp only [afterWrite, writeBody]
    cases sending.body with
    | inMemory content =>
      simp only
      split
      · exact finishRequest_agree srv app c sending
      · exact .refl _
    | spooled file => exact .refl _

/-- From one point, the two builds wake up to the same. -/
theorem resume_agree (app : σ) (c : Conn) (e : Event) :
    Option.Rel PollAgree (c.resume (srv.built false) app e) (c.resume (srv.built true) app e) := by
  have hif : ∀ {P : Prop} [Decidable P] {p q : Poll σ}, PollAgree p q →
      Option.Rel PollAgree (if P then some p else none) (if P then some q else none) := by
    intro P _ p q h
    by_cases hP : P
    · rw [if_pos hP, if_pos hP]
      exact .some h
    · rw [if_neg hP, if_neg hP]
      exact .none
  have hite : ∀ {P : Prop} [Decidable P] {p p' q q' : Poll σ}, PollAgree p p' → PollAgree q q' →
      PollAgree (if P then p else q) (if P then p' else q') := by
    intro P _ p p' q q' h h'
    by_cases hP : P
    · rwa [if_pos hP, if_pos hP]
    · rwa [if_neg hP, if_neg hP]
  unfold Conn.resume
  split
  case h_1 => exact .some (nextRequest_agree srv app c)
  case h_2 => exact hif (hite (.refl _) (nextRequest_agree srv app _))
  case h_5 => exact hif (hite (.refl _) (fillBody_agree srv app _ _ _))
  case h_7 => exact .some (hite (.refl _) ⟨sendHead_agree srv c _, rfl, rfl⟩)
  case h_8 => exact hif ((hite (afterWrite_agree srv app c _) (.refl _)).after _)
  case h_11 => exact hif (hite (hite (.refl _) (finishRequest_agree srv app c _)) (.refl _))
  case h_4 => exact hif (.refl _)
  case h_12 => exact .none
  all_goals exact .some (.refl _)

/-! ## 3. Each task simulates the other -/

variable {srv}

/-- What a task in a write wakes up to. -/
inductive Writes (srv : Server σ) (app : σ) (c : Conn) (rest : Bytes) (next : AfterWrite) :
    Event → Poll σ → Prop
  | part {n : Nat} (hpos : 0 < n) (hlt : n < rest.length) : Writes srv app c rest next (.wrote n)
      ⟨c.suspend (.write (rest.drop n) next), app, [next.effect (rest.take n)]⟩
  | all (hpos : 0 < rest.length) : Writes srv app c rest next (.wrote rest.length)
      ((srv.afterWrite app (c.suspend (.write rest next)) next).after [next.effect rest])
  | error : Writes srv app c rest next .writeError
      ((c.suspend (.write rest next)).leave app .os)

theorem writes_of_wakeup {app : σ} {c : Conn} {rest : Bytes} {next : AfterWrite} {e : Event}
    {p : Poll σ} (hw : (c.suspend (.write rest next)).Wakeup srv app e p) :
    srv.Writes app c rest next e p := by
  cases hw with
  | wrotePart hc hpos hlt =>
    cases hc
    exact .part hpos hlt
  | wroteAll hc hpos =>
    cases hc
    exact .all hpos
  | writeError hc => exact .error
  | eof hc | readError hc => rcases hc with hc | ⟨k, n, hc⟩ <;> cases hc
  | start hc | header hc | body hc | elapsed hc | metadata hc | metadataFault hc | seek hc
  | seekFault hc | chunk hc | fileEnd hc | fileFault hc => cases hc

theorem Writes.run {app : σ} {c : Conn} {rest : Bytes} {next : AfterWrite} {e : Event}
    {p : Poll σ} (h : srv.Writes app c rest next e p) :
    srv.machine.run (c.suspend (.write rest next), app) [e] =
      some ((p.conn, p.app), p.effects) := by
  have hone : ∀ {e p}, (c.suspend (.write rest next)).Wakeup srv app e p →
      srv.machine.run (c.suspend (.write rest next), app) [e] =
        some ((p.conn, p.app), p.effects) := by
    intro e p hw
    have hrun := Machine.run_cons hw.step (Machine.run_nil _ _)
    rwa [List.append_nil] at hrun
  cases h with
  | part hpos hlt => exact hone (.wrotePart rfl hpos hlt)
  | all hpos => exact hone (.wroteAll rfl hpos)
  | error => exact hone (.writeError rfl)

/-- The code that comes next does not look at the await point before it. -/
theorem finishRequest_suspend (app : σ) (c : Conn) (a : Await) (sending : Sending) :
    srv.finishRequest app (c.suspend a) sending = srv.finishRequest app c sending := rfl

theorem sent_append (bytes bytes' : Bytes) :
    bytewise.outputs [.sent (bytes ++ bytes')] = bytewise.outputs [.sent bytes, .sent bytes'] := by
  simp only [bytewise.outputs_cons, bytewise.outputs_nil, bytewise_sent, List.map_append,
    List.append_nil]

/-- From one point, a step of one build is a step of the other. -/
theorem step_same {app : σ} {c : Conn} {e : Event} {p q : Poll σ} {b : Bool}
    (h : c.resume (srv.built b) app e = some q) (heffects : p.effects = q.effects) :
    ∃ t fs ps, (srv.built b).machine.run (c, app) fs = some (t, ps) ∧ t = (q.conn, q.app) ∧
      bytewise.inputs fs = bytewise.input e ∧ bytewise.outputs ps = bytewise.outputs p.effects := by
  have hrun := Machine.run_cons (Conn.resume_cases h).step (Machine.run_nil _ _)
  rw [List.append_nil] at hrun
  refine ⟨_, [e], _, hrun, rfl, ?_, by rw [heffects]⟩
  exact bytewise.inputs_singleton _

/-- **What the plain build does, the combined one can do**: the first bytes of its one write are
the head. -/
theorem combined_simulates_plain :
    (srv.built true).machine.Simulates bytewise (srv.built false).machine bytewise
      fun s t => Agree s.1 t.1 ∧ s.2 = t.2 := by
  rintro ⟨c, app⟩ ⟨c', app'⟩ ⟨d, _⟩ e os ⟨hagree, rfl⟩ hst
  have hw := machine_step hst
  cases hagree with
  | same c =>
    have hrel := resume_agree srv app c e
    rw [hw.resume] at hrel
    cases hq : c.resume (srv.built true) app e with
    | none => rw [hq] at hrel; cases hrel
    | some q =>
      rw [hq] at hrel
      cases hrel with
      | some hpq =>
        obtain ⟨t, fs, ps, hrun, rfl, hin, hout⟩ := step_same hq hpq.effects
        exact ⟨_, fs, ps, hrun, ⟨hpq.conn, hpq.app⟩, hin, hout⟩
  | @head c front content sending hfront hbody =>
    have hlen : (front ++ content).length = front.length + content.length := List.length_append
    generalize hp : (⟨c', app', os⟩ : Poll σ) = p at hw
    cases writes_of_wakeup hw with
    | error =>
      cases hp
      exact ⟨_, [.writeError], _, Writes.error.run, ⟨.same _, rfl⟩, rfl, rfl⟩
    | @part n hpos hlt =>
      cases hp
      have hpart : n < (front ++ content).length := by omega
      refine ⟨_, [.wrote n], _, (Writes.part hpos hpart).run, ⟨?_, rfl⟩, ?_, ?_⟩
      · simp only [List.drop_append_of_le_length hlt.le]
        exact .head (fun hnil => by rw [List.drop_eq_nil_iff] at hnil; omega) hbody
      · exact bytewise.inputs_singleton _
      · rw [List.take_append_of_le_length hlt.le]
        rfl
    | all hpos =>
      simp only [afterWrite, writeBody, hbody] at hp
      by_cases hempty : content = []
      · subst hempty
        rw [if_pos rfl, finishRequest_suspend] at hp
        have hagree := finishRequest_agree srv app c sending
        rw [List.append_nil]
        have hall : (srv.built true).Writes app c front (.finish sending) _ _ := .all hpos
        have hrun := hall.run
        cases hp
        refine ⟨_, [.wrote front.length], _, hrun, ⟨hagree.conn, hagree.app⟩, ?_, ?_⟩
        · exact bytewise.inputs_singleton _
        · simp only [afterWrite, finishRequest_suspend, Poll.after_effects, hagree.effects]
          rfl
      · rw [if_neg hempty] at hp
        have hcontent : 0 < content.length := List.length_pos_iff.mpr hempty
        have hpart : front.length < (front ++ content).length := by omega
        cases hp
        refine ⟨_, [.wrote front.length], _, (Writes.part hpos hpart).run, ⟨?_, rfl⟩, ?_, ?_⟩
        · rw [List.drop_left]
          exact .same _
        · exact bytewise.inputs_singleton _
        · rw [List.take_left]
          rfl

/-- **...and the other way round**: a part of the one write that goes beyond the head is two. -/
theorem plain_simulates_combined :
    (srv.built false).machine.Simulates bytewise (srv.built true).machine bytewise
      fun s t => Agree t.1 s.1 ∧ s.2 = t.2 := by
  rintro ⟨d, app⟩ ⟨d', app'⟩ ⟨c, _⟩ e os ⟨hagree, rfl⟩ hst
  have hw := machine_step hst
  cases hagree with
  | same c =>
    have hrel := resume_agree srv app d e
    rw [hw.resume] at hrel
    cases hq : d.resume (srv.built false) app e with
    | none => rw [hq] at hrel; cases hrel
    | some q =>
      rw [hq] at hrel
      cases hrel with
      | some hpq =>
        obtain ⟨t, fs, ps, hrun, rfl, hin, hout⟩ := step_same hq hpq.effects.symm
        exact ⟨_, fs, ps, hrun, ⟨hpq.conn, hpq.app.symm⟩, hin, hout⟩
  | @head c front content sending hfront hbody =>
    have hlen : (front ++ content).length = front.length + content.length := List.length_append
    have hpos : 0 < front.length := List.length_pos_iff.mpr hfront
    have hdrop : ∀ k, (front ++ content).drop (front.length + k) = content.drop k :=
      fun k => by rw [← List.drop_drop, List.drop_left]
    -- the rest of the head, after which the body is a write of its own
    have hhead : content ≠ [] → (srv.built false).machine.run
        (c.suspend (.write front (.body sending)), app) [.wrote front.length] =
          some ((c.suspend (.write content (.finish sending)), app), [.sent front]) := by
      intro hempty
      have hall : (srv.built false).Writes app c front (.body sending) _ _ := .all hpos
      have hrun := hall.run
      simp only [afterWrite, writeBody, hbody, if_neg hempty] at hrun
      exact hrun
    generalize hp : (⟨d', app', os⟩ : Poll σ) = p at hw
    cases writes_of_wakeup hw with
    | error =>
      cases hp
      exact ⟨_, [.writeError], _, Writes.error.run, ⟨.same _, rfl⟩, rfl, rfl⟩
    | @part n hn hlt =>
      cases hp
      rcases Nat.lt_trichotomy n front.length with hless | rfl | hmore
      · refine ⟨_, [.wrote n], _, (Writes.part hn hless).run, ⟨?_, rfl⟩, ?_, ?_⟩
        · simp only [List.drop_append_of_le_length hless.le]
          exact .head (fun hnil => by rw [List.drop_eq_nil_iff] at hnil; omega) hbody
        · exact bytewise.inputs_singleton _
        · rw [List.take_append_of_le_length hless.le]
          rfl
      · have hempty : content ≠ [] := List.length_pos_iff.mp (by omega)
        refine ⟨_, [.wrote front.length], _, hhead hempty, ⟨?_, rfl⟩, ?_, ?_⟩
        · rw [List.drop_left]
          exact .same _
        · exact bytewise.inputs_singleton _
        · rw [List.take_left]
          rfl
      · obtain ⟨k, rfl⟩ := Nat.exists_eq_add_of_lt hmore
        have hempty : content ≠ [] := List.length_pos_iff.mp (by omega)
        have hrest : (srv.built false).Writes app c content (.finish sending) (.wrote (k + 1)) _ :=
          .part (by omega) (by omega)
        refine ⟨_, [.wrote front.length, .wrote (k + 1)], _,
          Machine.run_append (hhead hempty) hrest.run, ⟨?_, rfl⟩, ?_, ?_⟩
        · rw [Nat.add_assoc, hdrop]
          exact .same _
        · rw [bytewise.inputs_cons, bytewise.inputs_cons, bytewise.inputs_nil, List.append_nil,
            bytewise_wrote, bytewise_wrote, bytewise_wrote, ← List.replicate_add, Nat.add_assoc]
        · rw [Nat.add_assoc, List.take_length_add_append]
          exact (sent_append _ _).symm
    | all _ =>
      cases hp
      have hagree := finishRequest_agree srv app c sending
      by_cases hempty : content = []
      · subst hempty
        have hall : (srv.built false).Writes app c front (.body sending) _ _ := .all hpos
        have hrun := hall.run
        simp only [afterWrite, writeBody, hbody, if_true, finishRequest_suspend] at hrun
        rw [List.append_nil]
        refine ⟨_, [.wrote front.length], _, hrun, ⟨hagree.conn, hagree.app.symm⟩, ?_, ?_⟩
        · exact bytewise.inputs_singleton _
        · simp only [afterWrite, finishRequest_suspend, Poll.after_effects, hagree.effects]
          rfl
      · have hall : (srv.built false).Writes app c content (.finish sending) _ _ :=
          .all (List.length_pos_iff.mpr hempty)
        have hrun := hall.run
        simp only [afterWrite, finishRequest_suspend] at hrun
        refine ⟨_, [.wrote front.length, .wrote content.length], _,
          Machine.run_append (hhead hempty) hrun, ⟨hagree.conn, hagree.app.symm⟩, ?_, ?_⟩
        · rw [bytewise.inputs_cons, bytewise.inputs_cons, bytewise.inputs_nil, List.append_nil,
            bytewise_wrote, bytewise_wrote, bytewise_wrote, ← List.replicate_add, hlen]
        · have hsent := sent_append front content
          simp only [afterWrite, finishRequest_suspend, Poll.after_effects, hagree.effects,
            bytewise.outputs_append, AfterWrite.effect] at hsent ⊢
          rw [hsent]
          simp only [bytewise.outputs_cons, bytewise.outputs_nil, List.append_nil,
            List.append_assoc]

/-! ## 4. The server -/

end Server

def Label.bytewise : Label → List Label
  | .wake i e => e.bytewise.map (.wake i)
  | .accept => [.accept]
  | .drop i => [.drop i]

/-- Who counts the bytes that each task writes. -/
def served : Observer Label (Label × Effect) Label (Option Nat × Effect) where
  input := Label.bytewise
  output := fun (label, o) => o.bytewise.map fun x => (label.task, x)

theorem served_inputs_wake (i : Nat) (es : List Event) :
    served.inputs (es.map (.wake i)) = (bytewise.inputs es).map (.wake i) := by
  rw [Observer.inputs, List.flatMap_map, Observer.inputs, List.map_flatMap]
  rfl

theorem served_outputs_task {i : Nat} {los : List (Label × Effect)} {os : List Effect}
    (h : (los.map fun lo => (lo.1.task, lo.2)) = os.map fun o => (some i, o)) :
    served.outputs los = (bytewise.outputs os).map fun x => (some i, x) := by
  have hcut : ∀ {α : Type} (f : α → Option Nat × Effect) (xs : List α),
      (xs.flatMap fun x => (f x).2.bytewise.map fun y => ((f x).1, y)) =
        (xs.map f).flatMap fun z => z.2.bytewise.map fun y => (z.1, y) :=
    fun f xs => by rw [List.flatMap_map]
  rw [Observer.outputs, Observer.outputs, List.map_flatMap]
  refine (hcut (fun lo : Label × Effect => (lo.1.task, lo.2)) los).trans ?_
  rw [h, ← hcut]
  rfl

section Forall

variable {α β : Type} {R : α → β → Prop}

theorem forall₂_getElem? {xs : List α} {ys : List β} (h : List.Forall₂ R xs ys) {i : Nat} {x : α}
    (hx : xs[i]? = some x) : ∃ y, ys[i]? = some y ∧ R x y := by
  induction h generalizing i with
  | nil => cases hx
  | cons hxy _ ih =>
    cases i with
    | zero =>
      cases hx
      exact ⟨_, rfl, hxy⟩
    | succ i => exact ih hx

theorem forall₂_set {xs : List α} {ys : List β} (h : List.Forall₂ R xs ys) {x : α} {y : β}
    (hxy : R x y) (i : Nat) : List.Forall₂ R (xs.set i x) (ys.set i y) := by
  induction h generalizing i with
  | nil => exact .nil
  | cons hhead htail ih =>
    cases i with
    | zero => exact .cons hxy htail
    | succ i => exact .cons hhead (ih i)

end Forall

namespace Server

variable {σ : Type} {srv srv' : Server σ}

/-- **A simulation of the task is one of the server**, if the two tasks can be dropped alike. -/
theorem serve_simulates {R : Conn → Conn → Prop} (hnew : R .new .new)
    (hdrop : ∀ {c d}, R c d → (c.await.Ended ↔ d.await.Ended) ∧
      c.await.dropGuard = d.await.dropGuard ∧ R (c.exit .dropped) (d.exit .dropped))
    (hsim : srv'.machine.Simulates bytewise srv.machine bytewise
      fun s t => R s.1 t.1 ∧ s.2 = t.2) :
    srv'.serve.logged.Simulates served srv.serve.logged served
      fun s t => List.Forall₂ R s.conns t.conns ∧ s.counter = t.counter ∧ s.app = t.app := by
  rintro s s' ⟨conns, counter, app⟩ label los ⟨hconns, rfl, rfl⟩ hst
  obtain ⟨os, hstep, rfl⟩ := Machine.step_logged_iff.mp hst
  cases serve_step hstep with
  | accept =>
    refine ⟨⟨conns ++ [Conn.new], s.counter.recordAccept, s.app⟩, [.accept], [], rfl,
      ⟨List.rel_append hconns (.cons hnew .nil), rfl, rfl⟩, rfl, rfl⟩
  | @wake i event c p hget hw =>
    obtain ⟨d, hd, hR⟩ := forall₂_getElem? hconns hget
    obtain ⟨⟨d', app'⟩, fs, ps, hrun, ⟨hR', happ⟩, hin, hout⟩ :=
      hsim (s := (c, s.app)) (t := (d, s.app)) ⟨hR, rfl⟩ hw.step
    obtain ⟨los, hserve, hlos⟩ := serve_of_machine (s := ⟨conns, s.counter, s.app⟩) hd hrun
    refine ⟨_, _, los, hserve, ⟨forall₂_set hconns hR' i, ?_, happ⟩, ?_, ?_⟩
    · change recordAll s.counter p.effects = recordAll s.counter ps
      rw [← recordAll_bytewise, ← hout, recordAll_bytewise]
    · rw [served_inputs_wake, hin]
      rfl
    · have hlog : ((p.effects.map fun o => (Label.wake i event, o)).map
          fun lo => (lo.1.task, lo.2)) = p.effects.map fun o => (some i, o) := by
        rw [List.map_map]
        rfl
      rw [served_outputs_task hlos, served_outputs_task hlog, hout]
  | @drop i c hget hlive =>
    obtain ⟨d, hd, hR⟩ := forall₂_getElem? hconns hget
    obtain ⟨hended, hguard, hexit⟩ := hdrop hR
    have hstep' : srv'.serve.step ⟨conns, s.counter, s.app⟩ (.drop i) =
        some (System.ran ⟨conns, s.counter, s.app⟩ i (d.leave s.app .dropped)) := by
      simp only [serve, serveStep, hd, Option.bind_some, if_neg (mt hended.mpr hlive)]
    have hone := Machine.run_cons (Machine.step_logged_iff.mpr ⟨_, hstep', rfl⟩)
      (Machine.run_nil srv'.serve.logged _)
    rw [List.append_nil] at hone
    refine ⟨_, [.drop i], _, hone, ⟨forall₂_set hconns hexit i, ?_, rfl⟩, rfl, ?_⟩
    · exact congrArg (recordAll s.counter) hguard
    · simp only [Conn.leave, hguard]

theorem Agree.drop {c d : Conn} (h : Agree c d) :
    (c.await.Ended ↔ d.await.Ended) ∧ c.await.dropGuard = d.await.dropGuard ∧
      Agree (c.exit .dropped) (d.exit .dropped) := by
  cases h with
  | same => exact ⟨Iff.rfl, rfl, .same _⟩
  | head =>
    refine ⟨⟨fun hended => ?_, fun hended => ?_⟩, rfl, .same _⟩ <;>
      obtain ⟨e, he⟩ := hended <;> cases he

/-- **The two builds of `write_response` cannot be told apart.**  Whatever one build of the server
does, for any number of connections and in any order, the other one can do, with the same events
for each task, every byte accepted by a socket counted as one, and then each task has put out the
same bytes, called the handler alike, and started and finished the same requests, in the same
order; the counter and the handler's state are the same, and each task is where its counterpart
is, up to how the bytes of a head and its body are cut into writes. -/
theorem builds_agree (srv : Server σ) (combineWrite : Bool) {app : σ} {labels : List Label}
    {s : System σ} {los : List (Label × Effect)}
    (h : (srv.built combineWrite).serve.logged.run (.new app) labels = some (s, los)) :
    ∃ labels' t los',
      (srv.built !combineWrite).serve.logged.run (.new app) labels' = some (t, los') ∧
      served.inputs labels' = served.inputs labels ∧ served.outputs los' = served.outputs los ∧
      t.counter = s.counter ∧ t.app = s.app ∧
      List.Forall₂ (fun c d => Agree c d ∨ Agree d c) s.conns t.conns := by
  cases combineWrite with
  | false =>
    have hsim : (srv.built true).serve.logged.Simulates served (srv.built false).serve.logged served
        _ := serve_simulates (.same _) Agree.drop combined_simulates_plain
    obtain ⟨t, labels', los', hrun, ⟨hconns, hcounter, happ⟩, hin, hout⟩ :=
      hsim.run (t := System.new app) ⟨.nil, rfl, rfl⟩ h
    exact ⟨labels', t, los', hrun, hin, hout, hcounter.symm, happ.symm,
      hconns.imp fun _ _ => Or.inl⟩
  | true =>
    have hdrop : ∀ {c d : Conn}, Agree d c → (c.await.Ended ↔ d.await.Ended) ∧
        c.await.dropGuard = d.await.dropGuard ∧ Agree (d.exit .dropped) (c.exit .dropped) := by
      intro c d hR
      obtain ⟨hended, hguard, hexit⟩ := hR.drop
      exact ⟨hended.symm, hguard.symm, hexit⟩
    have hsim : (srv.built false).serve.logged.Simulates served (srv.built true).serve.logged served
        _ := serve_simulates (R := fun c d => Agree d c) (.same _) hdrop plain_simulates_combined
    obtain ⟨t, labels', los', hrun, ⟨hconns, hcounter, happ⟩, hin, hout⟩ :=
      hsim.run (t := System.new app) ⟨.nil, rfl, rfl⟩ h
    exact ⟨labels', t, los', hrun, hin, hout, hcounter.symm, happ.symm,
      hconns.imp fun _ _ => Or.inr⟩

/-- Two connections of a combined build, each with one request and a response with a body. -/
theorem builds_agree_two :
    ∃ s los labels' t los',
      (Single.numbered.built true).serve.logged.run (.new 0)
        (Single.labels 3 (Single.number 0) (Single.number 1)) = some (s, los) ∧
      (Single.numbered.built false).serve.logged.run (.new 0) labels' = some (t, los') ∧
      served.inputs labels' = served.inputs (Single.labels 3 (Single.number 0) (Single.number 1)) ∧
      served.outputs los' = served.outputs los ∧ t.counter = s.counter ∧ t.app = 2 := by
  obtain ⟨c, c', s, los, hlog, -, happ, -⟩ := Single.run_numbered
  obtain ⟨labels', t, los', hrun, hin, hout, hcounter, happ', -⟩ :=
    builds_agree Single.numbered true hlog
  exact ⟨s, los, labels', t, los', hlog, hrun, hin, hout, hcounter, happ'.trans happ⟩

end Server

end HelixRack
