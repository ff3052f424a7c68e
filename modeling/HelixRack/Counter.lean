/-
# `ConnectionCounter`, and draining it

The counter of `engine/src/lib.rs` with its `Notify`, and `drain`, which waits for it to
reach zero.  Counting and notifying are separate steps of `record_request_finish`, and
`drain` runs against callers that may be anywhere between the two; `Drainage` interleaves
them freely.  `Drainage.Inv` says why no wakeup is lost: a `drain` that waits without having
been notified either saw a request that still runs, or the request's caller still owes the
notification.

`Notify` is tokio's.  It is a parameter here, `TokioNotify`, and `LawfulNotify` is what its
documentation says and `drain` relies on; `Notify`, which counts its calls, is one that does it.
-/
import HelixRack.Machine
import Mathlib.Data.List.Count
import Mathlib.Logic.Function.Iterate

namespace HelixRack

/-! ## 1. `Notify` and `ConnectionCounter` -/

/-- `tokio::sync::Notify`, as far as `notify_waiters` goes: its values `N`, and the futures `F`
that are waited on. -/
class TokioNotify (N : Type) (F : outParam Type) where
  new : N
  /-- `notified()` creates a future. -/
  notified : N → F
  notifyWaiters : N → N
  /-- Awaiting the future is over. -/
  ready : F → N → Bool

open TokioNotify

/-- A future receives every `notify_waiters` that is called after it was created, polled or not. -/
class LawfulNotify (N : Type) {F : Type} [TokioNotify N F] : Prop where
  ready_of_called : ∀ (n : N) (calls : Nat),
    ready (notified n) (notifyWaiters^[calls + 1] n) = true

/-- The future was created from what `n` once was. -/
def CreatedFrom {N F : Type} [TokioNotify N F] (f : F) (n : N) : Prop :=
  ∃ n₀ calls, f = notified n₀ ∧ n = notifyWaiters^[calls] n₀

namespace CreatedFrom

variable {N F : Type} [TokioNotify N F] {f : F} {n : N}

theorem now (n : N) : CreatedFrom (notified n) n := ⟨n, 0, rfl, rfl⟩

theorem later (h : CreatedFrom f n) : CreatedFrom f (notifyWaiters n) := by
  obtain ⟨n₀, calls, rfl, rfl⟩ := h
  exact ⟨n₀, calls + 1, rfl, (Function.iterate_succ_apply' _ _ _).symm⟩

/-- The next call completes it. -/
theorem ready_next [LawfulNotify N] (h : CreatedFrom f n) : ready f (notifyWaiters n) = true := by
  obtain ⟨n₀, calls, rfl, rfl⟩ := h
  rw [← Function.iterate_succ_apply' notifyWaiters]
  exact LawfulNotify.ready_of_called n₀ calls

end CreatedFrom

/-- A `Notify` that counts how often it has been called. -/
structure Notify where
  calls : Nat
  deriving DecidableEq, Repr

/-- A `Notified` future: the number of calls there were when it was created. -/
structure Notified where
  since : Nat
  deriving DecidableEq, Repr

/-- A call was made after the future was created, so that awaiting it is over. -/
def Notified.Ready (f : Notified) (n : Notify) : Prop := f.since < n.calls

instance (f : Notified) (n : Notify) : Decidable (f.Ready n) :=
  inferInstanceAs (Decidable (f.since < n.calls))

instance : TokioNotify Notify Notified where
  new := ⟨0⟩
  notified n := ⟨n.calls⟩
  notifyWaiters n := ⟨n.calls + 1⟩
  ready f n := decide (f.Ready n)

theorem Notify.calls_iterate (n : Notify) (k : Nat) :
    (notifyWaiters^[k] n : Notify).calls = n.calls + k := by
  induction k with
  | zero => rfl
  | succ k ih =>
    rw [Function.iterate_succ_apply', ← Nat.add_assoc, ← ih]
    rfl

instance : LawfulNotify Notify where
  ready_of_called n calls := by
    refine decide_eq_true ?_
    simp only [Notified.Ready, Notify.calls_iterate, notified]
    omega

/-- `inFlightRequests` is a `usize`; it is an integer here so that a decrement below zero
would show. -/
structure ConnectionCounter (N : Type) where
  accepted : Nat
  inFlightRequests : Int
  drained : N
  deriving DecidableEq, Repr

namespace ConnectionCounter

variable {N F : Type} [TokioNotify N F]

def new : ConnectionCounter N :=
  { accepted := 0, inFlightRequests := 0, drained := TokioNotify.new }

variable (k : ConnectionCounter N)

def recordAccept : ConnectionCounter N := { k with accepted := k.accepted + 1 }

def recordRequestStart : ConnectionCounter N :=
  { k with inFlightRequests := k.inFlightRequests + 1 }

/-- The first half of `record_request_finish`. -/
def fetchSub : ConnectionCounter N := { k with inFlightRequests := k.inFlightRequests - 1 }

/-- The second half of `record_request_finish`. -/
def notifyWaiters : ConnectionCounter N := { k with drained := TokioNotify.notifyWaiters k.drained }

def recordRequestFinish : ConnectionCounter N := k.fetchSub.notifyWaiters

end ConnectionCounter

/-! ## 2. `drain` among the callers -/

/-- How far a request's `record_request_start` and `record_request_finish` have come. -/
inductive Phase where
  | running
  /-- Decremented, not notified yet. -/
  | decremented
  | finished
  deriving DecidableEq, Repr

/-- Where `drain` stands. -/
inductive Drain (F : Type) where
  /-- At the top of its loop. -/
  | looping
  /-- It holds a future and reads the counter next. -/
  | registered (notified : F)
  /-- It awaits the future. -/
  | waiting (notified : F)
  /-- It returned from inside the loop. -/
  | returned
  /-- `grace_period` ran out. -/
  | timedOut
  deriving DecidableEq, Repr

/-- The counter, the requests that were ever started, and one `drain`. -/
structure Drainage (N F : Type) where
  counter : ConnectionCounter N
  requests : List Phase
  drain : Drain F
  deriving DecidableEq, Repr

/-- Who makes the next step. -/
inductive Turn where
  /-- A new request calls `record_request_start`. -/
  | start
  /-- The `i`-th request starts its `record_request_finish`. -/
  | decrement (i : Nat)
  /-- ...and ends it. -/
  | notify (i : Nat)
  /-- `drain` creates a future. -/
  | register
  /-- `drain` reads the counter. -/
  | check
  /-- The awaited future is ready, and `drain` loops. -/
  | resume
  | elapse
  deriving DecidableEq, Repr

namespace Drainage

variable {N F : Type} [TokioNotify N F]

def new : Drainage N F := { counter := .new, requests := [], drain := .looping }

def step (s : Drainage N F) : Turn → Option (Drainage N F)
  | .start => some { s with
      counter := s.counter.recordRequestStart, requests := s.requests ++ [.running] }
  | .decrement i =>
    if s.requests[i]? = some .running then
      some { s with counter := s.counter.fetchSub, requests := s.requests.set i .decremented }
    else none
  | .notify i =>
    if s.requests[i]? = some .decremented then
      some { s with
        counter := s.counter.notifyWaiters, requests := s.requests.set i .finished }
    else none
  | .register => match s.drain with
    | .looping => some { s with drain := .registered (notified s.counter.drained) }
    | _ => none
  | .check => match s.drain with
    | .registered f => some { s with
        drain := if s.counter.inFlightRequests = 0 then .returned else .waiting f }
    | _ => none
  | .resume => match s.drain with
    | .waiting f => if ready f s.counter.drained then some { s with drain := .looping } else none
    | _ => none
  | .elapse => match s.drain with
    | .waiting _ => some { s with drain := .timedOut }
    | _ => none

/-- A turn emits nothing. -/
def machine : Machine (Drainage N F) Turn Empty where
  step := fun s turn => (s.step turn).map fun s' => (s', [])

/-- The ways a turn can go. -/
inductive Move (s : Drainage N F) : Turn → Drainage N F → Prop
  | start : Move s .start { s with
      counter := s.counter.recordRequestStart, requests := s.requests ++ [.running] }
  | decrement {i : Nat} (h : s.requests[i]? = some .running) :
      Move s (.decrement i) { s with
        counter := s.counter.fetchSub, requests := s.requests.set i .decremented }
  | notify {i : Nat} (h : s.requests[i]? = some .decremented) :
      Move s (.notify i) { s with
        counter := s.counter.notifyWaiters, requests := s.requests.set i .finished }
  | register (h : s.drain = .looping) :
      Move s .register { s with drain := .registered (notified s.counter.drained) }
  | checkZero {f : F} (h : s.drain = .registered f)
      (hz : s.counter.inFlightRequests = 0) : Move s .check { s with drain := .returned }
  | checkBusy {f : F} (h : s.drain = .registered f)
      (hz : s.counter.inFlightRequests ≠ 0) : Move s .check { s with drain := .waiting f }
  | resume {f : F} (h : s.drain = .waiting f) (hr : ready f s.counter.drained = true) :
      Move s .resume { s with drain := .looping }
  | elapse {f : F} (h : s.drain = .waiting f) :
      Move s .elapse { s with drain := .timedOut }

theorem step_cases {s s' : Drainage N F} {turn : Turn} (h : s.step turn = some s') :
    s.Move turn s' := by
  cases turn with
  | start =>
    cases h
    exact .start
  | decrement i =>
    simp only [step] at h
    split at h <;> cases h
    rename_i hi
    exact .decrement hi
  | notify i =>
    simp only [step] at h
    split at h <;> cases h
    rename_i hi
    exact .notify hi
  | register =>
    simp only [step] at h
    split at h <;> cases h
    rename_i hd
    exact .register hd
  | check =>
    simp only [step] at h
    split at h <;> cases h
    rename_i hd
    by_cases hz : s.counter.inFlightRequests = 0
    · rw [if_pos hz]
      exact .checkZero hd hz
    · rw [if_neg hz]
      exact .checkBusy hd hz
  | resume =>
    simp only [step] at h
    split at h
    · rename_i hd
      split at h <;> cases h
      rename_i hr
      exact .resume hd hr
    · cases h
  | elapse =>
    simp only [step] at h
    split at h <;> cases h
    rename_i hd
    exact .elapse hd

theorem machine_step {s s' : Drainage N F} {turn : Turn} {os : List Empty}
    (h : machine.step s turn = some (s', os)) : s.Move turn s' := by
  simp only [machine, Option.map_eq_some_iff] at h
  obtain ⟨t, ht, heq⟩ := h
  cases heq
  exact step_cases ht

end Drainage

/-! ## 3. No wakeup is lost -/

/-- Replacing one element, in a form without subtraction. -/
theorem countP_set_add {α : Type} {p : α → Bool} {l : List α} {i : Nat} {a b : α}
    (h : l[i]? = some a) :
    (l.set i b).countP p + (if p a then 1 else 0) = l.countP p + (if p b then 1 else 0) := by
  induction l generalizing i with
  | nil => cases h
  | cons x l ih =>
    cases i with
    | zero =>
      cases h
      simp only [List.set_cons_zero, List.countP_cons]
      omega
    | succ i =>
      have htail := ih (i := i) h
      simp only [List.set_cons_succ, List.countP_cons]
      omega

namespace Drainage

variable {N F : Type} [TokioNotify N F]

/-- The requests that have not been counted out. -/
def running (s : Drainage N F) : Nat := s.requests.countP fun phase => decide (phase = .running)

/-- **Why no wakeup is lost.** -/
structure Inv (s : Drainage N F) : Prop where
  counted : s.counter.inFlightRequests = s.running
  created : ∀ f, s.drain = .registered f ∨ s.drain = .waiting f → CreatedFrom f s.counter.drained
  owed : ∀ f, s.drain = .waiting f → ready f s.counter.drained = false →
    s.counter.inFlightRequests ≠ 0 ∨ .decremented ∈ s.requests

theorem new_inv : (new : Drainage N F).Inv where
  counted := rfl
  created f h := by rcases h with h | h <;> cases h
  owed f h := by cases h

/-- Every turn keeps the invariant. -/
theorem Move.inv [LawfulNotify N] {s s' : Drainage N F} {turn : Turn} (hi : s.Inv)
    (h : s.Move turn s') : s'.Inv := by
  have hcounted := hi.counted
  cases h with
  | start =>
    refine ⟨?_, hi.created, fun f hf hr => ?_⟩
    · simp only [ConnectionCounter.recordRequestStart, running, List.countP_append] at hcounted ⊢
      rw [hcounted]
      rfl
    · refine Or.inl ?_
      simp only [ConnectionCounter.recordRequestStart]
      omega
  | @decrement i hget =>
    have hset := countP_set_add (p := fun phase => decide (phase = Phase.running))
      (b := .decremented) hget
    refine ⟨?_, hi.created, fun f hf hr => Or.inr ?_⟩
    · simp only [ConnectionCounter.fetchSub, running] at hcounted ⊢
      simp only [decide_true, if_true, reduceCtorEq, decide_false, Bool.false_eq_true,
        if_false] at hset
      omega
    · have hlt : i < s.requests.length := (List.getElem?_eq_some_iff.mp hget).1
      exact List.mem_set hlt _
  | @notify i hget =>
    have hset := countP_set_add (p := fun phase => decide (phase = Phase.running))
      (b := .finished) hget
    refine ⟨?_, fun f hf => ?_, fun f hf hr => ?_⟩
    · simp only [ConnectionCounter.notifyWaiters, running] at hcounted ⊢
      simp only [reduceCtorEq, decide_false, Bool.false_eq_true, if_false] at hset
      omega
    · exact (hi.created f hf).later
    · -- the future it waits on has received this call
      have hready := (hi.created f (Or.inr hf)).ready_next
      cases hready.symm.trans hr
  | register hd =>
    refine ⟨hcounted, fun f hf => ?_, fun f hf => by cases hf⟩
    rcases hf with hf | hf
    · cases hf
      exact .now _
    · cases hf
  | checkZero hd hz =>
    refine ⟨hcounted, fun f hf => ?_, fun f hf => by cases hf⟩
    rcases hf with hf | hf <;> cases hf
  | @checkBusy f hd hz =>
    refine ⟨hcounted, fun g hg => ?_, fun g _ _ => Or.inl hz⟩
    rcases hg with hg | hg
    · cases hg
    · cases hg
      exact hi.created f (Or.inl hd)
  | resume hd hr =>
    refine ⟨hcounted, fun f hf => ?_, fun f hf => by cases hf⟩
    rcases hf with hf | hf <;> cases hf
  | elapse hd =>
    refine ⟨hcounted, fun f hf => ?_, fun f hf => by cases hf⟩
    rcases hf with hf | hf <;> cases hf

theorem run_inv [LawfulNotify N] {turns : List Turn} {s : Drainage N F} {os : List Empty}
    (h : machine.run new turns = some (s, os)) : s.Inv :=
  Machine.run_invariant new_inv (fun _ _ _ _ hi hst => (machine_step hst).inv hi) h

variable (N) in
/-- In the course of these turns, `drain` read the counter as zero. -/
def ReadsZero (turns : List Turn) : Prop :=
  ∃ (pre post : List Turn) (s : Drainage N F) (os : List Empty) (f : F),
    turns = pre ++ .check :: post ∧ machine.run new pre = some (s, os) ∧
    s.drain = .registered f ∧ s.counter.inFlightRequests = 0

theorem ReadsZero.snoc {turns : List Turn} (h : ReadsZero N turns) (turn : Turn) :
    ReadsZero N (turns ++ [turn]) := by
  obtain ⟨pre, post, s, os, f, rfl, hrest⟩ := h
  exact ⟨pre, post ++ [turn], s, os, f, by rw [List.append_assoc]; rfl, hrest⟩

/-- `drain` returns from its loop only out of a `check` that read zero. -/
theorem readsZero_of_returned {turns : List Turn} {s : Drainage N F} {os : List Empty}
    (h : machine.run new turns = some (s, os)) (hret : s.drain = .returned) :
    ReadsZero N turns := by
  refine Machine.run_induction (P := fun turns s _ => s.drain = .returned → ReadsZero N turns)
    ?_ ?_ h hret
  · intro h0
    cases h0
  · intro turns s os turn s' o hrun ih hst hret'
    cases machine_step hst with
    | start => exact (ih hret').snoc _
    | decrement hget => exact (ih hret').snoc _
    | notify hget => exact (ih hret').snoc _
    | checkZero hd hz => exact ⟨turns, [], s, os, _, rfl, hrun, hd, hz⟩
    | register | checkBusy | resume | elapse => cases hret'

/-- **`drain` returns early only on zero, and no wakeup is lost**, with any `Notify` whose futures
receive the calls made after their creation.  In every interleaving: (a) if `drain` has returned
without the timeout, it did so on a reading of zero; (b) if it is parked on a future that was not
notified while the counter is zero, some request is between its decrement and its notification,
and that notification will reach the future. -/
theorem drain_sound [LawfulNotify N] {turns : List Turn} {s : Drainage N F} {os : List Empty}
    (h : machine.run new turns = some (s, os)) :
    (s.drain = .returned → ReadsZero N turns) ∧
    (∀ f, s.drain = .waiting f → ready f s.counter.drained = false →
      s.counter.inFlightRequests = 0 →
      ∃ i s', s.requests[i]? = some .decremented ∧ s.step (.notify i) = some s' ∧
        s'.drain = .waiting f ∧ ready f s'.counter.drained = true) := by
  refine ⟨readsZero_of_returned h, fun f hf hr hz => ?_⟩
  have hi := run_inv h
  rcases hi.owed f hf hr with hbusy | howed
  · exact absurd hz hbusy
  · obtain ⟨i, hget⟩ := List.mem_iff_getElem?.mp howed
    exact ⟨i, _, hget, if_pos hget, hf, (hi.created f (Or.inr hf)).ready_next⟩

/-- The counter is zero, `drain` is parked, and the only request has not notified yet. -/
theorem drain_sound_parked :
    ∃ i s', ([.decremented] : List Phase)[i]? = some .decremented ∧
      step ⟨⟨0, 0, (⟨0⟩ : Notify)⟩, [.decremented], .waiting ⟨0⟩⟩ (.notify i) = some s' ∧
      s'.drain = .waiting ⟨0⟩ ∧ (⟨0⟩ : Notified).Ready s'.counter.drained := by
  have hrun : machine.run (new : Drainage Notify Notified)
      [.start, .register, .check, .decrement 0] =
        some (⟨⟨0, 0, ⟨0⟩⟩, [.decremented], .waiting ⟨0⟩⟩, []) := rfl
  obtain ⟨i, s', hget, hstep, hwaiting, hready⟩ := (drain_sound hrun).2 ⟨0⟩ rfl rfl rfl
  exact ⟨i, s', hget, hstep, hwaiting, of_decide_eq_true hready⟩

end Drainage

end HelixRack
