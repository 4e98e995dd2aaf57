import Mathlib.Data.List.Basic
import Chatroom.Lib.CondVar

/-!
# The queue of the message handler (`MsgHandler`)

Any threads post messages, one worker takes them. `PostMessage` notifies the worker only if its push
made the queue one long, and it does so after it has released `lck_`; `Stop` likewise notifies after it
has reset `running_`. So a critical section and the notification that follows it are two steps, and
anything may come between them. The worker holds `lck_` while it processes a message. It may return
from its wait without a notification.
-/

namespace Chatroom.MsgHandler

open Trace CondVar

/-- Where `Worker` is, outside of the wait: its thread has not been started, it is about to lock
`lck_`, it is in `Processor`, it has returned. -/
inductive Phase where
  | absent
  | entering
  | processing
  | exited
  deriving DecidableEq, Repr

structure State (α : Type) where
  q : List α
  running : Bool
  worker : Waiter Phase
  /-- The calls of `PostMessage` and of `Stop` that have their notification still to execute. -/
  posting : ℕ
  stopping : ℕ
  deriving DecidableEq, Repr

variable {α : Type}

def init : State α where
  q := []
  running := false
  worker := .awake .absent
  posting := 0
  stopping := 0

/-- `Worker` from the test of `running_` on, with `lck_` held. After the wait the inner loop tests the
same as the outer one does. -/
def loop (σ : State α) : State α :=
  if σ.running then
    match σ.q with
    | [] => { σ with worker := .blocked }
    | _ :: q => { σ with q, worker := .awake .processing }
  else { σ with worker := .awake .exited }

/-- The critical section of `PostMessage`. -/
def postMessage (σ : State α) (item : α) : State α :=
  let q := σ.q ++ [item]
  { σ with q, posting := if q.length = 1 then σ.posting + 1 else σ.posting }

/-- `Start`. A thread object that still has its thread may not be assigned to. -/
def start (σ : State α) : Option (State α) :=
  if σ.running then some σ
  else if σ.worker = .awake .absent ∨ σ.worker = .awake .exited then
    some { σ with running := true, worker := .awake .entering }
  else none

/-- The critical section of `Stop`. -/
def stop (σ : State α) : State α :=
  if σ.running then { σ with running := false, stopping := σ.stopping + 1 } else σ

inductive Label (α : Type) where
  | start
  | post (item : α)
  | notifyOne
  | stop
  | notifyAll
  /-- `Worker` locks `lck_` at its begin; it has processed a message; it returns from the wait, after a
  notification or without one. -/
  | enter
  | processed
  | resume
  | spurious
  deriving DecidableEq, Repr

/-- Whether `lck_` is free between two steps. -/
def Free (σ : State α) : Prop := σ.worker ≠ .awake .processing

instance (σ : State α) : Decidable (Free σ) := inferInstanceAs (Decidable (_ ≠ _))

def step (σ : State α) : Label α → Option (State α)
  | .start => if Free σ then start σ else none
  | .post item => if Free σ then some (postMessage σ item) else none
  | .notifyOne =>
    if 0 < σ.posting then
      some { σ with posting := σ.posting - 1, worker := σ.worker.notify }
    else none
  | .stop => if Free σ then some (stop σ) else none
  | .notifyAll =>
    if 0 < σ.stopping then
      some { σ with stopping := σ.stopping - 1, worker := σ.worker.notify }
    else none
  | .enter => if σ.worker = .awake .entering then some (loop σ) else none
  | .processed => if σ.worker = .awake .processing then some (loop σ) else none
  | .resume => if σ.worker = .notified then some (loop σ) else none
  | .spurious => if σ.worker = .blocked then some (loop σ) else none

variable {σ σ' : State α} {l : Label α}

/-! ## What a step can do

All ways back into the loop of the worker are one case: they do the same. -/

/-- Everything that can happen to the handler. -/
inductive Stepped (σ : State α) : Label α → State α → Prop
  | isRunning : Stepped σ .start σ
  | start : Stepped σ .start { σ with running := true, worker := .awake .entering }
  | post {item : α} : Stepped σ (.post item) (postMessage σ item)
  | notifyOne :
      Stepped σ .notifyOne { σ with posting := σ.posting - 1, worker := σ.worker.notify }
  | stop : Stepped σ .stop { σ with running := false, stopping := σ.stopping + 1 }
  | notRunning : Stepped σ .stop σ
  | notifyAll :
      Stepped σ .notifyAll { σ with stopping := σ.stopping - 1, worker := σ.worker.notify }
  | work {l : Label α} : Stepped σ l (loop σ)

theorem stepped_start (hs : start σ = some σ') : Stepped σ .start σ' := by
  unfold start at hs
  split at hs
  · cases hs
    exact .isRunning
  · split at hs
    · cases hs
      exact .start
    · cases hs

theorem stepped_stop : Stepped σ .stop (stop σ) := by
  unfold stop
  split
  · exact .stop
  · exact .notRunning

/-- Everything that can happen is listed. -/
theorem step_cases (hs : step σ l = some σ') : Stepped σ l σ' := by
  cases l with
  | start =>
    obtain ⟨_, hstart⟩ := Option.ite_none_right_eq_some.mp hs
    exact stepped_start hstart
  | post item =>
    obtain ⟨_, rfl⟩ := of_guard hs
    exact .post
  | notifyOne =>
    obtain ⟨_, rfl⟩ := of_guard hs
    exact .notifyOne
  | stop =>
    obtain ⟨_, rfl⟩ := of_guard hs
    exact stepped_stop
  | notifyAll =>
    obtain ⟨_, rfl⟩ := of_guard hs
    exact .notifyAll
  | enter | processed | resume | spurious =>
    obtain ⟨_, rfl⟩ := of_guard hs
    exact .work

/-! ## No lost wake-up

The rule of `CondVar`, with an empty queue of a running handler as the rest of the worker. A push that
makes the
queue one long is the only one that ends the rest, and it is the one that notifies. -/

/-- There is nothing for the worker to do. -/
def Rests (σ : State α) : Prop := σ.q = [] ∧ σ.running = true

/-- Some thread has a notification of `cv_` still to execute. -/
def Owed (σ : State α) : Prop := 0 < σ.posting ∨ 0 < σ.stopping

/-- The worker blocks only when it has nothing to do. -/
theorem rests_of_loop_blocked : (loop σ).worker = .blocked → Rests (loop σ) := by
  unfold loop
  split
  · next hrun =>
    split
    · next hq => exact fun _ => ⟨hq, hrun⟩
    · intro h
      cases h
  · intro h
    cases h

/-- A message for a worker that rests comes with a notification. -/
theorem owed_postMessage {item : α} (h : Rests σ ∨ Owed σ) : Owed (postMessage σ item) := by
  show 0 < (if (σ.q ++ [item]).length = 1 then σ.posting + 1 else σ.posting) ∨ 0 < σ.stopping
  rcases h with ⟨hq, _⟩ | hposting | hstopping
  · rw [hq]
    exact .inl (Nat.succ_pos _)
  · left
    split
    · exact Nat.succ_pos _
    · exact hposting
  · exact .inr hstopping

/-- **No lost wake-up**: whenever the worker is blocked and has not been notified, the queue is empty
and the handler runs, or some thread still has a notification to execute. -/
theorem rests_or_owed_of_blocked (h : Reach step anyStep (init : State α) σ)
    (hb : σ.worker = .blocked) :
    (σ.q = [] ∧ σ.running = true) ∨ 0 < σ.posting ∨ 0 < σ.stopping := by
  show Rests σ ∨ Owed σ
  refine rests_or_owed h ?_ ?_ ?_ hb
  · intro h0
    cases h0
  · intro σ l σ' _ _ hs hawake hblocked
    cases step_cases hs with
    | isRunning | notRunning | post | stop => exact absurd hblocked hawake
    | start => cases hblocked
    | notifyOne | notifyAll => exact absurd hblocked Waiter.notify_ne_blocked
    | work => exact .inl (rests_of_loop_blocked hblocked)
  · intro σ l σ' _ hs _ hblocked hinv
    cases step_cases hs with
    | isRunning | notRunning => exact hinv
    | start => cases hblocked
    | post => exact .inr (owed_postMessage hinv)
    | stop => exact .inr (.inr (Nat.succ_pos _))
    | notifyOne | notifyAll => exact absurd hblocked Waiter.notify_ne_blocked
    | work => exact .inl (rests_of_loop_blocked hblocked)

/-- The worker waits, and a message has been posted whose notification is still to come. -/
theorem rests_or_owed_one_post : ∃ σ : State ℕ, Reach step anyStep init σ ∧ σ.worker = .blocked ∧
    ((σ.q = [] ∧ σ.running = true) ∨ 0 < σ.posting ∨ 0 < σ.stopping) ∧ σ.q = [7] := by
  have hrun : run step anyStep (init : State ℕ) [.start, .enter, .post 7] = some _ := rfl
  exact ⟨_, reach_of_run hrun, rfl, rests_or_owed_of_blocked (reach_of_run hrun) rfl, rfl⟩

end Chatroom.MsgHandler
