import Mathlib.Data.List.Basic
import Chatroom.Lib.CondVar

/-!
# The send worker of the client and its shutdown

`Send` puts a message into `send_q_` under `mtx_` and notifies the worker with the lock held. `Close`
resets `running_` and then notifies the worker, both without the lock. The worker tests `running_` and
`send_q_` under `mtx_` and then waits, and only the wait releases the lock together with blocking. So
the whole of a `Close` may fall between the test and the wait: its notification reaches nobody, and the
worker sleeps on, though the client has been closed. `WorkerJoin` does not return then.

Each access to `running_`, each part of `Close` and each step of `WorkerFn` is a step here.
-/

namespace Chatroom.SendWorker

open Trace CondVar

/-- Where `WorkerFn` is, outside of the wait. -/
inductive Phase where
  /-- Its thread has not been started. -/
  | absent
  /-- It is at the outer test of `running_`; the test has passed, and it is to lock `mtx_`. -/
  | testing
  | locking
  /-- It holds `mtx_` and is at the test of the inner loop; the test has passed, and it is to wait; the
  inner loop is left. -/
  | checking
  | deciding
  | leaving
  /-- It writes a message; the write has failed; it has returned. -/
  | writing
  | failed
  | exited
  deriving DecidableEq, Repr

structure State (α : Type) where
  running : Bool
  sendQ : List α
  sending : Option α
  worker : Waiter Phase
  /-- The calls of `Close` that have their notification still to execute. -/
  closing : ℕ
  deriving DecidableEq, Repr

variable {α : Type}

def init : State α where
  running := false
  sendQ := []
  sending := none
  worker := .awake .absent
  closing := 0

/-- `mtx_` is free between two steps. -/
def Free (σ : State α) : Prop :=
  σ.worker ≠ .awake .checking ∧ σ.worker ≠ .awake .deciding ∧ σ.worker ≠ .awake .leaving

instance (σ : State α) : Decidable (Free σ) := inferInstanceAs (Decidable (_ ∧ _))

def send (σ : State α) (msg : α) : State α :=
  let sendQ := σ.sendQ ++ [msg]
  { σ with sendQ, worker := if sendQ.length = 1 then σ.worker.notify else σ.worker }

/-- `Close`, up to its notification. -/
def close (σ : State α) : State α :=
  if σ.running then { σ with running := false, closing := σ.closing + 1 } else σ

/-- `WorkerFn` goes on in phase `p`. -/
def goto (σ : State α) (p : Phase) : State α := { σ with worker := .awake p }

inductive Label (α : Type) where
  /-- `ConnectedHandler`. -/
  | connected
  | send (msg : α)
  /-- `Close` on a thread other than the worker, and the notification of any `Close`. -/
  | close
  | notifyAll
  /-- The steps of `WorkerFn`; `written ok` is the end of a write. -/
  | test
  | lock
  | check
  | block
  | resume
  | spurious
  | leave
  | written (ok : Bool)
  | giveUp
  deriving DecidableEq, Repr

def step (σ : State α) : Label α → Option (State α)
  | .connected =>
    if σ.worker = .awake .absent then some { goto σ .testing with running := true } else none
  | .send msg => if Free σ then some (send σ msg) else none
  | .close => some (close σ)
  | .notifyAll =>
    if 0 < σ.closing then
      some { σ with closing := σ.closing - 1, worker := σ.worker.notify }
    else none
  | .test =>
    if σ.worker = .awake .testing then
      some (goto σ (if σ.running then .locking else .exited))
    else none
  | .lock => if σ.worker = .awake .locking then some (goto σ .checking) else none
  | .check =>
    if σ.worker = .awake .checking then
      some (goto σ (if σ.running ∧ σ.sendQ = [] then .deciding else .leaving))
    else none
  | .block => if σ.worker = .awake .deciding then some { σ with worker := .blocked } else none
  | .resume => if σ.worker = .notified then some (goto σ .checking) else none
  | .spurious => if σ.worker = .blocked then some (goto σ .checking) else none
  | .leave =>
    if σ.worker = .awake .leaving then
      if σ.running then
        match σ.sendQ with
        | msg :: sendQ => some { goto σ .writing with sending := some msg, sendQ }
        -- not reached, see `leave_isSome`
        | [] => none
      else some (goto σ .exited)
    else none
  | .written ok =>
    if σ.worker = .awake .writing then some (goto σ (if ok then .testing else .failed)) else none
  | .giveUp => if σ.worker = .awake .failed then some (goto (close σ) .exited) else none

variable {σ σ' : State α} {l : Label α} {p : Phase}

/-! ## What a step can do

The shutdown depends on `running_`, on the notifications to come and on where the worker is. `Stepped`
keeps the steps that matter for this apart and puts all others into `goes`, so that the invariants
below
have one case for them. -/

/-- Everything that can happen to the client, as far as the shutdown goes. -/
inductive Stepped (σ : State α) : Label α → State α → Prop
  | connected : σ.worker = .awake .absent →
      Stepped σ .connected { goto σ .testing with running := true }
  | send {msg : α} : Stepped σ (.send msg) (send σ msg)
  | close : σ.running = true →
      Stepped σ .close { σ with running := false, closing := σ.closing + 1 }
  | isClosed : Stepped σ .close σ
  | notifyAll : 0 < σ.closing →
      Stepped σ .notifyAll { σ with closing := σ.closing - 1, worker := σ.worker.notify }
  | decides : σ.running = true → Stepped σ .check (goto σ .deciding)
  | block : σ.worker = .awake .deciding → Stepped σ .block { σ with worker := .blocked }
  | giveUp : σ.running = true →
      Stepped σ .giveUp
        { σ with running := false, closing := σ.closing + 1, worker := .awake .exited }
  /-- A step of the worker to another phase. -/
  | goes {l : Label α} {p : Phase} {σ' : State α} : p ≠ .absent → p ≠ .deciding →
      (σ'.worker, σ'.running, σ'.closing) = (.awake p, σ.running, σ.closing) → Stepped σ l σ'

/-- A `Close` of a client that is closed already does nothing. -/
theorem stepped_close : Stepped σ .close (close σ) := by
  unfold close
  split
  · next hrun => exact .close hrun
  · exact .isClosed

/-- The test of the inner loop, under the lock. -/
theorem stepped_check :
    Stepped σ .check (goto σ (if σ.running ∧ σ.sendQ = [] then .deciding else .leaving)) := by
  split
  · next hrun => exact .decides hrun.1
  · exact .goes (by decide) (by decide) rfl

/-- After the inner loop the worker writes a message or returns. -/
theorem leave_cases (hs : step σ .leave = some σ') : ∃ p, (p = .writing ∨ p = .exited) ∧
    (σ'.worker, σ'.running, σ'.closing) = (.awake p, σ.running, σ.closing) := by
  simp only [step] at hs
  split at hs
  · split at hs
    · split at hs
      · cases hs
        exact ⟨.writing, .inl rfl, rfl⟩
      · cases hs
    · cases hs
      exact ⟨.exited, .inr rfl, rfl⟩
  · cases hs

theorem stepped_leave (hs : step σ .leave = some σ') : Stepped σ .leave σ' := by
  obtain ⟨p, hp, hsame⟩ := leave_cases hs
  rcases hp with rfl | rfl
  · exact .goes (by decide) (by decide) hsame
  · exact .goes (by decide) (by decide) hsame

theorem stepped_giveUp : Stepped σ .giveUp (goto (close σ) .exited) := by
  unfold close
  split
  · next hrun => exact .giveUp hrun
  · exact .goes (p := .exited) (by decide) (by decide) rfl

/-- Every step is one of these. -/
theorem step_cases (hs : step σ l = some σ') : Stepped σ l σ' := by
  cases l with
  | connected =>
    obtain ⟨habsent, rfl⟩ := of_guard hs
    exact .connected habsent
  | send msg =>
    obtain ⟨_, rfl⟩ := of_guard hs
    exact .send
  | close =>
    cases hs
    exact stepped_close
  | notifyAll =>
    obtain ⟨howed, rfl⟩ := of_guard hs
    exact .notifyAll howed
  | check =>
    obtain ⟨_, rfl⟩ := of_guard hs
    exact stepped_check
  | block =>
    obtain ⟨hdeciding, rfl⟩ := of_guard hs
    exact .block hdeciding
  | leave => exact stepped_leave hs
  | giveUp =>
    obtain ⟨_, rfl⟩ := of_guard hs
    exact stepped_giveUp
  | test | written =>
    obtain ⟨_, rfl⟩ := of_guard hs
    refine .goes ?_ ?_ rfl <;> split <;> decide
  | lock | resume | spurious =>
    obtain ⟨_, rfl⟩ := of_guard hs
    exact .goes (p := .checking) (by decide) (by decide) rfl

/-! ## The queue

`WorkerFn` takes the front of `send_q_` without a test of its own behind the inner loop. -/

/-- The inner loop is left with a message in the queue, or after `running_` was reset. -/
def LeavesOk (σ : State α) : Prop :=
  σ.worker = .awake .leaving → σ.running = true → σ.sendQ ≠ []

theorem leavesOk_of_ne (hw : σ.worker = .awake p) (hp : p ≠ .leaving) : LeavesOk σ := by
  intro hphase
  rw [hw] at hphase
  cases hphase
  exact absurd rfl hp

theorem leavesOk_leave (hs : step σ .leave = some σ') : LeavesOk σ' := by
  obtain ⟨p, hp, hsame⟩ := leave_cases hs
  refine leavesOk_of_ne (congrArg Prod.fst hsame) ?_
  rcases hp with rfl | rfl <;> decide

/-- The inner loop is left because `running_` was reset or a message was found. -/
theorem leavesOk_check (hs : step σ .check = some σ') : LeavesOk σ' := by
  obtain ⟨_, rfl⟩ := of_guard hs
  intro hphase hrun hnil
  by_cases htest : σ.running ∧ σ.sendQ = []
  · rw [if_pos htest] at hphase
    cases hphase
  · exact htest ⟨hrun, hnil⟩

/-- Until the message is taken the worker holds the lock; a `Close` needs none, but resets `running_`.
-/
theorem LeavesOk.step (h : LeavesOk σ) (hs : step σ l = some σ') : LeavesOk σ' := by
  cases l with
  | send msg =>
    obtain ⟨_, rfl⟩ := of_guard hs
    intro _ _
    exact List.append_ne_nil_of_right_ne_nil _ (List.cons_ne_nil _ _)
  | close =>
    cases hs
    unfold close
    split
    · intro _ hrun
      cases hrun
    · exact h
  | notifyAll =>
    obtain ⟨_, rfl⟩ := of_guard hs
    exact fun hphase => h (Waiter.notify_eq_awake.mp hphase)
  | check => exact leavesOk_check hs
  | leave => exact leavesOk_leave hs
  | test | written =>
    obtain ⟨_, rfl⟩ := of_guard hs
    refine leavesOk_of_ne rfl ?_
    split <;> decide
  | connected | lock | resume | spurious | giveUp =>
    obtain ⟨_, rfl⟩ := of_guard hs
    exact leavesOk_of_ne rfl (by decide)
  | block =>
    obtain ⟨_, rfl⟩ := of_guard hs
    intro hphase
    cases hphase

/-- **The worker never takes a message from an empty queue.** -/
theorem leave_isSome (h : Reach step anyStep (init : State α) σ) (hphase : σ.worker = .awake .leaving) :
    (step σ .leave).isSome := by
  have hinv : LeavesOk σ :=
    h.invariant (fun hphase => by cases hphase) fun _ _ _ hinv _ hs => hinv.step hs
  simp only [step]
  rw [if_pos hphase]
  split
  · next hrun =>
    split
    · rfl
    · next hnil => exact absurd hnil (hinv hphase hrun)
  · rfl

/-! ## The calls of `Close`

`running_` is exchanged atomically, so of several calls only one goes on to notify. -/

/-- At most one `Close` resets `running_`, and not before the client is connected. -/
structure ClosingOk (σ : State α) : Prop where
  fresh : σ.worker = .awake .absent → σ.running = false ∧ σ.closing = 0
  once : σ.closing ≤ 1
  reset : 0 < σ.closing → σ.running = false

/-- `Send` leaves the worker where it is, or notifies it. -/
theorem send_worker (σ : State α) (msg : α) :
    (send σ msg).worker = σ.worker ∨ (send σ msg).worker = σ.worker.notify := by
  unfold send
  dsimp only
  split
  · exact .inr rfl
  · exact .inl rfl

theorem send_worker_eq_awake {msg : α} (h : (send σ msg).worker = .awake p) :
    σ.worker = .awake p := by
  rcases send_worker σ msg with hsame | hnotify
  · rwa [hsame] at h
  · rw [hnotify] at h
    exact Waiter.notify_eq_awake.mp h

theorem send_worker_eq_blocked {msg : α} (h : (send σ msg).worker = .blocked) :
    σ.worker = .blocked := by
  rcases send_worker σ msg with hsame | hnotify
  · rwa [hsame] at h
  · rw [hnotify] at h
    exact absurd h Waiter.notify_ne_blocked

/-- The one call that has found `running_` set. -/
theorem ClosingOk.close (h : ClosingOk σ) (hrun : σ.running = true) {w : Waiter Phase}
    (hw : w = .awake .absent → σ.worker = .awake .absent) :
    ClosingOk { σ with running := false, closing := σ.closing + 1, worker := w } := by
  refine ⟨fun habsent => ?_, ?_, fun _ => rfl⟩
  · have hfresh := (h.fresh (hw habsent)).1
    rw [hrun] at hfresh
    cases hfresh
  · show σ.closing + 1 ≤ 1
    rcases Nat.eq_zero_or_pos σ.closing with hnone | howed
    · exact Nat.succ_le_succ (Nat.le_of_eq hnone)
    · have hreset := h.reset howed
      rw [hrun] at hreset
      cases hreset

/-- Only a `Close` and the end of a failed write reset `running_`. -/
theorem ClosingOk.step (h : ClosingOk σ) (hs : Stepped σ l σ') : ClosingOk σ' := by
  cases hs with
  | connected habsent =>
    have hnone : σ.closing = 0 := (h.fresh habsent).2
    refine ⟨fun hphase => (by cases hphase), h.once, fun howed => ?_⟩
    exact absurd hnone (Nat.ne_of_gt howed)
  | send => exact ⟨fun habsent => h.fresh (send_worker_eq_awake habsent), h.once, h.reset⟩
  | close hrun => exact h.close hrun id
  | isClosed => exact h
  | notifyAll howed =>
    refine ⟨fun habsent => ?_, Nat.le_trans (Nat.sub_le _ _) h.once, fun _ => h.reset howed⟩
    have hfresh := h.fresh (Waiter.notify_eq_awake.mp habsent)
    exact absurd hfresh.2 (Nat.ne_of_gt howed)
  | decides | block => exact ⟨fun hphase => (by cases hphase), h.once, h.reset⟩
  | giveUp hrun => exact h.close hrun fun hphase => by cases hphase
  | goes habsent _ hsame =>
    simp only [Prod.mk.injEq] at hsame
    obtain ⟨hworker, hrunning, hclosing⟩ := hsame
    refine ⟨fun hphase => ?_, hclosing ▸ h.once, fun howed => ?_⟩
    · rw [hworker] at hphase
      cases hphase
      exact absurd rfl habsent
    · rw [hrunning]
      exact h.reset (hclosing ▸ howed)

/-! ## Whether the worker learns of the shutdown

`Aware` says that somebody is going to wake a worker that waits on a client that is closed. It is the
same as not to hang now or after the next step (`learns_iff_aware`). A notification that meets the
worker
between its test and its wait destroys it, and nothing else does. -/

/-- The client is closed, and the worker waits for a notification that nobody is going to send. -/
def Hung (σ : State α) : Prop := σ.running = false ∧ σ.worker = .blocked ∧ σ.closing = 0

/-- No `Close` notifies the worker between its test and its wait. -/
def NotifiesSeen (σ : State α) : Label α → Prop
  | .notifyAll => σ.worker ≠ .awake .deciding
  | _ => True

instance (σ : State α) : ∀ l, Decidable (NotifiesSeen σ l)
  | .notifyAll => inferInstanceAs (Decidable (_ ≠ _))
  | .connected | .send _ | .close | .test | .lock | .check | .block | .resume | .spurious | .leave
  | .written _ | .giveUp => .isTrue trivial

/-- The worker waits, or goes to its wait, only while the client runs or a notification is to come. -/
def Aware (σ : State α) : Prop :=
  σ.worker = .awake .deciding ∨ σ.worker = .blocked → σ.running = true ∨ 0 < σ.closing

/-- A worker whom somebody is going to wake does not hang. -/
theorem not_hung_of_aware (h : Aware σ) : ¬ Hung σ := by
  rintro ⟨hstopped, hblocked, hnone⟩
  rcases h (.inr hblocked) with hrun | howed
  · rw [hrun] at hstopped
    cases hstopped
  · exact absurd hnone (Nat.ne_of_gt howed)

/-- The worker is not hung, and it is not if it blocks next. -/
def Learns (σ : State α) : Prop := ¬ Hung σ ∧ ∀ σ', step σ .block = some σ' → ¬ Hung σ'

theorem step_block (h : σ.worker = .awake .deciding) :
    step σ .block = some { σ with worker := .blocked } := if_pos h

theorem learns_iff_aware : Learns σ ↔ Aware σ := by
  constructor
  · rintro ⟨hnow, hnext⟩ hphase
    by_contra hnone
    have hstopped : σ.running = false := by
      have hne := not_or.mp hnone |>.1
      simpa using hne
    have hzero : σ.closing = 0 := Nat.eq_zero_of_not_pos (not_or.mp hnone).2
    rcases hphase with hdeciding | hblocked
    · exact hnext _ (step_block hdeciding) ⟨hstopped, rfl, hzero⟩
    · exact hnow ⟨hstopped, hblocked, hzero⟩
  · intro h
    refine ⟨not_hung_of_aware h, fun σ' hs => not_hung_of_aware fun _ => ?_⟩
    obtain ⟨hdeciding, rfl⟩ := of_guard hs
    exact h (.inl hdeciding)

/-- The step lemma: before a `Close` the client runs; between its two halves a notification is to
come; after it the worker has been woken, or had not decided to wait. -/
theorem Aware.step (h : Aware σ) (hok : NotifiesSeen σ l) (hs : Stepped σ l σ') : Aware σ' := by
  intro hphase
  cases hs with
  | connected => exact .inl rfl
  | send => exact h (hphase.imp send_worker_eq_awake send_worker_eq_blocked)
  | close | giveUp => exact .inr (Nat.succ_pos _)
  | isClosed => exact h hphase
  | notifyAll =>
    rcases hphase with hdeciding | hblocked
    · exact absurd (Waiter.notify_eq_awake.mp hdeciding) hok
    · exact absurd hblocked Waiter.notify_ne_blocked
  | decides hrun => exact .inl hrun
  | block hdeciding => exact h (.inl hdeciding)
  | goes _ hne hsame =>
    simp only [Prod.mk.injEq] at hsame
    rw [hsame.1] at hphase
    rcases hphase with hdeciding | hblocked
    · cases hdeciding
      exact absurd rfl hne
    · cases hblocked

/-- There is only one step that can come at the wrong time. -/
theorem notifyAll_of_unseen (h : ¬ NotifiesSeen σ l) :
    l = .notifyAll ∧ σ.worker = .awake .deciding := by
  cases l
  case notifyAll => exact ⟨rfl, not_not.mp h⟩
  all_goals exact absurd trivial h

/-- The notification that comes too early was the only one. -/
theorem not_aware_of_unseen (h : ClosingOk σ) (hok : ¬ NotifiesSeen σ l) (hs : step σ l = some σ') :
    ¬ Aware σ' := by
  obtain ⟨rfl, hdeciding⟩ := notifyAll_of_unseen hok
  obtain ⟨howed, rfl⟩ := of_guard hs
  intro haware
  rcases haware (.inl (Waiter.notify_eq_awake.mpr hdeciding)) with hrun | howed'
  · have hreset := h.reset howed
    rw [show σ.running = true from hrun] at hreset
    cases hreset
  · have honce := h.once
    have hpos : 0 < σ.closing - 1 := howed'
    omega

/-- **When the worker learns of the shutdown**: a run does not come to a state in which the worker
hangs, or is about to, if and only if no notification of a `Close` in it falls between the test and the
wait of the worker. -/
theorem learns_iff_notifiesSeen (ls : List (Label α)) (hrun : (run step anyStep init ls).isSome) :
    (∀ pre, pre <+: ls → ∀ σ, run step anyStep init pre = some σ → Learns σ) ↔
      (run step NotifiesSeen init ls).isSome := by
  have hinit : ClosingOk (init : State α) :=
    ⟨fun _ => ⟨rfl, rfl⟩, Nat.zero_le _, fun howed => (by cases howed)⟩
  have haware : Aware (init : State α) := by
    intro hphase
    rcases hphase with hdeciding | hblocked
    · cases hdeciding
    · cases hblocked
  refine run_isSome_iff (fun σ l σ' hknown hgood hs => ?_) hinit (learns_iff_aware.mpr haware) hrun
  refine ⟨hknown.step (step_cases hs), ?_, fun hok => ?_⟩
  · intro hlearns
    by_contra hok
    exact not_aware_of_unseen hknown hok hs (learns_iff_aware.mp hlearns)
  · exact learns_iff_aware.mpr ((learns_iff_aware.mp hgood).step hok (step_cases hs))

/-- The worker waits, and the client is closed then. -/
def closeWaiting : List (Label ℕ) :=
  [.connected, .test, .lock, .check, .block, .close, .notifyAll, .resume, .check, .leave]

theorem learns_closeWaiting : (run step NotifiesSeen (init : State ℕ) closeWaiting).isSome ∧
    (run step anyStep (init : State ℕ) closeWaiting).isSome ∧
      ∃ σ, run step anyStep (init : State ℕ) closeWaiting = some σ ∧ ¬ Hung σ ∧
        σ.worker = .awake .exited := by
  have hrun : run step anyStep (init : State ℕ) closeWaiting = some _ := rfl
  have hlearns := (learns_iff_notifiesSeen closeWaiting rfl).mpr rfl
  exact ⟨rfl, rfl, _, rfl, (hlearns closeWaiting (List.prefix_refl _) _ hrun).1, rfl⟩

/-- The client is closed while the worker is between its test and its wait. -/
theorem hung_close_deciding : ∃ σ : State ℕ, Reach step anyStep init σ ∧ Hung σ := by
  have hrun : run step anyStep (init : State ℕ)
      [.connected, .test, .lock, .check, .close, .notifyAll, .block] = some _ := rfl
  exact ⟨_, reach_of_run hrun, rfl, rfl, rfl⟩

end Chatroom.SendWorker
