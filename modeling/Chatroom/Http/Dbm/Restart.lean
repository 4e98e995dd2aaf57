import Chatroom.Http.Dbm.Pool

/-!
# The pool after a restart

`Stop` closes the connections and empties `conns_`, but not `free_queue_`, and a connection may come
back long after. So a pool that has been started again hands out connections it has closed.
`ReturnsCurrent` is the condition on the steps that this does not happen.

What the callers do with a closed connection is not looked at. A statement on it fails, and `DBM`
reports an error
of the server.
-/

namespace Chatroom.Gateway.DBM

open Trace

variable {σ σ' : State} {l : Label} {t : Tid} {c : Conn}

/-- Every connection handed out was one of the pool at that moment, and open. -/
def LendsCurrent (σ : State) : Prop := ∀ x ∈ σ.lent, x.conn ∈ x.conns ∧ x.conn ∉ x.closed

instance (σ : State) : Decidable (LendsCurrent σ) := inferInstanceAs (Decidable (∀ x ∈ σ.lent, _))

/-- A stopped pool that starts has nothing left in the queue, and while it runs, only its own connections
are returned. A `Start` that is refused or fails is free. -/
def ReturnsCurrent (σ : State) : Label → Prop
  | .start conns maxConn connect =>
    σ.running = false → (start σ conns maxConn connect).running = true → σ.freeQueue = []
  | .put _ c _ => σ.running = true → c ∈ σ.conns
  | _ => True

instance (σ : State) : ∀ l, Decidable (ReturnsCurrent σ l)
  | .start .. => inferInstanceAs (Decidable (_ → _ → _))
  | .put .. => inferInstanceAs (Decidable (_ → _))
  | .stop | .get .. | .resume .. | .spurious .. => .isTrue trivial

/-! ## The queue of a running pool

The queue is asked for only while the pool runs, so its content matters only then: all of it has to be
in
`conns_`, which has nothing but open connections. -/

structure LendingOk (σ : State) : Prop where
  queue : σ.running = true → ∀ c ∈ σ.freeQueue, c ∈ σ.conns
  lent : LendsCurrent σ

/-- An open connection of the pool is handed out. -/
theorem LendsCurrent.lend (h : LendsCurrent σ) (hc : c ∈ σ.conns) (hopen : c ∉ σ.closed) :
    LendsCurrent (lend σ t c) := by
  intro x hx
  rcases List.mem_append.mp hx with hold | hnew
  · exact h x hold
  · rw [List.mem_singleton.mp hnew]
    exact ⟨hc, hopen⟩

/-- What `GetIdleConn` takes from the queue of a running pool, or makes, is current. -/
theorem LendingOk.got (h : LendingOk σ) (howned : OwnedOk σ) (hg : Got σ t σ') : LendingOk σ' := by
  cases hg with
  | null => exact h
  | waits => exact ⟨h.queue, h.lent⟩
  | @idle c q hrun hq =>
    have hqueue := h.queue hrun
    rw [hq] at hqueue
    have hc : c ∈ σ.conns := hqueue c List.mem_cons_self
    refine ⟨fun _ c' hc' => hqueue c' (List.mem_cons_of_mem _ hc'), ?_⟩
    exact LendsCurrent.lend (σ := { σ with freeQueue := q }) h.lent hc (howned.conns c hc).2
  | created hrun hq =>
    refine ⟨fun _ c' hc' => ?_, ?_⟩
    · have hnil : c' ∈ σ.freeQueue := hc'
      rw [hq] at hnil
      cases hnil
    · refine LendsCurrent.lend (σ := createConn σ) h.lent ?_ fun hmem => ?_
      · exact List.mem_append_right _ List.mem_cons_self
      · exact absurd (howned.closed _ hmem) (Nat.lt_irrefl _)

/-- Each step keeps what is in the queue of a running pool among its connections. -/
theorem LendingOk.step (h : LendingOk σ) (howned : OwnedOk σ) (hok : ReturnsCurrent σ l)
    (hs : step σ l = some σ') : LendingOk σ' := by
  cases step_cases hs with
  | start hst =>
    have hstarted := Option.some.inj hs
    cases hst with
    | refused => exact h
    | failed hrun =>
      refine ⟨fun hrunning => ?_, h.lent⟩
      exact absurd (hrunning.symm.trans hrun) (by decide)
    | ok hrun _ =>
      refine ⟨fun _ c hc => ?_, h.lent⟩
      rw [hok hrun (by rw [hstarted]), List.nil_append] at hc
      exact hc
  | stop => exact ⟨nofun, h.lent⟩
  | notRunning => exact h
  | get hg => exact h.got howned hg
  | @resume t connect σ' _ hg =>
    have hresumed : LendingOk { σ with notified := σ.notified.erase t } := ⟨h.queue, h.lent⟩
    exact hresumed.got (howned.of_perm .rfl rfl) hg
  | @spurious t connect σ' _ hg =>
    have hresumed : LendingOk { σ with blocked := σ.blocked.erase t } := ⟨h.queue, h.lent⟩
    exact hresumed.got (howned.of_perm .rfl rfl) hg
  | @put t c woken =>
    refine ⟨fun hrun c' hc' => ?_, h.lent⟩
    rcases List.mem_append.mp hc' with hold | hnew
    · exact h.queue hrun c' hold
    · rw [List.mem_singleton.mp hnew]
      exact hok hrun

/-- **The pool hands out only open connections of its own**, in every run in which it gets to run with
an empty queue and gets back, while it runs, only connections made since. -/
theorem lendsCurrent_of_returnsCurrent (h : Reach step ReturnsCurrent init σ) : LendsCurrent σ := by
  have hinv : LendingOk σ := by
    refine h.invariant_of ownedOk_of_reach ⟨nofun, nofun⟩ ?_
    exact fun _ _ _ howned hinv hok hs => hinv.step howned hok hs
  exact hinv.lent

/-- The queue is empty when the pool is stopped; a first attempt to start it again fails. -/
theorem lendsCurrent_drained : ∃ σ, Reach step ReturnsCurrent init σ ∧ LendsCurrent σ ∧
    σ.lent.length = 2 ∧ σ.closed = [0, 1] := by
  have hrun : run step ReturnsCurrent init
      [.start 1 1 fun _ => true, .get 1 true, .stop, .start 1 1 fun _ => false,
        .start 1 1 fun _ => true, .get 2 true] = some _ := rfl
  exact ⟨_, reach_of_run hrun, lendsCurrent_of_returnsCurrent (reach_of_run hrun), by decide,
    by decide⟩

/-- A pool of one connection is stopped and started again. The connection that `Stop` has closed is
still in the queue, before the new one, and is handed out. -/
theorem not_lendsCurrent_restart : ∃ σ, Reach step anyStep init σ ∧ ¬ LendsCurrent σ ∧
    σ.running = true ∧ σ.lent = [⟨0, [1], [0]⟩] := by
  have hrun : run step anyStep init
      [.start 1 1 fun _ => true, .stop, .start 1 1 fun _ => true, .get 1 true] = some _ := rfl
  exact ⟨_, reach_of_run hrun, by decide, by decide, by decide⟩

end Chatroom.Gateway.DBM
