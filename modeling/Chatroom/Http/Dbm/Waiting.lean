import Chatroom.Http.Dbm.Pool

/-!
# The threads that wait for a connection

`ReturnIdleConn` notifies one thread, and only if the queue was empty. The second of two returns
finds the connection of the first, unless the thread woken for that has been quick to take it. So a
thread may sleep on beside an idle connection. `ReturnsAwaited` is the condition on the steps that
this does not happen.
-/

namespace Chatroom.Gateway.DBM

open Trace

variable {σ σ' : State} {l : Label} {t : Tid} {c : Conn}

/-- While a thread is blocked, there are no more idle connections than threads on their way to one. -/
def NoneForgotten (σ : State) : Prop :=
  σ.running = true → σ.blocked ≠ [] → σ.freeQueue.length ≤ σ.notified.length

instance (σ : State) : Decidable (NoneForgotten σ) := inferInstanceAs (Decidable (_ → _ → _))

/-- A connection is returned to an empty queue, or nobody is blocked, or there are more threads on
their way than idle connections. -/
def ReturnsAwaited (σ : State) : Label → Prop
  | .put _ _ _ => σ.freeQueue = [] ∨ σ.blocked = [] ∨ σ.freeQueue.length < σ.notified.length
  | _ => True

instance (σ : State) : ∀ l, Decidable (ReturnsAwaited σ l)
  | .put .. => inferInstanceAs (Decidable (_ ∨ _ ∨ _))
  | .start .. | .stop | .get .. | .resume .. | .spurious .. => .isTrue trivial

/-! ## The count

Idle connections are counted against threads that are notified and have not resumed. A return adds one
on each
side if it notifies, and a thread that looks for a connection takes one away on each side, or finds
none. -/

/-- Threads are blocked only while the pool runs, and none is forgotten. -/
structure WakingOk (σ : State) : Prop where
  running : σ.blocked ≠ [] → σ.running = true
  enough : σ.blocked ≠ [] → σ.freeQueue.length ≤ σ.notified.length

/-- A thread that looks for a connection takes one away from those that are idle, or finds none. -/
theorem wakingOk_got (hrun : σ.blocked ≠ [] → σ.running = true)
    (henough : σ.blocked ≠ [] → σ.freeQueue.length ≤ σ.notified.length + 1) (hg : Got σ t σ') :
    WakingOk σ' := by
  cases hg with
  | null hnone =>
    refine ⟨hrun, fun hblocked => ?_⟩
    rcases hnone with hstopped | hempty
    · rw [hrun hblocked] at hstopped
      cases hstopped
    · rw [hempty]
      exact Nat.zero_le _
  | @idle c q _ hq =>
    refine ⟨hrun, fun hblocked => ?_⟩
    have hle := henough hblocked
    rw [hq, List.length_cons] at hle
    exact Nat.le_of_succ_le_succ hle
  | created hrunning hq =>
    refine ⟨fun _ => hrunning, fun _ => ?_⟩
    show σ.freeQueue.length ≤ σ.notified.length
    rw [hq]
    exact Nat.zero_le _
  | waits hrunning hq =>
    refine ⟨fun _ => hrunning, fun _ => ?_⟩
    show σ.freeQueue.length ≤ σ.notified.length
    rw [hq]
    exact Nat.zero_le _

/-- A connection comes back; the notification goes out only to an empty queue. -/
theorem WakingOk.put {woken : Option Tid} (h : WakingOk σ) (hwakes : Wakes σ woken)
    (hok : ReturnsAwaited σ (.put t c woken)) : WakingOk (returnIdleConn σ t c woken) := by
  cases woken with
  | none =>
    refine ⟨h.running, fun hblocked => ?_⟩
    show (σ.freeQueue ++ [c]).length ≤ (σ.notified ++ []).length
    rw [List.length_append, List.length_singleton, List.append_nil]
    rcases hok with hempty | hnobody | hmore
    · exact absurd (hwakes hempty) hblocked
    · exact absurd hnobody hblocked
    · exact hmore
  | some w =>
    obtain ⟨hempty, hw⟩ := hwakes
    refine ⟨fun _ => h.running (List.ne_nil_of_mem hw), fun _ => ?_⟩
    show (σ.freeQueue ++ [c]).length ≤ (σ.notified ++ [w]).length
    rw [hempty, List.length_append, List.length_append]
    exact Nat.le_add_left _ _

theorem WakingOk.step (h : WakingOk σ) (hok : ReturnsAwaited σ l) (hs : Stepped σ l σ') :
    WakingOk σ' := by
  cases hs with
  | start hst =>
    cases hst with
    | refused | failed => exact ⟨h.running, h.enough⟩
    | ok hrun _ =>
      -- nobody is blocked while the pool does not run
      refine ⟨fun _ => rfl, fun hblocked => ?_⟩
      exact absurd ((h.running hblocked).symm.trans hrun) (by decide)
  | stop => exact ⟨fun hblocked => absurd rfl hblocked, fun hblocked => absurd rfl hblocked⟩
  | notRunning => exact h
  | get hg => exact wakingOk_got h.running (fun hb => Nat.le_succ_of_le (h.enough hb)) hg
  | @resume t connect σ' ht hg =>
    refine wakingOk_got (σ := { σ with notified := σ.notified.erase t }) h.running (fun hb => ?_) hg
    have hpos := List.length_pos_of_mem ht
    have hle := h.enough hb
    show σ.freeQueue.length ≤ (σ.notified.erase t).length + 1
    rw [List.length_erase_of_mem ht]
    omega
  | @spurious t connect σ' ht hg =>
    have hne : σ.blocked ≠ [] := List.ne_nil_of_mem ht
    exact wakingOk_got (σ := { σ with blocked := σ.blocked.erase t }) (fun _ => h.running hne)
      (fun _ => Nat.le_succ_of_le (h.enough hne)) hg
  | put _ hwakes => exact h.put hwakes hok

/-- **No thread sleeps beside a connection that nobody is on the way to**, in every run in which a
connection returned to a queue that is not empty finds nobody blocked, or enough threads awake. -/
theorem noneForgotten_of_returnsAwaited (h : Reach step ReturnsAwaited init σ) :
    NoneForgotten σ := by
  have hinv : WakingOk σ := by
    refine h.invariant ⟨?_, ?_⟩ fun _ _ _ hinv hok hs => hinv.step hok (step_cases hs)
    · exact fun hblocked => absurd rfl hblocked
    · exact fun hblocked => absurd rfl hblocked
  exact fun _ hblocked => hinv.enough hblocked

/-- A pool of two, its connections in use, and two threads that wait. -/
def crowded : List Label :=
  [.start 2 2 fun _ => true, .get 1 true, .get 2 true, .get 3 true, .get 4 true]

/-- One connection comes back, and one of the two threads is on its way to it. -/
theorem noneForgotten_one_return : ∃ σ, Reach step ReturnsAwaited init σ ∧ NoneForgotten σ ∧
    σ.blocked = [4] ∧ σ.freeQueue = [0] := by
  have hrun : run step ReturnsAwaited init (crowded ++ [.put 1 0 (some 3)]) = some _ := rfl
  exact ⟨_, reach_of_run hrun, noneForgotten_of_returnsAwaited (reach_of_run hrun), by decide,
    by decide⟩

/-- Both connections are returned before the thread woken by the first return resumes. The second
return finds the queue not empty and wakes nobody: one thread resumes, the other sleeps on beside an
idle connection. -/
theorem not_noneForgotten_two_returns : ∃ σ, Reach step anyStep init σ ∧ ¬ NoneForgotten σ ∧
    σ.blocked = [4] ∧ σ.notified = [] ∧ σ.freeQueue = [1] := by
  have hrun : run step anyStep init
      (crowded ++ [.put 1 0 (some 3), .put 2 1 none, .resume 3 true]) = some _ := rfl
  exact ⟨_, reach_of_run hrun, by decide, by decide, by decide, by decide⟩

end Chatroom.Gateway.DBM
