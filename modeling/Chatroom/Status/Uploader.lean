import Chatroom.Lib.Trace
import Chatroom.Status.LoadBalancer

/-!
# The upload of the server list (`TimedUploader`, `StatusServiceImpl`)

The worker of `TimedUploader` sleeps until `pending_` is set, by `UpdateNow` or by a timeout. Then it
releases `mtx_`, sweeps the balancer, copies the list of servers, writes the copy to Redis and clears
`pending_`, all without the mutex, and takes the mutex again. RPC handlers change the balancer and
then call `UpdateNow`.

Whoever has `mtx_` has it for one step: `UpdateNow`, `Stop`, and what the worker does from taking the
mutex to sleeping or to releasing it. What the worker does in between is a step for each call. A wait
may end at any time.

`pending_` is cleared for a copy that was made long before. A request that came in the meantime is
cleared with it.

`UpdateServerList` returns `false` for a reply that says nothing was written. When the connection is
gone, redis++ throws, and neither `UpdateServerList` nor `WorkerFn` catches it: the exception leaves
the thread and ends the process.
-/

namespace Chatroom.Status.TimedUploader

open Trace

/-- The fields written to `server_list`: addresses by id. -/
abbrev ServerList := List (String × String)

inductive Worker where
  /-- About to take `mtx_`, at the start of the thread or at the end of a turn. -/
  | locking
  | waiting
  /-- Behind `lock.unlock()`: about to call `CheckTTL`, `CopyServerInfoList`, `UpdateServerList`. -/
  | unlocked
  | swept
  | copied (servList : ServerList)
  /-- `UpdateServerList` has returned. -/
  | uploaded (ret : Bool)
  | stopped
  deriving DecidableEq, Repr

/-- The worker is bound to copy the list before it looks at `pending_` again. -/
def Worker.beforeSnapshot : Worker → Bool
  | unlocked => true
  | swept => true
  | _ => false

structure State where
  balancer : LoadBalancer
  running : Bool
  pending : Bool
  errCount : ℕ
  worker : Worker
  /-- RPC handlers about to call `UpdateNow`. -/
  callers : ℕ
  /-- An exception that nobody catches has ended the process. -/
  crashed : Bool
  /-- History: an `UpdateNow` has returned since the list was last copied; the lists for which
  `UpdateServerList` returned `true`. -/
  requested : Bool
  uploads : List ServerList

def errCountMax : ℕ := 3

/-- `Start`. -/
def init : State where
  balancer := .init
  running := true
  pending := false
  errCount := 0
  worker := .locking
  callers := 0
  crashed := false
  requested := false
  uploads := []

/-- The list that is written for the servers copied. -/
def servList (out : List ServerInfo) : ServerList :=
  out.map fun item => (toString item.id.toNat, item.addr)

/-- The worker has `mtx_`: it leaves its loop, waits, or releases the mutex to upload. -/
def enter (σ : State) : State :=
  if σ.running then
    if σ.pending then { σ with worker := .unlocked } else { σ with worker := .waiting }
  else { σ with worker := .stopped }

/-- An operation of the balancer, which may throw. -/
def withBalancer {α : Type} (σ : State) (r : Except HeapError (α × LoadBalancer))
    (k : α → State → State) : State :=
  match r with
  | .ok (a, balancer) => k a { σ with balancer := balancer }
  | .error _ => { σ with crashed := true }

inductive Label where
  /-- RPC handlers. -/
  | reportServerLoad (id load : UInt32) (now : UInt64)
  | registerServer (id : UInt32) (addr : String) (load : UInt32) (now : UInt64)
  | checkMinimalLoadServer (clock : Clock)
  | updateNow
  | stop
  /-- The worker. -/
  | lock
  | wake (timeout : Bool)
  | checkTTL (order : List UInt32) (clock : Clock)
  | copyServerInfoList (order : List UInt32)
  | updateServerList (ret : Bool)
  /-- An exception of redis++ leaves `UpdateServerList`, whether or not the list was written. -/
  | updateServerListThrows
  | setFlag

def step (σ : State) (l : Label) : Option State :=
  if σ.crashed then none
  else match l with
    | .reportServerLoad id load now =>
      some (withBalancer σ (σ.balancer.updateServerLoad id load now) fun _ σ => σ)
    | .registerServer id addr load now =>
      some (withBalancer σ (σ.balancer.registerServerInfo id addr load now) fun ret σ =>
        if ret then { σ with callers := σ.callers + 1 } else σ)
    | .checkMinimalLoadServer clock =>
      some (withBalancer σ (σ.balancer.getMinimalLoadServerInfo clock) fun (si, updated) σ =>
        if si.isSome ∧ updated = true then { σ with callers := σ.callers + 1 } else σ)
    | .updateNow =>
      if 0 < σ.callers then
        some { σ with callers := σ.callers - 1, pending := true, requested := true }
      else none
    | .stop => some { σ with running := false }
    | .lock => if σ.worker = .locking then some (enter σ) else none
    | .wake timeout =>
      if σ.worker = .waiting then some (enter { σ with pending := σ.pending || timeout }) else none
    | .checkTTL order clock =>
      if σ.worker = .unlocked then
        some (withBalancer σ (σ.balancer.checkTTL order clock) fun _ σ => { σ with worker := .swept })
      else none
    | .copyServerInfoList order =>
      if σ.worker = .swept then
        let out := σ.balancer.copyServerInfoList order
        some { σ with worker := .copied (servList out), requested := false }
      else none
    | .updateServerList ret =>
      match σ.worker with
      | .copied list =>
        some { σ with
          worker := .uploaded ret
          uploads := if ret then σ.uploads ++ [list] else σ.uploads }
      | _ => none
    | .updateServerListThrows =>
      match σ.worker with
      | .copied _ => some { σ with crashed := true }
      | _ => none
    | .setFlag =>
      match σ.worker with
      | .uploaded false =>
        let errCount := σ.errCount + 1
        if errCountMax < errCount then some { σ with errCount := errCount, crashed := true }
        else some { σ with errCount := errCount, worker := .locking }
      | .uploaded true => some { σ with errCount := 0, pending := false, worker := .locking }
      | _ => none

/-- A request that no copy has been made for is still to be seen, or the worker is on its way to the
copy. -/
def NoRequestLost (σ : State) : Prop :=
  σ.requested = true → σ.pending = true ∨ σ.worker.beforeSnapshot = true

/-- `pending_` is cleared for a copy only if no request came after it. -/
def ClearsServed (σ : State) : Label → Prop
  | .setFlag => σ.worker = .uploaded true → σ.requested = false
  | _ => True

instance (σ : State) : ∀ l, Decidable (ClearsServed σ l)
  | .setFlag => inferInstanceAs (Decidable (_ → _))
  | .reportServerLoad .. | .registerServer .. | .checkMinimalLoadServer .. | .updateNow | .stop
  | .lock | .wake .. | .checkTTL .. | .copyServerInfoList .. | .updateServerList ..
  | .updateServerListThrows => .isTrue trivial

variable {σ σ' : State} {l : Label}

/-! ## Requests and copies

A request is served when a copy of the list is made after it. Until then it has to be visible in
`pending_`, or
the worker has to be on its way to the copy; this is what each step is checked for. -/

/-- What an operation of the balancer leaves alone. -/
theorem withBalancer_noRequestLost {α : Type} {r : Except HeapError (α × LoadBalancer)}
    {k : α → State → State} (h : NoRequestLost σ)
    (hk : ∀ a b, NoRequestLost (k a { σ with balancer := b })) :
    NoRequestLost (withBalancer σ r k) := by
  unfold withBalancer
  split
  · exact hk _ _
  · exact h

/-- The worker never goes to sleep on a request. -/
theorem enter_noRequestLost (h : σ.requested = true → σ.pending = true) :
    NoRequestLost (enter σ) := by
  intro hreq
  unfold enter at hreq ⊢
  split
  · split
    · exact .inr rfl
    · next hpending =>
      rw [if_pos ‹_›, if_neg hpending] at hreq
      exact absurd (h hreq) hpending
  · rw [if_neg ‹_›] at hreq
    exact .inl (h hreq)

/-- Outside of the stretch from `unlock` to the copy, a request still to be served is in `pending_`. -/
theorem NoRequestLost.pending (h : NoRequestLost σ) (hw : σ.worker.beforeSnapshot = false)
    (hreq : σ.requested = true) : σ.pending = true := by
  rcases h hreq with hpending | hbefore
  · exact hpending
  · rw [hw] at hbefore
    cases hbefore

/-- No step loses a request, except for a clearing of `pending_` that comes too late. -/
theorem NoRequestLost.step (h : NoRequestLost σ) (hok : ClearsServed σ l)
    (hs : step σ l = some σ') : NoRequestLost σ' := by
  unfold TimedUploader.step at hs
  split at hs
  · cases hs
  cases l with
  | reportServerLoad =>
    cases hs
    exact withBalancer_noRequestLost h fun _ _ => h
  | registerServer | checkMinimalLoadServer =>
    cases hs
    refine withBalancer_noRequestLost h fun a b => ?_
    dsimp only
    split <;> exact h
  | updateNow =>
    obtain ⟨_, rfl⟩ := of_guard hs
    exact fun _ => .inl rfl
  | stop =>
    cases hs
    exact h
  | lock =>
    obtain ⟨hw, rfl⟩ := of_guard hs
    exact enter_noRequestLost (h.pending (by rw [hw]; rfl))
  | wake timeout =>
    obtain ⟨hw, rfl⟩ := of_guard hs
    refine enter_noRequestLost fun hreq => ?_
    have hpending := h.pending (by rw [hw]; rfl) hreq
    simp [hpending]
  | checkTTL order clock =>
    obtain ⟨_, rfl⟩ := of_guard hs
    exact withBalancer_noRequestLost h fun _ _ _ => .inr rfl
  | copyServerInfoList order =>
    obtain ⟨_, rfl⟩ := of_guard hs
    intro hreq
    cases hreq
  | updateServerList ret =>
    dsimp only at hs
    split at hs
    · next hw =>
      cases hs
      exact fun hreq => .inl (h.pending (by rw [hw]; rfl) hreq)
    · cases hs
  | updateServerListThrows =>
    dsimp only at hs
    split at hs
    · cases hs
      exact h
    · cases hs
  | setFlag =>
    dsimp only at hs
    split at hs
    · next hw =>
      -- the upload has failed, so `pending_` stays set
      have hpending := h.pending (by rw [hw]; rfl)
      split at hs
      · cases hs
        exact fun hreq => .inl (hpending hreq)
      · cases hs
        exact fun hreq => .inl (hpending hreq)
    · next hw =>
      cases hs
      intro hreq
      rw [hok hw] at hreq
      cases hreq
    · cases hs

/-- **No request is lost in a run in which no request comes between the copy of the list and the
clearing of `pending_` for it.** -/
theorem noRequestLost_of_clearsServed (h : Reach step ClearsServed init σ) : NoRequestLost σ := by
  refine h.invariant ?_ fun _ _ _ hinv hok hs => hinv.step hok hs
  intro hreq
  cases hreq

/-- The condition is needed: a request that is there when `pending_` is cleared is lost. -/
theorem not_noRequestLost_setFlag (hw : σ.worker = .uploaded true) (hreq : σ.requested = true)
    (hs : step σ .setFlag = some σ') : ¬ NoRequestLost σ' := by
  unfold TimedUploader.step at hs
  split at hs
  · cases hs
  · simp only [hw, Option.some.injEq] at hs
    subst hs
    intro h
    rcases h hreq with hpending | hbefore
    · cases hpending
    · cases hbefore

/-- A server registers, and its handler asks for an upload. -/
def registering (id : UInt32) : List Label := [.registerServer id "10.0.0.1" 0 0, .updateNow]

/-- The request of server 1 is served. -/
theorem noRequestLost_served : ∃ σ, Reach step ClearsServed init σ ∧ NoRequestLost σ ∧
    σ.worker = .waiting ∧ σ.uploads = [[("1", "10.0.0.1")]] := by
  have hrun : run step ClearsServed init
      ([.lock] ++ registering 1 ++ [.wake false, .checkTTL [1] fun _ => 0, .copyServerInfoList [1],
        .updateServerList true, .setFlag, .lock]) = some _ := rfl
  exact ⟨_, reach_of_run hrun, noRequestLost_of_clearsServed (reach_of_run hrun), rfl, by decide⟩

/-- Server 2 registers while the list with server 1 is being written. Its request is cleared with
that of server 1; the worker sleeps, and server 2 is in no list that was written. -/
theorem not_noRequestLost_during_upload : ∃ σ, Reach step anyStep init σ ∧ ¬ NoRequestLost σ ∧
    σ.worker = .waiting ∧ σ.callers = 0 ∧ (σ.balancer.hm 2).isSome = true ∧
    σ.uploads = [[("1", "10.0.0.1")]] := by
  have hrun : run step anyStep init
      ([.lock] ++ registering 1 ++ [.wake false, .checkTTL [1] fun _ => 0, .copyServerInfoList [1]] ++
        registering 2 ++ [.updateServerList true, .setFlag, .lock]) = some _ := rfl
  refine ⟨_, reach_of_run hrun, ?_, rfl, rfl, by decide, by decide⟩
  intro h
  rcases h rfl with hpending | hbefore
  · cases hpending
  · cases hbefore

end Chatroom.Status.TimedUploader
