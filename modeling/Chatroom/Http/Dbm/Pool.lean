import Mathlib.Data.List.Basic
import Mathlib.Data.List.Nodup
import Mathlib.Data.List.Perm.Basic
import Mathlib.Data.List.Range
import Chatroom.Lib.Trace

/-!
# The pool of database connections (`DBM`)

`conns_` has the connections of the pool, `free_queue_` those nobody uses. `GetIdleConn` takes one
from the queue, makes a new one while the pool is not full, or waits; `ReturnIdleConn` puts one back
and wakes a thread, if the queue was empty. `Start`, `Stop` and the two critical sections are one step
each. A thread that waits is *blocked*; a notification makes it *notified*, and it resumes some time
later. It may also resume without a notification.

A connection is the number of its creation. No connection is used by two threads at once, or used and
idle at once, over any number of starts and stops, and `pool_size_` is right.
-/

namespace Chatroom.Gateway.DBM

open Trace

abbrev Conn := ℕ
abbrev Tid := ℕ

/-- A connection handed out, with `conns_` at that moment and what had been closed until then. -/
structure Loan where
  conn : Conn
  conns : List Conn
  closed : List Conn
  deriving DecidableEq, Repr

structure State where
  conns : List Conn
  freeQueue : List Conn
  poolSize : UInt32
  poolMaxCap : UInt32
  running : Bool
  /-- The threads waiting on `cv_`, and those notified that have not resumed. -/
  blocked : List Tid
  notified : List Tid
  /-- The connections in use, with their users. -/
  held : List (Tid × Conn)
  /-- The next connection to be created. -/
  next : Conn
  /-- History: the connections closed, and those handed out. -/
  closed : List Conn
  lent : List Loan
  deriving DecidableEq, Repr

def init : State where
  conns := []
  freeQueue := []
  poolSize := 0
  poolMaxCap := 0
  running := false
  blocked := []
  notified := []
  held := []
  next := 0
  closed := []
  lent := []

/-- `Start(conns, max_conn)`; `connect i` is the outcome of the connect of the `i`-th connection. The
first that fails ends it, and everything is closed. -/
def start (σ : State) (conns maxConn : UInt32) (connect : ℕ → Bool) : State :=
  if σ.running then σ
  else if maxConn < conns then σ
  else
    let made := ((List.range conns.toNat).takeWhile connect).length
    if made < conns.toNat then
      let new := List.range' σ.next (made + 1)
      { σ with conns := [], next := σ.next + (made + 1), closed := σ.closed ++ (σ.conns ++ new) }
    else
      let all := σ.conns ++ List.range' σ.next conns.toNat
      { σ with
        conns := all
        next := σ.next + conns.toNat
        poolSize := conns
        poolMaxCap := maxConn
        running := true
        freeQueue := σ.freeQueue ++ all }

def stop (σ : State) : State :=
  if σ.running then
    { σ with
      conns := []
      closed := σ.closed ++ σ.conns
      running := false
      blocked := []
      notified := σ.notified ++ σ.blocked
      poolSize := 0
      poolMaxCap := 0 }
  else σ

/-- Thread `t` gets connection `c`. -/
def lend (σ : State) (t : Tid) (c : Conn) : State :=
  { σ with held := (t, c) :: σ.held, lent := σ.lent ++ [⟨c, σ.conns, σ.closed⟩] }

/-- `CreateConn`, where the connect succeeds. -/
def createConn (σ : State) : State :=
  { σ with conns := σ.conns ++ [σ.next], poolSize := σ.poolSize + 1, next := σ.next + 1 }

/-- The critical section of `GetIdleConn`, from its begin or from the wait on; `connect` is the
outcome of a connect. Where the code returns `nullptr` nothing changes. -/
def getIdleConn (σ : State) (t : Tid) (connect : Bool) : State :=
  if σ.running then
    match σ.freeQueue with
    | c :: q => lend { σ with freeQueue := q } t c
    | [] =>
      if σ.poolSize + 1 ≤ σ.poolMaxCap then
        -- the new connection goes through the queue and is taken from it at once
        if connect then lend (createConn σ) t σ.next else σ
      else { σ with blocked := σ.blocked ++ [t] }
  else σ

/-- `ReturnIdleConn` of `c` by thread `t`; `woken` is the thread that the notification reaches. -/
def returnIdleConn (σ : State) (t : Tid) (c : Conn) (woken : Option Tid) : State :=
  { σ with
    held := σ.held.erase (t, c)
    freeQueue := σ.freeQueue ++ [c]
    blocked := woken.elim σ.blocked fun w => σ.blocked.erase w
    notified := σ.notified ++ woken.toList }

/-- Whom `notify_one` can reach: somebody, if anybody is blocked, and nobody if it is not called. -/
def Wakes (σ : State) : Option Tid → Prop
  | none => σ.freeQueue = [] → σ.blocked = []
  | some w => σ.freeQueue = [] ∧ w ∈ σ.blocked

instance (σ : State) : ∀ w, Decidable (Wakes σ w)
  | none => inferInstanceAs (Decidable (_ → _))
  | some _ => inferInstanceAs (Decidable (_ ∧ _))

inductive Label where
  | start (conns maxConn : UInt32) (connect : ℕ → Bool)
  | stop
  | get (t : Tid) (connect : Bool)
  /-- A notified thread resumes; a blocked one resumes without a notification. -/
  | resume (t : Tid) (connect : Bool)
  | spurious (t : Tid) (connect : Bool)
  | put (t : Tid) (c : Conn) (woken : Option Tid)

def step (σ : State) : Label → Option State
  | .start conns maxConn connect => some (start σ conns maxConn connect)
  | .stop => some (stop σ)
  | .get t connect =>
    if t ∉ σ.blocked ∧ t ∉ σ.notified then some (getIdleConn σ t connect) else none
  | .resume t connect =>
    if t ∈ σ.notified then
      some (getIdleConn { σ with notified := σ.notified.erase t } t connect)
    else none
  | .spurious t connect =>
    if t ∈ σ.blocked then
      some (getIdleConn { σ with blocked := σ.blocked.erase t } t connect)
    else none
  | .put t c woken =>
    if (t, c) ∈ σ.held ∧ Wakes σ woken then some (returnIdleConn σ t c woken) else none

variable {σ σ' : State} {l : Label} {t : Tid} {c : Conn}

/-! ## What a step can do

`Got`, `Started` and `Stepped` list the outcomes of the critical sections; the invariants go by their
cases. -/

/-- The outcomes of `GetIdleConn`. -/
inductive Got (σ : State) (t : Tid) : State → Prop
  | null : σ.running = false ∨ σ.freeQueue = [] → Got σ t σ
  | idle {c q} : σ.running = true → σ.freeQueue = c :: q → Got σ t (lend { σ with freeQueue := q } t c)
  | created : σ.running = true → σ.freeQueue = [] → σ.poolSize + 1 ≤ σ.poolMaxCap →
      Got σ t (lend (createConn σ) t σ.next)
  | waits : σ.running = true → σ.freeQueue = [] → Got σ t { σ with blocked := σ.blocked ++ [t] }

/-- The four ways out of `GetIdleConn`. -/
theorem got_getIdleConn (σ : State) (t : Tid) (connect : Bool) :
    Got σ t (getIdleConn σ t connect) := by
  unfold getIdleConn
  split
  · next hrun =>
    split
    · next c q hq => exact .idle hrun hq
    · next hq =>
      split
      · next hroom =>
        split
        · exact .created hrun hq hroom
        · exact .null (.inr hq)
      · exact .waits hrun hq
  · next hrun => exact .null (.inl (by simpa using hrun))

/-- The outcomes of `Start`: nothing, an attempt that failed, a pool of `n` new connections. -/
inductive Started (σ : State) (n maxConn : UInt32) : State → Prop
  | refused : Started σ n maxConn σ
  | failed {k} : σ.running = false →
      Started σ n maxConn
        { σ with
          conns := []
          next := σ.next + k
          closed := σ.closed ++ (σ.conns ++ List.range' σ.next k) }
  | ok : σ.running = false → n ≤ maxConn →
      Started σ n maxConn
        { σ with
          conns := σ.conns ++ List.range' σ.next n.toNat
          next := σ.next + n.toNat
          poolSize := n
          poolMaxCap := maxConn
          running := true
          freeQueue := σ.freeQueue ++ (σ.conns ++ List.range' σ.next n.toNat) }

/-- The three ways out of `Start`. -/
theorem started_start (σ : State) (n maxConn : UInt32) (connect : ℕ → Bool) :
    Started σ n maxConn (start σ n maxConn connect) := by
  unfold start
  split
  · exact .refused
  · next hrun =>
    have hrun : σ.running = false := by simpa using hrun
    split
    · exact .refused
    · next hle =>
      dsimp only
      split
      · exact .failed hrun
      · exact .ok hrun (by simpa using hle)

/-- Everything that can happen to a pool. -/
inductive Stepped (σ : State) : Label → State → Prop
  | start {n maxConn connect σ'} : Started σ n maxConn σ' → Stepped σ (.start n maxConn connect) σ'
  | stop : σ.running = true →
      Stepped σ .stop
        { σ with
          conns := []
          closed := σ.closed ++ σ.conns
          running := false
          blocked := []
          notified := σ.notified ++ σ.blocked
          poolSize := 0
          poolMaxCap := 0 }
  | notRunning : Stepped σ .stop σ
  | get {t connect σ'} : Got σ t σ' → Stepped σ (.get t connect) σ'
  | resume {t connect σ'} : t ∈ σ.notified → Got { σ with notified := σ.notified.erase t } t σ' →
      Stepped σ (.resume t connect) σ'
  | spurious {t connect σ'} : t ∈ σ.blocked → Got { σ with blocked := σ.blocked.erase t } t σ' →
      Stepped σ (.spurious t connect) σ'
  | put {t c woken} : (t, c) ∈ σ.held → Wakes σ woken →
      Stepped σ (.put t c woken) (returnIdleConn σ t c woken)

theorem step_cases (hs : step σ l = some σ') : Stepped σ l σ' := by
  cases l with
  | start n maxConn connect =>
    cases hs
    exact .start (started_start ..)
  | stop =>
    cases hs
    unfold DBM.stop
    split
    · next hrun => exact .stop hrun
    · exact .notRunning
  | get t connect =>
    obtain ⟨_, rfl⟩ := of_guard hs
    exact .get (got_getIdleConn ..)
  | resume t connect =>
    obtain ⟨ht, rfl⟩ := of_guard hs
    exact .resume ht (got_getIdleConn ..)
  | spurious t connect =>
    obtain ⟨ht, rfl⟩ := of_guard hs
    exact .spurious ht (got_getIdleConn ..)
  | put t c woken =>
    obtain ⟨⟨hheld, hwakes⟩, rfl⟩ := of_guard hs
    exact .put hheld hwakes

/-! ## Who has a connection

A connection in circulation is with one thread or in the queue. Threads and the queue exchange
connections,
so the list of those in circulation stays the same up to its order; only a new connection is added to
it.
`Stop` does not empty the queue: it closes the connections and leaves them there. -/

/-- The connections in circulation: in use or idle. -/
def circulating (σ : State) : List Conn := σ.held.map Prod.snd ++ σ.freeQueue

/-- From the queue to a thread. -/
theorem circulating_idle {q : List Conn} (hq : σ.freeQueue = c :: q) :
    (circulating (lend { σ with freeQueue := q } t c)).Perm (circulating σ) := by
  unfold circulating lend
  rw [hq]
  exact List.perm_middle.symm

theorem circulating_created :
    circulating (lend (createConn σ) t σ.next) = σ.next :: circulating σ := rfl

/-- And back. -/
theorem circulating_put {woken : Option Tid} (h : (t, c) ∈ σ.held) :
    (circulating (returnIdleConn σ t c woken)).Perm (circulating σ) := by
  have hheld : (σ.held.map Prod.snd).Perm (c :: (σ.held.erase (t, c)).map Prod.snd) :=
    (List.perm_cons_erase h).map Prod.snd
  unfold circulating returnIdleConn
  calc (σ.held.erase (t, c)).map Prod.snd ++ (σ.freeQueue ++ [c])
      _ = (σ.held.erase (t, c)).map Prod.snd ++ σ.freeQueue ++ [c] := by rw [List.append_assoc]
      List.Perm _ (c :: ((σ.held.erase (t, c)).map Prod.snd ++ σ.freeQueue)) :=
        List.perm_append_singleton ..
      List.Perm _ (σ.held.map Prod.snd ++ σ.freeQueue) := (hheld.append_right _).symm

/-- What holds of a pool over any number of starts and stops. -/
structure OwnedOk (σ : State) : Prop where
  nodup : (circulating σ).Nodup
  made : ∀ c ∈ circulating σ, c < σ.next
  conns : ∀ c ∈ σ.conns, c < σ.next ∧ c ∉ σ.closed
  closed : ∀ c ∈ σ.closed, c < σ.next
  stopped : σ.running = false → σ.conns = []

/-- Connections change hands. -/
theorem OwnedOk.of_perm (h : OwnedOk σ) (hperm : (circulating σ').Perm (circulating σ))
    (hsame : (σ'.next, σ'.conns, σ'.closed, σ'.running) = (σ.next, σ.conns, σ.closed, σ.running)) :
    OwnedOk σ' := by
  simp only [Prod.mk.injEq] at hsame
  obtain ⟨hnext, hconns, hclosed, hrunning⟩ := hsame
  refine ⟨hperm.nodup_iff.mpr h.nodup, fun c hc => ?_, ?_, ?_, ?_⟩
  · rw [hnext]
    exact h.made c (hperm.mem_iff.mp hc)
  · rw [hnext, hconns, hclosed]
    exact h.conns
  · rw [hnext, hclosed]
    exact h.closed
  · rw [hrunning, hconns]
    exact h.stopped

/-- `GetIdleConn` hands on a connection or makes one. -/
theorem OwnedOk.got (h : OwnedOk σ) (hg : Got σ t σ') : OwnedOk σ' := by
  cases hg with
  | null => exact h
  | idle _ hq => exact h.of_perm (circulating_idle hq) rfl
  | waits => exact h.of_perm .rfl rfl
  | created hrun =>
    refine ⟨?_, ?_, ?_, ?_, ?_⟩
    · rw [circulating_created, List.nodup_cons]
      refine ⟨fun hmem => ?_, h.nodup⟩
      exact absurd (h.made _ hmem) (Nat.lt_irrefl _)
    · rw [circulating_created]
      intro c hc
      show c < σ.next + 1
      rcases List.mem_cons.mp hc with rfl | hold
      · exact Nat.lt_succ_self _
      · exact Nat.lt_succ_of_lt (h.made c hold)
    · intro c hc
      show c < σ.next + 1 ∧ c ∉ σ.closed
      rcases List.mem_append.mp hc with hold | hnew
      · exact ⟨Nat.lt_succ_of_lt (h.conns c hold).1, (h.conns c hold).2⟩
      · rw [List.mem_singleton.mp hnew]
        refine ⟨Nat.lt_succ_self _, fun hmem => ?_⟩
        exact absurd (h.closed _ hmem) (Nat.lt_irrefl _)
    · exact fun c hc => Nat.lt_succ_of_lt (h.closed c hc)
    · intro hstopped
      exact absurd (hrun.symm.trans hstopped) (by decide)

/-- New connections have new numbers. -/
theorem OwnedOk.started {n maxConn : UInt32} (h : OwnedOk σ) (hst : Started σ n maxConn σ') :
    OwnedOk σ' := by
  cases hst with
  | refused => exact h
  | @failed k hrun =>
    refine ⟨h.nodup, ?_, nofun, ?_, fun _ => rfl⟩
    · exact fun c hc => Nat.lt_of_lt_of_le (h.made c hc) (Nat.le_add_right _ _)
    · intro c hc
      show c < σ.next + k
      rcases List.mem_append.mp hc with hold | hnew
      · exact Nat.lt_of_lt_of_le (h.closed c hold) (Nat.le_add_right _ _)
      · rw [h.stopped hrun, List.nil_append, List.mem_range'_1] at hnew
        exact hnew.2
  | ok hrun hle =>
    have hnew : ∀ c ∈ List.range' σ.next n.toNat, σ.next ≤ c ∧ c < σ.next + n.toNat :=
      fun c hc => List.mem_range'_1.mp hc
    simp only [h.stopped hrun, List.nil_append]
    refine ⟨?_, ?_, ?_, ?_, nofun⟩
    · -- the new connections are numbered beyond those in circulation
      show (σ.held.map Prod.snd ++ (σ.freeQueue ++ List.range' σ.next n.toNat)).Nodup
      rw [← List.append_assoc, List.nodup_append]
      refine ⟨h.nodup, List.nodup_range', fun a ha b hb heq => ?_⟩
      have hlt : a < σ.next := h.made a ha
      have hge : σ.next ≤ b := (hnew b hb).1
      exact absurd heq (Nat.ne_of_lt (Nat.lt_of_lt_of_le hlt hge))
    · intro c hc
      show c < σ.next + n.toNat
      rw [circulating, ← List.append_assoc] at hc
      rcases List.mem_append.mp hc with hold | hmem
      · exact Nat.lt_of_lt_of_le (h.made c hold) (Nat.le_add_right _ _)
      · exact (hnew c hmem).2
    · intro c hc
      refine ⟨(hnew c hc).2, fun hmem => ?_⟩
      exact absurd (h.closed c hmem) (Nat.not_lt.mpr (hnew c hc).1)
    · exact fun c hc => Nat.lt_of_lt_of_le (h.closed c hc) (Nat.le_add_right _ _)

theorem OwnedOk.step (h : OwnedOk σ) (hs : Stepped σ l σ') : OwnedOk σ' := by
  cases hs with
  | start hst => exact h.started hst
  | stop =>
    refine ⟨h.nodup, h.made, nofun, fun c hc => ?_, fun _ => rfl⟩
    rcases List.mem_append.mp hc with hold | hnew
    · exact h.closed c hold
    · exact (h.conns c hnew).1
  | notRunning => exact h
  | get hg => exact h.got hg
  | @resume t connect σ' _ hg =>
    have hresumed : OwnedOk { σ with notified := σ.notified.erase t } := h.of_perm .rfl rfl
    exact hresumed.got hg
  | @spurious t connect σ' _ hg =>
    have hresumed : OwnedOk { σ with blocked := σ.blocked.erase t } := h.of_perm .rfl rfl
    exact hresumed.got hg
  | put hmem => exact h.of_perm (circulating_put hmem) rfl

theorem ownedOk_of_reach {ok : State → Label → Prop} (h : Reach step ok init σ) : OwnedOk σ :=
  h.invariant ⟨List.nodup_nil, nofun, nofun, nofun, fun _ => rfl⟩
    fun _ _ _ hinv _ hs => hinv.step (step_cases hs)

/-! ## The size of the pool

`pool_size_` has 32 bits, and `GetIdleConn` compares `pool_size_ + 1` with the bound. This is right as
long as
the sum does not wrap, which a bound below the largest number guarantees. -/

/-- `Start` is called with a bound on the connections that leaves room for the sum in `GetIdleConn`. -/
def StartsBounded (_ : State) : Label → Prop
  | .start _ maxConn _ => maxConn.toNat < 4294967295
  | _ => True

instance (σ : State) : ∀ l, Decidable (StartsBounded σ l)
  | .start .. => inferInstanceAs (Decidable (_ < _))
  | .stop | .get .. | .resume .. | .spurious .. | .put .. => .isTrue trivial

structure SizeOk (σ : State) : Prop where
  size : σ.poolSize.toNat = σ.conns.length
  cap : σ.poolSize ≤ σ.poolMaxCap
  bounded : σ.poolMaxCap.toNat < 4294967295

/-- `pool_size_ + 1` does not wrap around. -/
theorem SizeOk.toNat_succ (h : SizeOk σ) : (σ.poolSize + 1).toNat = σ.poolSize.toNat + 1 := by
  have hcap : σ.poolSize.toNat ≤ σ.poolMaxCap.toNat := h.cap
  have hbounded := h.bounded
  rw [UInt32.toNat_add]
  refine Nat.mod_eq_of_lt ?_
  show σ.poolSize.toNat + 1 < 4294967296
  omega

/-- A new connection is counted. -/
theorem SizeOk.got (h : SizeOk σ) (hg : Got σ t σ') : SizeOk σ' := by
  cases hg with
  | created _ _ hroom =>
    refine ⟨?_, hroom, h.bounded⟩
    show (σ.poolSize + 1).toNat = (σ.conns ++ [σ.next]).length
    rw [h.toNat_succ, h.size, List.length_append, List.length_singleton]
  | null | idle | waits => exact ⟨h.size, h.cap, h.bounded⟩

theorem SizeOk.step (h : SizeOk σ) (howned : OwnedOk σ) (hok : StartsBounded σ l)
    (hs : Stepped σ l σ') : SizeOk σ' := by
  cases hs with
  | start hst =>
    cases hst with
    | refused => exact h
    | failed hrun =>
      have hsize := h.size
      rw [howned.stopped hrun] at hsize
      exact ⟨hsize, h.cap, h.bounded⟩
    | ok hrun hle =>
      refine ⟨?_, hle, hok⟩
      simp only [howned.stopped hrun, List.nil_append, List.length_range']
  | stop => exact ⟨rfl, UInt32.le_refl 0, Nat.zero_lt_succ _⟩
  | notRunning => exact h
  | get hg => exact h.got hg
  | @resume t connect σ' _ hg =>
    have hresumed : SizeOk { σ with notified := σ.notified.erase t } := ⟨h.size, h.cap, h.bounded⟩
    exact hresumed.got hg
  | @spurious t connect σ' _ hg =>
    have hresumed : SizeOk { σ with blocked := σ.blocked.erase t } := ⟨h.size, h.cap, h.bounded⟩
    exact hresumed.got hg
  | put => exact ⟨h.size, h.cap, h.bounded⟩

/-- No two threads have a connection, none that somebody has is idle, none is in the queue twice; and
`pool_size_` is the number of connections, within the bound. -/
structure Exclusive (σ : State) : Prop where
  borrowers : ∀ t t' c, (t, c) ∈ σ.held → (t', c) ∈ σ.held → t = t'
  once : (σ.held.map Prod.snd).Nodup
  notIdle : ∀ t c, (t, c) ∈ σ.held → c ∉ σ.freeQueue
  queue : σ.freeQueue.Nodup
  size : σ.poolSize.toNat = σ.conns.length
  cap : σ.poolSize ≤ σ.poolMaxCap

theorem OwnedOk.exclusive (h : OwnedOk σ) (hsize : SizeOk σ) : Exclusive σ := by
  obtain ⟨hheld, hqueue, hdisjoint⟩ := List.nodup_append.mp h.nodup
  refine ⟨fun t t' c ht ht' => ?_, hheld, fun t c ht hc => ?_, hqueue, hsize.size, hsize.cap⟩
  · have heq := List.inj_on_of_nodup_map hheld ht ht' rfl
    exact congrArg Prod.fst heq
  · exact hdisjoint c (List.mem_map_of_mem ht) c hc rfl

/-- **Connections are used exclusively, over any number of starts and stops.** -/
theorem exclusive_of_startsBounded (h : Reach step StartsBounded init σ) : Exclusive σ := by
  refine (ownedOk_of_reach h).exclusive (h.invariant_of ownedOk_of_reach ?_ ?_)
  · exact ⟨rfl, UInt32.le_refl 0, Nat.zero_lt_succ _⟩
  · exact fun _ _ _ howned hinv hok hs => hinv.step howned hok (step_cases hs)

/-- Two threads use the two connections of a pool, which is stopped and started again under them. -/
theorem exclusive_restart : ∃ σ, Reach step StartsBounded init σ ∧ Exclusive σ ∧
    σ.held = [(2, 1), (1, 0)] ∧ σ.freeQueue = [2] := by
  have hrun : run step StartsBounded init
      [.start 1 2 fun _ => true, .get 1 true, .get 2 true, .stop, .start 1 2 fun _ => true] =
        some _ := rfl
  exact ⟨_, reach_of_run hrun, exclusive_of_startsBounded (reach_of_run hrun), by decide, by decide⟩

end Chatroom.Gateway.DBM
