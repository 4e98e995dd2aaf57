import Mathlib.Algebra.GroupWithZero.Nat
import Mathlib.Data.List.Perm.Basic
import Mathlib.Logic.Function.Basic
import Chatroom.Lib.Trace

/-!
# The connections of the gateway (`HTTPServer`, `HTTPConnection`, `ReqHandler::PostRequest`)

A connection reads a request, posts it to the thread pool of the handler, and writes the response from
there; when it is written, the next request is read. Each of these is an operation that completes at some
time, in any order with those of the other connections. The pool takes the requests in the order in which
they were posted, as many at a time as it has threads.

The connections share nothing but the pool, and nothing but the chain of callbacks keeps a connection from
reading while a request of its own is being handled. It is enough: each connection has one operation
outstanding at most, so its requests are answered one by one, in the order in which they came.

What the handler does with a request is the subject of `Gateway`; here it takes some time and then has a
response.
-/

namespace Chatroom.HTTPServer

open Trace

variable {Req Resp : Type}

abbrev ConnId := ℕ

/-- An operation that has been started and has not completed. -/
inductive Op (Req Resp : Type) where
  /-- `async_read`. -/
  | read (c : ConnId)
  /-- The request waits for a thread of the pool, or a thread is in `RequestHandler`. -/
  | queued (c : ConnId) (req : Req)
  | running (c : ConnId) (req : Req)
  /-- `async_write`. -/
  | write (c : ConnId) (req : Req) (resp : Resp)

namespace Op

def conn : Op Req Resp → ConnId
  | read c | queued c _ | running c _ | write c _ _ => c

/-- The request that has been read and not been answered. -/
def unanswered : Op Req Resp → List Req
  | read _ => []
  | queued _ req | running _ req | write _ req _ => [req]

def isQueued : Op Req Resp → Bool
  | queued _ _ => true
  | _ => false

def isRunning : Op Req Resp → Bool
  | running _ _ => true
  | _ => false

end Op

structure State (Req Resp : Type) where
  /-- An `async_accept` is outstanding. -/
  accepting : Bool
  /-- The number of connections accepted. -/
  accepted : ℕ
  /-- The operations outstanding, in the order in which they were started. -/
  ops : List (Op Req Resp)
  /-- `Close` was called. -/
  shut : ConnId → Bool
  /-- History: the requests read, and those answered with their responses. -/
  received : ConnId → List Req
  sent : ConnId → List (Req × Resp)

def poolSize : ℕ := 4

def init : State Req Resp where
  accepting := true
  accepted := 0
  ops := []
  shut := fun _ => false
  received := fun _ => []
  sent := fun _ => []

inductive Label (Req Resp : Type) where
  /-- A new connection, or an error, such as after `Stop`. -/
  | accept
  | acceptError
  /-- The read that is the `i`-th operation completes, with a request or an error. -/
  | read (i : ℕ) (req : Option Req)
  /-- A thread of the pool takes the request that has waited longest; the handler returns; the write
  completes. -/
  | start
  | respond (i : ℕ) (resp : Resp)
  | written (i : ℕ) (ok : Bool)

/-- The `i`-th operation has completed, and a next one has been started or not. -/
def State.next (σ : State Req Resp) (i : ℕ) (op : Option (Op Req Resp)) : State Req Resp :=
  { σ with ops := σ.ops.eraseIdx i ++ op.toList }

def State.close (σ : State Req Resp) (c : ConnId) : State Req Resp :=
  { σ with shut := Function.update σ.shut c true }

def step (σ : State Req Resp) : Label Req Resp → Option (State Req Resp)
  | .accept =>
    if σ.accepting then
      some { σ with accepted := σ.accepted + 1, ops := σ.ops ++ [.read σ.accepted] }
    else none
  | .acceptError => if σ.accepting then some { σ with accepting := false } else none
  | .read i req =>
    match σ.ops[i]? with
    | some (.read c) =>
      match req with
      | some req => some { σ.next i (some (.queued c req)) with
          received := Function.update σ.received c (σ.received c ++ [req]) }
      | none => some ((σ.next i none).close c)
    | _ => none
  | .start =>
    if σ.ops.countP Op.isRunning < poolSize then
      match σ.ops.findIdx? Op.isQueued with
      | some i =>
        match σ.ops[i]? with
        | some (.queued c req) => some (σ.next i (some (.running c req)))
        | _ => none
      | none => none
    else none
  | .respond i resp =>
    match σ.ops[i]? with
    | some (.running c req) => some (σ.next i (some (.write c req resp)))
    | _ => none
  | .written i ok =>
    match σ.ops[i]? with
    | some (.write c req resp) =>
      if ok then some { σ.next i (some (.read c)) with
        sent := Function.update σ.sent c (σ.sent c ++ [(req, resp)]) }
      else some ((σ.next i none).close c)
    | _ => none

/-! ## What a step can do

In each case an operation is taken out of the list and at most one is put at its end. The order of the
list is
the order of the starts, so the first request in it that waits is the one posted first. -/

/-- A connection is accepted or none will be any more; an operation completes and is followed by the
next one of its connection, or by none. -/
inductive Stepped (σ : State Req Resp) : Label Req Resp → State Req Resp → Prop
  | accept : Stepped σ .accept
      { σ with accepted := σ.accepted + 1, ops := σ.ops ++ [.read σ.accepted] }
  | acceptError : Stepped σ .acceptError { σ with accepting := false }
  | read {i c req} : σ.ops[i]? = some (.read c) → Stepped σ (.read i (some req))
      { σ.next i (some (.queued c req)) with
        received := Function.update σ.received c (σ.received c ++ [req]) }
  | readError {i c} : σ.ops[i]? = some (.read c) →
      Stepped σ (.read i none) ((σ.next i none).close c)
  | start {i c req} : σ.ops.countP Op.isRunning < poolSize → σ.ops[i]? = some (.queued c req) →
      Stepped σ .start (σ.next i (some (.running c req)))
  | respond {i c req resp} : σ.ops[i]? = some (.running c req) →
      Stepped σ (.respond i resp) (σ.next i (some (.write c req resp)))
  | written {i c req resp} : σ.ops[i]? = some (.write c req resp) → Stepped σ (.written i true)
      { σ.next i (some (.read c)) with
        sent := Function.update σ.sent c (σ.sent c ++ [(req, resp)]) }
  | writeError {i c req resp} : σ.ops[i]? = some (.write c req resp) →
      Stepped σ (.written i false) ((σ.next i none).close c)

variable {σ σ' : State Req Resp} {l : Label Req Resp} {c : ConnId} {i : ℕ} {op op' : Op Req Resp}

/-- Everything that can happen is listed. -/
theorem step_cases (h : step σ l = some σ') : Stepped σ l σ' := by
  cases l with
  | accept =>
    obtain ⟨-, rfl⟩ := of_guard h
    exact .accept
  | acceptError =>
    obtain ⟨-, rfl⟩ := of_guard h
    exact .acceptError
  | read i req =>
    simp only [step] at h
    split at h
    · next c hop =>
      cases req with
      | some req =>
        cases h
        exact .read hop
      | none =>
        cases h
        exact .readError hop
    · cases h
  | start =>
    simp only [step] at h
    split at h
    · next hfree =>
      split at h
      · split at h
        · next hop =>
          cases h
          exact .start hfree hop
        · cases h
      · cases h
    · cases h
  | respond i resp =>
    simp only [step] at h
    split at h
    · next hop =>
      cases h
      exact .respond hop
    · cases h
  | written i ok =>
    simp only [step] at h
    split at h
    · next hop =>
      cases ok with
      | true =>
        cases h
        exact .written hop
      | false =>
        cases h
        exact .writeError hop
    · cases h

/-! ## One operation at a time

The steps differ in what they do to the two histories of a connection. `Completes` is what they have
in common,
and the invariant is kept because of it; each step is an instance. -/

/-- What is known of the connections: each has one operation outstanding at most, and what has been read
is what has been answered, and then what its operation has still to answer. -/
structure Orderly (σ : State Req Resp) : Prop where
  single : (σ.ops.map Op.conn).Nodup
  pool : σ.ops.countP Op.isRunning ≤ poolSize
  known : ∀ op ∈ σ.ops, op.conn < σ.accepted
  fresh : ∀ c, σ.accepted ≤ c → σ.received c = [] ∧ σ.sent c = []
  active : ∀ op ∈ σ.ops, σ.received op.conn = (σ.sent op.conn).map Prod.fst ++ op.unanswered
  all : ∀ c, ∃ rest, σ.received c = (σ.sent c).map Prod.fst ++ rest ∧ rest.length ≤ 1

/-- The operation that completes, and the others. -/
theorem perm_eraseIdx (h : σ.ops[i]? = some op) : σ.ops.Perm (op :: σ.ops.eraseIdx i) := by
  obtain ⟨hlt, rfl⟩ := List.getElem?_eq_some_iff.mp h
  exact (List.getElem_cons_eraseIdx_perm hlt).symm

/-- The other operations are those of other connections. -/
theorem Orderly.conn_ne (h : Orderly σ) (hop : σ.ops[i]? = some op) :
    ∀ op' ∈ σ.ops.eraseIdx i, op'.conn ≠ op.conn := by
  intro op' hop' heq
  have hnodup := ((perm_eraseIdx hop).map Op.conn).nodup_iff.mp h.single
  exact (List.nodup_cons.mp hnodup).1 (List.mem_map.mpr ⟨op', hop', heq⟩)

/-- What an operation does when it completes: it changes nothing of other connections, and leaves its own
with the operation `next`, or with none and one request unanswered at most. -/
structure Completes (σ : State Req Resp) (i : ℕ) (op : Op Req Resp) (next : Option (Op Req Resp))
    (σ' : State Req Resp) : Prop where
  ops : σ'.ops = σ.ops.eraseIdx i ++ next.toList
  accepted : σ'.accepted = σ.accepted
  others : ∀ c, c ≠ op.conn → σ'.received c = σ.received c ∧ σ'.sent c = σ.sent c
  conn : ∀ op', next = some op' → op'.conn = op.conn
  pool : ∀ op', next = some op' → op'.isRunning = true → σ.ops.countP Op.isRunning < poolSize
  self : ∃ rest, σ'.received op.conn = (σ'.sent op.conn).map Prod.fst ++ rest ∧ rest.length ≤ 1 ∧
    ∀ op', next = some op' → rest = op'.unanswered

/-- **The completion of an operation keeps the invariant**, whichever it is. -/
theorem Orderly.completes (h : Orderly σ) (hop : σ.ops[i]? = some op) {next : Option (Op Req Resp)}
    (hc : Completes σ i op next σ') : Orderly σ' := by
  obtain ⟨hops, haccepted, hothers, hconn, hpool, rest, hself, hone, hrest⟩ := hc
  have hperm := perm_eraseIdx hop
  have hknown : op.conn < σ.accepted := h.known op (List.mem_of_getElem? hop)
  -- an operation afterwards is one of the others, or the one that follows
  have hmem : ∀ op' ∈ σ'.ops, op' ∈ σ.ops.eraseIdx i ∨ next = some op' := by
    intro op' hop'
    rw [hops] at hop'
    exact (List.mem_append.mp hop').imp_right Option.mem_toList.mp
  have hold : ∀ op' ∈ σ.ops.eraseIdx i, op' ∈ σ.ops := fun _ => List.mem_of_mem_eraseIdx
  refine ⟨?_, ?_, fun op' hop' => ?_, fun c hc => ?_, fun op' hop' => ?_, fun c => ?_⟩
  · have hnodup := (hperm.map Op.conn).nodup_iff.mp h.single
    rw [List.map_cons, List.nodup_cons] at hnodup
    rw [hops, List.map_append]
    cases next with
    | none =>
      rw [Option.toList_none, List.map_nil, List.append_nil]
      exact hnodup.2
    | some op' =>
      have hsame := hconn op' rfl
      refine (List.perm_append_singleton _ _).nodup_iff.mpr (List.nodup_cons.mpr ?_)
      rw [hsame]
      exact hnodup
  · have hcount := hperm.countP_eq Op.isRunning
    rw [List.countP_cons] at hcount
    rw [hops, List.countP_append]
    have hbound := h.pool
    cases next with
    | none =>
      rw [Option.toList_none, List.countP_nil]
      omega
    | some op' =>
      rw [Option.toList_some, List.countP_singleton]
      split
      · next hrun =>
        have hfree := hpool op' rfl hrun
        omega
      · omega
  · rw [haccepted]
    rcases hmem op' hop' with hin | hnew
    · exact h.known op' (hold op' hin)
    · rw [hconn op' hnew]
      exact hknown
  · rw [haccepted] at hc
    have hne : c ≠ op.conn := Nat.ne_of_gt (Nat.lt_of_lt_of_le hknown hc)
    rw [(hothers c hne).1, (hothers c hne).2]
    exact h.fresh c hc
  · rcases hmem op' hop' with hin | hnew
    · have hne := h.conn_ne hop op' hin
      rw [(hothers _ hne).1, (hothers _ hne).2]
      exact h.active op' (hold op' hin)
    · rw [hconn op' hnew, hself, hrest op' hnew]
  · by_cases hc : c = op.conn
    · exact ⟨rest, hc ▸ hself, hone⟩
    · rw [(hothers c hc).1, (hothers c hc).2]
      exact h.all c

/-- The step lemma: each step is a new connection, a completion, or none of them. -/
theorem Orderly.step (h : Orderly σ) (hs : Stepped σ l σ') : Orderly σ' := by
  cases hs with
  | accept =>
    -- the new connection has the next number, which no operation and no history has yet
    refine ⟨?_, ?_, fun op hop => ?_, fun c hc => h.fresh c (Nat.le_of_succ_le hc), fun op hop => ?_,
      h.all⟩
    · show (List.map Op.conn (σ.ops ++ [_])).Nodup
      rw [List.map_append]
      refine (List.perm_append_singleton _ _).nodup_iff.mpr (List.nodup_cons.mpr ⟨?_, h.single⟩)
      intro hmem
      obtain ⟨op, hop, hconn⟩ := List.mem_map.mp hmem
      exact absurd hconn (Nat.ne_of_lt (h.known op hop))
    · show List.countP _ (σ.ops ++ [_]) ≤ _
      rw [List.countP_append]
      exact h.pool
    · rcases List.mem_append.mp hop with hold | hnew
      · exact Nat.lt_succ_of_lt (h.known op hold)
      · cases List.mem_singleton.mp hnew
        exact Nat.lt_succ_self _
    · rcases List.mem_append.mp hop with hold | hnew
      · exact h.active op hold
      · cases List.mem_singleton.mp hnew
        obtain ⟨hreceived, hsent⟩ := h.fresh σ.accepted (Nat.le_refl _)
        show σ.received σ.accepted = (σ.sent σ.accepted).map Prod.fst ++ []
        rw [hreceived, hsent]
        rfl
  | acceptError => exact ⟨h.single, h.pool, h.known, h.fresh, h.active, h.all⟩
  | @read i c req hop =>
    have hactive := h.active _ (List.mem_of_getElem? hop)
    -- the request that was read is the one unanswered from now on
    refine h.completes hop ⟨rfl, rfl, fun c' hne => ⟨Function.update_of_ne hne .., rfl⟩, ?_, ?_,
      [req], ?_, Nat.le_refl 1, ?_⟩
    · rintro op' ⟨⟩
      rfl
    · rintro op' ⟨⟩ hrun
      cases hrun
    · show Function.update σ.received c (σ.received c ++ [req]) c = _
      rw [Function.update_self]
      exact congrArg (· ++ [req]) (hactive.trans (List.append_nil _))
    · rintro op' ⟨⟩
      rfl
  | @readError i c hop =>
    have hactive := h.active _ (List.mem_of_getElem? hop)
    refine h.completes hop ⟨rfl, rfl, fun _ _ => ⟨rfl, rfl⟩, ?_, ?_, [], hactive,
      Nat.zero_le 1, ?_⟩
    all_goals
      intro op' hnone
      cases hnone
  | @start i c req hfree hop =>
    have hactive := h.active _ (List.mem_of_getElem? hop)
    refine h.completes hop ⟨rfl, rfl, fun _ _ => ⟨rfl, rfl⟩, ?_, fun _ _ _ => hfree, [req], hactive,
      Nat.le_refl 1, ?_⟩
    · rintro op' ⟨⟩
      rfl
    · rintro op' ⟨⟩
      rfl
  | @respond i c req resp hop =>
    have hactive := h.active _ (List.mem_of_getElem? hop)
    refine h.completes hop ⟨rfl, rfl, fun _ _ => ⟨rfl, rfl⟩, ?_, ?_, [req], hactive, Nat.le_refl 1, ?_⟩
    · rintro op' ⟨⟩
      rfl
    · rintro op' ⟨⟩ hrun
      cases hrun
    · rintro op' ⟨⟩
      rfl
  | @written i c req resp hop =>
    have hactive := h.active _ (List.mem_of_getElem? hop)
    -- the response was the last thing missing: all that was read is answered
    refine h.completes hop ⟨rfl, rfl, fun c' hne => ⟨rfl, Function.update_of_ne hne ..⟩, ?_, ?_, [], ?_,
      Nat.zero_le 1, ?_⟩
    · rintro op' ⟨⟩
      rfl
    · rintro op' ⟨⟩ hrun
      cases hrun
    · show σ.received c = (Function.update σ.sent c (σ.sent c ++ [(req, resp)]) c).map Prod.fst ++ []
      rw [Function.update_self, List.map_append, List.append_nil]
      exact hactive
    · rintro op' ⟨⟩
      rfl
  | @writeError i c req resp hop =>
    have hactive := h.active _ (List.mem_of_getElem? hop)
    refine h.completes hop ⟨rfl, rfl, fun _ _ => ⟨rfl, rfl⟩, ?_, ?_, [req], hactive,
      Nat.le_refl 1, ?_⟩
    all_goals
      intro op' hnone
      cases hnone

theorem orderly_of_reach {ok : State Req Resp → Label Req Resp → Prop}
    (h : Reach step ok (init : State Req Resp) σ) : Orderly σ := by
  refine h.invariant ?_ fun _ _ _ hinv _ hs => hinv.step (step_cases hs)
  refine ⟨List.nodup_nil, Nat.zero_le _, fun op hop => ?_, fun _ _ => ⟨rfl, rfl⟩, fun op hop => ?_,
    fun _ => ⟨[], rfl, Nat.zero_le 1⟩⟩
  · cases hop
  · cases hop

/-- **A connection gets its answers one by one, in the order of its requests.** In every run, whatever the
other connections do and in whichever order the handler finishes: a connection has at most one operation
outstanding, the pool handles at most four requests at a time, and the requests that a connection has sent
are those that were answered, each once and in this order, and then at most one that was not; none if the
connection is reading. -/
theorem answers_inOrder (σ : State Req Resp) (h : Reach step anyStep init σ) :
    (σ.ops.map Op.conn).Nodup ∧ σ.ops.countP Op.isRunning ≤ 4 ∧
      ∀ c, ∃ rest, σ.received c = (σ.sent c).map Prod.fst ++ rest ∧ rest.length ≤ 1 ∧
        (.read c ∈ σ.ops → rest = []) := by
  have hinv := orderly_of_reach h
  refine ⟨hinv.single, hinv.pool, fun c => ?_⟩
  obtain ⟨rest, hrest, hone⟩ := hinv.all c
  refine ⟨rest, hrest, hone, fun hread => ?_⟩
  have hactive := hinv.active _ hread
  exact List.append_cancel_left (hrest.symm.trans hactive)

/-- Two connections send a request each; that of the second is answered first. -/
def twoRequests : List (Label ℕ ℕ) :=
  [.accept, .accept, .read 0 (some 5), .read 0 (some 6), .start, .start, .respond 1 60, .written 1 true]

/-- The first connection has sent a request that is still being handled. -/
theorem answers_inOrder_two : ∃ σ : State ℕ ℕ, Reach step anyStep init σ ∧ σ.received 0 = [5] ∧
    σ.sent 0 = [] ∧ σ.sent 1 = [(6, 60)] ∧
    (σ.ops.map Op.conn).Nodup ∧ σ.ops.countP Op.isRunning ≤ 4 ∧
      ∀ c, ∃ rest, σ.received c = (σ.sent c).map Prod.fst ++ rest ∧ rest.length ≤ 1 ∧
        (.read c ∈ σ.ops → rest = []) := by
  have hrun : run step anyStep (init : State ℕ ℕ) twoRequests = some _ := rfl
  exact ⟨_, reach_of_run hrun, rfl, rfl, rfl, answers_inOrder _ (reach_of_run hrun)⟩

/-! ## Every request can be answered

A measure: the steps that are left until all responses are written. Every step of the pool and every
write
makes it smaller, and there is such a step as long as a request is open. When the pool is full, one of
its
threads can respond; when it is not, the request that has waited longest can be started. -/

/-- The steps of the pool, and writes that succeed. -/
def Label.own : Label Req Resp → Bool
  | .start | .respond _ _ | .written _ true => true
  | _ => false

/-- The steps left to do until the response is written. -/
def Op.left : Op Req Resp → ℕ
  | read _ => 0
  | write _ _ _ => 1
  | running _ _ => 2
  | queued _ _ => 3

def State.left (σ : State Req Resp) : ℕ := (σ.ops.map Op.left).sum

/-- The operation is followed by one that has less left to do. -/
theorem left_next (hop : σ.ops[i]? = some op) (hless : op'.left < op.left) :
    (σ.next i (some op')).left < σ.left := by
  have hsum := ((perm_eraseIdx hop).map Op.left).sum_nat
  rw [List.map_cons, List.sum_cons] at hsum
  show ((σ.ops.eraseIdx i ++ [op']).map Op.left).sum < (σ.ops.map Op.left).sum
  rw [hsum, List.map_append, List.sum_append]
  show _ + (op'.left + 0) < _
  omega

/-- A step of the pool or a write leaves the requests as they are, and each connection with an operation. -/
theorem own_spec (hown : l.own = true) (hs : Stepped σ l σ') : σ'.received = σ.received ∧
    (σ'.ops.map Op.conn).Perm (σ.ops.map Op.conn) := by
  have hnext : ∀ {i op op'}, σ.ops[i]? = some op → op'.conn = op.conn →
      ((σ.ops.eraseIdx i ++ [op']).map Op.conn).Perm (σ.ops.map Op.conn) := by
    intro i op op' hop hconn
    refine ((List.perm_append_singleton _ _).map Op.conn).trans ?_
    rw [List.map_cons, hconn]
    exact ((perm_eraseIdx hop).map Op.conn).symm
  cases hs with
  | accept | acceptError | read | readError | writeError => cases hown
  | start _ hop | respond hop | written hop => exact ⟨rfl, hnext hop rfl⟩

/-- As long as a request is unanswered, there is something to do. -/
theorem exists_own (handle : Req → Resp) (hop : op ∈ σ.ops) (hopen : op.unanswered ≠ []) :
    ∃ l σ', l.own = true ∧ step σ l = some σ' ∧ σ'.left < σ.left := by
  have hrespond : ∀ {c req}, .running c req ∈ σ.ops →
      ∃ l σ', l.own = true ∧ step σ l = some σ' ∧ σ'.left < σ.left := by
    intro c req hmem
    obtain ⟨i, hi⟩ := List.mem_iff_getElem?.mp hmem
    refine ⟨.respond i (handle req), σ.next i (some (.write c req (handle req))), rfl, ?_,
      left_next hi (Nat.lt_succ_self 1)⟩
    simp only [step, hi]
  cases op with
  | read c => exact absurd rfl hopen
  | running c req => exact hrespond hop
  | write c req resp =>
    obtain ⟨i, hi⟩ := List.mem_iff_getElem?.mp hop
    refine ⟨.written i true, { σ.next i (some (.read c)) with
      sent := Function.update σ.sent c (σ.sent c ++ [(req, resp)]) }, rfl, ?_, ?_⟩
    · simp only [step, hi, if_true]
    · exact @left_next _ _ σ i _ (.read c) hi Nat.zero_lt_one
  | queued c req =>
    by_cases hfree : σ.ops.countP Op.isRunning < poolSize
    · -- the pool takes the request that has waited longest
      cases hfind : σ.ops.findIdx? Op.isQueued with
      | none => exact absurd (List.findIdx?_eq_none_iff.mp hfind _ hop) (by simp [Op.isQueued])
      | some j =>
        obtain ⟨hj, hqueued, -⟩ := List.findIdx?_eq_some_iff_getElem.mp hfind
        cases hopj : σ.ops[j] with
        | queued c' req' =>
          have hat : σ.ops[j]? = some (.queued c' req') := by
            rw [List.getElem?_eq_getElem hj, hopj]
          refine ⟨.start, σ.next j (some (.running c' req')), rfl, ?_,
            left_next hat (Nat.lt_succ_self 2)⟩
          simp only [step, if_pos hfree, hfind, hat]
        | read | running | write =>
          rw [hopj] at hqueued
          cases hqueued
    · -- all threads are busy, and one of them finishes
      have hpos : 0 < σ.ops.countP Op.isRunning := Nat.lt_of_lt_of_le (by decide) (Nat.le_of_not_lt hfree)
      obtain ⟨op', hop', hrunning⟩ := List.countP_pos_iff.mp hpos
      cases op' with
      | running c' req' => exact hrespond hop'
      | read | queued | write => cases hrunning

/-- The pool and the writes come to the end of what there is to answer. -/
theorem exists_answered (handle : Req → Resp) (σ : State Req Resp) :
    ∃ ls σ', (∀ l ∈ ls, l.own = true) ∧ run step anyStep σ ls = some σ' ∧
      σ'.received = σ.received ∧ (σ'.ops.map Op.conn).Perm (σ.ops.map Op.conn) ∧
      ∀ op ∈ σ'.ops, op.unanswered = [] := by
  induction hleft : σ.left using Nat.strongRecOn generalizing σ with
  | _ n ih =>
    by_cases hdone : ∀ op ∈ σ.ops, op.unanswered = []
    · exact ⟨[], σ, fun l hl => (by cases hl), rfl, rfl, List.Perm.refl _, hdone⟩
    · obtain ⟨op, hnot⟩ := not_forall.mp hdone
      obtain ⟨hop, hopen⟩ := Classical.not_imp.mp hnot
      obtain ⟨l, σ₁, hown, hs, hless⟩ := exists_own handle hop hopen
      obtain ⟨hreceived, hconns⟩ := own_spec hown (step_cases hs)
      obtain ⟨ls, σ', hall, hrun, hreceived', hconns', hanswered⟩ := ih _ (hleft ▸ hless) σ₁ rfl
      refine ⟨l :: ls, σ', fun l' hl' => ?_, run_cons trivial hs hrun, hreceived'.trans hreceived,
        hconns'.trans hconns, hanswered⟩
      rcases List.mem_cons.mp hl' with rfl | hl'
      · exact hown
      · exact hall l' hl'

/-- **Every request that has been read can be answered**, in every reachable state and without any new
request: the threads of the pool and the writes bring each connection that has an operation outstanding to
where all it has sent is answered, if the handler returns and no write fails. -/
theorem answers_all (handle : Req → Resp) (σ : State Req Resp) (h : Reach step anyStep init σ) :
    ∃ ls σ', (∀ l ∈ ls, l.own = true) ∧ run step anyStep σ ls = some σ' ∧
      σ'.received = σ.received ∧
      ∀ op ∈ σ.ops, (σ'.sent op.conn).map Prod.fst = σ.received op.conn := by
  obtain ⟨ls, σ', hall, hrun, hreceived, hconns, hanswered⟩ := exists_answered handle σ
  refine ⟨ls, σ', hall, hrun, hreceived, fun op hop => ?_⟩
  have hinv := orderly_of_reach (h.trans (reach_of_run hrun))
  obtain ⟨op', hop', hconn⟩ := List.mem_map.mp (hconns.mem_iff.mpr (List.mem_map_of_mem hop))
  have hactive := hinv.active op' hop'
  rw [hanswered op' hop', List.append_nil, hconn, hreceived] at hactive
  exact hactive.symm

/-- From the same state, where one request is open. -/
theorem answers_all_two : ∃ σ : State ℕ ℕ, Reach step anyStep init σ ∧ σ.received 0 = [5] ∧
    σ.sent 0 = [] ∧ ∃ ls σ', (∀ l ∈ ls, l.own = true) ∧ run step anyStep σ ls = some σ' ∧
      σ'.received = σ.received ∧
      ∀ op ∈ σ.ops, (σ'.sent op.conn).map Prod.fst = σ.received op.conn := by
  have hrun : run step anyStep (init : State ℕ ℕ) twoRequests = some _ := rfl
  exact ⟨_, reach_of_run hrun, rfl, rfl, answers_all id _ (reach_of_run hrun)⟩

end Chatroom.HTTPServer
