import Chatroom.Http.Accounts

/-!
# Every request can be answered

The requests share the generator, the table and Redis, but what a request needs there to go on cannot be
taken away by another one. So a request that is not answered yet can always go on, whatever the others
have done, and it is answered after at most seven replies: one of MySQL, one of the status server, one
of the clock, two of Redis, one of `RAND_bytes` and one more of Redis, for a login that succeeds. What it
needs of the cluster is there because the cluster's view of a login and its stage agree.

The time until a thread of the pool and a connection to the database are free is part of the wait for a
reply; the connections are the subject of `Dbm.Waiting`.
-/

namespace Chatroom.Gateway

open Trace
open Cluster (ReqId)

variable {cfg : Config} {σ σ' : State} {l : Label} {r r' : ReqId} {req : HttpRequest} {st : Stage}
  {x : Reply} {rows : List Account} {workerId : UInt16}

/-! ## The stages in the cluster

A request that has passed the script is known to the cluster, which has to accept the token or the
kick
that follows. `Agrees` says what the cluster must know for this at each stage, and `InStep` that it
does. -/

/-- What the cluster knows of a request at a stage. -/
def Agrees (q : Cluster.Request) : Option (HttpRequest × Stage) → Prop
  | some (_, .draw uid _) => q = .loggedIn uid
  | some (_, .token _ uid _) => q = .loggedIn uid
  | some (_, .kick oldServer uid) => q = .alreadyOnline oldServer uid
  | some (_, .done _) => True
  | _ => q = .checked

def InStep (σ : State) : Prop := ∀ r, Agrees (σ.cluster.requests r) (σ.requests r)

/-- Backends and expiries leave the requests alone. -/
theorem requests_of_backend {cl : Cluster.Label} {σ σ' : Cluster.State}
    (h : Cluster.step cfg.cluster σ cl = some σ') (hcl : ofGateway cl = false) :
    σ'.requests = σ.requests := by
  cases Cluster.step_cases h with
  | run | other | expired | tokenExpired | received | timedOut | trimQueue | trimCtl => rfl
  | created | attempted | registered | kicked => cases hcl

/-- The script moves its own request, to what `LoginLogic` makes of the answer. -/
theorem requests_of_attempt {σ σ' : Cluster.State} {uid : UInt64}
    (h : Cluster.step cfg.cluster σ (.userLoginAttempt r uid) = some σ') (addr : List UInt8) :
    ∃ q, σ'.requests = Function.update σ.requests r q ∧
      Agrees q (some (req, attemptReturned req uid addr ((σ.redis.location uid).getD []))) := by
  simp only [Cluster.step] at h
  split at h
  · cases h
    unfold Cluster.userLoginAttempt
    cases hloc : σ.redis.location uid with
    | none => exact ⟨_, rfl, rfl⟩
    | some oldServer =>
      refine ⟨_, rfl, ?_⟩
      show Agrees _ (some (req, attemptReturned req uid addr oldServer))
      unfold attemptReturned
      split
      · rfl
      split
      · trivial
      · rfl
  · cases h

/-- A token is written for its own request only. -/
theorem requests_of_token {σ σ' : Cluster.State} {token : List UInt8}
    (h : Cluster.step cfg.cluster σ (.registerUserToken r token) = some σ') :
    ∃ q, σ'.requests = Function.update σ.requests r q := by
  cases Cluster.step_cases h with
  | registered => exact ⟨_, rfl⟩

/-- And so is a kick. -/
theorem requests_of_kick {σ σ' : Cluster.State}
    (h : Cluster.step cfg.cluster σ (.sendServerKickCmd r) = some σ') :
    ∃ q, σ'.requests = Function.update σ.requests r q := by
  cases Cluster.step_cases h with
  | kicked => exact ⟨_, rfl⟩

/-- A request goes on, in the cluster and here. -/
theorem InStep.goes (h : InStep σ) {σ₁ : State} {q : Cluster.Request} (hrequests : σ₁.requests = σ.requests)
    (hcluster : σ₁.cluster.requests = Function.update σ.cluster.requests r q)
    (hst : Agrees q (some (req, st))) : InStep (σ₁.goes r req st) := by
  intro r'
  show Agrees (σ₁.cluster.requests r') (Function.update σ₁.requests r (some (req, st)) r')
  rw [hcluster, hrequests]
  rcases eq_or_ne r' r with rfl | hne
  · rw [Function.update_self, Function.update_self]
    exact hst
  · rw [Function.update_of_ne hne, Function.update_of_ne hne]
    exact h r'

/-- It goes on here only. -/
theorem InStep.goes_same (h : InStep σ) {σ₁ : State} (hrequests : σ₁.requests = σ.requests)
    (hcluster : σ₁.cluster = σ.cluster)
    (hst : Agrees (σ.cluster.requests r) (σ.requests r) →
      Agrees (σ.cluster.requests r) (some (req, st))) : InStep (σ₁.goes r req st) := by
  have hsame : σ₁.cluster.requests =
      Function.update σ.cluster.requests r (σ.cluster.requests r) := by
    rw [hcluster, Function.update_eq_self]
  exact h.goes hrequests hsame (hst (h r))

/-- The step lemma. A reply moves one request, here and in the cluster; steps of the backends and
other clients move none. -/
theorem InStep.step (h : InStep σ) (hs : Stepped cfg σ l σ') : InStep σ' := by
  cases hs with
  | unread => exact h
  | request hnone hst =>
    refine h.goes_same rfl rfl fun hq => ?_
    rw [hnone] at hq
    cases begins_requestHandler hst with
    | login | register => exact hq
    | ping | refused => trivial
  | cluster hl hcluster =>
    intro r
    show Agrees (Cluster.State.requests _ r) (σ.requests r)
    rw [requests_of_backend hcluster hl]
    exact h r
  | reply hreq hdone hh =>
    cases hh with
    | refused => exact h.goes_same rfl rfl fun _ => trivial
    | threw | lost | aborted => exact h
    | verified | routed | stamped | info | drawn | generated | counted | salted =>
      refine h.goes_same rfl rfl fun hq => ?_
      rw [hreq] at hq
      exact hq
    | @inserted _ _ _ _ x hx =>
      refine h.goes_same rfl rfl fun _ => ?_
      cases x with
      | done | unanswered => trivial
      | failed => cases hx
    -- the three replies that the cluster takes part in
    | attempt hcluster =>
      obtain ⟨q, hq, hagrees⟩ := requests_of_attempt hcluster _
      exact h.goes rfl hq hagrees
    | token hcluster =>
      obtain ⟨q, hq⟩ := requests_of_token hcluster
      exact h.goes rfl hq trivial
    | kick hcluster =>
      obtain ⟨q, hq⟩ := requests_of_kick hcluster
      exact h.goes rfl hq trivial

theorem inStep_of_reach {ok : State → Label → Prop}
    (h : Reach (Gateway.step cfg) ok (init rows workerId) σ) : InStep σ :=
  h.invariant (fun _ => rfl) fun _ _ _ hinv _ hs => hinv.step (step_cases hs)

/-! ## At most seven replies

`Stage.rank` is the number of replies that may still come, and each reply lowers it; a request that
has
not come yet may get seven. Summed up over a run this bounds the replies to one request. -/

/-- How many replies a request may still get. -/
def Stage.rank : Stage → ℕ
  | .verify _ _ => 7
  | .route _ _ => 6
  | .stamp _ _ _ => 5
  | .info _ _ _ _ => 4
  | .attempt _ _ => 3
  | .draw _ _ => 2
  | .token _ _ _ | .kick _ _ => 1
  | .generate _ _ => 4
  | .count _ _ _ => 3
  | .salt _ _ _ => 2
  | .insert _ _ _ _ => 1
  | .done _ => 0

/-- After the script: the random bytes and the token, or the kick, or nothing. -/
theorem rank_attemptReturned (req : HttpRequest) (uid : UInt64) (addr oldServer : List UInt8) :
    (attemptReturned req uid addr oldServer).rank ≤ 2 := by
  rcases attemptReturned_cases req uid addr oldServer with hst | ⟨oldServer', hst⟩ | hst <;> rw [hst]
  · exact le_rfl
  · exact Nat.le_add_right 1 1
  · exact Nat.zero_le 2

/-- A reply brings its request further, or ends the gateway, and touches no other request. -/
theorem Handled.rank (h : Handled cfg σ r req st x σ') (hdone : st.isDone = false) :
    (σ'.terminated = true ∧ σ'.requests = σ.requests) ∨ (σ'.terminated = σ.terminated ∧
      ∃ st', σ'.requests = Function.update σ.requests r (some (req, st')) ∧ st'.rank < st.rank) := by
  cases h with
  | threw | lost | aborted => exact .inl ⟨rfl, rfl⟩
  | refused =>
    refine .inr ⟨rfl, _, rfl, ?_⟩
    cases st with
    | done => cases hdone
    | _ => exact Nat.succ_pos _
  | attempt =>
    exact .inr ⟨rfl, _, rfl, Nat.lt_succ_of_le (rank_attemptReturned ..)⟩
  | @inserted _ _ _ _ x hx =>
    refine .inr ⟨rfl, _, rfl, ?_⟩
    cases x with
    | done | unanswered => exact Nat.zero_lt_one
    | failed => cases hx
  | _ => exact .inr ⟨rfl, _, rfl, Nat.lt_succ_self _⟩

/-- The replies that request `r` may still get. -/
def State.left (σ : State) (r : ReqId) : ℕ :=
  if σ.terminated then 0
  else match σ.requests r with
    | none => 7
    | some (_, st) => st.rank

end Chatroom.Gateway
