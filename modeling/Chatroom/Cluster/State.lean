import Chatroom.Lib.History
import Chatroom.Lib.Streams
import Chatroom.OnlineStatus
import Chatroom.Server.Backend.Uploads

/-!
# The servers and the gateway around one Redis

Any number of backends, the requests to the gateway, and the Redis they share. A backend takes the
steps of `Backend.step`, on the entries and tokens as they are at that moment. A login of the gateway
is the script of `UserLoginAttempt` and then, as a second command, the token or the kick; the user has
shown the right password before.

The streams are those of Redis, each with its consumer group. The `MQHandler` of a backend fetches the
next entries of the two streams of its own id in one command, without acknowledgements, and deals with
them one after another before it fetches again. If the reply comes too late for the socket, redis++ throws
a `TimeoutError`, `WorkerFn` goes on with its loop, and the entries handed out are lost. Any other
exception ends the backend, which then takes no more steps.

A key may expire at any time, and a stream may be trimmed when an entry is added to it: each is a step
of its own. The times themselves are the subject of `OnlineStatus`.
-/

namespace Chatroom.Cluster

open Trace Threads Streams
open OnlineStatus (ServerId sidText unset)
open Backend (Uid Tid Act Redis)

/-- A login request to the gateway. -/
abbrev ReqId := ℕ

structure Config where
  host : ServerId → ByteOrder
  json : List UInt8 → Backend.JsonRoot

def Config.backend (cfg : Config) (b : ServerId) : Backend.Config where
  host := cfg.host b
  serverId := sidText b
  json := cfg.json

/-- The answers to a login: the token; `403 Forbidden` because of another login; `409 Conflict`, after
a kick. -/
inductive Answer where
  | ok (token : List UInt8)
  | forbidden
  | retry
  deriving DecidableEq, Repr

/-- How far `LoginLogic` is with a request. -/
inductive Request where
  | checked
  | loggedIn (uid : Uid)
  | alreadyOnline (oldServer : List UInt8) (uid : Uid)
  | answered (answer : Answer)
  deriving DecidableEq, Repr

/-- What the history records. -/
inductive Event where
  /-- A login created the entry of a user. -/
  | created (uid : Uid)
  /-- `VerifyUser` of a backend found the token to be that of the user. -/
  | accepted (b : ServerId) (token : List UInt8) (uid : Uid)
  /-- `UpdateUserStatus` of a backend. -/
  | updated (b : ServerId) (uid : Uid)
  /-- A backend processed the close of a session of the user: `RemoveSession`. -/
  | closed (b : ServerId) (uid : Uid)
  /-- The upload of a backend took the sets, and executed its pipeline with these deletions. -/
  | swapped (b : ServerId)
  | deleted (b : ServerId) (erasing : List Uid)
  | expired (uid : Uid)
  /-- An entry was added to the stream of a server. -/
  | appended (sid : List UInt8) (item : StreamItem)
  deriving DecidableEq, Repr

structure State where
  /-- The backends; what they see of Redis is the field `redis` below. -/
  servers : ServerId → Backend.State
  redis : Redis
  requests : ReqId → Request
  /-- `stream:server:<id>` and `stream:serverctl:<id>`, with what the `MQHandler` has in its hands. -/
  mqChannel : List UInt8 → Channel StreamItem
  ctlChannel : List UInt8 → Channel (List UInt8)
  log : List Event

namespace State

/-- A backend, with Redis as it is now. -/
def view (σ : State) (b : ServerId) : Backend.State := { σ.servers b with redis := σ.redis }

/-- The messages to a server that its `MQHandler` has yet to deal with, and the kicks. -/
def mq (σ : State) (sid : List UInt8) : List StreamItem := (σ.mqChannel sid).waiting
def ctl (σ : State) (sid : List UInt8) : List (List UInt8) := (σ.ctlChannel sid).waiting

/-- `MQHandler` takes up the next entry that it has fetched. Nothing else that begins on a backend does. -/
def read (σ : State) (b : ServerId) : Backend.Label → Option State
  | .call _ (.kick uidStr) =>
    if (σ.ctlChannel (sidText b)).inbox.head? = some uidStr then
      some { σ with
        ctlChannel := Function.update σ.ctlChannel (sidText b) (σ.ctlChannel (sidText b)).next }
    else none
  | .call _ (.message item _) =>
    if (σ.mqChannel (sidText b)).inbox.head? = some item then
      some { σ with
        mqChannel := Function.update σ.mqChannel (sidText b) (σ.mqChannel (sidText b)).next }
    else none
  | .redis _ => none
  | _ => some σ

def goes (σ : State) (r : ReqId) (q : Request) : State :=
  { σ with requests := Function.update σ.requests r q }

def record (σ : State) (e : Event) : State := { σ with log := σ.log ++ [e] }

/-- The backend is up, and its `MQHandler` is done with what it has fetched. -/
def Fetching (σ : State) (b : ServerId) : Prop :=
  (σ.servers b).fault = none ∧ (σ.mqChannel (sidText b)).inbox = [] ∧
    (σ.ctlChannel (sidText b)).inbox = []

instance (σ : State) (b : ServerId) : Decidable (σ.Fetching b) :=
  inferInstanceAs (Decidable (_ ∧ _ ∧ _))

end State

/-- How many entries of a stream are fetched at once: the default of `recv_count`. -/
def recvCount : ℕ := 10

/-- `VerifyUser(token)` gives `uid`. -/
def accepts (redis : Redis) (token : List UInt8) (uid : Uid) : Bool :=
  match redis.token token with
  | none => false
  | some text =>
    match stoull text with
    | .ok answer => answer = uid
    | .error _ => false

/-- What is recorded of an act of backend `b`, where `τ` is the state before. -/
def observed (b : ServerId) (τ : Backend.State) : Act → Option Event
  | .verifyUser _ _ token uid =>
    if accepts τ.redis token uid then some (.accepted b token uid) else none
  | .updateUserStatus uid => some (.updated b uid)
  | .removeOnline uid => some (.closed b uid)
  | .uploadSwap => some (.swapped b)
  | .uploadExec erasing => some (.deleted b erasing)
  | .sendToMsgQueue sid s msg target =>
    if msg.ctxLen < 8 then none
    else some (.appended sid (sendToMsgQueue (τ.sessions s).userId target msg.chatText))
  | _ => none

/-- The act that a step does. -/
def firstAct (τ : Backend.State) : Backend.Label → Option Act
  | .run t => (τ.code t).head?
  | _ => none

/-- The streams after an event: `XADD`. -/
def xadd (mq : List UInt8 → Channel StreamItem) : Option Event → List UInt8 → Channel StreamItem
  | some (.appended sid item) => Function.update mq sid ((mq sid).add item)
  | _ => mq

/-- Backend `b` has come to `τ`, with an event or without. -/
def State.put (σ : State) (b : ServerId) (τ : Backend.State) (e : Option Event) : State :=
  { σ with
    servers := Function.update σ.servers b τ
    redis := τ.redis
    mqChannel := xadd σ.mqChannel e
    log := σ.log ++ e.toList }

inductive Label where
  | server (b : ServerId) (l : Backend.Label)
  | userLoginAttempt (r : ReqId) (uid : Uid)
  | registerUserToken (r : ReqId) (token : List UInt8)
  | sendServerKickCmd (r : ReqId)
  | expireStatus (uid : Uid)
  | expireToken (token : List UInt8)
  /-- `RecvFromMsgQueueNoACK`, and the same with a reply that comes too late. -/
  | recvFromMsgQueue (b : ServerId)
  | recvTimeout (b : ServerId)
  /-- The oldest `n` entries of a stream are dropped. -/
  | trimQueue (sid : List UInt8) (n : ℕ)
  | trimCtl (sid : List UInt8) (n : ℕ)

/-- The script of `UserLoginAttempt` and what `LoginLogic` makes of its answer. -/
def userLoginAttempt (σ : State) (r : ReqId) (uid : Uid) : State :=
  match σ.redis.location uid with
  | none =>
    let location := Function.update σ.redis.location uid (some unset)
    (({ σ with redis := { σ.redis with location := location } }).record (.created uid)).goes r
      (.loggedIn uid)
  | some oldServer =>
    σ.goes r
      -- an empty answer counts as success, whoever gave it
      (if oldServer = [] then .loggedIn uid
      else if oldServer = unset then .answered .forbidden
      else .alreadyOnline oldServer uid)

def step (cfg : Config) (σ : State) : Label → Option State
  | .server b l =>
    (σ.read b l).bind fun σ₁ => (Backend.step (cfg.backend b) (σ.view b) l).map fun τ =>
      σ₁.put b τ ((firstAct (σ.view b) l).bind (observed b (σ.view b)))
  | .userLoginAttempt r uid =>
    match σ.requests r with
    | .checked => some (userLoginAttempt σ r uid)
    | _ => none
  | .registerUserToken r token =>
    match σ.requests r with
    | .loggedIn uid =>
      let tokens := Function.update σ.redis.token token (some (toDecimal uid.toNat))
      some (({ σ with redis := { σ.redis with token := tokens } }).goes r (.answered (.ok token)))
    | _ => none
  | .sendServerKickCmd r =>
    match σ.requests r with
    | .alreadyOnline oldServer uid =>
      let kick := toDecimal uid.toNat
      let ctl := Function.update σ.ctlChannel oldServer ((σ.ctlChannel oldServer).add kick)
      some (({ σ with ctlChannel := ctl }).goes r (.answered .retry))
    | _ => none
  | .expireStatus uid =>
    let location := Function.update σ.redis.location uid none
    some (({ σ with redis := { σ.redis with location := location } }).record (.expired uid))
  | .expireToken token =>
    some { σ with redis := { σ.redis with token := Function.update σ.redis.token token none } }
  | .recvFromMsgQueue b =>
    if σ.Fetching b then
      let sid := sidText b
      some { σ with
        mqChannel := Function.update σ.mqChannel sid ((σ.mqChannel sid).fetch recvCount)
        ctlChannel := Function.update σ.ctlChannel sid ((σ.ctlChannel sid).fetch recvCount) }
    else none
  | .recvTimeout b =>
    if σ.Fetching b then
      let sid := sidText b
      some { σ with
        mqChannel := Function.update σ.mqChannel sid ((σ.mqChannel sid).miss recvCount)
        ctlChannel := Function.update σ.ctlChannel sid ((σ.ctlChannel sid).miss recvCount) }
    else none
  | .trimQueue sid n =>
    some { σ with mqChannel := Function.update σ.mqChannel sid ((σ.mqChannel sid).trim n) }
  | .trimCtl sid n =>
    some { σ with ctlChannel := Function.update σ.ctlChannel sid ((σ.ctlChannel sid).trim n) }

def init : State where
  servers := fun _ => Backend.init
  redis := ⟨fun _ => none, fun _ => none⟩
  requests := fun _ => .checked
  mqChannel := fun _ => .empty
  ctlChannel := fun _ => .empty
  log := []

/-! ## What a step can do

`Stepped` says of the channels only what the results about tokens, entries and sessions need: that no
message
appears from nowhere. What exactly happens to them is the subject of the module about streams. -/

variable {cfg : Config} {σ σ' : State} {l : Label} {b : ServerId}

/-- A thread of a backend does its first act; a backend takes another step; the gateway does the next
thing for a request; Redis drops something; entries are handed out. No step of the last kinds brings an
entry that was not there. -/
inductive Stepped (cfg : Config) (σ : State) : Label → State → Prop
  | run {b t a rest τ new} : (σ.servers b).code t = a :: rest →
      Backend.exec (cfg.backend b) t (σ.view b) a = some (τ, new) →
      Stepped cfg σ (.server b (.run t))
        (σ.put b { τ with code := advance (σ.servers b).code t new rest } (observed b (σ.view b) a))
  | other {b l τ mq ctl} : (∀ t, l ≠ .run t) →
      Backend.step (cfg.backend b) (σ.view b) l = some τ →
      (∀ sid, ∀ item ∈ (mq sid).waiting, item ∈ σ.mq sid) →
      Stepped cfg σ (.server b l)
        { σ with servers := Function.update σ.servers b τ, mqChannel := mq, ctlChannel := ctl }
  | created {r uid} : σ.requests r = .checked → σ.redis.location uid = none →
      Stepped cfg σ (.userLoginAttempt r uid)
        (({ σ with redis := { σ.redis with
          location := Function.update σ.redis.location uid (some unset) } }).record (.created uid)
            |>.goes r (.loggedIn uid))
  | attempted {r uid q} : σ.requests r = .checked →
      (∀ u, q = .loggedIn u → u = uid ∧ σ.redis.location uid = some []) →
      Stepped cfg σ (.userLoginAttempt r uid) (σ.goes r q)
  | registered {r uid token} : σ.requests r = .loggedIn uid →
      Stepped cfg σ (.registerUserToken r token)
        (({ σ with redis := { σ.redis with
          token := Function.update σ.redis.token token (some (toDecimal uid.toNat)) } }).goes r
            (.answered (.ok token)))
  | kicked {r ctl} : Stepped cfg σ (.sendServerKickCmd r)
      (({ σ with ctlChannel := ctl }).goes r (.answered .retry))
  | expired {uid} : Stepped cfg σ (.expireStatus uid)
      (({ σ with redis := { σ.redis with
        location := Function.update σ.redis.location uid none } }).record (.expired uid))
  | tokenExpired {token} : Stepped cfg σ (.expireToken token)
      { σ with redis := { σ.redis with token := Function.update σ.redis.token token none } }
  | received {b mq ctl} : (∀ sid, ∀ item ∈ (mq sid).waiting, item ∈ σ.mq sid) →
      Stepped cfg σ (.recvFromMsgQueue b) { σ with mqChannel := mq, ctlChannel := ctl }
  | timedOut {b mq ctl} : (∀ sid, ∀ item ∈ (mq sid).waiting, item ∈ σ.mq sid) →
      Stepped cfg σ (.recvTimeout b) { σ with mqChannel := mq, ctlChannel := ctl }
  | trimQueue {sid n mq} : (∀ sid, ∀ item ∈ (mq sid).waiting, item ∈ σ.mq sid) →
      Stepped cfg σ (.trimQueue sid n) { σ with mqChannel := mq }
  | trimCtl {sid n ctl} : Stepped cfg σ (.trimCtl sid n) { σ with ctlChannel := ctl }

/-- The acts that leave something in the history, and what. -/
inductive Observes (b : ServerId) (τ : Backend.State) : Act → Event → Prop
  | accepted {s msg token uid} : accepts τ.redis token uid = true →
      Observes b τ (.verifyUser s msg token uid) (.accepted b token uid)
  | updated {uid} : Observes b τ (.updateUserStatus uid) (.updated b uid)
  | closed {uid} : Observes b τ (.removeOnline uid) (.closed b uid)
  | swapped : Observes b τ .uploadSwap (.swapped b)
  | deleted {us} : Observes b τ (.uploadExec us) (.deleted b us)
  | appended {sid s msg target} : Observes b τ (.sendToMsgQueue sid s msg target)
      (.appended sid (sendToMsgQueue (τ.sessions s).userId target msg.chatText))

/-- The acts that the history sees. -/
theorem observes_of_observed {τ : Backend.State} {a : Act} {e : Event}
    (h : observed b τ a = some e) : Observes b τ a e := by
  cases a with
  | verifyUser s msg token uid =>
    change (if accepts τ.redis token uid = true then some _ else none) = some e at h
    split at h
    · next hacc =>
      cases h
      exact .accepted hacc
    · cases h
  | updateUserStatus uid => cases h; exact .updated
  | removeOnline uid => cases h; exact .closed
  | uploadSwap => cases h; exact .swapped
  | uploadExec us => cases h; exact .deleted
  | sendToMsgQueue sid s msg target =>
    change (if msg.ctxLen < 8 then none else some _) = some e at h
    split at h
    · cases h
    · cases h
      exact .appended
  | _ => cases h

theorem firstAct_run {t : Tid} {a : Act} {rest : List Act} (hcode : (σ.servers b).code t = a :: rest) :
    a ∈ firstAct (σ.view b) (.run t) := by
  rw [firstAct, State.view, hcode]
  rfl

/-- Something happens to a channel that adds nothing: it has no entry that it did not have before. -/
theorem mem_of_update {mq : List UInt8 → Channel StreamItem} {sid : List UInt8} {x : Action StreamItem}
    (hfits : x.Fits (mq sid)) (hadded : x.added = []) :
    ∀ sid', ∀ item ∈ (Function.update mq sid (x.apply (mq sid)) sid').waiting,
      item ∈ (mq sid').waiting := by
  intro sid' item hitem
  rw [← Move.apply_some] at hitem
  exact Move.mem_waiting (Move.fits_some hfits) (Move.added_eq_nil hadded sid sid') hitem

/-- Nothing but the channels changes when an entry is taken up. -/
theorem read_cases {l : Backend.Label} {σ₁ : State} (h : σ.read b l = some σ₁) :
    (∀ r, l ≠ .redis r) ∧ ((∃ t, l = .run t) → σ₁ = σ) ∧
      ∃ mq ctl, σ₁ = { σ with mqChannel := mq, ctlChannel := ctl } ∧
        ∀ sid, ∀ item ∈ (mq sid).waiting, item ∈ σ.mq sid := by
  unfold State.read at h
  split at h
  · split at h
    · cases h
      exact ⟨by simp, by simp, _, _, rfl, fun _ _ hitem => hitem⟩
    · cases h
  · split at h
    · next item _ hhead =>
      cases h
      exact ⟨by simp, by simp, _, _, rfl, mem_of_update (x := .takes item) hhead rfl⟩
    · cases h
  · cases h
  · next hl =>
    cases h
    exact ⟨hl, fun _ => rfl, _, _, rfl, fun _ _ hitem => hitem⟩

/-- A step of a backend in the cluster is a step of the backend. -/
theorem server_cases {l : Backend.Label} (h : step cfg σ (.server b l) = some σ') :
    (∀ r, l ≠ .redis r) ∧ ∃ σ₁ τ, σ.read b l = some σ₁ ∧
      Backend.step (cfg.backend b) (σ.view b) l = some τ ∧
      σ' = σ₁.put b τ ((firstAct (σ.view b) l).bind (observed b (σ.view b))) := by
  obtain ⟨σ₁, hread, hput⟩ := Option.bind_eq_some_iff.mp h
  obtain ⟨τ, hs, rfl⟩ := Option.map_eq_some_iff.mp hput
  exact ⟨(read_cases hread).1, σ₁, τ, hread, hs, rfl⟩

/-- The steps of a backend: an act, or another step. -/
theorem stepped_server {l : Backend.Label} (h : step cfg σ (.server b l) = some σ') :
    Stepped cfg σ (.server b l) σ' := by
  obtain ⟨hr, σ₁, τ, hread, hs, rfl⟩ := server_cases h
  obtain ⟨-, hrun, mq, ctl, hσ₁, hmq⟩ := read_cases hread
  by_cases hl : ∃ t, l = .run t
  · rw [hrun hl]
    obtain ⟨t, rfl⟩ := hl
    obtain ⟨a, rest, τ, new, hcode, hex, rfl⟩ := Backend.exec_of_step hs
    have hfirst : firstAct (σ.view b) (.run t) = some a := firstAct_run hcode
    rw [hfirst]
    exact .run hcode hex
  · have hl : ∀ t, l ≠ .run t := fun t ht => hl ⟨t, ht⟩
    have hfirst : firstAct (σ.view b) l = none := by
      unfold firstAct
      split
      · exact absurd rfl (hl _)
      · rfl
    have hput : σ₁.put b τ none =
        { σ with servers := Function.update σ.servers b τ, mqChannel := mq, ctlChannel := ctl } := by
      rw [State.put, Backend.redis_of_not_run hs hl hr, hσ₁]
      simp [xadd, State.view]
    rw [hfirst, Option.bind_none, hput]
    exact .other hl hs hmq

/-- **Everything a step can do is listed.** -/
theorem step_cases (h : step cfg σ l = some σ') : Stepped cfg σ l σ' := by
  cases l with
  | server b l => exact stepped_server h
  | userLoginAttempt r uid =>
    simp only [step] at h
    split at h
    · next hreq =>
      cases h
      unfold userLoginAttempt
      split
      · next hnone => exact .created hreq hnone
      · next old hold =>
        refine .attempted hreq fun u hu => ?_
        -- only an empty answer lets the request go on
        split at hu
        · next hempty =>
          cases hu
          exact ⟨rfl, hempty ▸ hold⟩
        · split at hu <;> cases hu
    · cases h
  | registerUserToken r token =>
    simp only [step] at h
    split at h
    · next uid hreq =>
      cases h
      exact .registered hreq
    · cases h
  | sendServerKickCmd r =>
    simp only [step] at h
    split at h
    · cases h
      exact .kicked
    · cases h
  | expireStatus uid => cases h; exact .expired
  | expireToken token => cases h; exact .tokenExpired
  | recvFromMsgQueue b =>
    obtain ⟨-, rfl⟩ := of_guard h
    exact .received (mem_of_update (x := .fetches recvCount) trivial rfl)
  | recvTimeout b =>
    obtain ⟨-, rfl⟩ := of_guard h
    exact .timedOut (mem_of_update (x := .misses recvCount) trivial rfl)
  | trimQueue sid n =>
    cases h
    exact .trimQueue (mem_of_update (x := .trims n) trivial rfl)
  | trimCtl sid n => cases h; exact .trimCtl

/-! ## A backend in the cluster

The backends meet in Redis only. For one of them the steps of all others are changes of Redis, which
its own
machine allows at any time. -/

/-- To see Redis as it is now is a step of a backend. -/
theorem view_of_reach {ok : Backend.State → Backend.Label → Prop} (hok : ∀ τ r, ok τ (.redis r))
    (h : Reach (Backend.step (cfg.backend b)) ok Backend.init (σ.servers b))
    (hfault : (σ.view b).fault = none) :
    Reach (Backend.step (cfg.backend b)) ok Backend.init (σ.view b) :=
  h.tail (hok _ σ.redis) (if_pos hfault)

/-- **What happens to a backend in the cluster happens in a run of the backend alone**, for which the
others are changes of Redis. So all that is known of one backend holds of each. -/
theorem server_of_reach {ok : State → Label → Prop} (h : Reach (step cfg) ok init σ) (b : ServerId) :
    Reach (Backend.step (cfg.backend b)) anyStep Backend.init (σ.servers b) := by
  induction h with
  | refl => exact .refl
  | @tail σ σ' l _ _ hs ih =>
    cases l with
    | server b' l =>
      obtain ⟨-, σ₁, τ, hread, hτ, rfl⟩ := server_cases hs
      obtain ⟨-, -, mq, ctl, rfl, -⟩ := read_cases hread
      show Reach _ _ _ (Function.update σ.servers b' τ b)
      rcases eq_or_ne b b' with rfl | hne
      · rw [Function.update_self]
        exact (view_of_reach (fun _ _ => trivial) ih (Backend.fault_of_step hτ)).tail trivial hτ
      · rwa [Function.update_of_ne hne]
    | _ => cases step_cases hs <;> exact ih

/-! ## The entries and their times

Here the entries have no times, and expire whenever they do. In `OnlineStatus` they have; the lemmas
say that the
operations there and the steps here do the same to what can be seen. -/

/-- What Redis holds of the entries is what can be seen of them at the time. -/
def Shows (τ : OnlineStatus.State) (redis : Redis) : Prop :=
  redis.location = OnlineStatus.getUserLocation τ

variable {τ : OnlineStatus.State} {t : Tid} {β β' : Backend.State} {new : List Act} {uid : Uid}

/-- The script of the gateway. -/
theorem Shows.login (h : Shows τ σ.redis) (r : ReqId) :
    Shows (τ.login uid) (userLoginAttempt σ r uid).redis := by
  unfold Shows at h ⊢
  rw [OnlineStatus.getUserLocation_login, ← h]
  unfold userLoginAttempt
  split
  · next hnone => rw [hnone]; rfl
  · next old hold =>
    rw [hold, Option.getD_some, ← hold, Function.update_eq_self]
    rfl

/-- `UpdateUserStatus` of a backend. -/
theorem Shows.arrive (h : Shows τ β.redis)
    (hex : Backend.exec (cfg.backend b) t β (.updateUserStatus uid) = some (β', new)) :
    Shows (τ.arrive b uid) β'.redis := by
  cases hex
  unfold Shows at h ⊢
  rw [OnlineStatus.getUserLocation_arrive, ← h]
  rfl

/-- The pipeline of an upload. -/
theorem Shows.upload (h : Shows τ β.redis)
    (hex : Backend.exec (cfg.backend b) t β (.uploadExec (τ.uploader b).removalSess) =
      some (β', new)) : Shows (τ.upload b) β'.redis := by
  cases hex
  unfold Shows at h ⊢
  rw [OnlineStatus.getUserLocation_upload, ← h]

/-- What the time does to one entry is nothing, or `expireStatus`. -/
theorem Shows.tick (h : Shows τ σ.redis) (d : ℕ) :
    OnlineStatus.getUserLocation { τ with now := τ.now + d } uid = σ.redis.location uid ∨
      ∃ σ', step cfg σ (.expireStatus uid) = some σ' ∧
        OnlineStatus.getUserLocation { τ with now := τ.now + d } uid = σ'.redis.location uid := by
  rcases OnlineStatus.getUserLocation_tick (d := d) with hsame | hnone
  · exact .inl (hsame.trans (congrFun h uid).symm)
  · refine .inr ⟨_, rfl, hnone.trans ?_⟩
    exact (Function.update_self uid none σ.redis.location).symm

/-! ## Pieces of runs

For the runs on which the modules that follow try out their results: user 7 and user 8. -/

open Backend (accepting receiving waking taking verifyText verifyFrame received)

/-- The text of a `VERIFY` for user 8, with the token `u`, and of a second one for user 7, with the
token `v`. -/
def verifyText8 : List UInt8 := "\x7b\"token\":\"u\",\"uid\":8\x7d".toUTF8.data.toList
def verifyTextAgain : List UInt8 := "\x7b\"token\":\"v\",\"uid\":7\x7d".toUTF8.data.toList

def verifyFrame8 : MsgNode := received [] ⟨TagType.verify.val, verifyText8⟩
def verifyFrameAgain : MsgNode := received [] ⟨TagType.verify.val, verifyTextAgain⟩

/-- User 7 writes `hi` to user 8. -/
def hiFrame8 : MsgNode := received [] ⟨TagType.chatMsg.val, [0, 0, 0, 0, 0, 0, 0, 8, 104, 105]⟩

def exampleConfig : Config where
  host := fun _ => .little
  json := fun text =>
    if text = verifyText then .fields [116] 7
    else if text = verifyText8 then .fields [117] 8
    else if text = verifyTextAgain then .fields [118] 7
    else .invalid

def onServer (b : ServerId) (ls : List Backend.Label) : List Label := ls.map (.server b)

/-- The gateway logs a user in and makes a token. -/
def loggingIn (r : ReqId) (uid : Uid) (token : List UInt8) : List Label :=
  [.userLoginAttempt r uid, .registerUserToken r token]

/-- The backend comes up, and the worker waits for events. -/
def starting (b : ServerId) : List Label := onServer b [.run Backend.worker, .workerLoop]

/-- The backend accepts session `s`, verifies it, and waits again. -/
def verifying (b : ServerId) (s : Backend.SessId) (verify : MsgNode) : List Label :=
  onServer b (accepting s ++ receiving 2 s verify ++ waking 22 ++ [.workerLoop])

end Chatroom.Cluster
