import Chatroom.Cluster.Tokens
import Chatroom.Http.ReqHandler
import Chatroom.Utils.SnowflakeId

/-!
# The gateway in the cluster

The gateway with its database, over the cluster of `Cluster.State`. A request goes from stage to stage
as it gets replies, one for each call to MySQL, the status server, Redis, the random number generator
and the clock. Between two stages the other requests, the backends and the expiry of keys go on; `pool_`
runs any number of requests side by side. Where `LoginLogic` gives Redis a command, the cluster takes
the step of that command.

A reply may be an error. One of Redis is an exception that nobody catches, as are those of
`Security::Verify` and of `Json::Reader::parse`, and `RAND_bytes` is called in an `assert`: the gateway
ends, and the backends live on. An `INSERT` that reports an error may have been carried out, as when the
connection breaks after the commit.

Whether the column `username` distinguishes upper and lower case is not in the repository, so the
collation is a parameter: two names are the same if it makes the same of them. The database may list
rows with the same name in any order.
-/

namespace Chatroom.Gateway

open Trace
open Cluster (ReqId)
open Register (GatewayCode)
open Security (Bytes)

/-- A row of `tbl_user`; the names are byte strings. -/
structure Account where
  uid : UInt64
  username : List UInt8
  passcode : List UInt8
  deriving DecidableEq, Repr

structure Config where
  cluster : Cluster.Config
  kdf : Security.Pbkdf2
  collate : List UInt8 → List UInt8
  parse : List UInt8 → Credentials
  evpEncodeBlock : List UInt8 → List UInt8

/-! ## The database

The statements of `DBM` on one table. `VerifyUserInfo` reads the first row that the database lists for
a name,
and `RegisterNew` counts the rows first and inserts in a second statement; nothing joins the two. -/

/-- A call of `DBM`: there is no connection, the statement fails, it is executed. -/
inductive Outcome where
  | noConn
  | error
  | answer
  deriving DecidableEq, Repr

/-- The rows `WHERE username = ?`. -/
def matching (cfg : Config) (rows : List Account) (username : List UInt8) : List Account :=
  rows.filter fun acc => cfg.collate acc.username = cfg.collate username

/-- `DBM::VerifyUserInfo`, with the row it has found right. The row at position `first` is listed first;
there is no result if there is no such row. -/
def verifyUserInfo (cfg : Config) (rows : List Account) (username passcode : List UInt8)
    (outcome : Outcome) (first : ℕ) : Option (Except Security.Thrown (GatewayCode × Option Account)) :=
  match outcome with
  | .noConn => some (.ok (.unknownError, none))
  | .error => some (.ok (.mysqlServerError, none))
  | .answer =>
    if matching cfg rows username = [] then some (.ok (.userNotExist, none))
    else (matching cfg rows username)[first]?.map fun acc => do
      let same ← Security.verify cfg.kdf passcode acc.passcode
      return if same then (.success, some acc) else (.verifyFailed, none)

/-- The first statement of `DBM::RegisterNew`. -/
def countReturned (cfg : Config) (rows : List Account) (req : HttpRequest)
    (username passcode : List UInt8) (uid : UInt64) : Outcome → Stage
  | .noConn => registerReturned req .unknownError
  | .error => registerReturned req .mysqlServerError
  | .answer =>
    if matching cfg rows username = [] then .salt username passcode uid
    else registerReturned req .regAlreadyExist

/-- What becomes of the `INSERT`: it is carried out, it fails, or it is carried out and an error is
reported nevertheless. -/
inductive Insertion where
  | done
  | failed
  | unanswered
  deriving DecidableEq, Repr

def Insertion.stored : Insertion → Bool
  | .done | .unanswered => true
  | .failed => false

def Insertion.code : Insertion → GatewayCode
  | .done => .success
  | .failed | .unanswered => .mysqlServerError

/-! ## The machine

A request is its stage, which says what it waits for. `handle` gives for a stage and a reply what the
code
between this reply and the next call does. Pairs that do not fit have no step. -/

/-- The commands of `LoginLogic` to Redis. -/
inductive Command where
  | userInfo (uid : UInt64) (username : List UInt8) (lastLogin : UInt64)
  | attempt (uid : UInt64)
  | token (token : List UInt8) (uid : UInt64)
  | kick (oldServer : List UInt8) (uid : UInt64)
  deriving DecidableEq, Repr

/-- What the history records. -/
inductive Event where
  | began (r : ReqId) (req : HttpRequest)
  /-- `VerifyUserInfo` has found the password right for the account. -/
  | verified (r : ReqId) (username passcode : List UInt8) (acc : Account)
  | command (r : ReqId) (cmd : Command)
  | generated (r : ReqId) (uid : UInt64)
  /-- `RegisterNew` has inserted the account. -/
  | registered (r : ReqId) (username passcode : List UInt8) (acc : Account)
  | answered (r : ReqId) (resp : Response)
  deriving DecidableEq, Repr

structure State where
  cluster : Cluster.State
  rows : List Account
  gen : UIDGenerator
  requests : ReqId → Option (HttpRequest × Stage)
  terminated : Bool
  log : List Event

namespace State

def record (σ : State) (e : Event) : State := { σ with log := σ.log ++ [e] }

/-- The request goes on to a stage; the last one is the answer. -/
def goes (σ : State) (r : ReqId) (req : HttpRequest) (st : Stage) : State :=
  { σ with
    requests := Function.update σ.requests r (some (req, st))
    log := σ.log ++ match st with
      | .done resp => [.answered r resp]
      | _ => [] }

end State

/-- What a request gets next. -/
inductive Reply where
  | db (outcome : Outcome) (first : ℕ)
  | inserted (x : Insertion)
  | rpc (addr : Option (List UInt8))
  | redis
  | redisError
  /-- `RAND_bytes` for a token. -/
  | random (bytes : Bytes 24)
  /-- `RAND_bytes` for a salt, and what the array for the key holds before it is written. -/
  | salt (salt : Bytes 16) (key : Bytes 64)
  | randomError
  /-- The clock of the generator, and that of `UpdateUserInfo`. -/
  | clock (readings : List UInt64)
  | timestamp (now : UInt64)

/-- The replies that end the gateway. -/
def Reply.fatal : Reply → Bool
  | .redisError | .randomError => true
  | _ => false

def Stage.isDone : Stage → Bool
  | .done _ => true
  | _ => false

def Stage.asksRedis : Stage → Bool
  | .info _ _ _ _ | .attempt _ _ | .token _ _ _ | .kick _ _ => true
  | _ => false

def Stage.drawsRandom : Stage → Bool
  | .draw _ _ | .salt _ _ _ => true
  | _ => false

/-- The account that `RegisterNew` inserts. -/
def newAccount (cfg : Config) (username passcode : List UInt8) (uid : UInt64) (salt : Bytes 16)
    (key : Bytes 64) : Account where
  uid := uid
  username := username
  passcode := Security.hashPassword cfg.kdf salt key passcode Security.defaultIter

/-- A request at a stage gets a reply. -/
def handle (cfg : Config) (σ : State) (r : ReqId) (req : HttpRequest) : Stage → Reply → Option State
  | .verify username passcode, .db outcome first =>
    (verifyUserInfo cfg σ.rows username passcode outcome first).map fun
      | .error _ => { σ with terminated := true }
      | .ok (code, none) => σ.goes r req (verifyReturned req username 0 code)
      | .ok (code, some acc) =>
        (σ.record (.verified r username passcode acc)).goes r req
          (verifyReturned req username acc.uid code)
  | .route uid username, .rpc reply => some (σ.goes r req (routeReturned req uid username reply))
  | .stamp uid username addr, .timestamp now => some (σ.goes r req (.info uid username now addr))
  -- a failure of `UpdateUserInfo` is only logged
  | .info uid username lastLogin addr, .redis =>
    some ((σ.record (.command r (.userInfo uid username lastLogin))).goes r req (.attempt uid addr))
  | .attempt uid addr, .redis =>
    (Cluster.step cfg.cluster σ.cluster (.userLoginAttempt r uid)).map fun cluster =>
      ({ σ with cluster := cluster }.record (.command r (.attempt uid))).goes r req
        (attemptReturned req uid addr ((σ.cluster.redis.location uid).getD []))
  | .draw uid addr, .random bytes =>
    some (σ.goes r req (.token (tokenGenerator cfg.evpEncodeBlock bytes) uid addr))
  | .token token uid addr, .redis =>
    (Cluster.step cfg.cluster σ.cluster (.registerUserToken r token)).map fun cluster =>
      ({ σ with cluster := cluster }.record (.command r (.token token uid))).goes r req
        (.done (loginResponse req token addr uid))
  | .kick oldServer uid, .redis =>
    (Cluster.step cfg.cluster σ.cluster (.sendServerKickCmd r)).map fun cluster =>
      ({ σ with cluster := cluster }.record (.command r (.kick oldServer uid))).goes r req
        (.done (retryResponse req))
  | .generate username passcode, .clock readings =>
    match σ.gen.generate readings with
    | some ((uid, gen), []) =>
      some (({ σ with gen := gen }.record (.generated r uid)).goes r req (.count username passcode uid))
    | _ => none
  | .count username passcode uid, .db outcome _ =>
    some (σ.goes r req (countReturned cfg σ.rows req username passcode uid outcome))
  | .salt username passcode uid, .salt salt key =>
    some (σ.goes r req (.insert username passcode uid
      (newAccount cfg username passcode uid salt key).passcode))
  | .insert username passcode uid codeHash, .inserted x =>
    let acc : Account := ⟨uid, username, codeHash⟩
    if x.stored then
      some (({ σ with rows := σ.rows ++ [acc] }.record (.registered r username passcode acc)).goes r
        req (registerReturned req x.code))
    else some (σ.goes r req (registerReturned req x.code))
  | st, .redisError => if st.asksRedis then some { σ with terminated := true } else none
  | st, .randomError => if st.drawsRandom then some { σ with terminated := true } else none
  | _, _ => none

inductive Label where
  | request (r : ReqId) (req : HttpRequest)
  | reply (r : ReqId) (x : Reply)
  | cluster (l : Cluster.Label)

/-- The steps of the cluster that the gateway takes itself. -/
def ofGateway : Cluster.Label → Bool
  | .userLoginAttempt _ _ | .registerUserToken _ _ | .sendServerKickCmd _ => true
  | _ => false

def step (cfg : Config) (σ : State) : Label → Option State
  | .request r req =>
    if σ.terminated = false ∧ σ.requests r = none then
      match requestHandler cfg.parse req with
      | some st => some ((σ.record (.began r req)).goes r req st)
      | none => some { σ with terminated := true }
    else none
  | .reply r x =>
    if σ.terminated = false then
      (σ.requests r).bind fun (req, st) => handle cfg σ r req st x
    else none
  | .cluster l =>
    if ofGateway l = false then
      (Cluster.step cfg.cluster σ.cluster l).map fun cluster => { σ with cluster := cluster }
    else none

def init (rows : List Account) (workerId : UInt16) : State where
  cluster := Cluster.init
  rows := rows
  gen := UIDGenerator.new workerId
  requests := fun _ => none
  terminated := false
  log := []

/-! ## What a step can do

`Handled` lists the replies by what they do to the state, not by stage: all that end in an answer of
refusal
are one case. Every invariant of the gateway is proved by cases on it. -/

/-- A request gets a reply: it is answered with an error, it goes on, or the gateway ends. -/
inductive Handled (cfg : Config) (σ : State) (r : ReqId) (req : HttpRequest) :
    Stage → Reply → State → Prop
  | refused {st x resp} : x.fatal = false → resp.refuses = true →
      Handled cfg σ r req st x (σ.goes r req (.done resp))
  | verified {username passcode acc first} : acc ∈ matching cfg σ.rows username →
      Security.verify cfg.kdf passcode acc.passcode = .ok true →
      Handled cfg σ r req (.verify username passcode) (.db .answer first)
        ((σ.record (.verified r username passcode acc)).goes r req (.route acc.uid username))
  | threw {username passcode acc first e} : acc ∈ σ.rows →
      Security.verify cfg.kdf passcode acc.passcode = .error e →
      Handled cfg σ r req (.verify username passcode) (.db .answer first)
        { σ with terminated := true }
  | routed {uid username addr} : Handled cfg σ r req (.route uid username) (.rpc (some addr))
      (σ.goes r req (.stamp uid username addr))
  | stamped {uid username addr now} : Handled cfg σ r req (.stamp uid username addr) (.timestamp now)
      (σ.goes r req (.info uid username now addr))
  | info {uid username lastLogin addr} : Handled cfg σ r req (.info uid username lastLogin addr) .redis
      ((σ.record (.command r (.userInfo uid username lastLogin))).goes r req (.attempt uid addr))
  | attempt {uid addr cluster} :
      Cluster.step cfg.cluster σ.cluster (.userLoginAttempt r uid) = some cluster →
      Handled cfg σ r req (.attempt uid addr) .redis
        ((State.record { σ with cluster := cluster } (.command r (.attempt uid))).goes r req
          (attemptReturned req uid addr ((σ.cluster.redis.location uid).getD [])))
  | drawn {uid addr bytes} : Handled cfg σ r req (.draw uid addr) (.random bytes)
      (σ.goes r req (.token (tokenGenerator cfg.evpEncodeBlock bytes) uid addr))
  | token {token uid addr cluster} :
      Cluster.step cfg.cluster σ.cluster (.registerUserToken r token) = some cluster →
      Handled cfg σ r req (.token token uid addr) .redis
        ((State.record { σ with cluster := cluster } (.command r (.token token uid))).goes r req
          (.done (loginResponse req token addr uid)))
  | kick {oldServer uid cluster} :
      Cluster.step cfg.cluster σ.cluster (.sendServerKickCmd r) = some cluster →
      Handled cfg σ r req (.kick oldServer uid) .redis
        ((State.record { σ with cluster := cluster } (.command r (.kick oldServer uid))).goes r req
          (.done (retryResponse req)))
  | generated {username passcode uid gen readings} :
      σ.gen.generate readings = some ((uid, gen), []) →
      Handled cfg σ r req (.generate username passcode) (.clock readings)
        ((State.record { σ with gen := gen } (.generated r uid)).goes r req
          (.count username passcode uid))
  | counted {username passcode uid first} : matching cfg σ.rows username = [] →
      Handled cfg σ r req (.count username passcode uid) (.db .answer first)
        (σ.goes r req (.salt username passcode uid))
  | salted {username passcode uid salt key} :
      Handled cfg σ r req (.salt username passcode uid) (.salt salt key)
        (σ.goes r req (.insert username passcode uid
          (newAccount cfg username passcode uid salt key).passcode))
  | inserted {username passcode uid codeHash x} : x.stored = true →
      Handled cfg σ r req (.insert username passcode uid codeHash) (.inserted x)
        ((State.record { σ with rows := σ.rows ++ [⟨uid, username, codeHash⟩] }
          (.registered r username passcode ⟨uid, username, codeHash⟩)).goes r req
            (registerReturned req x.code))
  | lost {st} : st.asksRedis = true →
      Handled cfg σ r req st .redisError { σ with terminated := true }
  | aborted {st} : st.drawsRandom = true →
      Handled cfg σ r req st .randomError { σ with terminated := true }

inductive Stepped (cfg : Config) (σ : State) : Label → State → Prop
  | request {r req st} : σ.requests r = none → requestHandler cfg.parse req = some st →
      Stepped cfg σ (.request r req) ((σ.record (.began r req)).goes r req st)
  | unread {r req} : requestHandler cfg.parse req = none →
      Stepped cfg σ (.request r req) { σ with terminated := true }
  | reply {r x req st σ'} : σ.requests r = some (req, st) → st.isDone = false →
      Handled cfg σ r req st x σ' → Stepped cfg σ (.reply r x) σ'
  | cluster {l cluster} : ofGateway l = false →
      Cluster.step cfg.cluster σ.cluster l = some cluster →
      Stepped cfg σ (.cluster l) { σ with cluster := cluster }

variable {cfg : Config} {σ σ' : State} {l : Label} {r : ReqId} {req : HttpRequest} {st : Stage}
  {x : Reply}

/-- What `VerifyUserInfo` can return. -/
theorem verifyUserInfo_cases {rows : List Account} {username passcode : List UInt8}
    {outcome : Outcome} {first : ℕ} {res : Except Security.Thrown (GatewayCode × Option Account)}
    (h : verifyUserInfo cfg rows username passcode outcome first = some res) :
    (∃ acc ∈ matching cfg rows username, Security.verify cfg.kdf passcode acc.passcode = .ok true ∧
        res = .ok (.success, some acc)) ∨
      (∃ acc ∈ matching cfg rows username, ∃ e,
        Security.verify cfg.kdf passcode acc.passcode = .error e ∧ res = .error e) ∨
      ∃ code, code ≠ .success ∧ res = .ok (code, none) := by
  unfold verifyUserInfo at h
  cases outcome with
  | noConn => cases h; exact .inr (.inr ⟨_, by decide, rfl⟩)
  | error => cases h; exact .inr (.inr ⟨_, by decide, rfl⟩)
  | answer =>
    dsimp only at h
    split at h
    · cases h
      exact .inr (.inr ⟨_, by decide, rfl⟩)
    · obtain ⟨acc, hacc, rfl⟩ := Option.map_eq_some_iff.mp h
      have hmem := List.mem_of_getElem? hacc
      cases hverify : Security.verify cfg.kdf passcode acc.passcode with
      | error e => exact .inr (.inl ⟨acc, hmem, e, hverify, rfl⟩)
      | ok same =>
        cases same with
        | true => exact .inl ⟨acc, hmem, hverify, rfl⟩
        | false => exact .inr (.inr ⟨_, by decide, rfl⟩)

/-- Any other code than success is answered with a refusal. -/
theorem verifyReturned_of_ne {username : List UInt8} {uid : UInt64} {code : GatewayCode}
    (h : code ≠ .success) :
    ∃ resp, resp.refuses = true ∧ verifyReturned req username uid code = .done resp := by
  cases code with
  | success => exact absurd rfl h
  | userNotExist | verifyFailed | regAlreadyExist | regUidAlreadyExist | unknownError
  | connectionError | mysqlServerError => exact ⟨_, rfl, rfl⟩

theorem mem_of_mem_matching {rows : List Account} {username : List UInt8} {acc : Account}
    (h : acc ∈ matching cfg rows username) :
    acc ∈ rows ∧ cfg.collate acc.username = cfg.collate username := by
  obtain ⟨hrows, hname⟩ := List.mem_filter.mp h
  exact ⟨hrows, of_decide_eq_true hname⟩

/-- The row listed first decides. -/
theorem handled_verify {username passcode : List UInt8} {outcome : Outcome} {first : ℕ}
    (h : handle cfg σ r req (.verify username passcode) (.db outcome first) = some σ') :
    Handled cfg σ r req (.verify username passcode) (.db outcome first) σ' := by
  obtain ⟨res, hres, rfl⟩ := Option.map_eq_some_iff.mp h
  rcases verifyUserInfo_cases hres with ⟨acc, hacc, hverify, rfl⟩ | ⟨acc, hacc, e, hverify, rfl⟩ |
    ⟨code, hcode, rfl⟩
  · cases outcome with
    | answer => exact .verified hacc hverify
    | noConn | error => cases hres
  · cases outcome with
    | answer => exact .threw (mem_of_mem_matching hacc).1 hverify
    | noConn | error => cases hres
  · obtain ⟨resp, hrefuses, hresp⟩ : ∃ resp, resp.refuses = true ∧
        verifyReturned req username 0 code = .done resp := verifyReturned_of_ne hcode
    dsimp only
    rw [hresp]
    exact .refused rfl hrefuses

/-- A name that is taken is answered with a refusal, as errors are. -/
theorem handled_count {username passcode : List UInt8} {uid : UInt64} (outcome : Outcome) (first : ℕ) :
    Handled cfg σ r req (.count username passcode uid) (.db outcome first)
      (σ.goes r req (countReturned cfg σ.rows req username passcode uid outcome)) := by
  cases outcome with
  | noConn | error => exact .refused rfl rfl
  | answer =>
    unfold countReturned
    dsimp only
    split
    · next hnone => exact .counted hnone
    · exact .refused rfl rfl

/-- A failed `INSERT` is answered with an error, also one that was carried out. -/
theorem handled_insert {username passcode codeHash : List UInt8} {uid : UInt64} {x : Insertion}
    (h : handle cfg σ r req (.insert username passcode uid codeHash) (.inserted x) = some σ') :
    Handled cfg σ r req (.insert username passcode uid codeHash) (.inserted x) σ' := by
  cases x with
  | done => cases h; exact .inserted rfl
  | unanswered => cases h; exact .inserted rfl
  | failed => cases h; exact .refused rfl rfl

theorem handled_lost (h : handle cfg σ r req st .redisError = some σ') :
    Handled cfg σ r req st .redisError σ' := by
  have hguard : (if st.asksRedis then some { σ with terminated := true } else none) = some σ' := by
    cases st <;> exact h
  obtain ⟨hasks, rfl⟩ := of_guard hguard
  exact .lost hasks

theorem handled_aborted (h : handle cfg σ r req st .randomError = some σ') :
    Handled cfg σ r req st .randomError σ' := by
  have hguard : (if st.drawsRandom then some { σ with terminated := true } else none) = some σ' := by
    cases st <;> exact h
  obtain ⟨hdraws, rfl⟩ := of_guard hguard
  exact .aborted hdraws

/-- **Everything a reply can do is listed.** -/
theorem handled_cases (h : handle cfg σ r req st x = some σ') : Handled cfg σ r req st x σ' := by
  -- a reply fits few stages; at all others `handle` has no result
  cases x with
  | redisError => exact handled_lost h
  | randomError => exact handled_aborted h
  | db outcome first =>
    cases st with
    | verify => exact handled_verify h
    | count =>
      cases h
      exact handled_count outcome first
    | _ => cases h
  | inserted x =>
    cases st with
    | insert => exact handled_insert h
    | _ => cases h
  | salt salt key =>
    cases st with
    | salt => cases h; exact .salted
    | _ => cases h
  | timestamp now =>
    cases st with
    | stamp => cases h; exact .stamped
    | _ => cases h
  | rpc reply =>
    cases st with
    | route =>
      cases h
      cases reply with
      | none => exact .refused rfl rfl
      | some addr => exact .routed
    | _ => cases h
  | redis =>
    cases st with
    | info => cases h; exact .info
    | attempt uid addr =>
      obtain ⟨cluster, hcluster, rfl⟩ := Option.map_eq_some_iff.mp h
      exact .attempt hcluster
    | token =>
      obtain ⟨cluster, hcluster, rfl⟩ := Option.map_eq_some_iff.mp h
      exact .token hcluster
    | kick =>
      obtain ⟨cluster, hcluster, rfl⟩ := Option.map_eq_some_iff.mp h
      exact .kick hcluster
    | _ => cases h
  | random bytes =>
    cases st with
    | draw => cases h; exact .drawn
    | _ => cases h
  | clock readings =>
    cases st with
    | generate =>
      simp only [handle] at h
      split at h
      · next hgen => cases h; exact .generated hgen
      · cases h
    | _ => cases h

/-- An answered request gets no more replies. -/
theorem isDone_of_handle (h : handle cfg σ r req st x = some σ') : st.isDone = false := by
  cases st with
  | done resp => cases x <;> cases h
  | _ => rfl

/-- Everything that can happen, the requests and the cluster included. -/
theorem step_cases (h : step cfg σ l = some σ') : Stepped cfg σ l σ' := by
  cases l with
  | request r req =>
    simp only [step] at h
    split at h
    · next hguard =>
      split at h
      · next st hst => cases h; exact .request hguard.2 hst
      · next hst => cases h; exact .unread hst
    · cases h
  | reply r x =>
    simp only [step] at h
    split at h
    · obtain ⟨⟨req, st⟩, hreq, hhandle⟩ := Option.bind_eq_some_iff.mp h
      exact .reply hreq (isDone_of_handle hhandle) (handled_cases hhandle)
    · cases h
  | cluster l =>
    simp only [step] at h
    split at h
    · next hl =>
      obtain ⟨cluster, hcluster, rfl⟩ := Option.map_eq_some_iff.mp h
      exact .cluster hl hcluster
    · cases h

/-! ## The parts of a step

What the modules about the gateway need of a step: what the cluster does in it, and that the history
and the
table grow. -/

/-- A gateway that has ended does nothing. -/
theorem live_of_step (h : step cfg σ l = some σ') (hl : ∀ cl, l ≠ .cluster cl) :
    σ.terminated = false := by
  cases l with
  | request r req => exact (Option.ite_none_right_eq_some.mp h).1.1
  | reply r x => exact (Option.ite_none_right_eq_some.mp h).1
  | cluster cl => exact absurd rfl (hl cl)

/-- The cluster stands still or takes a step of its own, and the script runs only for a request that is
there. -/
theorem Stepped.cluster_cases (h : Stepped cfg σ l σ') : σ'.cluster = σ.cluster ∨
    ∃ cl, Cluster.step cfg.cluster σ.cluster cl = some σ'.cluster ∧
      ∀ r uid, cl = .userLoginAttempt r uid → ∃ req addr, σ.requests r = some (req, .attempt uid addr) := by
  cases h with
  | request | unread => exact .inl rfl
  | @cluster cl cluster hl hcluster =>
    refine .inr ⟨cl, hcluster, fun r uid hcl => ?_⟩
    rw [hcl] at hl
    cases hl
  | reply hreq _ hh =>
    cases hh with
    | attempt hcluster =>
      refine .inr ⟨_, hcluster, fun r uid hcl => ?_⟩
      cases hcl
      exact ⟨_, _, hreq⟩
    | token hcluster | kick hcluster => exact .inr ⟨_, hcluster, fun r uid hcl => by cases hcl⟩
    | _ => exact .inl rfl

/-- What a stage adds to the history. -/
def answer (r : ReqId) : Stage → List Event
  | .done resp => [.answered r resp]
  | _ => []

theorem goes_log (σ : State) (r : ReqId) (req : HttpRequest) (st : Stage) :
    (σ.goes r req st).log = σ.log ++ answer r st := by
  cases st <;> rfl

theorem mem_answer {e : Event} (h : e ∈ answer r st) : ∃ resp, st = .done resp ∧ e = .answered r resp := by
  cases st with
  | done resp => exact ⟨resp, rfl, List.mem_singleton.mp h⟩
  | _ => cases h

/-- An event after a request went on is an old one, or its answer. -/
theorem mem_goes {e : Event} (h : e ∈ (σ.goes r req st).log) :
    e ∈ σ.log ∨ ∃ resp, e = .answered r resp := by
  rw [goes_log, List.mem_append] at h
  rcases h with hold | hnew
  · exact .inl hold
  · obtain ⟨resp, -, he⟩ := mem_answer hnew
    exact .inr ⟨resp, he⟩

theorem mem_record_goes {e e' : Event} (h : e ∈ ((σ.record e').goes r req st).log) :
    e ∈ σ.log ∨ e = e' ∨ ∃ resp, e = .answered r resp := by
  rcases mem_goes h with hmem | hanswer
  · rcases List.mem_append.mp hmem with hold | hnew
    · exact .inl hold
    · exact .inr (.inl (List.mem_singleton.mp hnew))
  · exact .inr (.inr hanswer)

theorem log_goes (σ : State) (r : ReqId) (req : HttpRequest) (st : Stage) :
    σ.log ⊆ (σ.goes r req st).log := by
  rw [goes_log]
  exact List.subset_append_left _ _

theorem log_record (σ : State) (e : Event) : σ.log ⊆ (σ.record e).log := List.subset_append_left _ _

/-- Nothing is taken out of the history or out of the table. -/
theorem Stepped.grows (h : Stepped cfg σ l σ') : σ.log ⊆ σ'.log ∧ σ.rows ⊆ σ'.rows := by
  have hboth : ∀ {σ₁ : State} {e : Event} {r : ReqId} {req : HttpRequest} {st : Stage},
      σ₁.log = σ.log → σ.log ⊆ ((σ₁.record e).goes r req st).log := by
    intro σ₁ e r req st hlog
    exact List.Subset.trans (hlog ▸ log_record σ₁ e) (log_goes _ r req st)
  cases h with
  | request => exact ⟨hboth rfl, List.Subset.refl _⟩
  | cluster | unread => exact ⟨List.Subset.refl _, List.Subset.refl _⟩
  | reply _ _ hh =>
    cases hh with
    | refused | routed | stamped | drawn | counted | salted => exact ⟨log_goes .., List.Subset.refl _⟩
    | threw | lost | aborted => exact ⟨List.Subset.refl _, List.Subset.refl _⟩
    | verified | info | attempt | token | kick | generated => exact ⟨hboth rfl, List.Subset.refl _⟩
    | inserted => exact ⟨hboth rfl, List.subset_append_left _ _⟩

/-! ## Pieces of runs -/

/-- What `Json::FastWriter` makes of the name `u` and the password `p`, and of the `VERIFY` of user 7 with
the token of zeros. -/
def loginText : List UInt8 :=
  "\x7b\"passcode\":\"p\",\"username\":\"u\"\x7d\n".toUTF8.data.toList
def verifyText : List UInt8 :=
  "\x7b\"token\":\"AAAAAAAAAAAAAAAAAAAAAAAAAAAAAAAA\",\"uid\":7\x7d\n".toUTF8.data.toList

def verifyFrame : MsgNode := Backend.received [] ⟨TagType.verify.val, verifyText⟩

/-- A gateway and backends whose parsers know these texts. -/
def exampleConfig : Config where
  cluster := ⟨fun _ => .little, fun text =>
    if text = verifyText then .fields (List.replicate 32 65) 7 else .invalid⟩
  kdf := Security.firstByte
  collate := id
  parse := fun body => if body = loginText then .fields [117] [112] else .invalid
  evpEncodeBlock := base64

def exampleToken : List UInt8 := tokenGenerator base64 (Security.zeroes 24)

def exampleAccount : Account :=
  newAccount exampleConfig [117] [112] 7 (Security.zeroes 16) (Security.zeroes 64)

def exampleLogin : HttpRequest := ⟨.post, "/login", 11, true, loginText⟩

/-- What a login gets up to the script; then the user is told to wait, or gets a token. -/
def attempting : List Reply := [.db .answer 0, .rpc (some [49]), .timestamp 5, .redis, .redis]

/-- Request `r` is a login that gets all it asks for. -/
def loggingIn (r : ReqId) : List Label :=
  .request r exampleLogin :: (attempting ++ [Reply.random (Security.zeroes 24), .redis]).map (.reply r)

end Chatroom.Gateway
