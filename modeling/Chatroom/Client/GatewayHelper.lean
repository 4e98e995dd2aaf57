import Chatroom.Http.Courses

/-!
# The client at the gateway (`GatewayHelper`)

`Login` and `Register` of the client, while the gateway serves other clients and the backends go on. A
login that is answered with `409` is tried again, at most four times and after 1, 1, 2 and 3 seconds; in
the meantime the backend can let the other session of the user go. Every other answer is the last one.

A body of a response is the JSON value here that it stands for, as in `ReqHandler`: the client is taken
to read what the gateway has written. What the gateway reads out of a request is not assumed to be what
the client has written; the results are about the name and the password that it has read. The network
may fail whenever the client needs it, also because the gateway has ended; then `Login` or `Register`
throws.
-/

namespace Chatroom.GatewayHelper

open Trace
open Cluster (ReqId)
open Gateway (HttpRequest JsonValue Body Response Event Account Stepped Call Course OnCourse Shown
  keeps_of_step onCourse_of_reach keepsToken)

/-! ## The program

The loop of `Login` is unrolled over requests: one before the loop, and up to four in it, each after
its
sleep. Between any two steps of the client the gateway may take any steps, also for the client's own
request. -/

/-- A call of one of the two functions. -/
structure Job where
  call : Call
  username : List UInt8
  passcode : List UInt8
  deriving DecidableEq, Repr

/-- The gateway, and what `Json::FastWriter` makes of a name and a password. -/
structure Config where
  gateway : Gateway.Config
  write : List UInt8 → List UInt8 → List UInt8

def request (cfg : Config) (job : Job) : HttpRequest where
  method := .post
  target := job.call.target
  version := 11
  keepAlive := true
  body := cfg.write job.username job.passcode

def waitTime : List ℕ := [1, 1, 2, 3]

/-- The parameters that `Login` writes to. -/
structure Out where
  token : List UInt8
  serverAddr : List UInt8
  uid : UInt64
  deriving DecidableEq, Repr

/-- `asString`, of a field that may be missing. -/
def asString : Option JsonValue → List UInt8
  | none => []
  | some (.str s) => s.toUTF8.toList
  | some (.bytes bs) => bs
  | some (.num n) => toDecimal n

/-- `asUInt64`, of a field that may be missing; `none` if it throws. -/
def asUInt64 : Option JsonValue → Option UInt64
  | none => some 0
  | some (.num n) => if n < 2 ^ 64 then some (UInt64.ofNat n) else none
  | some (.str _) | some (.bytes _) => none

/-- What `Login` reads out of a response with `200`, and what it returns. The only text among them is
`pong`, which is no JSON. -/
def readAnswer (out : Out) : Body → Out × Bool
  | .text _ => (out, false)
  | .json fields =>
    let out := { out with
      token := asString (fields.lookup "token")
      serverAddr := asString (fields.lookup "server_addr") }
    match asUInt64 (fields.lookup "uid") with
    | some uid => ({ out with uid := uid }, true)
    | none => (out, false)

inductive Phase where
  | starts
  /-- A request is under way; `none` is the one before the loop. -/
  | asked (attempt : Option ℕ) (r : ReqId)
  | sleeps (attempt : ℕ)
  | returned (ret : Bool)
  | threw
  deriving DecidableEq, Repr

/-- The number of requests before this one. -/
def tries : Option ℕ → ℕ
  | none => 0
  | some attempt => attempt + 1

def loginReceived (attempt : Option ℕ) (resp : Response) (out : Out) : Phase × Out :=
  match resp.status with
  | .ok => (.returned (readAnswer out resp.body).2, (readAnswer out resp.body).1)
  | .conflict => (if tries attempt < 4 then .sleeps (tries attempt) else .returned false, out)
  | _ => (.returned false, out)

/-- A response has been read. -/
def received (call : Call) (attempt : Option ℕ) (resp : Response) (out : Out) : Phase × Out :=
  match call with
  | .login => loginReceived attempt resp out
  | .register => (.returned (resp.status = .ok), out)

structure State where
  gateway : Gateway.State
  phase : Phase
  out : Out
  /-- The requests that have been sent, and the seconds that have been waited. -/
  asked : List ReqId
  slept : ℕ

inductive Label where
  /-- The client connects and writes its request. -/
  | send (r : ReqId)
  | receive
  | fail
  | gateway (l : Gateway.Label)

/-- The next request, and how long the client sleeps before it. -/
def Phase.next : Phase → Option (Option ℕ × ℕ)
  | .starts => some (none, 0)
  | .sleeps attempt => some (some attempt, waitTime.getD attempt 0)
  | _ => none

/-- The answer to a request. -/
def answerTo (γ : Gateway.State) (r : ReqId) : Option Response :=
  match γ.requests r with
  | some (_, .done resp) => some resp
  | _ => none

def Phase.isOpen : Phase → Bool
  | .returned _ | .threw => false
  | _ => true

def step (cfg : Config) (job : Job) (σ : State) : Label → Option State
  | .send r => do
    let (attempt, wait) ← σ.phase.next
    let γ ← Gateway.step cfg.gateway σ.gateway (.request r (request cfg job))
    return { σ with
      gateway := γ
      phase := .asked attempt r
      asked := σ.asked ++ [r]
      slept := σ.slept + wait }
  | .receive =>
    match σ.phase with
    | .asked attempt r => (answerTo σ.gateway r).map fun resp => { σ with
        phase := (received job.call attempt resp σ.out).1
        out := (received job.call attempt resp σ.out).2 }
    | _ => none
  | .fail => if σ.phase.isOpen then some { σ with phase := .threw } else none
  | .gateway l =>
    (Gateway.step cfg.gateway σ.gateway l).map fun γ => { σ with gateway := γ }

/-- The call is made while the gateway is at work. -/
def start (γ : Gateway.State) (out : Out) : State where
  gateway := γ
  phase := .starts
  out := out
  asked := []
  slept := 0

/-- What a step of the client and its world can do. -/
inductive Moved (cfg : Config) (job : Job) (σ : State) : Label → State → Prop
  | send {r attempt wait γ} : σ.phase.next = some (attempt, wait) →
      Gateway.step cfg.gateway σ.gateway (.request r (request cfg job)) = some γ →
      Moved cfg job σ (.send r) ⟨γ, .asked attempt r, σ.out, σ.asked ++ [r], σ.slept + wait⟩
  | receive {attempt r resp req} : σ.phase = .asked attempt r →
      σ.gateway.requests r = some (req, .done resp) →
      Moved cfg job σ .receive
        { σ with
          phase := (received job.call attempt resp σ.out).1
          out := (received job.call attempt resp σ.out).2 }
  | fail : σ.phase.isOpen = true → Moved cfg job σ .fail { σ with phase := .threw }
  | gateway {gl γ} : Gateway.step cfg.gateway σ.gateway gl = some γ →
      Moved cfg job σ (.gateway gl) { σ with gateway := γ }

variable {cfg : Config} {job : Job} {γ γ' : Gateway.State} {log : List Event} {r : ReqId}
  {req : HttpRequest} {call : Call} {username passcode : List UInt8} {gl : Gateway.Label}
  {rows : List Account} {workerId : UInt16}

/-! ## What an answer makes of a call

The gateway answers a login or a registration in few ways (`Course`), and of each the client makes
something definite. `Verdict` lists what it can come to when the answer is the last one. -/

/-- The answer is the last one, and the call returns. -/
inductive Verdict (job : Job) (req : HttpRequest) (tried : ℕ) (resp : Response) (out : Out) :
    Bool → Prop
  | refused : resp.refuses = true → Verdict job req tried resp out false
  | gaveUp : job.call = .login → tried = 4 → resp = Gateway.retryResponse req →
      Verdict job req tried resp out false
  | loggedIn : job.call = .login →
      resp = Gateway.loginResponse req out.token out.serverAddr out.uid →
      Verdict job req tried resp out true
  | registered : job.call = .register → resp = Gateway.registerResponse req →
      Verdict job req tried resp out true

/-- A body with a number for the uid is read field by field; a field that is missing reads as empty.
-/
theorem readAnswer_json {fields : List (String × JsonValue)} {uid : UInt64}
    (h : asUInt64 (fields.lookup "uid") = some uid) (out : Out) : readAnswer out (.json fields) =
      (⟨asString (fields.lookup "token"), asString (fields.lookup "server_addr"), uid⟩, true) := by
  simp only [readAnswer, h]

/-- The client reads out of the answer to a login what the gateway has put in. -/
theorem readAnswer_login (out : Out) (req : HttpRequest) (token addr : List UInt8) (uid : UInt64) :
    readAnswer out (Gateway.loginResponse req token addr uid).body = (⟨token, addr, uid⟩, true) := by
  have hnum : asUInt64 (some (.num uid.toNat)) = some uid := by
    rw [asUInt64, if_pos uid.toNat_lt, UInt64.ofNat_toNat]
  have huid : asUInt64 (List.lookup "uid" [("result", .str "ok"), ("token", .bytes token),
    ("server_addr", .bytes addr), ("uid", .num uid.toNat)]) = some uid := hnum
  exact readAnswer_json huid out

/-- A refusal is neither `200` nor `409`. -/
theorem status_of_refuses {resp : Response} (h : resp.refuses = true) :
    resp.status ≠ .ok ∧ resp.status ≠ .conflict := by
  unfold Response.refuses at h
  constructor <;> intro hstatus <;> rw [hstatus] at h <;> cases h

/-- A refusal ends either function with `false` and changes none of its parameters. -/
theorem received_of_refuses {resp : Response} (h : resp.refuses = true) (call : Call)
    (attempt : Option ℕ) (out : Out) : received call attempt resp out = (.returned false, out) := by
  obtain ⟨hok, hconflict⟩ := status_of_refuses h
  cases call with
  | login =>
    rw [received, loginReceived]
    cases hstatus : resp.status with
    | ok => exact absurd hstatus hok
    | conflict => exact absurd hstatus hconflict
    | _ => rfl
  | register =>
    rw [received]
    simp only [hok, decide_false]

/-- **An answer lets the client sleep and try again, or it is the last one.** -/
theorem received_cases {resp : Response} (h : Course log r req username passcode job.call (.done resp))
    (attempt : Option ℕ) (htries : tries attempt ≤ 4) (out : Out) :
    (received job.call attempt resp out = (.sleeps (tries attempt), out) ∧ job.call = .login ∧
        tries attempt < 4 ∧ resp = Gateway.retryResponse req) ∨
      ∃ ret out', received job.call attempt resp out = (.returned ret, out') ∧
        Verdict job req (tries attempt) resp out' ret := by
  obtain ⟨call, username', passcode'⟩ := job
  cases h with
  | refused hr => exact .inr ⟨false, out, received_of_refuses hr call attempt out, .refused hr⟩
  | @login token addr uid _ _ =>
    refine .inr ⟨true, ⟨token, addr, uid⟩, ?_, .loggedIn rfl rfl⟩
    show ((Phase.returned (readAnswer out _).2, (readAnswer out _).1) : Phase × Out) = _
    rw [readAnswer_login]
  | retry =>
    have hreceived : received .login attempt (Gateway.retryResponse req) out =
      (if tries attempt < 4 then .sleeps (tries attempt) else .returned false, out) := rfl
    by_cases hlt : tries attempt < 4
    · rw [if_pos hlt] at hreceived
      exact .inl ⟨hreceived, rfl, hlt, rfl⟩
    · rw [if_neg hlt] at hreceived
      exact .inr ⟨false, out, hreceived, .gaveUp rfl (Nat.le_antisymm htries (Nat.le_of_not_lt hlt)) rfl⟩
  | registered => exact .inr ⟨true, out, rfl, .registered rfl rfl⟩

/-! ## The client

The invariant `PhaseOk` says for each phase which requests were sent and what has become of them. All
but
the last were answered with `409`; the number of them is the number of the attempt, and this bounds
the
requests and the time. -/

variable {σ σ' : State} {l : Label} {prev : List ReqId}

theorem answerTo_eq_some {resp : Response} (h : answerTo γ r = some resp) :
    ∃ req, γ.requests r = some (req, .done resp) := by
  unfold answerTo at h
  split at h
  · next req resp' hreq =>
    cases h
    exact ⟨req, hreq⟩
  · cases h

/-- What a step of the client is. -/
theorem step_cases (h : step cfg job σ l = some σ') : Moved cfg job σ l σ' := by
  cases l with
  | send r =>
    obtain ⟨⟨attempt, wait⟩, hnext, h⟩ := Option.bind_eq_some_iff.mp h
    obtain ⟨γ, hγ, h⟩ := Option.bind_eq_some_iff.mp h
    cases h
    exact .send hnext hγ
  | receive =>
    simp only [step] at h
    split at h
    · next attempt r hphase =>
      obtain ⟨resp, hresp, rfl⟩ := Option.map_eq_some_iff.mp h
      obtain ⟨req, hreq⟩ := answerTo_eq_some hresp
      exact .receive hphase hreq
    · cases h
  | fail =>
    obtain ⟨hopen, rfl⟩ := of_guard h
    exact .fail hopen
  | gateway gl =>
    obtain ⟨γ, hγ, rfl⟩ := Option.map_eq_some_iff.mp h
    exact .gateway hγ

/-- The gateway runs as a gateway does. -/
theorem gateway_of_reach {out : Out}
    (hγ : Reach (Gateway.step cfg.gateway) anyStep (Gateway.init rows workerId) γ)
    (h : Reach (step cfg job) anyStep (start γ out) σ) :
    Reach (Gateway.step cfg.gateway) anyStep (Gateway.init rows workerId) σ.gateway := by
  induction h with
  | refl => exact hγ
  | tail _ _ hs ih =>
    cases step_cases hs with
    | send _ hγ' | gateway hγ' => exact ih.tail trivial hγ'
    | receive | fail => exact ih

/-- The request has been answered with `409`. -/
def Retried (cfg : Config) (job : Job) (γ : Gateway.State) (r : ReqId) : Prop :=
  γ.requests r = some (request cfg job, .done (Gateway.retryResponse (request cfg job)))

/-- The gateway has the request, or it has ended over its body. -/
def Taken (cfg : Config) (job : Job) (γ : Gateway.State) (r : ReqId) : Prop :=
  (∃ st, γ.requests r = some (request cfg job, st)) ∨ γ.requests r = none ∧ γ.terminated = true

/-- The requests before the last one. -/
structure Tried (cfg : Config) (job : Job) (γ : Gateway.State) (slept : ℕ) (prev : List ReqId) :
    Prop where
  count : prev.length ≤ 4
  once : job.call = .register → prev = []
  waits : slept = (waitTime.take prev.length).sum
  retried : ∀ r ∈ prev, Retried cfg job γ r

/-- What is known of the requests in each phase. -/
def PhaseOk (cfg : Config) (job : Job) (σ : State) : Phase → Prop
  | .starts => σ.asked = [] ∧ σ.slept = 0
  | .asked attempt r => ∃ prev, σ.asked = prev ++ [r] ∧ prev.length = tries attempt ∧
      Tried cfg job σ.gateway σ.slept prev ∧ Taken cfg job σ.gateway r
  | .sleeps attempt => ∃ prev r, σ.asked = prev ++ [r] ∧ prev.length = attempt ∧ attempt < 4 ∧
      job.call = .login ∧ Tried cfg job σ.gateway σ.slept prev ∧ Retried cfg job σ.gateway r
  | .returned ret => ∃ prev r resp, σ.asked = prev ++ [r] ∧ Tried cfg job σ.gateway σ.slept prev ∧
      σ.gateway.requests r = some (request cfg job, .done resp) ∧
      Verdict job (request cfg job) prev.length resp σ.out ret
  | .threw => Tried cfg job σ.gateway σ.slept σ.asked.dropLast

/-- An answer is not taken back. -/
theorem retried_of_step (h : Retried cfg job γ r) (hs : Stepped cfg.gateway γ gl γ') :
    Retried cfg job γ' r := by
  obtain ⟨st', hreq, hst⟩ := keeps_of_step hs h
  rw [hst rfl] at hreq
  exact hreq

/-- A request that was taken stays with the gateway. -/
theorem Taken.step (h : Taken cfg job γ r) (hs : Gateway.step cfg.gateway γ gl = some γ') :
    Taken cfg job γ' r := by
  rcases h with ⟨st, hreq⟩ | ⟨hnone, hend⟩
  · obtain ⟨st', hreq', -⟩ := keeps_of_step (Gateway.step_cases hs) hreq
    exact .inl ⟨st', hreq'⟩
  · obtain ⟨hrequests, hend'⟩ := Gateway.stopped_of_step hs hend
    exact .inr ⟨hrequests ▸ hnone, hend'⟩

/-- A request is taken, unless its body ends the gateway. -/
theorem taken_of_send (hs : Gateway.step cfg.gateway γ (.request r (request cfg job)) = some γ') :
    Taken cfg job γ' r := by
  have hnone : γ.requests r = none := (Option.ite_none_right_eq_some.mp hs).1.2
  cases Gateway.step_cases hs with
  | request => exact .inl ⟨_, Function.update_self ..⟩
  | unread => exact .inr ⟨hnone, rfl⟩

/-- The earlier requests stay answered. -/
theorem Tried.step {slept : ℕ} (h : Tried cfg job γ slept prev) (hs : Stepped cfg.gateway γ gl γ') :
    Tried cfg job γ' slept prev :=
  ⟨h.count, h.once, h.waits, fun r hr => retried_of_step (h.retried r hr) hs⟩

theorem tried_nil (cfg : Config) (job : Job) (γ : Gateway.State) : Tried cfg job γ 0 [] :=
  ⟨Nat.zero_le 4, fun _ => rfl, rfl, fun r hr => by cases hr⟩

/-- What is known stays known while the gateway goes on. -/
theorem PhaseOk.gateway {p : Phase} (h : PhaseOk cfg job σ p)
    (hγ : Gateway.step cfg.gateway σ.gateway gl = some γ') :
    PhaseOk cfg job { σ with gateway := γ' } p := by
  have hs := Gateway.step_cases hγ
  cases p with
  | starts => exact h
  | asked attempt r =>
    obtain ⟨prev, hasked, hlen, htried, htaken⟩ := h
    exact ⟨prev, hasked, hlen, htried.step hs, htaken.step hγ⟩
  | sleeps attempt =>
    obtain ⟨prev, r, hasked, hlen, hlt, hcall, htried, hlast⟩ := h
    exact ⟨prev, r, hasked, hlen, hlt, hcall, htried.step hs, retried_of_step hlast hs⟩
  | returned ret =>
    obtain ⟨prev, r, resp, hasked, htried, hreq, hverdict⟩ := h
    obtain ⟨st', hreq', hst⟩ := keeps_of_step hs hreq
    rw [hst rfl] at hreq'
    exact ⟨prev, r, resp, hasked, htried.step hs, hreq', hverdict⟩
  | threw => exact Tried.step h hs

/-- A failure of the network leaves the requests before the last one as they were. -/
theorem PhaseOk.fail {p : Phase} (h : PhaseOk cfg job σ p) (hopen : p.isOpen = true) :
    PhaseOk cfg job { σ with phase := .threw } .threw := by
  have hdrop : ∀ {prev : List ReqId} {r : ReqId}, σ.asked = prev ++ [r] →
      σ.asked.dropLast = prev := by
    intro prev r hasked
    rw [hasked, List.dropLast_concat]
  show Tried cfg job σ.gateway σ.slept σ.asked.dropLast
  cases p with
  | starts =>
    rw [h.1, h.2]
    exact tried_nil cfg job _
  | asked =>
    obtain ⟨prev, hasked, -, htried, -⟩ := h
    rwa [hdrop hasked]
  | sleeps =>
    obtain ⟨prev, r, hasked, -, -, -, htried, -⟩ := h
    rwa [hdrop hasked]
  | returned | threw => cases hopen

/-- The next request follows those before. -/
theorem PhaseOk.next {attempt : Option ℕ} {wait : ℕ} {p : Phase} (h : PhaseOk cfg job σ p)
    (hnext : p.next = some (attempt, wait)) : σ.asked.length = tries attempt ∧
      Tried cfg job σ.gateway (σ.slept + wait) σ.asked := by
  cases p with
  | starts =>
    cases hnext
    rw [h.1, h.2]
    exact ⟨rfl, tried_nil cfg job _⟩
  | sleeps k =>
    cases hnext
    obtain ⟨prev, r, hasked, hlen, hlt, hcall, htried, hlast⟩ := h
    have hcount : σ.asked.length = k + 1 := by rw [hasked, List.length_append, hlen]; rfl
    refine ⟨hcount, hcount ▸ hlt, fun hreg => ?_, ?_, fun r' hr' => ?_⟩
    · rw [hcall] at hreg
      cases hreg
    · have hk : k < waitTime.length := hlt
      rw [htried.waits, hlen, hcount, List.sum_take_succ _ _ hk, List.getD_eq_getElem?_getD,
        List.getElem?_eq_getElem hk, Option.getD_some]
    · rw [hasked, List.mem_append, List.mem_singleton] at hr'
      rcases hr' with hold | rfl
      · exact htried.retried r' hold
      · exact hlast
  | asked | returned | threw => cases hnext

/-- The gateway reads this name and this password out of the request. -/
def Job.ReadAs (cfg : Config) (job : Job) (username passcode : List UInt8) : Prop :=
  cfg.gateway.parse (cfg.write job.username job.passcode) = .fields username passcode

/-- What the gateway has done for a request that it has answered. -/
theorem answer_cases {resp : Response} (hcourse : OnCourse cfg.gateway γ)
    (hreq : γ.requests r = some (request cfg job, .done resp)) : resp.refuses = true ∨
      ∃ username passcode, job.ReadAs cfg username passcode ∧
        Course γ.log r (request cfg job) username passcode job.call (.done resp) := by
  rcases hcourse r _ _ job.call hreq rfl rfl with ⟨resp', hr, hresp⟩ | hread
  · cases hresp
    exact .inl hr
  · exact .inr hread

/-- The step that matters: the answer is there, and the course of the request says which answers there
are. -/
theorem PhaseOk.receive {attempt : Option ℕ} {resp : Response}
    (h : PhaseOk cfg job σ (.asked attempt r)) (hreq : σ.gateway.requests r = some (req, .done resp))
    (hcourse : OnCourse cfg.gateway σ.gateway) :
    PhaseOk cfg job
      { σ with
        phase := (received job.call attempt resp σ.out).1
        out := (received job.call attempt resp σ.out).2 }
      (received job.call attempt resp σ.out).1 := by
  obtain ⟨prev, hasked, hlen, htried, htaken⟩ := h
  rcases htaken with ⟨st, hreq'⟩ | ⟨hnone, -⟩
  · rw [hreq] at hreq'
    cases hreq'
    rcases answer_cases hcourse hreq with hr | ⟨username, passcode, -, hdone⟩
    · rw [received_of_refuses hr]
      exact ⟨prev, r, resp, hasked, htried, hreq, .refused hr⟩
    · rcases received_cases hdone attempt (hlen ▸ htried.count) σ.out with
        ⟨hreceived, hcall, hlt, rfl⟩ | ⟨ret, out, hreceived, hverdict⟩
      · rw [hreceived]
        exact ⟨prev, r, hasked, hlen, hlt, hcall, htried, hreq⟩
      · rw [hreceived]
        exact ⟨prev, r, resp, hasked, htried, hreq, hlen ▸ hverdict⟩
  · rw [hreq] at hnone
    cases hnone

/-- One lemma above for each kind of step. -/
theorem PhaseOk.step (h : PhaseOk cfg job σ σ.phase) (hcourse : OnCourse cfg.gateway σ.gateway)
    (hs : GatewayHelper.step cfg job σ l = some σ') : PhaseOk cfg job σ' σ'.phase := by
  cases step_cases hs with
  | send hnext hγ =>
    obtain ⟨hlen, htried⟩ := PhaseOk.next h hnext
    exact ⟨σ.asked, rfl, hlen, htried.step (Gateway.step_cases hγ), taken_of_send hγ⟩
  | receive hphase hreq =>
    rw [hphase] at h
    exact PhaseOk.receive h hreq hcourse
  | fail hopen => exact PhaseOk.fail h hopen
  | gateway hγ => exact PhaseOk.gateway h hγ

/-- In every run from any state of the gateway. -/
theorem phaseOk_of_reach {out : Out}
    (hγ : Reach (Gateway.step cfg.gateway) anyStep (Gateway.init rows workerId) γ)
    (h : Reach (step cfg job) anyStep (start γ out) σ) : PhaseOk cfg job σ σ.phase := by
  have hcourse : ∀ {σ}, Reach (step cfg job) anyStep (start γ out) σ →
      OnCourse cfg.gateway σ.gateway := fun hσ => onCourse_of_reach (gateway_of_reach hγ hσ)
  have hstep : ∀ σ l σ', OnCourse cfg.gateway σ.gateway → PhaseOk cfg job σ σ.phase →
      anyStep σ l → step cfg job σ l = some σ' → PhaseOk cfg job σ' σ'.phase :=
    fun _ _ _ hon hinv _ hs => hinv.step hon hs
  exact h.invariant_of hcourse ⟨rfl, rfl⟩ hstep

/-! ## What the two functions guarantee -/

/-- 1 + 1 + 2 + 3 seconds. -/
theorem sum_waitTime_take_le : ∀ n, (waitTime.take n).sum ≤ 7
  | 0 | 1 | 2 | 3 => by decide
  | n + 4 => by
    rw [List.take_of_length_le (Nat.le_add_left 4 n)]
    decide

/-- All but the last request have been answered with `409`, and there are not many. -/
theorem PhaseOk.tried {p : Phase} (h : PhaseOk cfg job σ p) : σ.asked.length ≤ 5 ∧ σ.slept ≤ 7 ∧
    (job.call = .register → σ.asked.length ≤ 1) ∧
    ∀ r ∈ σ.asked.dropLast, Retried cfg job σ.gateway r := by
  have htried : Tried cfg job σ.gateway σ.slept σ.asked.dropLast := by
    cases p with
    | starts | asked | sleeps => exact PhaseOk.fail h rfl
    | threw => exact h
    | returned ret =>
      obtain ⟨prev, r, resp, hasked, htried, -⟩ := h
      rwa [hasked, List.dropLast_concat]
  have hlen : σ.asked.length ≤ σ.asked.dropLast.length + 1 := by
    rw [List.length_dropLast]
    omega
  refine ⟨hlen.trans (Nat.succ_le_succ htried.count), ?_, fun hreg => ?_, htried.retried⟩
  · rw [htried.waits]
    exact sum_waitTime_take_le _
  · rwa [htried.once hreg] at hlen

/-- What a login has come to. -/
structure LoginOutcome (cfg : Config) (job : Job) (σ : State) : Prop where
  requests : σ.asked.length ≤ 5
  waits : σ.slept ≤ 7
  /-- Each request but the last has made the gateway send the other session of the user away. -/
  retried : ∀ r ∈ σ.asked.dropLast, ∃ username passcode oldServer uid,
    job.ReadAs cfg username passcode ∧ Shown σ.gateway.log r username passcode uid ∧
      .command r (.kick oldServer uid) ∈ σ.gateway.log
  /-- The client has what the gateway has answered: the uid of an account whose password it has shown,
  and a token of that user. -/
  success : σ.phase = .returned true → ∃ r ∈ σ.asked.getLast?,
    σ.gateway.requests r = some (request cfg job, .done
      (Gateway.loginResponse (request cfg job) σ.out.token σ.out.serverAddr σ.out.uid)) ∧
    (∃ username passcode, job.ReadAs cfg username passcode ∧
      Shown σ.gateway.log r username passcode σ.out.uid) ∧
    .command r (.token σ.out.token σ.out.uid) ∈ σ.gateway.log
  failure : σ.phase = .returned false → ∃ r ∈ σ.asked.getLast?, ∃ resp,
    σ.gateway.requests r = some (request cfg job, .done resp) ∧
      (resp.refuses = true ∨
        σ.asked.length = 5 ∧ resp = Gateway.retryResponse (request cfg job))

/-- Behind every `409` there is a kick. -/
theorem kicked_of_retried (h : Course log r req username passcode call
    (.done (Gateway.retryResponse req))) : ∃ oldServer uid, Shown log r username passcode uid ∧
      .command r (.kick oldServer uid) ∈ log := by
  generalize hresp : Gateway.retryResponse req = resp at h
  cases h with
  | refused hr =>
    rw [← hresp] at hr
    cases hr
  | login =>
    have hstatus := congrArg Response.status hresp
    cases hstatus
  | retry hs hmem => exact ⟨_, _, hs, hmem⟩
  | registered =>
    have hstatus := congrArg Response.status hresp
    cases hstatus

/-- Behind every login that succeeds there is a token. -/
theorem token_of_login {token addr : List UInt8} {uid : UInt64}
    (h : Course log r req username passcode .login (.done (Gateway.loginResponse req token addr uid))) :
    Shown log r username passcode uid ∧ .command r (.token token uid) ∈ log := by
  generalize hresp : Gateway.loginResponse req token addr uid = resp at h
  cases h with
  | refused hr =>
    rw [← hresp] at hr
    cases hr
  | @login token' addr' uid' hs hmem =>
    have hread := congrArg (fun resp => (readAnswer ⟨[], [], 0⟩ resp.body).1) hresp
    simp only [readAnswer_login, Out.mk.injEq] at hread
    obtain ⟨rfl, -, rfl⟩ := hread
    exact ⟨hs, hmem⟩
  | retry =>
    have hstatus := congrArg Response.status hresp
    cases hstatus

/-- The answer to a login that has returned `true`. -/
theorem answer_of_returned (hok : PhaseOk cfg job σ (.returned true))
    (hcourse : OnCourse cfg.gateway σ.gateway) (hcall : job.call = .login) :
    ∃ r ∈ σ.asked.getLast?,
      σ.gateway.requests r = some (request cfg job, .done
        (Gateway.loginResponse (request cfg job) σ.out.token σ.out.serverAddr σ.out.uid)) ∧
      (∃ username passcode, job.ReadAs cfg username passcode ∧
        Shown σ.gateway.log r username passcode σ.out.uid) ∧
      .command r (.token σ.out.token σ.out.uid) ∈ σ.gateway.log := by
  obtain ⟨prev, r, resp, hasked, -, hreq, hverdict⟩ := hok
  cases hverdict with
  | loggedIn _ hresp =>
    rw [hresp] at hreq
    have hlast : r ∈ σ.asked.getLast? := by
      rw [hasked, List.getLast?_concat]
      rfl
    rcases answer_cases hcourse hreq with hr | ⟨username, passcode, hread, hdone⟩
    · cases hr
    · rw [hcall] at hdone
      obtain ⟨hshown, hcommand⟩ := token_of_login hdone
      exact ⟨r, hlast, hreq, ⟨username, passcode, hread, hshown⟩, hcommand⟩
  | registered hreg =>
    rw [hcall] at hreg
    cases hreg

/-- **What `Login` comes to**, whatever else the gateway, its other clients and the backends do: at most
five requests and seven seconds of sleep; a request is repeated only after the gateway has sent the
user's other session away; `true` means that the password was right and gives the client the uid and
the token that the gateway has written for it; `false` means that the last request was refused, or that
all five were to be repeated. -/
theorem login_outcome (cfg : Config) (job : Job) (hcall : job.call = .login) (rows : List Account)
    (workerId : UInt16) (γ : Gateway.State)
    (hγ : Reach (Gateway.step cfg.gateway) anyStep (Gateway.init rows workerId) γ) (out : Out)
    (σ : State) (h : Reach (step cfg job) anyStep (start γ out) σ) : LoginOutcome cfg job σ := by
  have hok := phaseOk_of_reach hγ h
  have hcourse : OnCourse cfg.gateway σ.gateway := onCourse_of_reach (gateway_of_reach hγ h)
  obtain ⟨hlen, hslept, -, hretried⟩ := hok.tried
  refine ⟨hlen, hslept, fun r hr => ?_, fun hphase => ?_, fun hphase => ?_⟩
  · rcases answer_cases hcourse (hretried r hr) with hr | ⟨username, passcode, hread, hdone⟩
    · cases hr
    · obtain ⟨oldServer, uid, hkicked⟩ := kicked_of_retried hdone
      exact ⟨username, passcode, oldServer, uid, hread, hkicked⟩
  · rw [hphase] at hok
    exact answer_of_returned hok hcourse hcall
  · rw [hphase] at hok
    obtain ⟨prev, r, resp, hasked, -, hreq, hverdict⟩ := hok
    have hlast : r ∈ σ.asked.getLast? := by
      rw [hasked, List.getLast?_concat]
      rfl
    refine ⟨r, hlast, resp, hreq, ?_⟩
    cases hverdict with
    | refused hr => exact .inl hr
    | gaveUp _ hfour hresp =>
      refine .inr ⟨?_, hresp⟩
      rw [hasked, List.length_append, hfour]
      rfl

/-- What `Json::FastWriter` makes of a name and a password without characters to escape: it sorts the
fields and ends the line. -/
def fastWrite (username passcode : List UInt8) : List UInt8 :=
  "\x7b\"passcode\":\"".toUTF8.data.toList ++ passcode ++
    "\",\"username\":\"".toUTF8.data.toList ++ username ++ "\"\x7d\n".toUTF8.data.toList

def exampleClient : Config := ⟨Gateway.exampleConfig, fastWrite⟩

def exampleJob (call : Call) : Job := ⟨call, [117], [112]⟩

/-- User 7 is on server 1. The client is told to try again, the entry of the user goes, and the second
request gets all it asks for. -/
def loggingInAgain : List Label :=
  (Gateway.loggingIn 9 ++ (Cluster.starting 1 ++
      Cluster.verifying 1 0 Gateway.verifyFrame).map Gateway.Label.cluster).map .gateway ++
    .send 0 :: (Gateway.attempting ++ [Gateway.Reply.redis]).map (fun x => .gateway (.reply 0 x)) ++
    [.receive, .gateway (.cluster (.expireStatus 7)), .send 1] ++
    (Gateway.loggingIn 1).tail.map .gateway ++ [.receive]

theorem login_outcome_seven : ∃ σ, Reach (step exampleClient (exampleJob .login)) anyStep
    (start (Gateway.init [Gateway.exampleAccount] 0) ⟨[], [], 0⟩) σ ∧
    σ.phase = .returned true ∧ σ.out.uid = 7 ∧ σ.asked = [0, 1] ∧ σ.slept = 1 ∧
    LoginOutcome exampleClient (exampleJob .login) σ := by
  have hrun : (run (step exampleClient (exampleJob .login)) anyStep
      (start (Gateway.init [Gateway.exampleAccount] 0) ⟨[], [], 0⟩) loggingInAgain).any
      (fun σ => σ.phase = .returned true ∧ σ.out.uid = 7 ∧ σ.asked = [0, 1] ∧ σ.slept = 1) = true := by
    decide +kernel
  obtain ⟨σ, hreach, htest⟩ := exists_reach_of_run hrun
  obtain ⟨hphase, huid, hasked, hslept⟩ := of_decide_eq_true htest
  exact ⟨σ, hreach, hphase, huid, hasked, hslept, login_outcome exampleClient (exampleJob .login) rfl
    [Gateway.exampleAccount] 0 _ .refl _ σ hreach⟩

/-- The request has inserted an account, with the name and for the password that the gateway has read. -/
def Inserted (cfg : Config) (job : Job) (γ : Gateway.State) (r : ReqId) : Prop :=
  ∃ username passcode, job.ReadAs cfg username passcode ∧ ∃ acc ∈ γ.rows,
    .registered r username passcode acc ∈ γ.log

/-- **What `Register` comes to**: it sends one request and does not wait; `true` means that this request
has inserted the account; and if it has, then `false` is returned only where the database has reported an
error for the `INSERT` nevertheless. -/
theorem register_outcome (cfg : Config) (job : Job) (hcall : job.call = .register) (rows : List Account)
    (workerId : UInt16) (γ : Gateway.State)
    (hγ : Reach (Gateway.step cfg.gateway) anyStep (Gateway.init rows workerId) γ) (out : Out)
    (σ : State) (h : Reach (step cfg job) anyStep (start γ out) σ) :
    σ.asked.length ≤ 1 ∧ ∀ ret, σ.phase = .returned ret → ∃ r resp, σ.asked = [r] ∧
      σ.gateway.requests r = some (request cfg job, .done resp) ∧
      (ret = true → Inserted cfg job σ.gateway r) ∧
      (Inserted cfg job σ.gateway r → ret = false →
        resp = Gateway.serverError (request cfg job) "MySQL server error") := by
  have hok := phaseOk_of_reach hγ h
  have hreach := gateway_of_reach hγ h
  have hcourse : OnCourse cfg.gateway σ.gateway := onCourse_of_reach hreach
  refine ⟨hok.tried.2.2.1 hcall, fun ret hphase => ?_⟩
  rw [hphase] at hok
  obtain ⟨prev, r, resp, hasked, htried, hreq, hverdict⟩ := hok
  rw [htried.once hcall] at hasked
  refine ⟨r, resp, hasked, hreq, ?_⟩
  cases hverdict with
  | refused hr =>
    refine ⟨(fun hret => by cases hret), ?_⟩
    rintro ⟨username, passcode, -, acc, -, hmem⟩ -
    -- an account that was inserted has been answered with `200` or with this error
    obtain ⟨req, resp', hreq', hresp'⟩ := Gateway.registered_answered hreach r _ _ acc hmem
    rw [hreq] at hreq'
    cases hreq'
    rcases hresp' with rfl | hresp
    · cases hr
    · exact hresp
  | gaveUp hlogin | loggedIn hlogin =>
    rw [hcall] at hlogin
    cases hlogin
  | registered _ hresp =>
    refine ⟨fun _ => ?_, (fun _ hret => by cases hret)⟩
    subst hresp
    rcases answer_cases hcourse hreq with hr | ⟨username, passcode, hread, hdone⟩
    · cases hr
    · rw [hcall] at hdone
      generalize hresp : Gateway.registerResponse (request cfg job) = resp at hdone
      cases hdone with
      | refused hr =>
        rw [← hresp] at hr
        cases hr
      | @registered acc hmem =>
        exact ⟨username, passcode, hread, acc, (Gateway.backed_of_reach hreach _ hmem).1, hmem⟩

/-- What the client of the first account gets, if the `INSERT` ends so. -/
def registeringFirst (x : Gateway.Insertion) : List Label :=
  .send 0 :: [Gateway.Reply.clock [1], .db .answer 0,
    .salt (Gateway.Security.zeroes 16) (Gateway.Security.zeroes 64), .inserted x].map
      (fun y => .gateway (.reply 0 y)) ++ [.receive]

/-- The first account is inserted; it is, too, if the connection breaks after the commit. -/
theorem register_outcome_first :
    (∃ σ, Reach (step exampleClient (exampleJob .register)) anyStep
      (start (Gateway.init [] 0) ⟨[], [], 0⟩) σ ∧ σ.phase = .returned true ∧
      ∃ r, σ.asked = [r] ∧ Inserted exampleClient (exampleJob .register) σ.gateway r) ∧
    ∃ σ, Reach (step exampleClient (exampleJob .register)) anyStep
      (start (Gateway.init [] 0) ⟨[], [], 0⟩) σ ∧ σ.phase = .returned false ∧
      σ.gateway.rows.length = 1 := by
  have hrun : (run (step exampleClient (exampleJob .register)) anyStep
      (start (Gateway.init [] 0) ⟨[], [], 0⟩) (registeringFirst .done)).any
      (fun σ => σ.phase = .returned true) = true := by
    decide +kernel
  have hlost : (run (step exampleClient (exampleJob .register)) anyStep
      (start (Gateway.init [] 0) ⟨[], [], 0⟩) (registeringFirst .unanswered)).any
      (fun σ => σ.phase = .returned false ∧ σ.gateway.rows.length = 1) = true := by
    decide +kernel
  obtain ⟨σ, hreach, htest⟩ := exists_reach_of_run hrun
  obtain ⟨σ', hreach', htest'⟩ := exists_reach_of_run hlost
  have hphase := of_decide_eq_true htest
  obtain ⟨r, resp, hasked, -, hinserted, -⟩ := (register_outcome exampleClient (exampleJob .register)
    rfl [] 0 _ .refl _ σ hreach).2 true hphase
  exact ⟨⟨σ, hreach, hphase, r, hasked, hinserted rfl⟩, σ', hreach', of_decide_eq_true htest'⟩

/-! ## The token that the client has got -/

/-- The same of the steps around a client. -/
def clientKeepsToken (token : List UInt8) (σ : State) : Label → Bool
  | .gateway gl => keepsToken token σ.gateway gl
  | _ => true

/-- The token of the client is still that of its user. -/
theorem held_of_clientReach {token : List UInt8} {out : Out}
    (hγ : Reach (Gateway.step cfg.gateway) (fun γ gl => keepsToken token γ gl = true)
      (Gateway.init rows workerId) γ)
    (h : Reach (step cfg job) (fun σ l => clientKeepsToken token σ l = true) (start γ out) σ) :
    Gateway.Held token σ.gateway := by
  have hin : ∀ {σ}, Reach (step cfg job) (fun σ l => clientKeepsToken token σ l = true)
      (start γ out) σ → Gateway.InStep σ.gateway := by
    intro σ hσ
    have hγ' : Reach (Gateway.step cfg.gateway) anyStep (Gateway.init rows workerId) γ :=
      hγ.mono fun _ _ _ _ => trivial
    have hσ' : Reach (step cfg job) anyStep (start γ out) σ := hσ.mono fun _ _ _ _ => trivial
    exact Gateway.inStep_of_reach (gateway_of_reach hγ' hσ')
  have hstep : ∀ σ l σ', Gateway.InStep σ.gateway → Gateway.Held token σ.gateway →
      clientKeepsToken token σ l = true → step cfg job σ l = some σ' → Gateway.Held token σ'.gateway := by
    intro σ l σ' hin hheld hkeeps hs
    cases step_cases hs with
    | send _ hγ' => exact hheld.step hin rfl (Gateway.step_cases hγ')
    | gateway hγ' => exact hheld.step hin hkeeps (Gateway.step_cases hγ')
    | receive | fail => exact hheld
  exact h.invariant_of hin (Gateway.held_of_reach hγ) hstep

/-- **What `Login` returns gets the client in**: as long as the token has not expired and has not been
written a second time, every backend that checks the token finds it to be that of the uid which the
client has got, and of nobody else, whatever the gateway and the backends have done since. -/
theorem login_accepted (cfg : Config) (job : Job) (hcall : job.call = .login) (rows : List Account)
    (workerId : UInt16) (γ : Gateway.State) (out : Out) (σ : State)
    (hγ : Reach (Gateway.step cfg.gateway) (fun γ gl => keepsToken σ.out.token γ gl = true)
      (Gateway.init rows workerId) γ)
    (h : Reach (step cfg job) (fun σ' l => clientKeepsToken σ.out.token σ' l = true) (start γ out) σ)
    (hret : σ.phase = .returned true) (u : UInt64) :
    Cluster.accepts σ.gateway.cluster.redis σ.out.token u = true ↔ u = σ.out.uid := by
  have hγ' : Reach (Gateway.step cfg.gateway) anyStep (Gateway.init rows workerId) γ :=
    hγ.mono fun _ _ _ _ => trivial
  have h' : Reach (step cfg job) anyStep (start γ out) σ := h.mono fun _ _ _ _ => trivial
  have hok := phaseOk_of_reach hγ' h'
  rw [hret] at hok
  obtain ⟨r, -, -, -, hcommand⟩ := answer_of_returned hok
    (onCourse_of_reach (gateway_of_reach hγ' h')) hcall
  exact Gateway.accepts_iff (held_of_clientReach hγ h r σ.out.uid hcommand) u

/-- Nobody else gets in with the token of user 7. -/
theorem login_accepted_seven : ∃ σ : State, Reach (step exampleClient (exampleJob .login))
      (fun σ' l => clientKeepsToken σ.out.token σ' l = true)
      (start (Gateway.init [Gateway.exampleAccount] 0) ⟨[], [], 0⟩) σ ∧
    σ.phase = .returned true ∧ σ.out.uid = 7 ∧
    Cluster.accepts σ.gateway.cluster.redis σ.out.token 7 = true ∧
    Cluster.accepts σ.gateway.cluster.redis σ.out.token 8 = false := by
  have hrun : (run (step exampleClient (exampleJob .login))
      (fun σ l => clientKeepsToken Gateway.exampleToken σ l = true)
      (start (Gateway.init [Gateway.exampleAccount] 0) ⟨[], [], 0⟩)
      (.send 0 :: (Gateway.loggingIn 0).tail.map .gateway ++ [.receive])).any
      (fun σ => σ.phase = .returned true ∧ σ.out.uid = 7 ∧
        σ.out.token = Gateway.exampleToken) = true := by
    decide +kernel
  obtain ⟨σ, hreach, htest⟩ := exists_reach_of_run hrun
  obtain ⟨hphase, huid, htoken⟩ := of_decide_eq_true htest
  rw [← htoken] at hreach
  have hiff := login_accepted exampleClient (exampleJob .login) rfl [Gateway.exampleAccount] 0 _ _ σ
    .refl hreach hphase
  rw [huid] at hiff
  refine ⟨σ, hreach, hphase, huid, (hiff 7).mpr rfl, ?_⟩
  rw [Bool.eq_false_iff, ne_eq, hiff 8]
  decide

end Chatroom.GatewayHelper
