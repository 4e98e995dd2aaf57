import Chatroom.Http.Answers

/-!
# The course of a login and of a registration

What is known of a `POST` of credentials at each stage that it can come to, down to its answer: `200` for
a login means that the password was right and that Redis has got a token for the user, `409` that the
user has been sent away from another server, and `200` for a registration that the account is in the
table. The name and the password are those that the gateway has read out of the body. A token is then
that of its user for as long as it lives.
-/

namespace Chatroom.Gateway

open Trace
open Cluster (ReqId)

/-- The two functions that a client calls with a name and a password. -/
inductive Call where
  | login
  | register
  deriving DecidableEq, Repr

def Call.target : Call → String
  | .login => "/login"
  | .register => "/register"

/-! ## Stages

`Course` is the set of stages that a `POST` of credentials can come to, each with what the history
contains by
then. The answers are stages too, so what an answer says about the history is read off the last
constructors. -/

variable {cfg : Config} {σ σ' : State} {l : Label} {log log' : List Event} {r : ReqId}
  {req : HttpRequest} {st : Stage} {call : Call} {username passcode : List UInt8}

/-- The password was right for the account with this uid. -/
def Shown (log : List Event) (r : ReqId) (username passcode : List UInt8) (uid : UInt64) : Prop :=
  ∃ acc, .verified r username passcode acc ∈ log ∧ acc.uid = uid

/-- How far a `POST` of the credentials can have come. -/
inductive Course (log : List Event) (r : ReqId) (req : HttpRequest) (username passcode : List UInt8) :
    Call → Stage → Prop
  | verify : Course log r req username passcode .login (.verify username passcode)
  | route {uid name} : Shown log r username passcode uid →
      Course log r req username passcode .login (.route uid name)
  | stamp {uid name addr} : Shown log r username passcode uid →
      Course log r req username passcode .login (.stamp uid name addr)
  | info {uid name lastLogin addr} : Shown log r username passcode uid →
      Course log r req username passcode .login (.info uid name lastLogin addr)
  | attempt {uid addr} : Shown log r username passcode uid →
      Course log r req username passcode .login (.attempt uid addr)
  | draw {uid addr} : Shown log r username passcode uid →
      Course log r req username passcode .login (.draw uid addr)
  | token {token uid addr} : Shown log r username passcode uid →
      Course log r req username passcode .login (.token token uid addr)
  | kick {oldServer uid} : Shown log r username passcode uid →
      Course log r req username passcode .login (.kick oldServer uid)
  | generate : Course log r req username passcode .register (.generate username passcode)
  | count {uid} : Course log r req username passcode .register (.count username passcode uid)
  | salt {uid} : Course log r req username passcode .register (.salt username passcode uid)
  | insert {uid codeHash} :
      Course log r req username passcode .register (.insert username passcode uid codeHash)
  | refused {call resp} : resp.refuses = true → Course log r req username passcode call (.done resp)
  | login {token addr uid} : Shown log r username passcode uid →
      .command r (.token token uid) ∈ log →
      Course log r req username passcode .login (.done (loginResponse req token addr uid))
  | retry {oldServer uid} : Shown log r username passcode uid →
      .command r (.kick oldServer uid) ∈ log →
      Course log r req username passcode .login (.done (retryResponse req))
  | registered {acc} : .registered r username passcode acc ∈ log →
      Course log r req username passcode .register (.done (registerResponse req))

/-- The history only grows. -/
theorem Shown.mono {uid : UInt64} (h : Shown log r username passcode uid) (hsub : log ⊆ log') :
    Shown log' r username passcode uid := by
  obtain ⟨acc, hmem, huid⟩ := h
  exact ⟨acc, hsub hmem, huid⟩

theorem Course.mono (h : Course log r req username passcode call st) (hsub : log ⊆ log') :
    Course log' r req username passcode call st := by
  cases h with
  | verify => exact .verify
  | route hs => exact .route (hs.mono hsub)
  | stamp hs => exact .stamp (hs.mono hsub)
  | info hs => exact .info (hs.mono hsub)
  | attempt hs => exact .attempt (hs.mono hsub)
  | draw hs => exact .draw (hs.mono hsub)
  | token hs => exact .token (hs.mono hsub)
  | kick hs => exact .kick (hs.mono hsub)
  | generate => exact .generate
  | count => exact .count
  | salt => exact .salt
  | insert => exact .insert
  | refused hr => exact .refused hr
  | login hs hmem => exact .login (hs.mono hsub) (hsub hmem)
  | retry hs hmem => exact .retry (hs.mono hsub) (hsub hmem)
  | registered hmem => exact .registered (hsub hmem)

/-- What is recorded before a request goes on is in the history. -/
theorem mem_record_goes_self (σ : State) (e : Event) (r : ReqId) (req : HttpRequest)
    (st : Stage) : e ∈ ((σ.record e).goes r req st).log :=
  log_goes _ r req st (mem_record rfl)

/-- **A reply leads from one stage of the course to the next**, or ends the gateway. -/
theorem Course.handled (h : Course σ.log r req username passcode call st) {x : Reply}
    (hh : Handled cfg σ r req st x σ') : σ'.requests = σ.requests ∨
      ∃ st', σ'.requests = Function.update σ.requests r (some (req, st')) ∧
        Course σ'.log r req username passcode call st' := by
  -- that the password was shown stays in the history
  have hkeeps : ∀ {σ₁ : State} {e : Event} {st' : Stage} {uid : UInt64}, σ₁.log = σ.log →
      Shown σ.log r username passcode uid →
      Shown ((σ₁.record e).goes r req st').log r username passcode uid := by
    intro σ₁ e st' uid hlog hs
    exact (hs.mono (hlog ▸ log_record σ₁ e)).mono (log_goes _ r req st')
  cases hh with
  | threw | lost | aborted => exact .inl rfl
  | refused _ hr => exact .inr ⟨_, rfl, .refused hr⟩
  | verified =>
    cases h
    exact .inr ⟨_, rfl, .route ⟨_, mem_record_goes_self .., rfl⟩⟩
  | routed =>
    cases h with
    | route hs => exact .inr ⟨_, rfl, .stamp (hs.mono (log_goes ..))⟩
  | stamped =>
    cases h with
    | stamp hs => exact .inr ⟨_, rfl, .info (hs.mono (log_goes ..))⟩
  | info =>
    cases h with
    | info hs => exact .inr ⟨_, rfl, .attempt (hkeeps rfl hs)⟩
  | @attempt uid addr cluster hcluster =>
    cases h with
    | attempt hs =>
      refine .inr ⟨_, rfl, ?_⟩
      have hs' : Shown ((State.record { σ with cluster := cluster }
          (.command r (.attempt uid))).goes r req (attemptReturned req uid addr
            ((σ.cluster.redis.location uid).getD []))).log r username passcode uid := hkeeps rfl hs
      -- three answers of the script: nobody is there, a server, another login under way
      rcases attemptReturned_cases req uid addr ((σ.cluster.redis.location uid).getD []) with
        hst | ⟨oldServer, hst⟩ | hst <;> rw [hst] at hs' ⊢
      · exact .draw hs'
      · exact .kick hs'
      · exact .refused rfl
  | drawn =>
    cases h with
    | draw hs => exact .inr ⟨_, rfl, .token (hs.mono (log_goes ..))⟩
  | token =>
    cases h with
    | token hs => exact .inr ⟨_, rfl, .login (hkeeps rfl hs) (mem_record_goes_self ..)⟩
  | kick =>
    cases h with
    | kick hs => exact .inr ⟨_, rfl, .retry (hkeeps rfl hs) (mem_record_goes_self ..)⟩
  | generated =>
    cases h
    exact .inr ⟨_, rfl, .count⟩
  | counted =>
    cases h
    exact .inr ⟨_, rfl, .salt⟩
  | salted =>
    cases h
    exact .inr ⟨_, rfl, .insert⟩
  | @inserted _ _ _ _ x hx =>
    cases h
    refine .inr ⟨_, rfl, ?_⟩
    cases x with
    | done => exact .registered (mem_record_goes_self ..)
    -- the row is there, and the client is told of an error
    | unanswered => exact .refused rfl
    | failed => cases hx

/-- A request is never forgotten, and an answered one is done. -/
theorem keeps_of_step (hs : Stepped cfg σ l σ') (hreq : σ.requests r = some (req, st)) :
    ∃ st', σ'.requests r = some (req, st') ∧ (st.isDone = true → st' = st) := by
  cases hs with
  | cluster | unread => exact ⟨st, hreq, fun _ => rfl⟩
  | @request r' req' st' hnone _ =>
    have hne : r ≠ r' := by
      rintro rfl
      rw [hreq] at hnone
      cases hnone
    refine ⟨st, ?_, fun _ => rfl⟩
    show Function.update σ.requests r' _ r = _
    rw [Function.update_of_ne hne, hreq]
  | @reply r' x req' st' _ hreq' hopen hh =>
    rcases hh.rank hopen with ⟨-, hsame⟩ | ⟨-, st'', hgoes, -⟩
    · exact ⟨st, hsame ▸ hreq, fun _ => rfl⟩
    · rw [hgoes]
      rcases eq_or_ne r r' with rfl | hne
      · rw [hreq] at hreq'
        cases hreq'
        refine ⟨st'', Function.update_self .., fun hdone => ?_⟩
        rw [hdone] at hopen
        cases hopen
      · rw [Function.update_of_ne hne, hreq]
        exact ⟨st, rfl, fun _ => rfl⟩

/-- A gateway that has ended takes no requests. -/
theorem stopped_of_step (h : step cfg σ l = some σ') (hend : σ.terminated = true) :
    σ'.requests = σ.requests ∧ σ'.terminated = true := by
  cases l with
  | request r req =>
    rw [live_of_step h (by simp)] at hend
    cases hend
  | reply r x =>
    rw [live_of_step h (by simp)] at hend
    cases hend
  | cluster cl =>
    cases step_cases h with
    | cluster => exact ⟨rfl, hend⟩

/-- Where a `POST` of credentials begins. -/
def Call.first (username passcode : List UInt8) : Call → Stage
  | .login => .verify username passcode
  | .register => .generate username passcode

/-- A `POST` of credentials is refused because of its body, or begins with what was read there. -/
theorem first_of_requestHandler (h : requestHandler cfg.parse req = some st) (hmethod : req.method = .post)
    (htarget : req.target = call.target) : (∃ resp, resp.refuses = true ∧ st = .done resp) ∨
      ∃ username passcode, cfg.parse req.body = .fields username passcode ∧
        st = call.first username passcode := by
  have hpost : requestHandler cfg.parse req = readCredentials cfg.parse req
      (fun username passcode => call.first username passcode) := by
    rw [requestHandler, hmethod]
    dsimp only
    rw [postHandler, htarget]
    cases call with
    | login => rfl
    | register => rfl
  rw [hpost, readCredentials] at h
  split at h
  · cases h
  · cases h
    exact .inl ⟨_, rfl, rfl⟩
  · cases h
    exact .inl ⟨_, rfl, rfl⟩
  · next username passcode hbody =>
    cases h
    exact .inr ⟨username, passcode, hbody, rfl⟩

/-- The first stage is on the course, with nothing known. -/
theorem course_first (log : List Event) (r : ReqId) (req : HttpRequest) :
    Course log r req username passcode call (call.first username passcode) := by
  cases call with
  | login => exact .verify
  | register => exact .generate

/-- Every `POST` of credentials has been refused, or is on the course of what was read in its body. -/
def OnCourse (cfg : Config) (σ : State) : Prop :=
  ∀ r req st call, σ.requests r = some (req, st) → req.method = .post → req.target = call.target →
    (∃ resp, resp.refuses = true ∧ st = .done resp) ∨
      ∃ username passcode, cfg.parse req.body = .fields username passcode ∧
        Course σ.log r req username passcode call st

/-- The others go their course while one request goes on. -/
theorem OnCourse.step (h : OnCourse cfg σ) (hs : Stepped cfg σ l σ') : OnCourse cfg σ' := by
  intro r req st call hreq hmethod htarget
  have hsub := hs.grows.1
  -- a request that stands still keeps its place in a longer history
  have hother : σ.requests r = some (req, st) → (∃ resp, resp.refuses = true ∧ st = .done resp) ∨
      ∃ username passcode, cfg.parse req.body = .fields username passcode ∧
        Course σ'.log r req username passcode call st := by
    intro hold
    refine (h r req st call hold hmethod htarget).imp_right ?_
    rintro ⟨username, passcode, hbody, hcourse⟩
    exact ⟨username, passcode, hbody, hcourse.mono hsub⟩
  cases hs with
  | cluster | unread => exact hother hreq
  | @request r' req' st' hnone hst =>
    have hreq : Function.update σ.requests r' (some (req', st')) r = some (req, st) := hreq
    rcases eq_or_ne r r' with rfl | hne
    · rw [Function.update_self] at hreq
      cases hreq
      refine (first_of_requestHandler hst hmethod htarget).imp_right ?_
      rintro ⟨username, passcode, hbody, rfl⟩
      exact ⟨username, passcode, hbody, course_first _ r req⟩
    · rw [Function.update_of_ne hne] at hreq
      exact hother hreq
  | @reply r' x req' st' _ hreq' hopen hh =>
    rcases eq_or_ne r r' with rfl | hne
    · have hsame : req' = req := by
        obtain ⟨st'', hkept, -⟩ := keeps_of_step (.reply hreq' hopen hh) hreq'
        rw [hreq] at hkept
        cases hkept
        rfl
      subst hsame
      rcases h r req' st' call hreq' hmethod htarget with ⟨resp, -, rfl⟩ |
        ⟨username, passcode, hbody, hold⟩
      · cases hopen
      · rcases hold.handled hh with hrequests | ⟨st'', hrequests, hcourse⟩
        · rw [hrequests] at hreq
          exact hother hreq
        · rw [hrequests, Function.update_self] at hreq
          cases hreq
          exact .inr ⟨username, passcode, hbody, hcourse⟩
    · have hrequests : σ'.requests r = σ.requests r := by
        rcases hh.rank hopen with ⟨-, hall⟩ | ⟨-, st'', hall, -⟩
        · rw [hall]
        · rw [hall, Function.update_of_ne hne]
      exact hother (hrequests ▸ hreq)

variable {rows : List Account} {workerId : UInt16}

theorem onCourse_of_reach {ok : State → Label → Prop}
    (h : Reach (step cfg) ok (init rows workerId) σ) : OnCourse cfg σ := by
  refine h.invariant ?_ fun _ _ _ hinv _ hs => hinv.step (step_cases hs)
  intro r req st call hreq
  cases hreq

/-- What is so when an event has been recorded: an account is inserted by the last step of its request,
which is answered with `200` or with the error that the database has reported, and a token is written for
its user. -/
def Recorded (σ : State) : Event → Prop
  | .registered r _ _ _ => ∃ req resp, σ.requests r = some (req, .done resp) ∧
      (resp = registerResponse req ∨ resp = serverError req "MySQL server error")
  | .command _ (.token token uid) => σ.cluster.redis.token token = some (toDecimal uid.toNat)
  | _ => True

/-- The step that records an event leaves the state as `Recorded` says. -/
theorem recorded_of_step (hin : InStep σ) (hs : Stepped cfg σ l σ') {e : Event}
    (he : e ∈ σ'.log) : e ∈ σ.log ∨ Recorded σ' e := by
  -- the event is an old one, the one recorded, or an answer
  have hrecord : ∀ {σ₁ : State} {e' : Event} {r req st},
      e ∈ ((σ₁.record e').goes r req st).log → σ₁.log = σ.log → Recorded σ' e' →
      e ∈ σ.log ∨ Recorded σ' e := by
    intro σ₁ e' r req st hmem hlog hrecorded
    rcases mem_record_goes hmem with hold | rfl | ⟨resp, rfl⟩
    · exact .inl (hlog ▸ hold)
    · exact .inr hrecorded
    · exact .inr trivial
  cases hs with
  | cluster | unread => exact .inl he
  | request => exact hrecord he rfl trivial
  | @reply r x req st _ hreq _ hh =>
    cases hh with
    | threw | lost | aborted => exact .inl he
    | refused | routed | stamped | drawn | counted | salted =>
      rcases mem_goes he with hold | ⟨resp, rfl⟩
      · exact .inl hold
      · exact .inr trivial
    | @inserted _ _ _ _ x hx =>
      refine hrecord he rfl ?_
      cases x with
      | done => exact ⟨req, _, Function.update_self .., .inl rfl⟩
      | unanswered => exact ⟨req, _, Function.update_self .., .inr rfl⟩
      | failed => cases hx
    | @token token uid addr κ hcluster =>
      -- the cluster knows the request as one that is about to make a token for the same user
      have hagrees := hin r
      rw [hreq] at hagrees
      have hloggedIn : σ.cluster.requests r = .loggedIn uid := hagrees
      refine hrecord he rfl ?_
      cases Cluster.step_cases hcluster with
      | registered hreq' =>
        rw [hloggedIn] at hreq'
        cases hreq'
        exact Function.update_self ..
    | _ => exact hrecord he rfl trivial

/-- The account is inserted by the last step of its request, and an answered request stays as it is.
-/
theorem registered_answered {ok : State → Label → Prop}
    (h : Reach (step cfg) ok (init rows workerId) σ) :
    ∀ r username passcode acc, .registered r username passcode acc ∈ σ.log →
      ∃ req resp, σ.requests r = some (req, .done resp) ∧
        (resp = registerResponse req ∨ resp = serverError req "MySQL server error") := by
  induction h with
  | refl =>
    intro r username passcode acc hmem
    cases hmem
  | tail hr _ hs ih =>
    intro r username passcode acc hmem
    have hstep := step_cases hs
    rcases recorded_of_step (inStep_of_reach hr) hstep hmem with hold | hnew
    · obtain ⟨req, resp, hreq, hresp⟩ := ih r username passcode acc hold
      obtain ⟨st', hreq', hst'⟩ := keeps_of_step hstep hreq
      rw [hst' rfl] at hreq'
      exact ⟨req, resp, hreq', hresp⟩
    · exact hnew

/-! ## Tokens

Between the answer to a login and the `VERIFY` at a backend the token is in Redis. It goes by expiry,
or is overwritten if a later login gets the same one; `keepsToken` excludes both for one token, and
for this token only. -/

variable {token : List UInt8}

/-- The request is about to write the token. -/
def writes (token : List UInt8) : Option (HttpRequest × Stage) → Bool
  | some (_, .token token' _ _) => token' = token
  | _ => false

/-- The token does not expire, and is not written again while it is there. -/
def keepsToken (token : List UInt8) (σ : State) : Label → Bool
  | .cluster (.expireToken token') => token' ≠ token
  | .reply r .redis => writes token (σ.requests r) = false ∨ σ.cluster.redis.token token = none
  | _ => true

/-- Only an expiry and a registration touch a token. -/
theorem token_of_clusterStep {ccfg : Cluster.Config} {κ κ' : Cluster.State} {cl : Cluster.Label}
    (h : Cluster.step ccfg κ cl = some κ') (hexpire : cl ≠ .expireToken token)
    (hregister : ∀ r, cl ≠ .registerUserToken r token) :
    κ'.redis.token token = κ.redis.token token := by
  have hserver : ∀ b l, cl = .server b l → κ'.redis.token token = κ.redis.token token := by
    rintro b l rfl
    obtain ⟨hr, κ₁, τ, -, hτ, rfl⟩ := Cluster.server_cases h
    exact congrFun (Backend.token_of_step hτ hr) token
  cases Cluster.step_cases h with
  | run | other => exact hserver _ _ rfl
  | created | attempted | kicked | expired | received | timedOut | trimQueue | trimCtl => rfl
  | @registered r uid token' =>
    have hne : token ≠ token' := by
      rintro rfl
      exact hregister r rfl
    exact Function.update_of_ne hne ..
  | @tokenExpired token' =>
    have hne : token ≠ token' := by
      rintro rfl
      exact hexpire rfl
    exact Function.update_of_ne hne ..

/-- A token that is there stays. -/
theorem token_of_gatewayStep (hs : Stepped cfg σ l σ') (hkeeps : keepsToken token σ l = true)
    {text : List UInt8} (hthere : σ.cluster.redis.token token = some text) :
    σ'.cluster.redis.token token = some text := by
  rw [← hthere]
  cases hs with
  | request | unread => rfl
  | cluster hl hcluster =>
    refine token_of_clusterStep hcluster ?_ ?_
    · rintro rfl
      exact of_decide_eq_true hkeeps rfl
    · rintro r rfl
      cases hl
  | reply hreq _ hh =>
    cases hh with
    | attempt hcluster | kick hcluster => exact token_of_clusterStep hcluster (by simp) (by simp)
    | token hcluster =>
      refine token_of_clusterStep hcluster (by simp) fun r heq => ?_
      cases heq
      rcases of_decide_eq_true hkeeps with hother | hnone
      · rw [hreq] at hother
        exact absurd rfl (of_decide_eq_false hother)
      · rw [hthere] at hnone
        cases hnone
    | _ => rfl

/-- Redis has the token for whom it was written. -/
def Held (token : List UInt8) (σ : State) : Prop :=
  ∀ r uid, .command r (.token token uid) ∈ σ.log →
    σ.cluster.redis.token token = some (toDecimal uid.toNat)

/-- A step writes the token for its user, or leaves it. -/
theorem Held.step (h : Held token σ) (hin : InStep σ) (hkeeps : keepsToken token σ l = true)
    (hs : Stepped cfg σ l σ') : Held token σ' := by
  intro r uid hmem
  rcases recorded_of_step hin hs hmem with hold | hnew
  · exact token_of_gatewayStep hs hkeeps (h r uid hold)
  · exact hnew

/-- In every run in which the token is kept. -/
theorem held_of_reach
    (h : Reach (step cfg) (fun σ l => keepsToken token σ l = true)
      (init rows workerId) σ) : Held token σ := by
  refine h.invariant_of inStep_of_reach ?_ fun _ _ _ hin hinv hkeeps hs =>
    Held.step hinv hin hkeeps (step_cases hs)
  intro r uid hmem
  cases hmem

/-- A backend accepts the token for its user, and for nobody else. -/
theorem accepts_iff {redis : Backend.Redis} {uid : UInt64}
    (h : redis.token token = some (toDecimal uid.toNat)) (u : UInt64) :
    Cluster.accepts redis token u = true ↔ u = uid := by
  simp only [Cluster.accepts, h, stoull_toDecimal, decide_eq_true_eq]
  exact eq_comm

end Chatroom.Gateway
