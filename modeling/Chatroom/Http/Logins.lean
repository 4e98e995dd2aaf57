import Chatroom.Http.Gateway

/-!
# Who gets in

Everything that the gateway does for a request goes back to the request: it commands Redis only for a
user whose password the request has shown, it answers once, and each answer but an error has its reason
in the history. Together with what the backends do with tokens, nobody has a verified session on any
backend as a user whose password nobody has shown to the gateway.
-/

namespace Chatroom.Gateway

open Trace History
open Cluster (ReqId)

variable {cfg : Config} {σ σ' : State} {l : Label} {r r' : ReqId} {req : HttpRequest} {st : Stage}
  {log log' : List Event} {uid : UInt64} {username passcode : List UInt8}

/-! ## The history

`Caused` says for each kind of event which events must have come before it. Read backwards from a
command
to Redis, this leads to the row that `Verify` has accepted, and from there to the request that has
shown the
password. The property of the module is that the whole history is justified in this sense. -/

/-- A `POST` to `/login`, or to `/register`, with these credentials. -/
structure Posts (cfg : Config) (req : HttpRequest) (target : String)
    (username passcode : List UInt8) : Prop where
  method : req.method = .post
  target : req.target = target
  body : cfg.parse req.body = .fields username passcode

/-- The request has shown a right password of the user. -/
def Admitted (log : List Event) (r : ReqId) (uid : UInt64) : Prop :=
  ∃ username passcode acc, .verified r username passcode acc ∈ log ∧ acc.uid = uid

def Command.user : Command → UInt64
  | .userInfo uid _ _ | .attempt uid | .token _ uid | .kick _ uid => uid

/-- The token and the kick come after the script. -/
def Command.second : Command → Bool
  | .token _ _ | .kick _ _ => true
  | _ => false

/-- What an answer says has happened. -/
inductive Answers (before : List Event) (r : ReqId) (req : HttpRequest) : Response → Prop
  | refused {resp} : resp.refuses = true → Answers before r req resp
  | ping : Answers before r req (pingLogic req)
  | login {token addr uid} : .command r (.token token uid) ∈ before →
      Answers before r req (loginResponse req token addr uid)
  | retry {oldServer uid} : .command r (.kick oldServer uid) ∈ before →
      Answers before r req (retryResponse req)
  | registered {username passcode acc} : .registered r username passcode acc ∈ before →
      Answers before r req (registerResponse req)

def Event.request : Event → ReqId
  | .began r _ | .verified r _ _ _ | .command r _ | .generated r _ | .registered r _ _ _
  | .answered r _ => r

/-- What has happened before an event. -/
def Caused (cfg : Config) (before : List Event) : Event → Prop
  | .began r _ => ∀ e ∈ before, e.request ≠ r
  | .verified r username passcode acc =>
      (∃ req, .began r req ∈ before ∧ Posts cfg req "/login" username passcode) ∧
        cfg.collate acc.username = cfg.collate username ∧
        Security.verify cfg.kdf passcode acc.passcode = .ok true
  | .command r cmd => Admitted before r cmd.user ∧
      (cmd.second = true → .command r (.attempt cmd.user) ∈ before)
  | .generated r _ => ∃ req username passcode, .began r req ∈ before ∧
      Posts cfg req "/register" username passcode
  | .registered r username passcode acc => .generated r acc.uid ∈ before ∧
      (∃ req, .began r req ∈ before ∧ Posts cfg req "/register" username passcode) ∧
        ∃ salt key, acc = newAccount cfg username passcode acc.uid salt key
  | .answered r resp => (∀ resp', .answered r resp' ∉ before) ∧
      ∃ req, .began r req ∈ before ∧ Answers before r req resp

/-! ## What is known of a request

Between two replies all that is left of a request is its stage. `StageOk` says what the history must
contain for a request to be at a stage: for a stage of a login behind the check of the password that
the
password was shown, for one of a registration that the uid was drawn for it, and so on. -/

/-- What the history says of a request that has come to a stage. -/
def StageOk (cfg : Config) (log : List Event) (r : ReqId) (req : HttpRequest) : Stage → Prop
  | .verify username passcode => Posts cfg req "/login" username passcode
  | .route uid _ => Admitted log r uid
  | .stamp uid _ _ => Admitted log r uid
  | .info uid _ _ _ => Admitted log r uid
  | .attempt uid _ => Admitted log r uid
  | .draw uid _ => Admitted log r uid ∧ .command r (.attempt uid) ∈ log
  | .token _ uid _ => Admitted log r uid ∧ .command r (.attempt uid) ∈ log
  | .kick _ uid => Admitted log r uid ∧ .command r (.attempt uid) ∈ log
  | .generate username passcode => Posts cfg req "/register" username passcode
  | .count username passcode uid =>
      Posts cfg req "/register" username passcode ∧ .generated r uid ∈ log
  | .salt username passcode uid =>
      Posts cfg req "/register" username passcode ∧ .generated r uid ∈ log
  | .insert username passcode uid codeHash =>
      (Posts cfg req "/register" username passcode ∧ .generated r uid ∈ log) ∧
        ∃ salt key, codeHash = (newAccount cfg username passcode uid salt key).passcode
  | .done _ => True

theorem Admitted.mono (h : Admitted log r uid) (hsub : log ⊆ log') : Admitted log' r uid := by
  obtain ⟨username, passcode, acc, hmem, huid⟩ := h
  exact ⟨username, passcode, acc, hsub hmem, huid⟩

/-- The history only grows. -/
theorem StageOk.mono (h : StageOk cfg log r req st) (hsub : log ⊆ log') :
    StageOk cfg log' r req st := by
  cases st with
  | route | stamp | info | attempt => exact Admitted.mono h hsub
  | draw | token | kick => exact ⟨Admitted.mono h.1 hsub, hsub h.2⟩
  | count | salt => exact ⟨h.1, hsub h.2⟩
  | insert => exact ⟨⟨h.1.1, hsub h.1.2⟩, h.2⟩
  | _ => exact h

/-! The invariant: requests that are not known have left no trace, those that are known are where the
history
says, and the history is justified. -/

structure RequestOk (cfg : Config) (σ : State) (r : ReqId) (req : HttpRequest) (st : Stage) : Prop where
  began : .began r req ∈ σ.log
  stage : StageOk cfg σ.log r req st
  unanswered : st.isDone = false → ∀ resp, .answered r resp ∉ σ.log

structure HistoryOk (cfg : Config) (σ : State) : Prop where
  fresh : ∀ r, σ.requests r = none → ∀ e ∈ σ.log, e.request ≠ r
  requests : ∀ r req st, σ.requests r = some (req, st) → RequestOk cfg σ r req st
  log : Justified (Caused cfg) σ.log

/-! ## Steps

A reply adds one event at most, of its own request, and moves the request on; the answer, if there is
one,
comes last. `Grown` describes the history before the answer is added, so that the stage and the answer
can
be justified from it in one place (`HistoryOk.goes`). -/

/-- Request `r` is open, and the history has grown by events of this request, none of them its answer. -/
structure Grown (cfg : Config) (σ σ₁ : State) (r : ReqId) (req : HttpRequest) : Prop where
  requests : σ₁.requests = σ.requests
  sub : σ.log ⊆ σ₁.log
  mine : ∀ e ∈ σ₁.log, e ∈ σ.log ∨ e.request = r ∧ ∀ resp, e ≠ .answered r resp
  caused : Justified (Caused cfg) σ₁.log
  began : .began r req ∈ σ₁.log
  unanswered : ∀ resp, .answered r resp ∉ σ.log

theorem Grown.not_answered {σ₁ : State} (h : Grown cfg σ σ₁ r req) (resp : Response) :
    .answered r resp ∉ σ₁.log := by
  intro hmem
  rcases h.mine _ hmem with hold | ⟨-, hne⟩
  · exact h.unanswered resp hold
  · exact hne resp rfl

/-- A request goes on to a stage where what is said of it is true. -/
theorem HistoryOk.goes (h : HistoryOk cfg σ) {σ₁ : State} (hg : Grown cfg σ σ₁ r req)
    (hstage : StageOk cfg σ₁.log r req st)
    (hanswer : ∀ resp, st = .done resp → Answers σ₁.log r req resp) :
    HistoryOk cfg (σ₁.goes r req st) := by
  have hsub₁ : σ₁.log ⊆ (σ₁.goes r req st).log := by
    rw [goes_log]
    exact List.subset_append_left _ _
  -- whatever is new in the history is of this request
  have hmine : ∀ e ∈ (σ₁.goes r req st).log, e ∈ σ.log ∨ e.request = r := by
    intro e he
    rw [goes_log, List.mem_append] at he
    rcases he with hmem | hmem
    · exact (hg.mine e hmem).imp_right And.left
    · obtain ⟨resp, -, rfl⟩ := mem_answer hmem
      exact .inr rfl
  have hreq : (σ₁.goes r req st).requests = Function.update σ.requests r (some (req, st)) := by
    rw [← hg.requests]
    rfl
  refine ⟨fun r' hr' e he heq => ?_, fun r' req' st' hr' => ?_, ?_⟩
  · rw [hreq] at hr'
    rcases eq_or_ne r' r with rfl | hne
    · rw [Function.update_self] at hr'
      cases hr'
    · rw [Function.update_of_ne hne] at hr'
      rcases hmine e he with hold | hmem
      · exact h.fresh r' hr' e hold heq
      · exact hne (heq.symm.trans hmem)
  · rw [hreq] at hr'
    rcases eq_or_ne r' r with rfl | hne
    · rw [Function.update_self] at hr'
      cases hr'
      refine ⟨hsub₁ hg.began, hstage.mono hsub₁, fun hdone resp hmem => ?_⟩
      rw [goes_log, List.mem_append] at hmem
      rcases hmem with hmem | hmem
      · exact hg.not_answered resp hmem
      · obtain ⟨resp', rfl, -⟩ := mem_answer hmem
        cases hdone
    · rw [Function.update_of_ne hne] at hr'
      -- another request: its reasons are still there, and none of the new events is its answer
      have hold := h.requests r' req' st' hr'
      have hsub : σ.log ⊆ (σ₁.goes r req st).log := List.Subset.trans hg.sub hsub₁
      refine ⟨hsub hold.began, hold.stage.mono hsub, fun hdone resp hmem => ?_⟩
      rcases hmine _ hmem with hmem | hmem
      · exact hold.unanswered hdone resp hmem
      · exact hne hmem
  · rw [goes_log]
    cases st with
    | done resp => exact hg.caused.concat ⟨hg.not_answered, req, hg.began, hanswer resp rfl⟩
    | _ => simpa only [answer, List.append_nil] using hg.caused

/-- The history has not grown. -/
theorem HistoryOk.grown (h : HistoryOk cfg σ) (hok : RequestOk cfg σ r req st)
    (hdone : st.isDone = false) : Grown cfg σ σ r req :=
  ⟨rfl, fun _ he => he, fun _ he => .inl he, h.log, hok.began, hok.unanswered hdone⟩

/-- It has grown by one event that has its causes. -/
theorem HistoryOk.grown_record (h : HistoryOk cfg σ) (hok : RequestOk cfg σ r req st)
    (hdone : st.isDone = false) {σ₁ : State} {e : Event} (hrequests : σ₁.requests = σ.requests)
    (hlog : σ₁.log = σ.log ++ [e]) (he : e.request = r) (hne : ∀ resp, e ≠ .answered r resp)
    (hcaused : Caused cfg σ.log e) : Grown cfg σ σ₁ r req := by
  have hsub : σ.log ⊆ σ₁.log := hlog ▸ List.subset_append_left _ _
  refine ⟨hrequests, hsub, fun e' hmem => ?_, hlog ▸ h.log.concat hcaused, hsub hok.began,
    hok.unanswered hdone⟩
  rw [hlog, List.mem_append, List.mem_singleton] at hmem
  rcases hmem with hold | rfl
  · exact .inl hold
  · exact .inr ⟨he, hne⟩

/-- A step that touches neither requests nor history. -/
theorem HistoryOk.congr (h : HistoryOk cfg σ) (hrequests : σ'.requests = σ.requests)
    (hlog : σ'.log = σ.log) : HistoryOk cfg σ' := by
  refine ⟨fun r hr => ?_, fun r req st hr => ?_, hlog ▸ h.log⟩
  · rw [hlog]
    exact h.fresh r (hrequests ▸ hr)
  · have hold := h.requests r req st (hrequests ▸ hr)
    exact ⟨hlog ▸ hold.began, hlog ▸ hold.stage, hlog ▸ hold.unanswered⟩

theorem mem_record {σ₁ : State} {e : Event} (hlog : σ₁.log = σ.log ++ [e]) : e ∈ σ₁.log := by
  rw [hlog]
  exact List.mem_append_right _ List.mem_cons_self

/-- **A reply**, by cases on what the handler makes of it. -/
theorem HistoryOk.handled (h : HistoryOk cfg σ) (hok : RequestOk cfg σ r req st)
    (hdone : st.isDone = false) {x : Reply} (hh : Handled cfg σ r req st x σ') : HistoryOk cfg σ' := by
  have hstage := hok.stage
  have hnone : ∀ {st' : Stage} {log : List Event}, st'.isDone = false →
      ∀ resp, st' = .done resp → Answers log r req resp := by
    rintro st' log hopen resp rfl
    cases hopen
  cases hh with
  | refused _ hrefuses =>
    refine h.goes (h.grown hok hdone) trivial fun resp hresp => ?_
    cases hresp
    exact .refused hrefuses
  | @verified username passcode acc first hacc hverify =>
    have hgrown : Grown cfg σ (σ.record (.verified r username passcode acc)) r req :=
      h.grown_record hok hdone rfl rfl rfl (fun _ => by simp)
        ⟨⟨req, hok.began, hstage⟩, (mem_of_mem_matching hacc).2, hverify⟩
    exact h.goes hgrown ⟨username, passcode, acc, mem_record rfl, rfl⟩ (hnone rfl)
  | threw | lost | aborted => exact h.congr rfl rfl
  | routed | stamped | drawn | counted => exact h.goes (h.grown hok hdone) hstage (hnone rfl)
  | @info uid username lastLogin addr =>
    have hgrown : Grown cfg σ (σ.record (.command r (.userInfo uid username lastLogin))) r req :=
      h.grown_record hok hdone rfl rfl rfl (fun _ => by simp)
        ⟨hstage, fun hsecond => by cases hsecond⟩
    exact h.goes hgrown (Admitted.mono hstage hgrown.sub) (hnone rfl)
  | @attempt uid addr cluster hcluster =>
    have hgrown : Grown cfg σ
        (State.record { σ with cluster := cluster } (.command r (.attempt uid))) r req :=
      h.grown_record hok hdone rfl rfl rfl (fun _ => by simp)
        ⟨hstage, fun hsecond => by cases hsecond⟩
    have hadmitted := Admitted.mono hstage hgrown.sub
    rcases attemptReturned_cases req uid addr ((σ.cluster.redis.location uid).getD []) with
      hst | ⟨oldServer, hst⟩ | hst <;> rw [hst]
    · exact h.goes hgrown ⟨hadmitted, mem_record rfl⟩ (hnone rfl)
    · exact h.goes hgrown ⟨hadmitted, mem_record rfl⟩ (hnone rfl)
    · refine h.goes hgrown trivial fun resp hresp => ?_
      cases hresp
      exact .refused rfl
  | @token token uid addr cluster hcluster =>
    have hgrown : Grown cfg σ
        (State.record { σ with cluster := cluster } (.command r (.token token uid))) r req :=
      h.grown_record hok hdone rfl rfl rfl (fun _ => by simp) ⟨hstage.1, fun _ => hstage.2⟩
    refine h.goes hgrown trivial fun resp hresp => ?_
    cases hresp
    exact .login (mem_record rfl)
  | @kick oldServer uid cluster hcluster =>
    have hgrown : Grown cfg σ
        (State.record { σ with cluster := cluster } (.command r (.kick oldServer uid))) r req :=
      h.grown_record hok hdone rfl rfl rfl (fun _ => by simp) ⟨hstage.1, fun _ => hstage.2⟩
    refine h.goes hgrown trivial fun resp hresp => ?_
    cases hresp
    exact .retry (mem_record rfl)
  | @generated username passcode uid gen readings hgen =>
    have hgrown : Grown cfg σ (State.record { σ with gen := gen } (.generated r uid)) r req :=
      h.grown_record hok hdone rfl rfl rfl (fun _ => by simp)
        ⟨req, username, passcode, hok.began, hstage⟩
    exact h.goes hgrown ⟨hstage, mem_record rfl⟩ (hnone rfl)
  | salted => exact h.goes (h.grown hok hdone) ⟨hstage, _, _, rfl⟩ (hnone rfl)
  | @inserted username passcode uid codeHash x hx =>
    obtain ⟨⟨hposts, hgenerated⟩, salt, key, rfl⟩ := hstage
    have hgrown : Grown cfg σ
        (State.record { σ with rows := σ.rows ++ [newAccount cfg username passcode uid salt key] }
          (.registered r username passcode (newAccount cfg username passcode uid salt key))) r req :=
      h.grown_record hok hdone rfl rfl rfl (fun _ => by simp)
        ⟨hgenerated, ⟨req, hok.began, hposts⟩, salt, key, rfl⟩
    -- the answer is a success, or the error that the database has reported
    cases x with
    | done =>
      refine h.goes hgrown trivial fun resp hresp => ?_
      cases hresp
      exact .registered (mem_record rfl)
    | unanswered =>
      refine h.goes hgrown trivial fun resp hresp => ?_
      cases hresp
      exact .refused rfl
    | failed => cases hx

/-- A new request begins at the stage that `RequestHandler` gives it. -/
theorem HistoryOk.request (h : HistoryOk cfg σ) (hnone : σ.requests r = none)
    (hst : requestHandler cfg.parse req = some st) :
    HistoryOk cfg ((σ.record (.began r req)).goes r req st) := by
  have hgrown : Grown cfg σ (σ.record (.began r req)) r req := by
    refine ⟨rfl, List.subset_append_left _ _, fun e he => ?_, h.log.concat (h.fresh r hnone),
      mem_record rfl, fun resp hmem => h.fresh r hnone _ hmem rfl⟩
    rcases List.mem_append.mp he with hold | hnew
    · exact .inl hold
    · cases List.mem_singleton.mp hnew
      exact .inr ⟨rfl, fun _ => by simp⟩
  cases begins_requestHandler hst with
  | login hmethod htarget hbody =>
    exact h.goes hgrown ⟨hmethod, htarget, hbody⟩ fun _ hresp => by cases hresp
  | register hmethod htarget hbody =>
    exact h.goes hgrown ⟨hmethod, htarget, hbody⟩ fun _ hresp => by cases hresp
  | ping =>
    refine h.goes hgrown trivial fun resp hresp => ?_
    cases hresp
    exact .ping
  | refused hrefuses =>
    refine h.goes hgrown trivial fun resp hresp => ?_
    cases hresp
    exact .refused hrefuses

theorem HistoryOk.step (h : HistoryOk cfg σ) (hs : Stepped cfg σ l σ') : HistoryOk cfg σ' := by
  cases hs with
  | request hnone hst => exact h.request hnone hst
  | reply hreq hdone hh => exact h.handled (h.requests _ _ _ hreq) hdone hh
  | cluster | unread => exact h.congr rfl rfl

variable {rows : List Account} {workerId : UInt16}

/-- And the run lemma, whatever the condition on the steps. -/
theorem historyOk_of_reach {ok : State → Label → Prop}
    (h : Reach (Gateway.step cfg) ok (init rows workerId) σ) : HistoryOk cfg σ := by
  refine h.invariant ?_ fun _ _ _ hinv _ hs => hinv.step (step_cases hs)
  refine ⟨fun r _ e he => ?_, fun r req st hr => ?_, justified_nil⟩
  · cases he
  · cases hr

/-- **The history of the gateway has its reasons**, however the requests interleave: a request has at
most one answer, Redis is commanded only for a user whose password the request has shown, the token and
the kick only after the script, and what is answered with `200` or `409` has happened. -/
theorem history_caused (cfg : Config) (rows : List Account) (workerId : UInt16) (σ : State)
    (h : Reach (Gateway.step cfg) anyStep (init rows workerId) σ) : Justified (Caused cfg) σ.log :=
  (historyOk_of_reach h).log

theorem history_caused_login : ∃ σ, Reach (Gateway.step exampleConfig) anyStep
    (init [exampleAccount] 0) σ ∧ Justified (Caused exampleConfig) σ.log ∧
    .answered 0 (loginResponse exampleLogin exampleToken [49] 7) ∈ σ.log := by
  have hrun : (run (Gateway.step exampleConfig) anyStep (init [exampleAccount] 0) (loggingIn 0)).any
      (fun σ => .answered 0 (loginResponse exampleLogin exampleToken [49] 7) ∈ σ.log) = true := by
    decide +kernel
  obtain ⟨σ, hreach, htest⟩ := exists_reach_of_run hrun
  exact ⟨σ, hreach, history_caused _ _ _ σ hreach, of_decide_eq_true htest⟩

/-! ## Sessions

From the gateway to the backends. A backend verifies a session only with a token that Redis maps to
the uid;
the cluster has only tokens that the gateway has registered; and the gateway registers one only for a
user
it has let in. -/

/-- The cluster around the gateway runs as the cluster does. -/
theorem cluster_of_reach {ok : State → Label → Prop}
    (h : Reach (Gateway.step cfg) ok (init rows workerId) σ) :
    Reach (Cluster.step cfg.cluster) anyStep Cluster.init σ.cluster := by
  induction h with
  | refl => exact .refl
  | tail _ _ hs ih =>
    rcases (step_cases hs).cluster_cases with hsame | ⟨cl, hcl, -⟩
    · rwa [hsame]
    · exact ih.tail trivial hcl

/-- The account that an event is about is in the table, and its registration has been answered. -/
def Event.Backed (σ : State) : Event → Prop
  | .verified _ _ _ acc => acc ∈ σ.rows
  | .registered r _ _ acc => acc ∈ σ.rows ∧ ∃ resp, .answered r resp ∈ σ.log
  | _ => True

theorem Event.Backed.mono {e : Event} (h : e.Backed σ) (hlog : σ.log ⊆ σ'.log)
    (hrows : σ.rows ⊆ σ'.rows) : e.Backed σ' := by
  cases e with
  | verified => exact hrows h
  | registered =>
    obtain ⟨hacc, resp, hresp⟩ := h
    exact ⟨hrows hacc, resp, hlog hresp⟩
  | _ => trivial

/-- An account that is verified was read from the table, and rows are not removed. -/
theorem backed_of_step (hs : Stepped cfg σ l σ') {e : Event} (he : e ∈ σ'.log) :
    e ∈ σ.log ∨ e.Backed σ' := by
  have hrecord : ∀ {σ₁ : State} {e' : Event} {r req st}, e ∈ ((σ₁.record e').goes r req st).log →
      σ₁.log = σ.log → e'.Backed σ' → e ∈ σ.log ∨ e.Backed σ' := by
    intro σ₁ e' r req st hmem hlog hbacked
    rcases mem_record_goes hmem with hold | rfl | ⟨resp, rfl⟩
    · exact .inl (hlog ▸ hold)
    · exact .inr hbacked
    · exact .inr trivial
  cases hs with
  | cluster | unread => exact .inl he
  | request => exact hrecord he rfl trivial
  | @reply _ _ req _ _ _ _ hh =>
    cases hh with
    | threw | lost | aborted => exact .inl he
    | refused | routed | stamped | drawn | counted | salted =>
      rcases mem_goes he with hold | ⟨resp, rfl⟩
      · exact .inl hold
      · exact .inr trivial
    | verified hacc => exact hrecord he rfl (mem_of_mem_matching hacc).1
    | @inserted _ _ _ _ x hx =>
      refine hrecord he rfl ⟨List.mem_append_right _ List.mem_cons_self, ?_⟩
      cases x with
      | done | unanswered => exact ⟨_, List.mem_append_right _ List.mem_cons_self⟩
      | failed => cases hx
    | _ => exact hrecord he rfl trivial

theorem backed_of_reach {ok : State → Label → Prop}
    (h : Reach (Gateway.step cfg) ok (init rows workerId) σ) : ∀ e ∈ σ.log, e.Backed σ := by
  induction h with
  | refl =>
    intro e he
    cases he
  | tail _ _ hs ih =>
    intro e he
    obtain ⟨hlog, hrows⟩ := (step_cases hs).grows
    rcases backed_of_step (step_cases hs) he with hold | hnew
    · exact (ih e hold).mono hlog hrows
    · exact hnew

/-- The tokens are those of users who have been let in. -/
def TokensEarned (σ : State) : Prop :=
  Cluster.TokensFrom (fun uid => ∃ r, Admitted σ.log r uid) σ.cluster

/-- A login script is run only for a request that has shown the password. -/
theorem TokensEarned.step (h : TokensEarned σ) (hhist : HistoryOk cfg σ) (hs : Stepped cfg σ l σ') :
    TokensEarned σ' := by
  have htokens : Cluster.TokensFrom (fun uid => ∃ r, Admitted σ.log r uid) σ'.cluster := by
    rcases hs.cluster_cases with hsame | ⟨cl, hcl, hattempt⟩
    · rw [hsame]
      exact h
    · refine Cluster.TokensFrom.step h hcl fun r uid hlogin => ?_
      obtain ⟨req, addr, hreq⟩ := hattempt r uid hlogin
      exact ⟨r, (hhist.requests r req _ hreq).stage⟩
  exact htokens.mono fun uid ⟨r, hr⟩ => ⟨r, hr.mono hs.grows.1⟩

theorem tokensEarned_of_reach {ok : State → Label → Prop}
    (h : Reach (Gateway.step cfg) ok (init rows workerId) σ) : TokensEarned σ :=
  h.invariant_of historyOk_of_reach Cluster.tokensFrom_init
    fun _ _ _ hhist hinv _ hs => TokensEarned.step hinv hhist (step_cases hs)

/-- **Nobody has a session that they have not logged in for**: whenever a session of some backend is
verified as that of a user, somebody has sent the gateway a login with the name of an account with this
uid, and a password that fits it. -/
theorem session_earned (cfg : Config) (rows : List Account) (workerId : UInt16) (σ : State)
    (h : Reach (Gateway.step cfg) anyStep (init rows workerId) σ) (b : OnlineStatus.ServerId)
    (s : Backend.SessId) (hv : ((σ.cluster.servers b).sessions s).verified = true) :
    ∃ r req username passcode, ∃ acc ∈ σ.rows, .began r req ∈ σ.log ∧
      Posts cfg req "/login" username passcode ∧
      acc.uid = ((σ.cluster.servers b).sessions s).userId ∧
      cfg.collate acc.username = cfg.collate username ∧
      Security.verify cfg.kdf passcode acc.passcode = .ok true := by
  obtain ⟨r, username, passcode, acc, hmem, huid⟩ :=
    Cluster.TokensFrom.verified (tokensEarned_of_reach h) (cluster_of_reach h) hv
  obtain ⟨before, hsub, ⟨req, hbegan, hposts⟩, hname, hverify⟩ :=
    (historyOk_of_reach h).log.of_mem hmem
  exact ⟨r, req, username, passcode, acc, backed_of_reach h _ hmem, hsub hbegan, hposts, huid, hname,
    hverify⟩

/-- The token of the login makes a session that of user 7. -/
theorem session_earned_login : ∃ σ, Reach (Gateway.step exampleConfig) anyStep
    (init [exampleAccount] 0) σ ∧ ((σ.cluster.servers 1).sessions 0).verified = true ∧
    ∃ r req username passcode, ∃ acc ∈ σ.rows, .began r req ∈ σ.log ∧
      Posts exampleConfig req "/login" username passcode ∧
      acc.uid = ((σ.cluster.servers 1).sessions 0).userId ∧
      exampleConfig.collate acc.username = exampleConfig.collate username ∧
      Security.verify exampleConfig.kdf passcode acc.passcode = .ok true := by
  have hrun : (run (Gateway.step exampleConfig) anyStep (init [exampleAccount] 0)
      (loggingIn 0 ++ (Cluster.starting 1 ++ Cluster.verifying 1 0 verifyFrame).map .cluster)).any
      (fun σ => ((σ.cluster.servers 1).sessions 0).verified) = true := by
    decide +kernel
  obtain ⟨σ, hreach, htest⟩ := exists_reach_of_run hrun
  exact ⟨σ, hreach, htest, session_earned _ _ _ σ hreach 1 0 htest⟩

end Chatroom.Gateway
