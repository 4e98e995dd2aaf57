import Chatroom.Cluster.State
import Chatroom.Server.Backend.Presence

/-!
# Whom a token makes

A session of a backend becomes that of a user by a token that Redis knows for the user, and only the
gateway writes tokens, for the users it has let in. So a property of all users that the gateway lets in
is a property of all users that have a verified session anywhere: `TokensFrom` is what the steps of the
cluster keep of it.
-/

namespace Chatroom.Backend

open Trace Threads

variable {cfg : Config} {σ σ' : State} {t : Tid} {a : Act} {new rest : List Act} {l : Label}
  {s : SessId} {uid : Uid} {log log' : List Event}

/-! ## On one backend

A session is verified on the answer of Redis, and the history of the backend has the answer. -/

/-- Redis has answered the uid to a token that session `s` presented. -/
def Confirmed (log : List Event) (s : SessId) (uid : Uid) : Prop :=
  ∃ n token text, .verifyUser s n token (some text) ∈ log ∧ stoull text = .ok uid

/-- The history only grows. -/
theorem Confirmed.mono (h : Confirmed log s uid) (hsub : ∀ e ∈ log, e ∈ log') :
    Confirmed log' s uid := by
  obtain ⟨n, token, text, hmem, htext⟩ := h
  exact ⟨n, token, text, hsub _ hmem, htext⟩

/-- The answer is recorded by the act that lets the session be verified. -/
theorem Exec.confirmed_new (h : Exec cfg t σ a σ' new) (hmem : .setVerified s uid ∈ new) :
    Confirmed σ'.log s uid := by
  have hfeeds := h.feeds hmem rfl
  cases h with
  | @verifyOk _ msg token _ text htoken htext =>
    cases List.mem_singleton.mp hmem
    refine ⟨msg, token, text, ?_, htext⟩
    rw [← htoken]
    exact List.mem_append_right _ List.mem_cons_self
  | verifyFailed => simp [Backend.verifyFailed, removeTempSession] at hmem
  | verifyCrash | crash => cases hmem
  | expand he =>
    cases hfeeds
    cases he
  | _ => cases hfeeds

structure ConfirmedOk (σ : State) : Prop where
  pending : ∀ s uid, .setVerified s uid ∈ σ.code worker → Confirmed σ.log s uid
  verified : ∀ s, (σ.sessions s).verified = true → Confirmed σ.log s (σ.sessions s).userId

theorem ConfirmedOk.run (h : ConfirmedOk σ) (hworker : WorkerOk σ) (hcode : σ.code t = a :: rest)
    (hex : Exec cfg t σ a σ' new) : ConfirmedOk { σ' with code := advance σ.code t new rest } := by
  have hsub : ∀ e ∈ σ.log, e ∈ σ'.log := fun e => hex.log_subset
  refine ⟨fun s uid hmem => ?_, fun s hv => ?_⟩
  · rcases mem_advance hcode hmem with ⟨-, hnew⟩ | hold
    · exact hex.confirmed_new hnew
    · exact (h.pending s uid hold).mono hsub
  · show Confirmed σ'.log s (σ'.sessions s).userId
    rcases hex.verified s with ⟨hsame, huid⟩ | ⟨uid, rfl, -, -, huid⟩
    · rw [huid]
      exact (h.verified s (hsame ▸ hv)).mono hsub
    · have ha := head_mem hcode
      rw [huid]
      exact (h.pending s uid (hworker.eq_worker ha rfl ▸ ha)).mono hsub

theorem ConfirmedOk.step (h : ConfirmedOk σ) (hworker : WorkerOk σ)
    (hs : Backend.step cfg σ l = some σ') : ConfirmedOk σ' := by
  by_cases hl : ∃ t, l = .run t
  · obtain ⟨t, rfl⟩ := hl
    cases step_cases hs with
    | run hcode hex => exact h.run hworker hcode hex
  · have hl : ∀ t, l ≠ .run t := fun t ht => hl ⟨t, ht⟩
    have hsub := log_of_not_run hs hl
    refine ⟨fun s uid hmem => ?_, fun s hv => ?_⟩
    · have hold := mem_of_not_run hs hl rfl (fun _ _ => by simp) hmem
      exact (h.pending s uid hold).mono fun _ he => hsub he
    · obtain ⟨-, -, hv', huid⟩ := sessions_of_not_run hs hl s
      rw [huid]
      exact (h.verified s (hv' ▸ hv)).mono fun _ he => hsub he

theorem confirmedOk_of_reach {ok : State → Label → Prop} (h : Reach (step cfg) ok init σ) :
    ConfirmedOk σ := by
  refine h.invariant_of (fun hr => (sound_of_reach hr).worker) ?_
    fun _ _ _ hk hinv _ hs => hinv.step hk hs
  refine ⟨fun s uid hmem => ?_, fun s hv => ?_⟩
  · cases eq_lock_of_mem_init hmem
  · cases hv

/-- What Redis answers to a token is what it holds. -/
theorem reply_of_mem_log (h : step cfg σ l = some σ') {n : MsgNode} {token : List UInt8}
    {reply : Option (List UInt8)} (hmem : .verifyUser s n token reply ∈ σ'.log) :
    .verifyUser s n token reply ∈ σ.log ∨ reply = σ.redis.token token := by
  rcases (step_cases h).cases_run with ⟨t, a, rest, σ₁, new, rfl, -, hex, rfl⟩ | hq
  · rcases hex.mem_log hmem with hold | hrec
    · exact .inl hold
    · cases hrec
      exact .inr rfl
  · rcases hq.log _ hmem with hold | ⟨s', msg, htaken⟩
    · exact .inl hold
    · cases htaken

end Chatroom.Backend

namespace Chatroom.Cluster

open Trace
open OnlineStatus (ServerId)
open Backend (Uid)

variable {cfg : Config} {σ σ' : State} {l : Label} {b : ServerId} {P Q : Uid → Prop}

/-! ## In the cluster

From the request of the gateway to Redis, and from there to the histories of the backends. The users
are any
predicate, so that the gateway can say what it knows of those it lets in. -/

/-- A text that stands for one of the users. -/
def Names (P : Uid → Prop) (text : List UInt8) : Prop := ∃ uid, P uid ∧ text = toDecimal uid.toNat

/-- Whoever has a token, is about to get one or has shown one is one of the users. -/
structure TokensFrom (P : Uid → Prop) (σ : State) : Prop where
  loggedIn : ∀ r uid, σ.requests r = .loggedIn uid → P uid
  tokens : ∀ token text, σ.redis.token token = some text → Names P text
  replies : ∀ b s n token text, .verifyUser s n token (some text) ∈ (σ.servers b).log → Names P text

/-- More users. -/
theorem TokensFrom.mono (h : TokensFrom P σ) (himp : ∀ uid, P uid → Q uid) : TokensFrom Q σ := by
  have hnames : ∀ text, Names P text → Names Q text := fun text ⟨uid, huid, htext⟩ =>
    ⟨uid, himp uid huid, htext⟩
  exact ⟨fun r uid hr => himp uid (h.loggedIn r uid hr),
    fun token text ht => hnames text (h.tokens token text ht),
    fun b s n token text hmem => hnames text (h.replies b s n token text hmem)⟩

/-- A request goes on, and only one that lets a user in needs a reason. -/
theorem TokensFrom.goes (h : TokensFrom P σ) {r : ReqId} {q : Request}
    (hq : ∀ uid, q = .loggedIn uid → P uid) : TokensFrom P (σ.goes r q) := by
  refine ⟨fun r' uid hr => ?_, h.tokens, h.replies⟩
  have hr : Function.update σ.requests r q r' = .loggedIn uid := hr
  rcases eq_or_ne r' r with rfl | hne
  · rw [Function.update_self] at hr
    exact hq uid hr
  · rw [Function.update_of_ne hne] at hr
    exact h.loggedIn r' uid hr

/-- A backend writes no tokens, and records the answers that Redis gives. -/
theorem TokensFrom.server (h : TokensFrom P σ) {l : Backend.Label}
    (hs : step cfg σ (.server b l) = some σ') : TokensFrom P σ' := by
  obtain ⟨hr, σ₁, τ, hread, hτ, rfl⟩ := server_cases hs
  obtain ⟨-, -, mq, ctl, rfl, -⟩ := read_cases hread
  refine ⟨h.loggedIn, fun token text ht => ?_, fun b' s n token text hmem => ?_⟩
  · have htoken : τ.redis.token = σ.redis.token := Backend.token_of_step hτ hr
    exact h.tokens token text (htoken ▸ ht)
  · have hmem : .verifyUser s n token (some text) ∈ (Function.update σ.servers b τ b').log := hmem
    rcases eq_or_ne b' b with rfl | hne
    · rw [Function.update_self] at hmem
      rcases Backend.reply_of_mem_log hτ hmem with hold | hreply
      · exact h.replies b' s n token text hold
      · exact h.tokens token text hreply.symm
    · rw [Function.update_of_ne hne] at hmem
      exact h.replies b' s n token text hmem

/-- **Tokens are handed on**, from the users that the gateway lets in. -/
theorem TokensFrom.step (h : TokensFrom P σ) (hs : Cluster.step cfg σ l = some σ')
    (hlogin : ∀ r uid, l = .userLoginAttempt r uid → P uid) : TokensFrom P σ' := by
  cases step_cases hs with
  | run | other => exact h.server hs
  | created =>
    apply TokensFrom.goes
    · exact ⟨h.loggedIn, h.tokens, h.replies⟩
    · intro u hu
      cases hu
      exact hlogin _ _ rfl
  | attempted _ hq =>
    refine h.goes fun u hu => ?_
    rw [(hq u hu).1]
    exact hlogin _ _ rfl
  -- the token is for the user whom the request has let in
  | @registered r uid token hreq =>
    apply TokensFrom.goes
    · refine ⟨h.loggedIn, fun token' text ht => ?_, h.replies⟩
      dsimp only at ht
      rcases eq_or_ne token' token with rfl | hne
      · rw [Function.update_self] at ht
        exact ⟨uid, h.loggedIn r uid hreq, (Option.some.inj ht).symm⟩
      · rw [Function.update_of_ne hne] at ht
        exact h.tokens token' text ht
    · intro u hu
      cases hu
  | kicked =>
    apply TokensFrom.goes
    · exact ⟨h.loggedIn, h.tokens, h.replies⟩
    · intro u hu
      cases hu
  | @tokenExpired token =>
    refine ⟨h.loggedIn, fun token' text ht => ?_, h.replies⟩
    dsimp only at ht
    rcases eq_or_ne token' token with rfl | hne
    · rw [Function.update_self] at ht
      cases ht
    · rw [Function.update_of_ne hne] at ht
      exact h.tokens token' text ht
  | expired | received | timedOut | trimQueue | trimCtl => exact ⟨h.loggedIn, h.tokens, h.replies⟩

/-- At first there are no tokens. -/
theorem tokensFrom_init : TokensFrom P init := by
  refine ⟨fun r uid h => ?_, fun token text h => ?_, fun b s n token text h => ?_⟩ <;> cases h

/-- Whoever a session is verified for is one of the users. -/
theorem TokensFrom.verified (h : TokensFrom P σ) {ok : State → Label → Prop}
    (hreach : Reach (Cluster.step cfg) ok init σ) {s : Backend.SessId}
    (hv : ((σ.servers b).sessions s).verified = true) : P ((σ.servers b).sessions s).userId := by
  obtain ⟨n, token, text, hmem, htext⟩ :=
    (Backend.confirmedOk_of_reach (server_of_reach hreach b)).verified s hv
  obtain ⟨uid, huid, rfl⟩ := h.replies b s n token text hmem
  rw [stoull_toDecimal] at htext
  cases htext
  exact huid

end Chatroom.Cluster
