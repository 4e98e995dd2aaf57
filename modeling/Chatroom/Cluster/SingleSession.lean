import Chatroom.Cluster.Routing
import Chatroom.Server.Backend.Presence

/-!
# One session for a user

The gateway lets a user in when there is no entry, and creates one. From then on the login is in one
hand after another: the request that makes the token, the token, and then the places of
`Backend.Place` on the server where the token was presented, until the deletion of the entry. So a user
has at most one session at a time, as long as no entry expires and nobody presents a token that was
accepted before. `VERIFY` does not use the token up, however, and the same token opens any number of
sessions.
-/

namespace Chatroom.Cluster

open Trace Threads Streams
open OnlineStatus (ServerId sidText unset)
open Backend (Uid Tid Act SessId Place)

variable {cfg : Config} {σ σ' : State} {l : Label} {b : ServerId} {uid : Uid}

/-- Session `s` of server `b` is one of the user, and up. -/
def Online (σ : State) (uid : Uid) (b : ServerId) (s : SessId) : Prop :=
  ((σ.servers b).sessions s).verified = true ∧ ((σ.servers b).sessions s).userId = uid ∧
    ((σ.servers b).sessions s).down = false

/-- A user has at most one session on all servers together. -/
def SingleSession (σ : State) : Prop :=
  ∀ uid b s b' s', Online σ uid b s → Online σ uid b' s' → b = b' ∧ s = s'

/-- The token was accepted for the user before. -/
def spent (log : List Event) (token : List UInt8) (uid : Uid) : Bool :=
  log.any fun
    | .accepted _ token' uid' => token' = token && uid' = uid
    | _ => false

def presentsNew (log : List Event) : Act → Bool
  | .verifyUser _ _ token uid => !spent log token uid
  | _ => true

/-- No entry expires, and no `VERIFY` presents a token that was accepted for the same user before. -/
def VerifiesOnce (σ : State) : Label → Prop
  | .server b l => ∀ a ∈ firstAct (σ.view b) l, presentsNew σ.log a = true
  | .expireStatus _ => False
  | _ => True

instance (σ : State) : ∀ l, Decidable (VerifiesOnce σ l)
  | .server b l => inferInstanceAs (Decidable (∀ a ∈ firstAct (σ.view b) l, _))
  | .expireStatus _ => .isFalse id
  | .userLoginAttempt .. | .registerUserToken .. | .sendServerKickCmd .. | .expireToken ..
  | .recvFromMsgQueue .. | .recvTimeout .. | .trimQueue .. | .trimCtl .. => .isTrue trivial

/-! ## Hands

The script of the gateway is atomic: of two logins of a user at the same time one creates the entry.
From there on
the argument is that of a baton which is handed on. Each hand is a condition on the state, and a step
takes the
baton from one hand to the next or leaves it. -/

/-- Where the login of a user can be. -/
inductive Hand where
  | request (r : ReqId)
  | token (token : List UInt8)
  | server (b : ServerId) (p : Place)

/-- The request is about to make the token; the token is good and not used; the user is at a place on a
server. -/
def Holds (σ : State) (uid : Uid) : Hand → Prop
  | .request r => σ.requests r = .loggedIn uid
  | .token token => accepts σ.redis token uid = true ∧ spent σ.log token uid = false
  | .server b p => Backend.At (σ.servers b) uid p

/-- The login of a user is in one hand, and in none when there is no entry. -/
structure HeldOk (uid : Uid) (σ : State) : Prop where
  single : ∀ h h', Holds σ uid h → Holds σ uid h' → h = h'
  absent : σ.redis.location uid = none → ∀ h, ¬ Holds σ uid h

/-- Nothing comes to any hand. -/
theorem HeldOk.stays (h : HeldOk uid σ) (hsub : ∀ x, Holds σ' uid x → Holds σ uid x)
    (hloc : σ'.redis.location uid = none → σ.redis.location uid = none) : HeldOk uid σ' := by
  refine ⟨fun x x' hx hx' => h.single x x' (hsub x hx) (hsub x' hx'), fun hnone x hx => ?_⟩
  exact h.absent (hloc hnone) x (hsub x hx)

/-- The login goes from hand to hand. -/
theorem HeldOk.goes (h : HeldOk uid σ) {x y : Hand} (hx : Holds σ uid x) (hgone : ¬ Holds σ' uid x)
    (hsub : ∀ z, Holds σ' uid z → z = y ∨ Holds σ uid z)
    (hloc : σ'.redis.location uid = none → σ.redis.location uid = none) : HeldOk uid σ' := by
  have honly : ∀ z, Holds σ' uid z → z = y := by
    intro z hz
    rcases hsub z hz with rfl | hold
    · rfl
    · rw [h.single z x hold hx] at hz
      exact absurd hz hgone
  refine ⟨fun z z' hz hz' => (honly z hz).trans (honly z' hz').symm, fun hnone => ?_⟩
  exact absurd hx (h.absent (hloc hnone) x)

/-- The login is over. -/
theorem HeldOk.ends (h : HeldOk uid σ) {x : Hand} (hx : Holds σ uid x) (hgone : ¬ Holds σ' uid x)
    (hsub : ∀ z, Holds σ' uid z → Holds σ uid z) : HeldOk uid σ' := by
  have hnone : ∀ z, ¬ Holds σ' uid z := by
    intro z hz
    rw [h.single z x (hsub z hz) hx] at hz
    exact hgone hz
  exact ⟨fun z _ hz => absurd hz (hnone z), fun _ => hnone⟩

/-! ## Steps of a backend

What a step of a backend does to a user on it is known from `Backend.Moves`. In the cluster the token
is the
hand before: a `VERIFY` takes it over, and the token is spent from then on. -/

theorem at_view {p : Place} : Backend.At (σ.view b) uid p ↔ Backend.At (σ.servers b) uid p := by
  cases p <;> rfl

/-- What it is to accept a token. -/
theorem accepts_iff {redis : Backend.Redis} {token : List UInt8} :
    accepts redis token uid = true ↔ ∃ text, redis.token token = some text ∧ stoull text = .ok uid := by
  unfold accepts
  constructor
  · intro h
    split at h
    · cases h
    · next text htext =>
      split at h
      · next answer hanswer =>
        rw [decide_eq_true_eq] at h
        exact ⟨text, htext, h ▸ hanswer⟩
      · cases h
  · rintro ⟨text, htext, huid⟩
    simp [htext, huid]

/-- What is spent stays spent. -/
theorem spent_append {log log' : List Event} {token : List UInt8}
    (h : spent (log ++ log') token uid = false) : spent log token uid = false := by
  rw [spent, List.any_append, Bool.or_eq_false_iff] at h
  exact h.1

section Put

variable {mq : List UInt8 → Channel StreamItem} {ctl : List UInt8 → Channel (List UInt8)}
  {τ : Backend.State} {e : Option Event} {x : Hand}

/-- What is in a hand after a step of backend `b` is at a place on it, or was in that hand before. -/
theorem holds_put (htoken : τ.redis.token = σ.redis.token)
    (hx : Holds (({ σ with mqChannel := mq, ctlChannel := ctl }).put b τ e) uid x) :
    Holds σ uid x ∨ ∃ p, x = .server b p ∧ Backend.At τ uid p := by
  cases x with
  | request r => exact .inl hx
  | token token =>
    obtain ⟨hacc, hspent⟩ := hx
    refine .inl ⟨?_, spent_append hspent⟩
    rw [accepts_iff] at hacc ⊢
    rw [← htoken]
    exact hacc
  | server b' p =>
    change Backend.At (Function.update σ.servers b τ b') uid p at hx
    rcases eq_or_ne b' b with rfl | hne
    · rw [Function.update_self] at hx
      exact .inr ⟨p, rfl, hx⟩
    · rw [Function.update_of_ne hne] at hx
      exact .inl hx

/-- The step brought the user to no place on the backend. -/
theorem holds_put_of_stays (htoken : τ.redis.token = σ.redis.token)
    (hstays : ∀ p, Backend.At τ uid p → Backend.At (σ.view b) uid p)
    (hx : Holds (({ σ with mqChannel := mq, ctlChannel := ctl }).put b τ e) uid x) : Holds σ uid x := by
  rcases holds_put htoken hx with hold | ⟨p, rfl, hp⟩
  · exact hold
  · exact at_view.mp (hstays p hp)

/-- The step brought the user to one place at most. -/
theorem holds_put_of_goes (htoken : τ.redis.token = σ.redis.token) {q : Place}
    (hgoes : ∀ p, Backend.At τ uid p → p = q ∨ Backend.At (σ.view b) uid p)
    (hx : Holds (({ σ with mqChannel := mq, ctlChannel := ctl }).put b τ e) uid x) :
    x = .server b q ∨ Holds σ uid x := by
  rcases holds_put htoken hx with hold | ⟨p, rfl, hp⟩
  · exact .inr hold
  · rcases hgoes p hp with rfl | hold
    · exact .inl rfl
    · exact .inr (at_view.mp hold)

end Put

/-- The cases of `Backend.Moves`, one hand each. -/
theorem HeldOk.server (h : HeldOk uid σ)
    (hord : ∀ b, (σ.view b).fault = none → Backend.Orderly (σ.view b)) {l : Backend.Label}
    (hok : VerifiesOnce σ (.server b l)) (hs : step cfg σ (.server b l) = some σ') : HeldOk uid σ' := by
  obtain ⟨hr, σ₁, τ, hread, hτ, rfl⟩ := server_cases hs
  obtain ⟨-, -, mq, ctl, rfl, -⟩ := read_cases hread
  have htoken : τ.redis.token = σ.redis.token := Backend.token_of_step hτ hr
  have hself : ∀ {p e}, Holds (({ σ with mqChannel := mq, ctlChannel := ctl }).put b τ e) uid (.server b p) →
      Backend.At τ uid p := by
    intro p e hp
    change Backend.At (Function.update σ.servers b τ b) uid p at hp
    rwa [Function.update_self] at hp
  have hmoves : Backend.Moves (σ.view b) τ uid l :=
    Backend.moves_step (hord b (Backend.fault_of_step hτ)) hτ hr
  cases hmoves with
  | stays hstays hloc =>
    exact h.stays (fun x hx => holds_put_of_stays htoken hstays hx) hloc
  | @goes _ p q hp hgone hgoes hloc =>
    exact h.goes (x := .server b p) (y := .server b q) (at_view.mp hp) (fun hx => hgone (hself hx))
      (fun z hz => holds_put_of_goes htoken hgoes hz) hloc
  | @accepts t s msg token text rest hcode htext huid hgoes hloc =>
    -- the token is good, was not accepted before, and now it has been
    have hacc : accepts σ.redis token uid = true := accepts_iff.mpr ⟨text, htext, huid⟩
    have hfirst : firstAct (σ.view b) (.run t) = some (.verifyUser s msg token uid) :=
      firstAct_run hcode
    have hnew : spent σ.log token uid = false := by
      have hpresents := hok _ hfirst
      simpa [presentsNew] using hpresents
    have hobserved : (firstAct (σ.view b) (.run t)).bind (observed b (σ.view b)) =
        some (.accepted b token uid) := by
      rw [hfirst]
      exact if_pos hacc
    refine h.goes (x := .token token) (y := .server b (.verifying s)) ⟨hacc, hnew⟩ ?_
      (fun z hz => holds_put_of_goes htoken hgoes hz) hloc
    rintro ⟨-, hspent⟩
    rw [hobserved] at hspent
    simp [State.put, spent] at hspent
  | @ends _ p hp hgone hends =>
    exact h.ends (x := .server b p) (at_view.mp hp) (fun hx => hgone (hself hx))
      fun z hz => holds_put_of_stays htoken hends hz

/-! ## Steps of the gateway

The request that has created the entry has the baton, and passes it to the token it makes. -/

/-- What is in a hand after a step of the gateway was there before, or is in the hand of a request or a
token that has changed. -/
theorem holds_gateway (hservers : σ'.servers = σ.servers) {log : List Event}
    (hlog : σ'.log = σ.log ++ log) {x : Hand} (hx : Holds σ' uid x) : Holds σ uid x ∨
      (∃ r, x = .request r ∧ σ'.requests r = .loggedIn uid ∧ σ'.requests r ≠ σ.requests r) ∨
      ∃ token text, x = .token token ∧ σ'.redis.token token = some text ∧ stoull text = .ok uid ∧
        σ'.redis.token token ≠ σ.redis.token token := by
  cases x with
  | request r =>
    by_cases hsame : σ'.requests r = σ.requests r
    · exact .inl (hsame.symm.trans hx)
    · exact .inr (.inl ⟨r, rfl, hx, hsame⟩)
  | token token =>
    obtain ⟨hacc, hspent⟩ := hx
    obtain ⟨text, htext, huid⟩ := accepts_iff.mp hacc
    by_cases hsame : σ'.redis.token token = σ.redis.token token
    · rw [hlog] at hspent
      exact .inl ⟨accepts_iff.mpr ⟨text, hsame.symm.trans htext, huid⟩, spent_append hspent⟩
    · exact .inr (.inr ⟨token, text, rfl, htext, huid, hsame⟩)
  | server b p =>
    change Backend.At (σ'.servers b) uid p at hx
    rw [hservers] at hx
    exact .inl hx

/-- What an update changes is the value at its index. -/
theorem eq_of_update_ne {α β : Type} [DecidableEq α] {f : α → β} {i j : α} {v : β}
    (h : Function.update f i v j ≠ f j) : j = i := by
  by_contra hne
  exact h (Function.update_of_ne hne ..)

/-- A request goes on, to something that is not the making of a token for the user; a token may
expire. -/
theorem HeldOk.request (h : HeldOk uid σ) {r : ReqId} {q : Request} (hq : q ≠ .loggedIn uid)
    (hservers : σ'.servers = σ.servers) (hlog : σ'.log = σ.log)
    (hlocation : σ'.redis.location = σ.redis.location)
    (htoken : ∀ token, σ'.redis.token token = σ.redis.token token ∨ σ'.redis.token token = none)
    (hrequests : σ'.requests = σ.requests ∨ σ'.requests = Function.update σ.requests r q) :
    HeldOk uid σ' := by
  refine h.stays (fun x hx => ?_) (by rw [hlocation]; exact id)
  rcases holds_gateway hservers (hlog.trans (List.append_nil _).symm) hx with
    hold | ⟨r', rfl, hreq, hne⟩ | ⟨token, text, rfl, htext, -, hne⟩
  · exact hold
  · rcases hrequests with hsame | hrequests
    · exact absurd (congrFun hsame r') hne
    · rw [hrequests] at hreq hne
      obtain rfl := eq_of_update_ne hne
      rw [Function.update_self] at hreq
      exact absurd hreq hq
  · rcases htoken token with hsame | hnone
    · exact absurd hsame hne
    · rw [hnone] at htext
      cases htext

/-- A login finds no entry, so that nobody has the user in hand. -/
theorem HeldOk.created (h : HeldOk uid σ) {r : ReqId} {u : Uid}
    (hnone : σ.redis.location u = none) (hservers : σ'.servers = σ.servers)
    (htoken : σ'.redis.token = σ.redis.token)
    (hlocation : σ'.redis.location = Function.update σ.redis.location u (some unset))
    (hlog : σ'.log = σ.log ++ [.created u])
    (hrequests : σ'.requests = Function.update σ.requests r (.loggedIn u)) : HeldOk uid σ' := by
  -- nothing but the request can have come to the user
  have hsub : ∀ x, Holds σ' uid x → x = .request r ∧ u = uid ∨ Holds σ uid x := by
    intro x hx
    rcases holds_gateway hservers hlog hx with
      hold | ⟨r', rfl, hreq, hne⟩ | ⟨token, text, rfl, -, -, hne⟩
    · exact .inr hold
    · rw [hrequests] at hreq hne
      obtain rfl := eq_of_update_ne hne
      rw [Function.update_self] at hreq
      cases hreq
      exact .inl ⟨rfl, rfl⟩
    · exact absurd (congrFun htoken token) hne
  rcases eq_or_ne u uid with rfl | hne
  · -- there was no entry, so nobody had the user before
    have honly : ∀ x, Holds σ' u x → x = .request r := by
      intro x hx
      rcases hsub x hx with ⟨heq, -⟩ | hold
      · exact heq
      · exact absurd hold (h.absent hnone x)
    refine ⟨fun x x' hx hx' => (honly x hx).trans (honly x' hx').symm, fun hloc => ?_⟩
    rw [hlocation, Function.update_self] at hloc
    cases hloc
  · refine h.stays (fun x hx => ?_) fun hloc => ?_
    · rcases hsub x hx with ⟨-, heq⟩ | hold
      · exact absurd heq hne
      · exact hold
    · rwa [hlocation, Function.update_of_ne (Ne.symm hne)] at hloc

/-- The token takes over from the request. -/
theorem HeldOk.registered (h : HeldOk uid σ) {r : ReqId} {u : Uid} {token : List UInt8}
    (hreq : σ.requests r = .loggedIn u) (hservers : σ'.servers = σ.servers)
    (htoken : σ'.redis.token = Function.update σ.redis.token token (some (toDecimal u.toNat)))
    (hlocation : σ'.redis.location = σ.redis.location) (hlog : σ'.log = σ.log)
    (hrequests : σ'.requests = Function.update σ.requests r (.answered (.ok token))) :
    HeldOk uid σ' := by
  have hanswered : σ'.requests r = .answered (.ok token) := by
    rw [hrequests, Function.update_self]
  -- nothing but the new token can have come to the user
  have hsub : ∀ x, Holds σ' uid x → x = .token token ∧ u = uid ∨ Holds σ uid x := by
    intro x hx
    rcases holds_gateway hservers (hlog.trans (List.append_nil _).symm) hx with
      hold | ⟨r', rfl, hlogged, hne⟩ | ⟨token', text, rfl, htext, huid, hne⟩
    · exact .inr hold
    · rw [hrequests] at hne
      obtain rfl := eq_of_update_ne hne
      rw [hanswered] at hlogged
      cases hlogged
    · rw [htoken] at htext hne
      obtain rfl := eq_of_update_ne hne
      rw [Function.update_self] at htext
      cases htext
      rw [stoull_toDecimal] at huid
      cases huid
      exact .inl ⟨rfl, rfl⟩
  have hloc : σ'.redis.location uid = none → σ.redis.location uid = none := by
    rw [hlocation]
    exact id
  rcases eq_or_ne u uid with rfl | hne
  · refine h.goes (x := .request r) (y := .token token) hreq (fun hx => ?_) (fun z hz => ?_) hloc
    · cases hanswered.symm.trans hx
    · exact (hsub z hz).imp_left And.left
  · refine h.stays (fun x hx => ?_) hloc
    rcases hsub x hx with ⟨-, heq⟩ | hold
    · exact absurd heq hne
    · exact hold

/-! ## The run

The invariant is for one user at a time, and the results for all users follow. -/

/-- No entry is the empty text. -/
theorem EntriesOk.ne_nil (h : EntriesOk σ) : σ.redis.location uid ≠ some [] := by
  intro hloc
  rcases h uid [] hloc with hunset | ⟨b, hsid, -⟩
  · exact absurd hunset (by decide +kernel)
  · exact toDecimal_ne_nil _ hsid.symm

theorem HeldOk.step (h : HeldOk uid σ)
    (hord : ∀ b, (σ.view b).fault = none → Backend.Orderly (σ.view b)) (hentries : EntriesOk σ)
    (hok : VerifiesOnce σ l) (hs : step cfg σ l = some σ') : HeldOk uid σ' := by
  cases l with
  | server b l => exact h.server hord hok hs
  | expireStatus u => exact hok.elim
  | userLoginAttempt r u =>
    cases step_cases hs with
    | created _ hnone => exact h.created hnone rfl rfl rfl rfl rfl
    | attempted _ hq =>
      refine h.request (r := r) (fun heq => ?_) rfl rfl rfl (fun _ => .inl rfl) (.inr rfl)
      exact hentries.ne_nil (hq uid heq).2
  | registerUserToken r token =>
    cases step_cases hs with
    | registered hreq => exact h.registered hreq rfl rfl rfl rfl rfl
  | sendServerKickCmd r =>
    cases step_cases hs
    exact h.request (q := .answered .retry) (by simp) rfl rfl rfl (fun _ => .inl rfl) (.inr rfl)
  | expireToken token =>
    cases step_cases hs
    refine h.request (r := 0) (q := .checked) (by simp) rfl rfl rfl (fun token' => ?_) (.inl rfl)
    rcases eq_or_ne token' token with rfl | hne
    · exact .inr (Function.update_self ..)
    · exact .inl (Function.update_of_ne hne ..)
  | recvFromMsgQueue | recvTimeout | trimQueue | trimCtl =>
    cases step_cases hs
    exact h.request (r := 0) (q := .checked) (by simp) rfl rfl rfl (fun _ => .inl rfl) (.inl rfl)

/-- At first there are no logins. -/
theorem heldOk_init : HeldOk uid init := by
  have hnone : ∀ x, ¬ Holds init uid x := by
    intro x hx
    cases x with
    | request r => cases hx
    | token token => cases hx.1
    | server b p =>
      cases p with
      | verifying s => cases Backend.eq_lock_of_mem_init hx
      | session s => cases hx.1
      | leaving =>
        rcases hx with ⟨s, hmem, -⟩ | hmem
        · cases Backend.eq_lock_of_mem_init hmem
        · cases Backend.eq_lock_of_mem_init hmem
      | removal => cases hx
      | erasing =>
        obtain ⟨t, us, hmem, -⟩ := hx
        cases Backend.eq_lock_of_mem_init hmem
  exact ⟨fun x _ hx => absurd hx (hnone x), fun _ => hnone⟩

/-- The run lemma. -/
theorem heldOk_of_verifiesOnce (h : Reach (step cfg) VerifiesOnce init σ) : HeldOk uid σ := by
  have hknown : ∀ {σ}, Reach (step cfg) VerifiesOnce init σ →
      (∀ b, (σ.view b).fault = none → Backend.Orderly (σ.view b)) ∧ EntriesOk σ := by
    intro σ hr
    refine ⟨fun b hfault => ?_, entriesOk_of_reach hr⟩
    exact Backend.orderly_of_reach
      (view_of_reach (fun _ _ => trivial) (server_of_reach hr b) hfault)
  refine h.invariant_of hknown heldOk_init ?_
  exact fun _ _ _ hk hinv hok hs => hinv.step hk.1 hk.2 hok hs

/-- **A user has one session at a time, on all servers together**, in every run in which no entry
expires and no token is presented again that was accepted for the user. -/
theorem singleSession_of_verifiesOnce (h : Reach (step cfg) VerifiesOnce init σ) :
    SingleSession σ := by
  intro uid b s b' s' hs hs'
  have hhand : ∀ b s, Online σ uid b s → Holds σ uid (.server b (.session s)) := by
    rintro b s ⟨hv, huid, hup⟩
    exact ⟨hv, huid, (Backend.noticeOk_of_reach (server_of_reach h b)).not_taken_of_up hup⟩
  have hone := (heldOk_of_verifiesOnce h).single _ _ (hhand b s hs) (hhand b' s' hs')
  cases hone
  exact ⟨rfl, rfl⟩

open Backend (waking)

/-- User 7 is on server 1 and logs in a second time. The session is kicked, its entry deleted, and the
third login brings the user to server 2. -/
theorem singleSession_kicked : ∃ σ, Reach (step exampleConfig) VerifiesOnce init σ ∧
    SingleSession σ ∧ σ.requests 1 = .answered .retry ∧
    ((σ.servers 2).sessions 0).verified = true ∧ σ.redis.location 7 = some (sidText 2) := by
  have hrun : (run (step exampleConfig) VerifiesOnce init
      (loggingIn 0 7 [116] ++ starting 1 ++ verifying 1 0 Backend.verifyFrame ++
        [.userLoginAttempt 1 7, .sendServerKickCmd 1, .recvFromMsgQueue 1] ++
        onServer 1 (.call 3 (.kick [55]) :: List.replicate 13 (.run 3) ++ waking 9) ++
        loggingIn 2 7 [118] ++ starting 2 ++ verifying 2 0 verifyFrameAgain)).any
      (fun σ => σ.requests 1 = .answered .retry ∧ ((σ.servers 2).sessions 0).verified = true ∧
        σ.redis.location 7 = some (sidText 2)) = true := by
    decide +kernel
  obtain ⟨σ, hreach, htest⟩ := exists_reach_of_run hrun
  exact ⟨σ, hreach, singleSession_of_verifiesOnce hreach, of_decide_eq_true htest⟩

/-- User 7 presents one token to two servers. -/
theorem not_singleSession_two_servers : ∃ σ, Reach (step exampleConfig) anyStep init σ ∧
    ¬ SingleSession σ ∧ .expired 7 ∉ σ.log := by
  have hrun : (run (step exampleConfig) anyStep init
      (loggingIn 0 7 [116] ++ starting 1 ++ verifying 1 0 Backend.verifyFrame ++
        starting 2 ++ verifying 2 0 Backend.verifyFrame)).any
      (fun σ => (((σ.servers 1).sessions 0).verified = true ∧
        ((σ.servers 1).sessions 0).userId = 7 ∧ ((σ.servers 1).sessions 0).down = false) ∧
        (((σ.servers 2).sessions 0).verified = true ∧
        ((σ.servers 2).sessions 0).userId = 7 ∧ ((σ.servers 2).sessions 0).down = false) ∧
        .expired 7 ∉ σ.log) = true := by
    decide +kernel
  obtain ⟨σ, hreach, htest⟩ := exists_reach_of_run hrun
  obtain ⟨h₁, h₂, hlog⟩ := of_decide_eq_true htest
  refine ⟨σ, hreach, fun h => ?_, hlog⟩
  have hsame := h 7 1 0 2 0 h₁ h₂
  exact absurd hsame.1 (by decide)

end Chatroom.Cluster
