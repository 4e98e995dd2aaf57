import Chatroom.Cluster.State

/-!
# Where a chat message is sent

A message for a user who is not on the same server goes to the stream of the server that the entry of
the user names. The gateway writes an entry too, before any server has the user: it names the server
`unset`. A message routed in between is added to a stream that nobody reads. In every run without that,
messages go only to servers that had the user.
-/

namespace Chatroom.Cluster

open Trace Threads History Streams
open OnlineStatus (ServerId sidText unset)
open Backend (Uid Tid Act Redis)

variable {cfg : Config} {σ σ' : State} {l : Label} {b : ServerId}

/-- Server `sid` is a backend that has called `UpdateUserStatus` for the user. -/
def Hosted (log : List Event) (sid : List UInt8) (uid : Uid) : Prop :=
  ∃ b, sid = sidText b ∧ .updated b uid ∈ log

/-- A message is sent to a server that had the recipient. -/
def Routed (before : List Event) : Event → Prop
  | .appended sid item => ∃ uid : Uid, item.toStr = toDecimal uid.toNat ∧ Hosted before sid uid
  | _ => True

/-- Every message was sent to a server that had the recipient before, and every message that waits in
a stream waits for the `MQHandler` of a backend. -/
structure RoutesToServers (σ : State) : Prop where
  appended : Justified Routed σ.log
  read : ∀ sid, σ.mq sid ≠ [] → ∃ b, sid = sidText b

def locates (redis : Redis) : Act → Bool
  | .getUserLocation _ _ target => redis.location target ≠ some unset
  | _ => true

/-- `GetUserLocation` does not ask for a user who has logged in and is on no server yet. -/
def RoutesLocated (σ : State) : Label → Prop
  | .server b l => ∀ a ∈ firstAct (σ.view b) l, locates σ.redis a = true
  | _ => True

instance (σ : State) : ∀ l, Decidable (RoutesLocated σ l)
  | .server b l => inferInstanceAs (Decidable (∀ a ∈ firstAct (σ.view b) l, _))
  | .userLoginAttempt .. | .registerUserToken .. | .sendServerKickCmd .. | .expireStatus ..
  | .expireToken .. | .recvFromMsgQueue .. | .recvTimeout .. | .trimQueue .. | .trimCtl .. =>
    .isTrue trivial

/-! ## What a backend does with a message

The server that a message goes to is asked for in one act, and the message is added to its stream in a
later one.
The entry may have changed in between, so what is kept is that the server *had* the user. -/

def sends : Act → Bool
  | .sendToMsgQueue _ _ _ _ => true
  | _ => false

/-- The server that a message goes to is the one Redis has named. -/
theorem located_of_mem {bcfg : Backend.Config} {t : Tid} {τ τ' : Backend.State} {a : Act}
    {new : List Act} (h : Backend.Exec bcfg t τ a τ' new) {sid : List UInt8} {s : Backend.SessId}
    {msg : MsgNode} {target : Uid} (hb : .sendToMsgQueue sid s msg target ∈ new) :
    a = .getUserLocation s msg target ∧ τ.redis.location target = some sid := by
  have hnone : new.any sends = false → False := by
    intro hany
    exact List.any_eq_false.mp hany _ hb rfl
  cases h with
  | expand he =>
    cases he with
    | located hsid =>
      cases List.mem_singleton.mp hb
      exact ⟨rfl, hsid⟩
    | dispatch hd => cases hd <;> exact (hnone rfl).elim
    | _ => exact (hnone rfl).elim
  | pushSend hnew => rcases hnew with rfl | rfl <;> exact (hnone rfl).elim
  | _ => exact (hnone rfl).elim

/-- No server is called `unset`: the ids of servers are numbers. -/
theorem unset_ne_sidText (b : ServerId) : unset ≠ sidText b := by
  intro h
  have hmem : (117 : UInt8) ∈ sidText b := h ▸ (by decide +kernel : (117 : UInt8) ∈ unset)
  exact absurd (isDigit_of_mem_toDecimal hmem) (by decide)

/-! ## Entries

Entries come from the script of the gateway and from `UpdateUserStatus`, and from nowhere else. -/

/-- The history only grows. -/
theorem Hosted.mono {log log' : List Event} {sid : List UInt8} {uid : Uid} (h : Hosted log sid uid)
    (hsub : log ⊆ log') : Hosted log' sid uid := by
  obtain ⟨b, hsid, hmem⟩ := h
  exact ⟨b, hsid, hsub hmem⟩

/-- An entry names the server `unset`, or one that had the user. -/
def EntriesOk (σ : State) : Prop :=
  ∀ uid sid, σ.redis.location uid = some sid → sid = unset ∨ Hosted σ.log sid uid

/-- The entries after an act of a backend. -/
theorem EntriesOk.run (h : EntriesOk σ) {t : Tid} {a : Act} {τ τ' : Backend.State} {new : List Act}
    (hex : Backend.exec (cfg.backend b) t (σ.view b) a = some (τ, new))
    (hτ : τ'.redis = τ.redis) : EntriesOk (σ.put b τ' (observed b (σ.view b) a)) := by
  intro uid sid hloc
  change τ'.redis.location uid = some sid at hloc
  rw [hτ] at hloc
  have hkeep : σ.redis.location uid = some sid →
      sid = unset ∨ Hosted (σ.log ++ (observed b (σ.view b) a).toList) sid uid :=
    fun hold => (h uid sid hold).imp_right (·.mono (List.subset_append_left _ _))
  cases Backend.exec_online hex with
  | @updated uid₀ hredis =>
    rw [hredis] at hloc
    rcases eq_or_ne uid uid₀ with rfl | hne
    · simp only [Function.update_self, Option.some.injEq] at hloc
      exact .inr ⟨b, hloc.symm, List.mem_append_right _ List.mem_cons_self⟩
    · simp only [Function.update_of_ne hne] at hloc
      exact hkeep hloc
  | deleted hredis =>
    rw [hredis] at hloc
    dsimp only at hloc
    split at hloc
    · cases hloc
    · exact hkeep hloc
  | removed hredis | begun _ hredis | swapped hredis | other _ hredis =>
    rw [hredis] at hloc
    exact hkeep hloc

theorem EntriesOk.step (h : EntriesOk σ) (hs : Stepped cfg σ l σ') : EntriesOk σ' := by
  cases hs with
  | run _ hex => exact h.run hex rfl
  | @created r uid =>
    -- the one entry that names no server
    intro u sid hloc
    rcases eq_or_ne u uid with rfl | hne
    · simp only [State.goes, State.record, Function.update_self, Option.some.injEq] at hloc
      exact .inl hloc.symm
    · simp only [State.goes, State.record, Function.update_of_ne hne] at hloc
      exact (h u sid hloc).imp_right (·.mono (List.subset_append_left _ _))
  | @expired uid =>
    intro u sid hloc
    rcases eq_or_ne u uid with rfl | hne
    · simp [State.record] at hloc
    · simp only [State.record, Function.update_of_ne hne] at hloc
      exact (h u sid hloc).imp_right (·.mono (List.subset_append_left _ _))
  | other | attempted | registered | kicked | tokenExpired | received | timedOut | trimQueue | trimCtl =>
    exact h

/-- In every run, whatever the condition on the steps. -/
theorem entriesOk_of_reach {ok : State → Label → Prop} (h : Reach (step cfg) ok init σ) :
    EntriesOk σ := by
  refine h.invariant ?_ fun _ _ _ hinv _ hs => EntriesOk.step hinv (step_cases hs)
  intro uid sid hloc
  cases hloc

/-! ## Routing

`pending` bridges the two acts of a backend. -/

structure RoutingOk (σ : State) : Prop where
  pending : ∀ b t sid s msg target, .sendToMsgQueue sid s msg target ∈ (σ.servers b).code t →
    Hosted σ.log sid target
  appended : Justified Routed σ.log
  streams : ∀ sid, ∀ item ∈ σ.mq sid, ∃ b, sid = sidText b

theorem justified_toList {J : List Event → Event → Prop} {log : List Event} {e : Option Event}
    (h : Justified J log) (he : ∀ e' ∈ e, J log e') : Justified J (log ++ e.toList) := by
  cases e with
  | none => simpa using h
  | some e' => exact h.concat (he e' rfl)

/-- What is in a stream was there, or is added just now. -/
theorem mem_xadd {mq : List UInt8 → Channel StreamItem} {e : Option Event} {sid : List UInt8}
    {item : StreamItem} (h : item ∈ (xadd mq e sid).waiting) :
    item ∈ (mq sid).waiting ∨ e = some (.appended sid item) := by
  unfold xadd at h
  split at h
  · next sid' item' =>
    rcases eq_or_ne sid sid' with rfl | hne
    · rw [Function.update_self, Channel.waiting_add, List.mem_append, List.mem_singleton] at h
      rcases h with hold | rfl
      · exact .inl hold
      · exact .inr rfl
    · rw [Function.update_of_ne hne] at h
      exact .inl h
  · exact .inl h

/-- An act of a backend; the condition is used where it asks for the location. -/
theorem RoutingOk.run (h : RoutingOk σ) (hentries : EntriesOk σ) {t : Tid} {a : Act}
    {rest new : List Act} {τ : Backend.State} (hok : locates σ.redis a = true)
    (hcode : (σ.servers b).code t = a :: rest)
    (hex : Backend.exec (cfg.backend b) t (σ.view b) a = some (τ, new)) :
    RoutingOk (σ.put b { τ with code := advance (σ.servers b).code t new rest }
      (observed b (σ.view b) a)) := by
  have hevent : ∀ sid item, observed b (σ.view b) a = some (.appended sid item) →
      ∃ uid : Uid, item.toStr = toDecimal uid.toNat ∧ Hosted σ.log sid uid := by
    intro sid item he
    cases observes_of_observed he with
    | appended => exact ⟨_, rfl, h.pending b t _ _ _ _ (head_mem hcode)⟩
  refine ⟨?_, ?_, ?_⟩
  · intro b' t' sid s msg target hmem
    have hold : .sendToMsgQueue sid s msg target ∈ (σ.servers b').code t' →
        Hosted (σ.log ++ (observed b (σ.view b) a).toList) sid target :=
      fun hmem => (h.pending b' t' sid s msg target hmem).mono (List.subset_append_left _ _)
    dsimp only [State.put] at hmem
    rcases eq_or_ne b' b with rfl | hne
    · rw [Function.update_self] at hmem
      rcases mem_advance hcode hmem with ⟨-, hnew⟩ | hpending
      · -- the server was looked up just now, and is not `unset`
        obtain ⟨rfl, hloc⟩ := located_of_mem (Backend.exec_cases hex) hnew
        rcases hentries target sid hloc with rfl | hhosted
        · simp only [locates, decide_eq_true_eq] at hok
          exact absurd hloc hok
        · exact hhosted.mono (List.subset_append_left _ _)
      · exact hold hpending
    · rw [Function.update_of_ne hne] at hmem
      exact hold hmem
  · refine justified_toList h.appended fun e he => ?_
    cases e with
    | appended sid item => exact hevent sid item he
    | _ => trivial
  · intro sid item hitem
    rcases mem_xadd hitem with hold | he
    · exact h.streams sid item hold
    · obtain ⟨uid, -, b', hsid, -⟩ := hevent sid item he
      exact ⟨b', hsid⟩

/-- A step that records nothing. -/
theorem RoutingOk.congr (h : RoutingOk σ)
    (hcode : ∀ b t sid s msg target, .sendToMsgQueue sid s msg target ∈ (σ'.servers b).code t →
      .sendToMsgQueue sid s msg target ∈ (σ.servers b).code t)
    (hlog : σ'.log = σ.log) (hmq : ∀ sid, ∀ item ∈ σ'.mq sid, item ∈ σ.mq sid) : RoutingOk σ' := by
  refine ⟨fun b t sid s msg target hmem => ?_, ?_, fun sid item hitem => ?_⟩
  · rw [hlog]
    exact h.pending b t sid s msg target (hcode b t sid s msg target hmem)
  · rw [hlog]
    exact h.appended
  · exact h.streams sid item (hmq sid item hitem)

/-- An event that is no message. -/
theorem RoutingOk.record (h : RoutingOk σ) {e : Event} (he : Routed σ.log e)
    (hservers : σ'.servers = σ.servers) (hlog : σ'.log = σ.log ++ [e]) (hmq : σ'.mq = σ.mq) :
    RoutingOk σ' := by
  refine ⟨fun b t sid s msg target hmem => ?_, ?_, ?_⟩
  · rw [hservers] at hmem
    rw [hlog]
    exact (h.pending b t sid s msg target hmem).mono (List.subset_append_left _ _)
  · rw [hlog]
    exact h.appended.concat he
  · rw [hmq]
    exact h.streams

theorem RoutingOk.step (h : RoutingOk σ) (hentries : EntriesOk σ) (hok : RoutesLocated σ l)
    (hs : Stepped cfg σ l σ') : RoutingOk σ' := by
  cases hs with
  | @run b t a rest τ new hcode hex =>
    exact h.run hentries (hok a (firstAct_run hcode)) hcode hex
  | @other b l τ mq ctl hl hτ hmq =>
    refine h.congr ?_ rfl hmq
    intro b' t sid s msg target hmem
    dsimp only at hmem
    rcases eq_or_ne b' b with rfl | hne
    · rw [Function.update_self] at hmem
      exact Backend.mem_of_not_run hτ hl rfl (by simp) hmem
    · rwa [Function.update_of_ne hne] at hmem
  | created => exact h.record (e := .created _) trivial rfl rfl rfl
  | expired => exact h.record (e := .expired _) trivial rfl rfl rfl
  | attempted | registered | kicked | tokenExpired | trimCtl =>
    exact h.congr (fun _ _ _ _ _ _ hmem => hmem) rfl fun _ _ hitem => hitem
  | received hmq | timedOut hmq | trimQueue hmq =>
    exact h.congr (fun _ _ _ _ _ _ hmem => hmem) rfl hmq

theorem routingOk_init : RoutingOk init := by
  refine ⟨?_, justified_nil, ?_⟩
  · intro b t sid s msg target hmem
    cases Backend.eq_lock_of_mem_init hmem
  · intro sid item hitem
    cases hitem

/-- **Messages go only to servers that had the recipient**, in every run in which nobody writes to a
user between the login and the `VERIFY`. -/
theorem routesToServers_of_routesLocated (h : Reach (step cfg) RoutesLocated init σ) :
    RoutesToServers σ := by
  have hinv : RoutingOk σ := by
    refine h.invariant_of entriesOk_of_reach routingOk_init ?_
    exact fun _ _ _ hentries hinv hok hs => hinv.step hentries hok (step_cases hs)
  refine ⟨hinv.appended, fun sid hne => ?_⟩
  obtain ⟨item, hitem⟩ := List.exists_mem_of_ne_nil _ hne
  exact hinv.streams sid item hitem

open Backend (receiving waking)

/-- User 7 on server 1 writes to user 8 on server 2. -/
theorem routesToServers_hi : ∃ σ, Reach (step exampleConfig) RoutesLocated init σ ∧
    RoutesToServers σ ∧ (σ.mq (sidText 2)).length = 1 := by
  have hrun : (run (step exampleConfig) RoutesLocated init
      (loggingIn 0 7 [116] ++ starting 1 ++ verifying 1 0 Backend.verifyFrame ++
        loggingIn 1 8 [117] ++ starting 2 ++ verifying 2 0 verifyFrame8 ++
        onServer 1 (receiving 2 0 hiFrame8 ++ waking 10))).any
      (fun σ => (σ.mq (sidText 2)).length = 1) = true := by
    decide +kernel
  obtain ⟨σ, hreach, htest⟩ := exists_reach_of_run hrun
  exact ⟨σ, hreach, routesToServers_of_routesLocated hreach, by simpa using htest⟩

/-- User 7 writes to user 8, who has logged in and not reached a server yet. -/
theorem not_routesToServers_unset : ∃ σ, Reach (step exampleConfig) anyStep init σ ∧
    ¬ RoutesToServers σ ∧ (σ.mq unset).length = 1 := by
  have hrun : (run (step exampleConfig) anyStep init
      (loggingIn 0 7 [116] ++ starting 1 ++ verifying 1 0 Backend.verifyFrame ++
        loggingIn 1 8 [117] ++ onServer 1 (receiving 2 0 hiFrame8 ++ waking 10))).any
      (fun σ => (σ.mq unset).length = 1) = true := by
    decide +kernel
  obtain ⟨σ, hreach, htest⟩ := exists_reach_of_run hrun
  have hlen : (σ.mq unset).length = 1 := by simpa using htest
  refine ⟨σ, hreach, fun h => ?_, hlen⟩
  obtain ⟨b, hb⟩ := h.read unset (List.ne_nil_of_length_pos (by rw [hlen]; decide))
  exact unset_ne_sidText b hb

end Chatroom.Cluster
