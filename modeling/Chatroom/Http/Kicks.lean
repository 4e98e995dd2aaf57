import Chatroom.Cluster.Streams
import Chatroom.Http.Answers

/-!
# Who is sent away

A login of a user who is online makes the gateway write a kick to the control stream of the server where
the user is, and the `MQHandler` of that server closes the user's session. Nobody else writes there. So
what a server reads off its control stream are kicks that the gateway has ordered, each at most once and
in the order of the orders, and every order goes back to a login with the right password of that user.
-/

namespace Chatroom.Gateway

open scoped List
open Trace Streams
open Cluster (ReqId)
open OnlineStatus (ServerId sidText)

variable {cfg : Config} {σ σ' : State} {l : Label} {r : ReqId} {req : HttpRequest} {st : Stage}
  {sid : List UInt8} {rows : List Account} {workerId : UInt16}

/-- The uids that the gateway has written to a control stream. -/
def orders (sid : List UInt8) (log : List Event) : List (List UInt8) :=
  log.filterMap fun
    | .command _ (.kick oldServer uid) => if oldServer = sid then some (toDecimal uid.toNat) else none
    | _ => none

/-- The uid that a step reads off a control stream. -/
def kickRead (sid : List UInt8) : Label → List (List UInt8)
  | .cluster (.server b (.call _ (.kick uidStr))) => if sidText b = sid then [uidStr] else []
  | _ => []

/-! ## Orders and kicks

The orders are read off the history of the gateway, the kicks off the labels of a run. In between is
the
control stream, whose moves are those of `Streams`: entries are added at the end, and taken from the
front
or lost. -/

theorem orders_append (sid : List UInt8) (log log' : List Event) :
    orders sid (log ++ log') = orders sid log ++ orders sid log' :=
  List.filterMap_append

theorem orders_answer (sid : List UInt8) (r : ReqId) (st : Stage) : orders sid (answer r st) = [] := by
  cases st <;> rfl

/-- An answer is no order. -/
theorem orders_goes (σ : State) : orders sid (σ.goes r req st).log = orders sid σ.log := by
  rw [goes_log, orders_append, orders_answer, List.append_nil]

theorem orders_record_goes (σ : State) (e : Event) :
    orders sid ((σ.record e).goes r req st).log = orders sid σ.log ++ orders sid [e] := by
  rw [orders_goes]
  exact orders_append sid σ.log [e]

/-- The order of a kick is what the stream gets. -/
theorem orders_kick (r : ReqId) (oldServer : List UInt8) (uid : UInt64) :
    orders sid [.command r (.kick oldServer uid)] =
      Move.added (some (oldServer, .adds (toDecimal uid.toNat))) sid := by
  rw [Move.added_some, orders]
  by_cases hsid : oldServer = sid
  · simp only [List.filterMap_cons, List.filterMap_nil, if_pos hsid]
    rfl
  · simp only [List.filterMap_cons, List.filterMap_nil, if_neg hsid]

/-- An order is a command of the gateway. -/
theorem mem_orders {log : List Event} {text : List UInt8} (h : text ∈ orders sid log) :
    ∃ r uid, .command r (.kick sid uid) ∈ log ∧ text = toDecimal uid.toNat := by
  obtain ⟨e, he, htext⟩ := List.mem_filterMap.mp h
  split at htext
  · next r oldServer uid =>
    split at htext
    · next hsid =>
      cases htext
      exact ⟨r, uid, hsid ▸ he, rfl⟩
    · cases htext
  · cases htext

/-- Of the steps that are not the gateway's, one reads from a control stream and none writes to it. -/
theorem ctlMove_of_backend (κ : Cluster.State) {cl : Cluster.Label} (h : ofGateway cl = false) :
    (Cluster.ctlMove κ cl).taken sid = kickRead sid (.cluster cl) ∧
      (Cluster.ctlMove κ cl).added sid = [] := by
  cases cl with
  | server b bl =>
    cases bl with
    | call t e =>
      cases e with
      | kick uidStr => exact ⟨Move.taken_some _ _ _, Move.added_eq_nil rfl _ _⟩
      | _ => exact ⟨rfl, rfl⟩
    | _ => exact ⟨rfl, rfl⟩
  | sendServerKickCmd r => cases h
  | recvFromMsgQueue | recvTimeout | trimCtl =>
    refine ⟨?_, Move.added_eq_nil rfl _ _⟩
    rw [Cluster.ctlMove, Move.taken_some]
    exact ite_self _
  | _ => exact ⟨rfl, rfl⟩

/-- A command that is no kick leaves the control streams alone. -/
theorem ctl_of_step {κ κ' : Cluster.State} {cl : Cluster.Label}
    (h : Cluster.step cfg.cluster κ cl = some κ') (hrests : Cluster.ctlMove κ cl = none) :
    κ'.ctl = κ.ctl := by
  have hsame : κ'.ctlChannel = κ.ctlChannel := by
    rw [(Cluster.moved_of_step h).ctl, hrests]
    rfl
  funext sid
  rw [Cluster.State.ctl, hsame, Cluster.State.ctl]

/-- A step reads the front of a control stream, or lets an order be written at its end. -/
theorem kicks_of_step (hstep : InStep σ) (h : step cfg σ l = some σ') (sid : List UInt8) :
    ∃ new, orders sid σ'.log = orders sid σ.log ++ new ∧
      kickRead sid l ++ σ'.cluster.ctl sid <+ σ.cluster.ctl sid ++ new := by
  -- most steps leave the stream and the orders as they are
  have hquiet : ∀ {κ : Cluster.State}, κ.ctl = σ.cluster.ctl →
      κ.ctl sid <+ σ.cluster.ctl sid ++ [] := by
    intro κ hκ
    rw [hκ, List.append_nil]
  cases step_cases h with
  | request => exact ⟨[], orders_record_goes σ _, hquiet rfl⟩
  | unread => exact ⟨[], (List.append_nil _).symm, hquiet rfl⟩
  -- the other steps of the cluster take kicks off the stream, or lose them
  | @cluster cl κ hl hcluster =>
    have hmoved := Cluster.moved_of_step hcluster
    refine ⟨[], (List.append_nil _).symm, ?_⟩
    have hmove := Move.taken_append_sublist hmoved.ctlFits sid
    obtain ⟨htaken, hadded⟩ : (Cluster.ctlMove σ.cluster cl).taken sid = _ ∧ _ :=
      ctlMove_of_backend σ.cluster hl
    rw [htaken, hadded, ← hmoved.ctl] at hmove
    exact hmove
  | @reply r x req st _ hreq hopen hh =>
    have hagrees := hstep r
    rw [hreq] at hagrees
    cases hh with
    | refused | routed | stamped | drawn | counted | salted =>
      refine ⟨[], ?_, hquiet rfl⟩
      rw [orders_goes, List.append_nil]
    | threw | lost | aborted => exact ⟨[], (List.append_nil _).symm, hquiet rfl⟩
    | verified | info | generated | inserted => exact ⟨[], orders_record_goes _ _, hquiet rfl⟩
    | attempt hcluster | token hcluster =>
      exact ⟨[], orders_record_goes _ _, hquiet (ctl_of_step hcluster rfl)⟩
    | @kick oldServer uid κ hcluster =>
      have hmoved := Cluster.moved_of_step hcluster
      have hmove : Cluster.ctlMove σ.cluster (.sendServerKickCmd r) =
          some (oldServer, .adds (toDecimal uid.toNat)) := by
        have honline : σ.cluster.requests r = .alreadyOnline oldServer uid := hagrees
        rw [Cluster.ctlMove, honline]
      refine ⟨Move.added (some (oldServer, .adds (toDecimal uid.toNat))) sid, ?_, ?_⟩
      · rw [orders_record_goes, orders_kick]
      · have hsub := Move.taken_append_sublist hmoved.ctlFits sid
        rw [← hmoved.ctl, hmove, Move.taken_some] at hsub
        rwa [show (Action.adds (toDecimal uid.toNat)).taken = [] from rfl, ite_self] at hsub

/-- A run reads what was there, and what has been ordered since. -/
theorem kicks_of_run (sid : List UInt8) : ∀ {ls : List Label} {σ σ' : State}, InStep σ →
    run (step cfg) anyStep σ ls = some σ' → ∃ new, orders sid σ'.log = orders sid σ.log ++ new ∧
      ls.flatMap (kickRead sid) ++ σ'.cluster.ctl sid <+ σ.cluster.ctl sid ++ new
  | [], σ, σ', _, h => by
    cases h
    refine ⟨[], (List.append_nil _).symm, ?_⟩
    rw [List.append_nil]
    exact List.Sublist.refl _
  | l :: ls, σ, σ', hstep, h => by
    have h : (step cfg σ l).bind (fun σ₁ => run (step cfg) anyStep σ₁ ls) = some σ' := h
    obtain ⟨σ₁, hfirst, hrest⟩ := Option.bind_eq_some_iff.mp h
    obtain ⟨new₁, hlog₁, hread₁⟩ := kicks_of_step hstep hfirst sid
    obtain ⟨new₂, hlog₂, hread₂⟩ := kicks_of_run sid (hstep.step (step_cases hfirst)) hrest
    refine ⟨new₁ ++ new₂, ?_, ?_⟩
    · rw [hlog₂, hlog₁, List.append_assoc]
    · rw [List.flatMap_cons, List.append_assoc]
      refine ((List.Sublist.refl (kickRead sid l)).append hread₂).trans ?_
      rw [← List.append_assoc, ← List.append_assoc]
      exact hread₁.append (List.Sublist.refl new₂)

/-! ## Back to the login

A kick that was read is an order, an order is a command in the history, and the history is justified:
the
command goes back to a row that was verified, and to the request that has shown the password. -/

/-- Somebody has logged in with a right password of the user whose uid the text is. -/
def LoggedIn (cfg : Config) (σ : State) (text : List UInt8) : Prop :=
  ∃ r req username passcode, ∃ acc ∈ σ.rows, .began r req ∈ σ.log ∧
    Posts cfg req "/login" username passcode ∧ text = toDecimal acc.uid.toNat ∧
    cfg.collate acc.username = cfg.collate username ∧
    Security.verify cfg.kdf passcode acc.passcode = .ok true

/-- **Nobody is sent away without a login.** In every run, the kicks that the servers with an id read
are kicks that the gateway has ordered for that id, each read at most once and in order; and for each of
them somebody has logged in with the name of an account with this uid and a password that fits it. -/
theorem kicks_earned (cfg : Config) (rows : List Account) (workerId : UInt16) (ls : List Label)
    (σ : State) (h : run (step cfg) anyStep (init rows workerId) ls = some σ) (b : ServerId) :
    ls.flatMap (kickRead (sidText b)) ++ σ.cluster.ctl (sidText b) <+ orders (sidText b) σ.log ∧
      ∀ text ∈ ls.flatMap (kickRead (sidText b)), LoggedIn cfg σ text := by
  have hreach := reach_of_run h
  have hinit : InStep (init rows workerId) := fun _ => rfl
  obtain ⟨new, hlog, hread⟩ := kicks_of_run (sidText b) hinit h
  have hpart : ls.flatMap (kickRead (sidText b)) ++ σ.cluster.ctl (sidText b) <+
      orders (sidText b) σ.log := by
    rw [hlog]
    exact hread
  refine ⟨hpart, fun text htext => ?_⟩
  obtain ⟨r, uid, hcommand, rfl⟩ := mem_orders (hpart.subset (List.mem_append_left _ htext))
  have hhistory := (historyOk_of_reach hreach).log
  obtain ⟨before, hsub, ⟨username, passcode, acc, hverified, huid⟩, -⟩ := hhistory.of_mem hcommand
  obtain ⟨before', hsub', ⟨req, hbegan, hposts⟩, hname, hpass⟩ := hhistory.of_mem (hsub hverified)
  have hrow : acc ∈ σ.rows := backed_of_reach hreach _ (hsub hverified)
  have huid : acc.uid = uid := huid
  exact ⟨r, req, username, passcode, acc, hrow, hsub' hbegan, hposts, by rw [huid], hname, hpass⟩

/-- User 7 is on server 1 and logs in again; server 1 reads the kick. -/
def kicking : List Label :=
  loggingIn 0 ++ (Cluster.starting 1 ++ Cluster.verifying 1 0 verifyFrame).map .cluster ++
    .request 1 exampleLogin :: (attempting ++ [Reply.redis]).map (.reply 1) ++
    [.cluster (.recvFromMsgQueue 1), .cluster (.server 1 (.call 3 (.kick [55])))]

/-- The kick that server 1 has read, and the login behind it. -/
theorem kicks_earned_seven : ∃ σ, run (step exampleConfig) anyStep (init [exampleAccount] 0) kicking =
      some σ ∧ kicking.flatMap (kickRead (sidText 1)) = [[55]] ∧
    kicking.flatMap (kickRead (sidText 1)) ++ σ.cluster.ctl (sidText 1) <+ orders (sidText 1) σ.log ∧
    LoggedIn exampleConfig σ [55] := by
  have hrun : (run (step exampleConfig) anyStep (init [exampleAccount] 0) kicking).isSome = true := by
    decide +kernel
  obtain ⟨σ, hσ⟩ := Option.isSome_iff_exists.mp hrun
  have hread : kicking.flatMap (kickRead (sidText 1)) = [[55]] := by decide +kernel
  obtain ⟨hpart, hall⟩ := kicks_earned exampleConfig [exampleAccount] 0 kicking σ hσ 1
  refine ⟨σ, hσ, hread, hpart, hall [55] ?_⟩
  rw [hread]
  exact List.mem_singleton_self _

end Chatroom.Gateway
