import Chatroom.Cluster.State
import Chatroom.Lib.Streams

/-!
# The streams between the servers

A chat to a user on another server is added to the stream of that server by `SendToMsgQueue`, a kick to
its control stream by the gateway; the `MQHandler` of the server fetches both through a consumer group,
without acknowledgements. So each entry is dealt with at most once and in the order in which it was
added, whichever servers add entries in the meantime. Two things are lost: what `XADD` trims off an
overlong stream before it was fetched, and what was handed out in a reply that came too late.
-/

namespace Chatroom.Cluster

open scoped List
open Trace Streams
open OnlineStatus (ServerId sidText)
open Backend (Tid Act)

variable {cfg : Config} {σ σ' : State} {l : Label} {b : ServerId}

/-! ## What the steps do to the streams

The label of a step says what happens to the channels, and `Move` says it in the terms of the library.
From here
on the order of the entries is a matter of the library alone. -/

/-- What an event adds. -/
def additions : Option Event → Move (List UInt8) StreamItem
  | some (.appended sid item) => some (sid, .adds item)
  | _ => none

/-- What a step does to the streams of messages. -/
def mqMove (σ : State) : Label → Move (List UInt8) StreamItem
  | .server b (.call _ (.message item _)) => some (sidText b, .takes item)
  | .server b l => additions ((firstAct (σ.view b) l).bind (observed b (σ.view b)))
  | .recvFromMsgQueue b => some (sidText b, .fetches recvCount)
  | .recvTimeout b => some (sidText b, .misses recvCount)
  | .trimQueue sid n => some (sid, .trims n)
  | _ => none

/-- What a step does to the control streams. -/
def ctlMove (σ : State) : Label → Move (List UInt8) (List UInt8)
  | .server b (.call _ (.kick uidStr)) => some (sidText b, .takes uidStr)
  | .sendServerKickCmd r =>
    match σ.requests r with
    | .alreadyOnline oldServer uid => some (oldServer, .adds (toDecimal uid.toNat))
    | _ => none
  | .recvFromMsgQueue b => some (sidText b, .fetches recvCount)
  | .recvTimeout b => some (sidText b, .misses recvCount)
  | .trimCtl sid n => some (sid, .trims n)
  | _ => none

/-- `XADD` in the terms of the library. -/
theorem xadd_eq (mq : List UInt8 → Channel StreamItem) (e : Option Event) :
    xadd mq e = (additions e).apply mq := by
  cases e with
  | none => rfl
  | some e =>
    cases e with
    | appended sid item => exact (Move.apply_some mq sid (.adds item)).symm
    | _ => rfl

/-- The streams after a step. -/
structure Moved (σ σ' : State) (l : Label) : Prop where
  mq : σ'.mqChannel = (mqMove σ l).apply σ.mqChannel
  mqFits : (mqMove σ l).Fits σ.mqChannel
  ctl : σ'.ctlChannel = (ctlMove σ l).apply σ.ctlChannel
  ctlFits : (ctlMove σ l).Fits σ.ctlChannel

/-- Entries can always be added. -/
theorem fits_additions (mq : List UInt8 → Channel StreamItem) (e : Option Event) :
    (additions e).Fits mq := by
  unfold additions
  split
  · exact Move.fits_some trivial
  · exact Move.fits_none

/-- A backend adds what it forwards, and takes up what its `MQHandler` has fetched. -/
theorem moved_server {l : Backend.Label} (h : step cfg σ (.server b l) = some σ') :
    Moved σ σ' (.server b l) := by
  obtain ⟨-, σ₁, τ, hread, -, rfl⟩ := server_cases h
  cases l with
  | run t =>
    cases hread
    exact ⟨xadd_eq _ _, fits_additions _ _, rfl, Move.fits_none⟩
  | workerLoop =>
    cases hread
    exact ⟨rfl, Move.fits_none, rfl, Move.fits_none⟩
  | redis r => cases hread
  | call t e =>
    cases e with
    | kick uidStr =>
      obtain ⟨hhead, rfl⟩ := of_guard hread
      exact ⟨rfl, Move.fits_none, (Move.apply_some _ _ (.takes uidStr)).symm, Move.fits_some hhead⟩
    | message item fresh =>
      obtain ⟨hhead, rfl⟩ := of_guard hread
      exact ⟨(Move.apply_some _ _ (.takes item)).symm, Move.fits_some hhead, rfl, Move.fits_none⟩
    | _ =>
      cases hread
      exact ⟨rfl, Move.fits_none, rfl, Move.fits_none⟩

/-- **Every step does to the streams what its label says.** -/
theorem moved_of_step (h : step cfg σ l = some σ') : Moved σ σ' l := by
  cases l with
  | server b l => exact moved_server h
  | userLoginAttempt r uid =>
    simp only [step] at h
    split at h
    · cases h
      unfold userLoginAttempt
      split <;> exact ⟨rfl, Move.fits_none, rfl, Move.fits_none⟩
    · cases h
  | registerUserToken r token =>
    simp only [step] at h
    split at h
    · cases h
      exact ⟨rfl, Move.fits_none, rfl, Move.fits_none⟩
    · cases h
  -- the one step of the gateway that adds an entry
  | sendServerKickCmd r =>
    simp only [step] at h
    split at h
    · next oldServer uid hreq =>
      cases h
      have hmove : ctlMove σ (.sendServerKickCmd r) =
          some (oldServer, .adds (toDecimal uid.toNat)) := by
        rw [ctlMove, hreq]
      refine ⟨rfl, Move.fits_none, ?_, ?_⟩
      · rw [hmove, Move.apply_some]
        rfl
      · rw [hmove]
        exact Move.fits_some trivial
    · cases h
  | expireStatus | expireToken =>
    cases h
    exact ⟨rfl, Move.fits_none, rfl, Move.fits_none⟩
  -- one command for both streams
  | recvFromMsgQueue b =>
    obtain ⟨-, rfl⟩ := of_guard h
    exact ⟨(Move.apply_some _ _ (.fetches recvCount)).symm, Move.fits_some trivial,
      (Move.apply_some _ _ (.fetches recvCount)).symm, Move.fits_some trivial⟩
  | recvTimeout b =>
    obtain ⟨-, rfl⟩ := of_guard h
    exact ⟨(Move.apply_some _ _ (.misses recvCount)).symm, Move.fits_some trivial,
      (Move.apply_some _ _ (.misses recvCount)).symm, Move.fits_some trivial⟩
  | trimQueue sid n =>
    cases h
    exact ⟨(Move.apply_some _ _ (.trims n)).symm, Move.fits_some trivial, rfl, Move.fits_none⟩
  | trimCtl sid n =>
    cases h
    exact ⟨rfl, Move.fits_none, (Move.apply_some _ _ (.trims n)).symm, Move.fits_some trivial⟩

/-! ## What the servers have streamed

The history of a backend has its own account of what it has forwarded. It is the same as what the
cluster sees
being added. -/

/-- The entries that a backend has added to a stream. -/
def streamed (sid : List UInt8) (log : List Backend.Event) : List StreamItem :=
  log.filterMap fun
    | .streamed sid' item => if sid' = sid then some item else none
    | _ => none

theorem streamed_append (sid : List UInt8) (log log' : List Backend.Event) :
    streamed sid (log ++ log') = streamed sid log ++ streamed sid log' :=
  List.filterMap_append

variable {t : Tid} {a : Act} {β β' : Backend.State} {new : List Act} {sid : List UInt8}

/-- What a backend records is what the cluster sees of it. -/
theorem streamed_of_records {e : Backend.Event} (h : Backend.Records t β a e) :
    streamed sid [e] = (additions (observed b β a)).added sid := by
  cases h with
  | @streamed sid' s msg target hlen =>
    have hseen : observed b β (.sendToMsgQueue sid' s msg target) = some (.appended sid'
        (sendToMsgQueue (β.sessions s).userId target msg.chatText)) := if_neg (Nat.not_lt.mpr hlen)
    rw [hseen]
    rw [additions, Move.added_some, streamed, List.filterMap_cons]
    dsimp only
    split
    · next hnone =>
      split at hnone
      · cases hnone
      · next hne => rw [if_neg hne, List.filterMap_nil]
    · next hsome =>
      split at hsome
      · next heq =>
        cases hsome
        rw [if_pos heq, List.filterMap_nil]
        rfl
      · cases hsome
  | @verifyUser s msg token uid =>
    show [] = (additions (if accepts β.redis token uid then _ else _)).added sid
    split <;> rfl
  | posted | erasedSess | erasedTemp | pushed => rfl

/-- What the cluster sees, the backend records. -/
theorem additions_of_log_eq (h : Backend.Exec (cfg.backend b) t β a β' new) (hsame : β'.log = β.log) :
    additions (observed b β a) = none := by
  cases hseen : observed b β a with
  | none => rfl
  | some e =>
    cases observes_of_observed hseen with
    | @appended sid s msg target =>
      cases h with
      | sendToMsgQueue hlen =>
        exact absurd (congrArg List.length hsame) (by simp [Backend.State.record])
      | expand hexpand => cases hexpand
      | crash hcrash =>
        cases hcrash with
        | negativeLength hlen =>
          have hnone : observed b β (.sendToMsgQueue sid s msg target) = none := if_pos hlen
          rw [hnone] at hseen
          cases hseen
    | _ => rfl

/-- An act records what it adds. -/
theorem streamed_of_exec (h : Backend.Exec (cfg.backend b) t β a β' new) :
    streamed sid β'.log = streamed sid β.log ++ (additions (observed b β a)).added sid := by
  rcases h.log with hsame | ⟨e, hrec, hlog⟩
  · rw [additions_of_log_eq h hsame, hsame]
    exact (List.append_nil _).symm
  · rw [hlog, streamed_append, streamed_of_records hrec]

/-- The history of a backend grows by what its step adds to the streams. -/
theorem streamed_of_step {l : Backend.Label} (h : Backend.step (cfg.backend b) (σ.view b) l = some β) :
    streamed sid β.log = streamed sid (σ.servers b).log ++ (mqMove σ (.server b l)).added sid := by
  cases Backend.step_cases h with
  | @run t a rest β' new hcode hexec =>
    have hfirst : firstAct (σ.view b) (.run t) = some a := firstAct_run hcode
    show _ = _ ++ (additions ((firstAct (σ.view b) (.run t)).bind _)).added sid
    rw [hfirst]
    exact streamed_of_exec hexec
  | @take s msg =>
    show streamed sid ((σ.servers b).log ++ [.taken s msg]) = _
    rw [streamed_append]
    rfl
  | @call t e =>
    cases e with
    | message item fresh =>
      rw [mqMove, Move.added_eq_nil rfl, List.append_nil]
      rfl
    | _ => exact (List.append_nil _).symm
  | wait | leave | redis => exact (List.append_nil _).symm

/-! ## Whole runs

The taps record what was added, taken and lost at each stream; they are no part of the cluster and
change nothing
in it. -/

/-- The cluster, with what was added to the streams and what was read. -/
structure Monitored where
  cluster : State
  messages : Tap (List UInt8) StreamItem
  kicks : Tap (List UInt8) (List UInt8)

namespace Monitored

def init : Monitored := ⟨Cluster.init, .init, .init⟩

def step (cfg : Config) (m : Monitored) (l : Label) : Option Monitored :=
  (Cluster.step cfg m.cluster l).map fun σ =>
    ⟨σ, m.messages.record m.cluster.mqChannel (mqMove m.cluster l),
      m.kicks.record m.cluster.ctlChannel (ctlMove m.cluster l)⟩

end Monitored

/-- What is known of the streams. -/
structure StreamsOk (m : Monitored) : Prop where
  messages : ∀ sid, InOrder m.messages m.cluster.mqChannel sid
  kicks : ∀ sid, InOrder m.kicks m.cluster.ctlChannel sid
  /-- Each server's part of a stream, and that there is nothing else in it. -/
  parts : ∀ sid b, streamed sid (m.cluster.servers b).log <+ m.messages.added sid
  sources : ∀ sid, ∀ item ∈ m.messages.added sid, ∃ b, item ∈ streamed sid (m.cluster.servers b).log

/-- Only the servers add messages. -/
theorem added_of_not_server (hl : ∀ b l', l ≠ .server b l') : (mqMove σ l).added sid = [] := by
  cases l with
  | server b l' => exact absurd rfl (hl b l')
  | recvFromMsgQueue | recvTimeout | trimQueue => exact Move.added_eq_nil rfl _ _
  | _ => rfl

/-- Other steps leave the backends alone. -/
theorem servers_of_not_server (hl : ∀ b l', l ≠ .server b l') (h : step cfg σ l = some σ') :
    σ'.servers = σ.servers := by
  cases step_cases h with
  | run | other => exact absurd rfl (hl _ _)
  | _ => rfl

/-- The step of the invariant: the order by the library, the parts because the history of one backend
grows by what is added. -/
theorem StreamsOk.step {m m' : Monitored} (h : StreamsOk m) (hs : m.step cfg l = some m') :
    StreamsOk m' := by
  obtain ⟨σ', hcluster, rfl⟩ := Option.map_eq_some_iff.mp hs
  have hmoved := moved_of_step hcluster
  have hadded : ∀ sid, (m.messages.record m.cluster.mqChannel (mqMove m.cluster l)).added sid =
      m.messages.added sid ++ (mqMove m.cluster l).added sid := fun _ => rfl
  -- the histories of the servers: one grows by what is added, or none and nothing is
  have hlogs : (∃ b, (∀ sid, streamed sid (σ'.servers b).log =
        streamed sid (m.cluster.servers b).log ++ (mqMove m.cluster l).added sid) ∧
        ∀ b', b' ≠ b → σ'.servers b' = m.cluster.servers b') ∨
      σ'.servers = m.cluster.servers ∧ ∀ sid, (mqMove m.cluster l).added sid = [] := by
    by_cases hl : ∃ b l', l = .server b l'
    · obtain ⟨b, l', rfl⟩ := hl
      obtain ⟨-, σ₁, β, hread, hβ, rfl⟩ := server_cases hcluster
      obtain ⟨-, -, mq, ctl, rfl, -⟩ := read_cases hread
      refine .inl ⟨b, fun sid => ?_, fun b' hne => Function.update_of_ne hne ..⟩
      show streamed sid (Function.update m.cluster.servers b β b).log = _
      rw [Function.update_self, streamed_of_step hβ]
    · have hl' : ∀ b l', l ≠ .server b l' := fun b l' heq => hl ⟨b, l', heq⟩
      exact .inr ⟨servers_of_not_server hl' hcluster, fun sid => added_of_not_server hl'⟩
  refine ⟨fun sid => ?_, fun sid => ?_, fun sid b => ?_, fun sid item hitem => ?_⟩
  · show InOrder _ σ'.mqChannel sid
    rw [hmoved.mq]
    exact (h.messages sid).record hmoved.mqFits
  · show InOrder _ σ'.ctlChannel sid
    rw [hmoved.ctl]
    exact (h.kicks sid).record hmoved.ctlFits
  · show streamed sid (σ'.servers b).log <+ _
    rw [hadded]
    rcases hlogs with ⟨b', hgrows, hothers⟩ | ⟨hsame, -⟩
    · by_cases hb : b = b'
      · rw [hb, hgrows]
        exact (h.parts sid b').append (List.Sublist.refl _)
      · rw [hothers b hb]
        exact (h.parts sid b).trans (List.sublist_append_left _ _)
    · rw [hsame]
      exact (h.parts sid b).trans (List.sublist_append_left _ _)
  · change item ∈ (m.messages.record m.cluster.mqChannel (mqMove m.cluster l)).added sid at hitem
    rw [hadded, List.mem_append] at hitem
    show ∃ b, item ∈ streamed sid (σ'.servers b).log
    rcases hlogs with ⟨b', hgrows, hothers⟩ | ⟨hsame, hnone⟩
    · rcases hitem with hold | hnew
      · obtain ⟨b, hb⟩ := h.sources sid item hold
        by_cases heq : b = b'
        · exact ⟨b', by rw [hgrows]; exact List.mem_append_left _ (heq ▸ hb)⟩
        · exact ⟨b, by rw [hothers b heq]; exact hb⟩
      · exact ⟨b', by rw [hgrows]; exact List.mem_append_right _ hnew⟩
    · rw [hnone, or_iff_left List.not_mem_nil] at hitem
      rw [hsame]
      exact h.sources sid item hitem

open Backend (receiving waking)

end Chatroom.Cluster
