import Chatroom.Lib.InOrder
import Chatroom.Server.Backend.Authenticity

/-!
# Chats keep their order

Between the socket of the sender and the send queue of the recipient, or the stream of another server,
a chat goes through the queue of `MsgHandler`. The worker takes the frames in the order in which they
were posted, whichever sessions they came from, and finishes one before it takes the next. So what it
delivers goes back to the frames it took: in their order, and no frame is delivered twice.

This holds in every run. What it does not say is that every chat is delivered: the recipient may be
nowhere, and the worker may stop.
-/

namespace Chatroom.Backend

open List (SublistForall₂)
open Trace Threads

variable {cfg : Config} {σ σ' : State} {t : Tid} {a : Act} {new rest : List Act} {l : Label}
  {s : SessId} {n : MsgNode} {log log' : List Event} {sessions sessions' : SessId → SessionState}

/-! ## What goes in and what comes out

Three lists read off the history: the frames posted, those taken, and what was delivered. The queue is
the
difference of the first two; the third goes back to the second, element by element and in order, which
is
`SublistForall₂`. -/

/-- The frames queued for the worker so far, and those it has taken. -/
def posts (log : List Event) : List (SessId × MsgNode) :=
  log.filterMap fun | .posted s n => some (s, n) | _ => none

def takes (log : List Event) : List (SessId × MsgNode) :=
  log.filterMap fun | .taken s (some n) => some (s, n) | _ => none

/-- The frames among the events that wait. -/
def queued (queue : List (SessId × Option MsgNode)) : List (SessId × MsgNode) :=
  queue.filterMap fun | (s, some n) => some (s, n) | _ => none

/-- A chat leaves `MsgHandler` on the send queue of a session, or on the stream of a server. -/
inductive Delivery where
  | push (s : SessId) (out : MsgNode)
  | stream (sid : List UInt8) (item : StreamItem)
  deriving DecidableEq, Repr

/-- What an event delivers: the greeting is no chat, and the other threads deliver what comes from the
message queue. -/
def delivery (host : ByteOrder) : Event → Option Delivery
  | .pushed t s out =>
    if t = worker ∧ out.getTagField host = TagType.chatMsgToCli.val then some (.push s out) else none
  | .streamed sid item => some (.stream sid item)
  | _ => none

def deliveries (host : ByteOrder) (log : List Event) : List Delivery :=
  log.filterMap (delivery host)

/-- The frame is a chat of a verified session. -/
structure ChatOf (host : ByteOrder) (sessions : SessId → SessionState) (s : SessId) (n : MsgNode) :
    Prop where
  chat : n.getTagField host = TagType.chatMsg.val
  verified : (sessions s).verified = true

/-- `d` delivers the frame `n` of session `s`: to a session of the user it names, or with this user as
the recipient, and with the user of `s` as the sender. -/
def FromChat (host : ByteOrder) (sessions : SessId → SessionState) (d : Delivery)
    (p : SessId × MsgNode) : Prop :=
  ChatOf host sessions p.1 p.2 ∧
    match d with
    | .push s' out => out = p.2.toCliInPlace host (sessions p.1).userId ∧
        (sessions s').verified = true ∧ (sessions s').userId = p.2.targetUid host
    | .stream _ item =>
        item = Chatroom.sendToMsgQueue (sessions p.1).userId (p.2.targetUid host) p.2.chatText

theorem ChatOf.mono {host : ByteOrder} (h : ChatOf host sessions s n)
    (hkeep : KeepsVerified sessions sessions') : ChatOf host sessions' s n :=
  ⟨h.chat, (hkeep s h.verified).1⟩

/-- Who has sent a chat and who has got it does not change later. -/
theorem FromChat.mono {host : ByteOrder} {d : Delivery} {p : SessId × MsgNode}
    (h : FromChat host sessions d p) (hkeep : KeepsVerified sessions sessions') :
    FromChat host sessions' d p := by
  obtain ⟨hchat, hd⟩ := h
  refine ⟨hchat.mono hkeep, ?_⟩
  cases d with
  | push s' out =>
    obtain ⟨hout, hv, hu⟩ := hd
    exact ⟨(hkeep p.1 hchat.verified).2.symm ▸ hout, (hkeep s' hv).1, (hkeep s' hv).2.trans hu⟩
  | stream sid item => exact (hkeep p.1 hchat.verified).2.symm ▸ hd

theorem posts_concat (log : List Event) (e : Event) : posts (log ++ [e]) = posts log ++ posts [e] :=
  List.filterMap_append

theorem takes_concat (log : List Event) (e : Event) : takes (log ++ [e]) = takes log ++ takes [e] :=
  List.filterMap_append

/-- An event delivers one chat at most. -/
theorem deliveries_concat (host : ByteOrder) (log : List Event) (e : Event) :
    deliveries host (log ++ [e]) = deliveries host log ++ (delivery host e).toList := by
  rw [deliveries, List.filterMap_append, List.filterMap_cons]
  cases delivery host e <;> rfl

/-! ## The act that will deliver

Between taking a frame and delivering it the worker has exactly one act that carries the frame on:
`processor`, `dispatch`, the lookups, and at last a push or an entry of a stream. That there is never
a
second one is why no frame is delivered twice. -/

/-- The acts on the way of a frame from the queue to its delivery. -/
def Act.carriesChat (host : ByteOrder) : Act → Bool
  | .processor _ (some _) | .dispatch _ _ | .chatFind _ _ _ | .getUserLocation _ _ _
  | .sendToMsgQueue _ _ _ _ | .deliver _ _ _ | .mqMsg _ _ | .mqFind _ _ => true
  | .pushSend _ out => out.getTagField host = TagType.chatMsgToCli.val
  | _ => false

/-- What is known of such an act while the worker processes the frame `n` of session `s`. -/
def Act.Carries (host : ByteOrder) (sessions : SessId → SessionState) (s : SessId) (n : MsgNode) :
    Act → Prop
  | .processor s' (some n') => (s', n') = (s, n)
  | .dispatch s' n' => (s', n') = (s, n)
  | .chatFind s' n' target => (s', n') = (s, n) ∧ ChatOf host sessions s n ∧ target = n.targetUid host
  | .getUserLocation s' n' target =>
      (s', n') = (s, n) ∧ ChatOf host sessions s n ∧ target = n.targetUid host
  | .sendToMsgQueue _ s' n' target =>
      (s', n') = (s, n) ∧ ChatOf host sessions s n ∧ target = n.targetUid host
  | .deliver s' n' d => (s', n') = (s, n) ∧ ChatOf host sessions s n ∧
      (sessions d).verified = true ∧ (sessions d).userId = n.targetUid host
  | .pushSend d out => out.getTagField host = TagType.chatMsgToCli.val →
      FromChat host sessions (.push d out) (s, n)
  | .mqMsg _ _ => False
  | .mqFind _ _ => False
  | _ => True

/-- Of acts that are not on the way nothing is said. -/
theorem carries_of_any {host : ByteOrder} (h : new.any (Act.carriesChat host) = false) :
    ∀ b ∈ new, b.Carries host sessions s n := by
  refine forall_of_any (fun b hb => ?_) h
  cases b with
  | pushSend d out => exact fun htag => absurd htag (of_decide_eq_false hb)
  | processor s' msg =>
    cases msg with
    | none => trivial
    | some n' => cases hb
  | dispatch | chatFind | getUserLocation | sendToMsgQueue | deliver | mqMsg | mqFind => cases hb
  | _ => trivial

/-- What an act carries is not changed by others. -/
theorem Act.Carries.mono {host : ByteOrder} (h : a.Carries host sessions s n)
    (hkeep : KeepsVerified sessions sessions') : a.Carries host sessions' s n := by
  cases a with
  | processor s' msg =>
    cases msg with
    | none => trivial
    | some n' => exact h
  | chatFind | getUserLocation | sendToMsgQueue => exact ⟨h.1, h.2.1.mono hkeep, h.2.2⟩
  | deliver s' n' d =>
    obtain ⟨heq, hchat, hv, hu⟩ := h
    exact ⟨heq, hchat.mono hkeep, (hkeep d hv).1, (hkeep d hv).2.trans hu⟩
  | pushSend d out => exact fun htag => FromChat.mono (h htag) hkeep
  | _ => exact h

/-- The greeting is not on the way to a delivery. -/
theorem carriesChat_welcome {host : ByteOrder}
    (h : MsgNode.ofContent host (fun _ => 0) welcomeText TagType.verifyDone.val = .ok n) :
    (send s n).any (Act.carriesChat host) = false := by
  simp [send, Act.carriesChat, welcome_tag h, TagType.val]

/-- A branch of `Processor` carries on the frame it was called for. -/
theorem Expands.carries (h : Expands cfg σ a new) (hsess : SessUid σ)
    (ha : a.Carries cfg.host σ.sessions s n) : ∀ b ∈ new, b.Carries cfg.host σ.sessions s n := by
  cases h with
  | processorFrame => simpa [Act.Carries] using ha
  | dispatch hd =>
    cases hd with
    | nothing | refused | verify => exact carries_of_any rfl
    | chat htag hv =>
      cases ha
      simpa [Act.Carries] using ⟨htag, hv⟩
  | chatLocal htarget =>
    -- whoever is stored under the target's uid is verified for it
    obtain ⟨heq, hchat, rfl⟩ := ha
    simpa [Act.Carries] using ⟨Prod.mk.inj heq, hchat, hsess _ _ htarget⟩
  | chatRemote | located => simpa [Act.Carries] using ha
  | deliver =>
    obtain ⟨heq, hchat, hv, hu⟩ := ha
    cases heq
    simpa [Act.Carries, send] using fun _ => ⟨hchat, rfl, hv, hu⟩
  | welcome hn => exact carries_of_any (carriesChat_welcome hn)
  | mqMsg | mqFind => exact ha.elim
  | _ => exact carries_of_any rfl

/-- And so does every act. -/
theorem Exec.carries (h : Exec cfg t σ a σ' new) (hsess : SessUid σ)
    (ha : a.Carries cfg.host σ.sessions s n) : ∀ b ∈ new, b.Carries cfg.host σ'.sessions s n := by
  cases h with
  | expand he => exact he.carries hsess ha
  | pushSend hnew => rcases hnew with rfl | rfl <;> exact carries_of_any rfl
  | _ => exact carries_of_any rfl

/-- `Send` pushes one node. -/
theorem countP_carriesChat_send {host : ByteOrder} :
    (send s n).countP (Act.carriesChat host) ≤ 1 := by
  show [Act.pushSend s n].countP (Act.carriesChat host) ≤ 1
  exact List.countP_le_length

/-- An act on the way makes way for at most one, and the others bring none. -/
theorem Exec.carriesChat_le (h : Exec cfg t σ a σ' new) :
    new.countP (Act.carriesChat cfg.host) ≤ [a].countP (Act.carriesChat cfg.host) := by
  cases h with
  | expand he =>
    cases he with
    | dispatch hd => cases hd <;> exact Nat.le_of_ble_eq_true rfl
    | welcome hn =>
      rw [List.countP_eq_zero.mpr fun b hb => List.any_eq_false.mp (carriesChat_welcome hn) b hb]
      exact Nat.zero_le _
    | deliver | mqFind => exact countP_carriesChat_send
    | _ => exact Nat.le_of_ble_eq_true rfl
  | crash => exact Nat.zero_le _
  | pushSend hnew => rcases hnew with rfl | rfl <;> exact Nat.zero_le _
  | _ => exact Nat.le_of_ble_eq_true rfl

/-! ## What an act delivers

The last act on the way delivers, and brings none that could deliver again. -/

/-- Thread `t` has delivered `d` with the act `a`, and nothing is left of the way. -/
structure Delivered (cfg : Config) (sessions : SessId → SessionState) (a : Act) (new : List Act)
    (d : Delivery) : Prop where
  carries : a.carriesChat cfg.host = true
  last : ∀ b ∈ new, b.carriesChat cfg.host = false
  fromChat : ∀ s n, a.Carries cfg.host sessions s n → FromChat cfg.host sessions d (s, n)

/-- Only the worker delivers. -/
theorem Exec.delivered (h : Exec cfg t σ a σ' new) (hworker : WorkerOk σ) (ha : a ∈ σ.code t) :
    deliveries cfg.host σ'.log = deliveries cfg.host σ.log ∨
      t = worker ∧ ∃ d, deliveries cfg.host σ'.log = deliveries cfg.host σ.log ++ [d] ∧
        Delivered cfg σ.sessions a new d := by
  have hnone : ∀ e, delivery cfg.host e = none →
      deliveries cfg.host (σ.log ++ [e]) = deliveries cfg.host σ.log := by
    intro e he
    rw [deliveries_concat, he, Option.toList_none, List.append_nil]
  cases h with
  | @sendToMsgQueue sid s msg target hlen =>
    refine .inr ⟨hworker.eq_worker ha rfl, .stream sid _, deliveries_concat .., rfl, nofun, ?_⟩
    rintro s' n' ⟨heq, hchat, rfl⟩
    cases heq
    exact ⟨hchat, rfl⟩
  | @pushSend s out new hnew =>
    by_cases hd : t = worker ∧ out.getTagField cfg.host = TagType.chatMsgToCli.val
    · refine .inr ⟨hd.1, .push s out, ?_, decide_eq_true hd.2, ?_, fun s' n' hcarries => hcarries hd.2⟩
      · exact (deliveries_concat ..).trans (by rw [delivery, if_pos hd]; rfl)
      · rcases hnew with rfl | rfl <;> simp [queueSend, Act.carriesChat]
    · exact .inl (hnone _ (if_neg hd))
  | enqueueFrame | eraseSess | eraseTempClose | verifyFailed | verifyCrash | verifyOk =>
    exact .inl (hnone _ rfl)
  | _ => exact .inl rfl

/-- Acts add to the queue what they post, and take nothing from it. -/
theorem Exec.posts_eq (h : Exec cfg t σ a σ' new) :
    takes σ'.log = takes σ.log ∧
      ∃ more, σ'.queue = σ.queue ++ more ∧ posts σ'.log = posts σ.log ++ queued more := by
  have hkeep : σ'.queue = σ.queue → (σ'.log = σ.log ∨ ∃ e, σ'.log = σ.log ++ [e] ∧
      posts [e] = [] ∧ takes [e] = []) → takes σ'.log = takes σ.log ∧
      ∃ more, σ'.queue = σ.queue ++ more ∧ posts σ'.log = posts σ.log ++ queued more := by
    intro hq hlog
    refine ⟨?_, [], by rw [hq, List.append_nil], ?_⟩
    · rcases hlog with heq | ⟨e, heq, -, he⟩
      · rw [heq]
      · rw [heq, takes_concat, he, List.append_nil]
    · rcases hlog with heq | ⟨e, heq, he, -⟩
      · rw [heq]
        exact (List.append_nil _).symm
      · rw [heq, posts_concat, he]
        rfl
  cases h with
  | enqueueFrame => exact ⟨(takes_concat ..).trans (List.append_nil _), [_], rfl, posts_concat ..⟩
  | enqueueClosed => exact ⟨rfl, [_], rfl, (List.append_nil _).symm⟩
  | eraseSess | eraseTempClose | verifyFailed | verifyCrash | verifyOk | sendToMsgQueue | pushSend =>
    exact hkeep rfl (.inr ⟨_, rfl, rfl, rfl⟩)
  | _ => exact hkeep rfl (.inl rfl)

/-! ## Runs

The invariant has two cases: either nothing is on its way, or the frame taken last is, and everything
that
was delivered goes back to the frames before it. Taking the next frame needs the first case, and a
delivery leads from the second to the first. -/

/-- The frames come off the queue in order. What has been delivered goes back to the frames taken; while
an act is left that is on the way to a delivery, it carries the frame taken last, and that one has not
been delivered yet. -/
structure OrderOk (cfg : Config) (σ : State) : Prop where
  fifo : posts σ.log = takes σ.log ++ queued σ.queue
  once : (σ.code worker).countP (Act.carriesChat cfg.host) ≤ 1
  inOrder : SublistForall₂ (FromChat cfg.host σ.sessions) (deliveries cfg.host σ.log) (takes σ.log)
  carried : (∀ a ∈ σ.code worker, a.carriesChat cfg.host = false) ∨
    ∃ earlier s n, takes σ.log = earlier ++ [(s, n)] ∧
      SublistForall₂ (FromChat cfg.host σ.sessions) (deliveries cfg.host σ.log) earlier ∧
      ∀ a ∈ σ.code worker, a.Carries cfg.host σ.sessions s n

/-- What is left after an act on the way is not on the way. -/
theorem OrderOk.none_in_rest (h : OrderOk cfg σ) (hcode : σ.code worker = a :: rest)
    (ha : a.carriesChat cfg.host = true) : ∀ b ∈ rest, b.carriesChat cfg.host = false := by
  have honce := h.once
  rw [hcode, List.countP_cons_of_pos ha] at honce
  have hnone : rest.countP (Act.carriesChat cfg.host) = 0 := by omega
  intro b hb
  simpa using List.countP_eq_zero.mp hnone b hb

/-- The step lemma for an act, as far as deliveries go. Acts of other threads deliver nothing. -/
theorem OrderOk.carried_run (h : OrderOk cfg σ) (hsound : Sound σ) (hsess : SessUid σ)
    (hcode : σ.code t = a :: rest) (hex : Exec cfg t σ a σ' new) :
    SublistForall₂ (FromChat cfg.host σ'.sessions) (deliveries cfg.host σ'.log) (takes σ'.log) ∧
      ((∀ b ∈ advance σ.code t new rest worker, b.carriesChat cfg.host = false) ∨
        ∃ earlier s n, takes σ'.log = earlier ++ [(s, n)] ∧
          SublistForall₂ (FromChat cfg.host σ'.sessions) (deliveries cfg.host σ'.log) earlier ∧
          ∀ b ∈ advance σ.code t new rest worker, b.Carries cfg.host σ'.sessions s n) := by
  have hkeep : KeepsVerified σ.sessions σ'.sessions := fun s => hex.verified_mono
  have hmono : ∀ inp, SublistForall₂ (FromChat cfg.host σ.sessions) (deliveries cfg.host σ.log) inp →
      SublistForall₂ (FromChat cfg.host σ'.sessions) (deliveries cfg.host σ.log) inp :=
    fun inp hin => hin.imp fun _ _ hd => hd.mono hkeep
  rw [hex.posts_eq.1]
  rcases hex.delivered hsound.worker (head_mem hcode) with hsame | ⟨rfl, d, hd, hdone⟩
  · -- nothing is delivered: the acts that are left carry what was carried before
    rw [hsame]
    refine ⟨hmono _ h.inOrder, ?_⟩
    rcases h.carried with hnone | ⟨earlier, s, n, htakes, hin, hall⟩
    · refine .inl fun b hb => ?_
      rcases mem_advance hcode hb with ⟨rfl, hnew⟩ | hold
      · have hle := hex.carriesChat_le
        rw [List.countP_cons_of_neg (by simp [hnone a (head_mem hcode)]), List.countP_nil,
          Nat.le_zero, List.countP_eq_zero] at hle
        simpa using hle b hnew
      · exact hnone b hold
    · refine .inr ⟨earlier, s, n, htakes, hmono _ hin, fun b hb => ?_⟩
      rcases mem_advance hcode hb with ⟨rfl, hnew⟩ | hold
      · exact hex.carries hsess (hall a (head_mem hcode)) b hnew
      · exact (hall b hold).mono hkeep
  · -- the worker delivers what it carried, and then nothing is on the way
    rw [hd]
    rcases h.carried with hnone | ⟨earlier, s, n, htakes, hin, hall⟩
    · have hcarries := hdone.carries
      rw [hnone a (head_mem hcode)] at hcarries
      cases hcarries
    · have hfrom := (hdone.fromChat s n (hall a (head_mem hcode))).mono hkeep
      refine ⟨htakes ▸ (hmono _ hin).concat hfrom, .inl fun b hb => ?_⟩
      rw [advance_self, List.mem_append] at hb
      rcases hb with hnew | hold
      · exact hdone.last b hnew
      · exact h.none_in_rest hcode hdone.carries b hold

/-- And for the queue. -/
theorem OrderOk.run (h : OrderOk cfg σ) (hsound : Sound σ) (hsess : SessUid σ)
    (hcode : σ.code t = a :: rest) (hex : Exec cfg t σ a σ' new) :
    OrderOk cfg { σ' with code := advance σ.code t new rest } := by
  obtain ⟨hin, hcarried⟩ := h.carried_run hsound hsess hcode hex
  obtain ⟨htakes, more, hqueue, hposts⟩ := hex.posts_eq
  refine ⟨?_, countP_advance_le hcode h.once hex.carriesChat_le, hin, hcarried⟩
  show posts σ'.log = takes σ'.log ++ queued σ'.queue
  rw [hposts, htakes, hqueue, h.fifo, List.append_assoc]
  exact congrArg _ List.filterMap_append.symm

/-- A step that begins nothing on the worker. -/
theorem OrderOk.congr (h : OrderOk cfg σ) (hcode : ∀ a ∈ σ'.code worker, a ∈ σ.code worker)
    (honce : (σ'.code worker).countP (Act.carriesChat cfg.host) ≤ 1)
    (hqueue : σ'.queue = σ.queue) (hlog : σ'.log = σ.log)
    (hkeep : KeepsVerified σ.sessions σ'.sessions) : OrderOk cfg σ' := by
  refine ⟨by rw [hlog, hqueue, h.fifo], honce, ?_, ?_⟩
  · rw [hlog]
    exact h.inOrder.imp fun _ _ hd => hd.mono hkeep
  · rw [hlog]
    rcases h.carried with hnone | ⟨earlier, s, n, htakes, hin, hall⟩
    · exact .inl fun a ha => hnone a (hcode a ha)
    · exact .inr ⟨earlier, s, n, htakes, hin.imp fun _ _ hd => hd.mono hkeep,
        fun a ha => (hall a (hcode a ha)).mono hkeep⟩

/-- The worker takes the next frame only when it has done all of its acts. -/
theorem OrderOk.step (h : OrderOk cfg σ) (hsound : Sound σ) (hsess : SessUid σ)
    (hs : Stepped cfg σ l σ') : OrderOk cfg σ' := by
  cases hs with
  | run hcode hex => exact h.run hsound hsess hcode hex
  | wait =>
    exact ⟨h.fifo, by simp [Act.carriesChat], h.inOrder, .inl (by simp [Act.carriesChat])⟩
  | @take s msg q _ hcode hq =>
    have hfifo := h.fifo
    have hdels : deliveries cfg.host (σ.log ++ [.taken s msg]) = deliveries cfg.host σ.log :=
      (deliveries_concat ..).trans (List.append_nil _)
    have hposts : posts (σ.log ++ [.taken s msg]) = posts σ.log :=
      (posts_concat ..).trans (List.append_nil _)
    rw [hq] at hfifo
    -- a notice is no frame, so it is nothing to deliver; a frame is now the one that is carried
    cases msg with
    | none =>
      have htakes : takes (σ.log ++ [.taken s none]) = takes σ.log :=
        (takes_concat ..).trans (List.append_nil _)
      refine ⟨?_, by simp [Act.carriesChat], ?_, .inl (by simp [Act.carriesChat])⟩
      · show posts (σ.log ++ [.taken s none]) = takes (σ.log ++ [.taken s none]) ++ queued q
        rw [hposts, htakes, hfifo]
        rfl
      · show SublistForall₂ _ (deliveries cfg.host (σ.log ++ [.taken s none])) _
        rw [hdels, htakes]
        exact h.inOrder
    | some n =>
      have htakes : takes (σ.log ++ [.taken s (some n)]) = takes σ.log ++ [(s, n)] := takes_concat ..
      refine ⟨?_, by simp [Act.carriesChat], ?_, .inr ⟨takes σ.log, s, n, htakes, ?_, ?_⟩⟩
      · show posts (σ.log ++ [.taken s (some n)]) = takes (σ.log ++ [.taken s (some n)]) ++ queued q
        rw [hposts, htakes, hfifo, List.append_assoc]
        rfl
      · show SublistForall₂ _ (deliveries cfg.host (σ.log ++ [.taken s (some n)])) _
        rw [hdels, htakes]
        exact h.inOrder.concat_right _
      · show SublistForall₂ _ (deliveries cfg.host (σ.log ++ [.taken s (some n)])) _
        rw [hdels]
        exact h.inOrder
      · simp [Act.Carries]
  | leave => exact h.congr (fun _ ha => ha) h.once rfl rfl fun _ hv => ⟨hv, rfl⟩
  | @call t e ht hcode he =>
    -- entry points are called on other threads, and carry nothing
    have hworker : Function.update σ.code t (e.acts σ) worker = σ.code worker :=
      Function.update_of_ne (Ne.symm ht) ..
    have hrest : (e.begin σ).queue = σ.queue ∧ (e.begin σ).log = σ.log := by
      cases e <;> exact ⟨rfl, rfl⟩
    refine h.congr (fun a ha => hworker ▸ ha) (by simpa [hworker] using h.once) hrest.1 hrest.2 ?_
    intro s hv
    obtain ⟨c, w, hx, -⟩ := e.begin_sessions (σ := σ) s
    simpa [hx] using hv
  | redis => exact h.congr (fun _ ha => ha) h.once rfl rfl fun _ hv => ⟨hv, rfl⟩

theorem orderOk_init : OrderOk cfg init := by
  refine ⟨rfl, Nat.zero_le _, .nil, .inl fun a ha => ?_⟩
  rw [eq_lock_of_mem_init ha]
  rfl

/-- In every run, without a condition. -/
theorem orderOk_of_reach {ok : State → Label → Prop} (h : Reach (Backend.step cfg) ok init σ) :
    OrderOk cfg σ :=
  h.invariant_of (fun hr => And.intro (sound_of_reach hr) (sessUid_of_reach hr)) orderOk_init
    fun _ _ _ hknown hord _ hs => hord.step hknown.1 hknown.2 (step_cases hs)

/-- **Chats keep their order, and none is delivered twice.** In every run, the worker has taken the
frames in the order in which they were posted, and has left the rest in the queue; and what it has
delivered goes back to frames it has taken, in their order and each at most once, from a verified sender
to the recipient that the frame names. -/
theorem deliveries_inOrder (cfg : Config) (σ : State) (h : Reach (Backend.step cfg) anyStep init σ) :
    posts σ.log = takes σ.log ++ queued σ.queue ∧
      SublistForall₂ (FromChat cfg.host σ.sessions) (deliveries cfg.host σ.log) (takes σ.log) :=
  ⟨(orderOk_of_reach h).fifo, (orderOk_of_reach h).inOrder⟩

/-- User 7 writes `hi` to user 7, and the frame is delivered. -/
theorem deliveries_inOrder_hi :
    ∃ σ, (Reach (Backend.step exampleConfig) anyStep init σ ∧
      deliveries .little σ.log = [.push 0 (hiFrame.toCliInPlace .little 7)] ∧
      takes σ.log = [(0, verifyFrame), (0, hiFrame)]) ∧
      posts σ.log = takes σ.log ++ queued σ.queue ∧
      SublistForall₂ (FromChat .little σ.sessions) (deliveries .little σ.log) (takes σ.log) := by
  have hrun : ((Trace.run (Backend.step exampleConfig) anyStep init
      (chatting verifyFrame hiFrame 11)).any fun σ =>
        decide (deliveries .little σ.log = [.push 0 (hiFrame.toCliInPlace .little 7)] ∧
          takes σ.log = [(0, verifyFrame), (0, hiFrame)])) = true := by
    decide +kernel
  obtain ⟨σ, hreach, htest⟩ := exists_reach_of_run hrun
  exact ⟨σ, ⟨hreach, of_decide_eq_true htest⟩, deliveries_inOrder exampleConfig σ hreach⟩

end Chatroom.Backend
