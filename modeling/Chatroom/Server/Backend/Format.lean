import Chatroom.Client.AsyncClient
import Chatroom.Server.Backend.Exec

/-!
# The format of chat frames

A chat frame has a uid in its first eight content bytes, that of the recipient on the way to the
server and that of the sender on the way to the client. Nobody checks that the content is that long:
the receive loop admits any length, `Processor` reads the uid from the buffer and takes the text
behind it, the client takes `substr(8)`.

`LongChats` is the condition on the steps that no shorter chat is processed. Under it, what each act
carries is well formed (`Act.WellFormed`), from the frame received to the frame sent.
-/

namespace Chatroom.Backend

open Trace Threads

variable {cfg : Config} {σ σ' : State} {t : Tid} {a : Act} {new rest : List Act} {l : Label}

/-- A `CHAT_MSG` that a verified session has sent has room for the uid of the recipient. -/
def LongChats (cfg : Config) (σ : State) : Label → Prop
  | .run t =>
    match σ.code t with
    | .dispatch s n :: _ => n.getTagField cfg.host = TagType.chatMsg.val →
        (σ.sessions s).verified = true → 8 ≤ n.ctxLen
    | _ => True
  | _ => True

instance (cfg : Config) (σ : State) (l : Label) : Decidable (LongChats cfg σ l) := by
  obtain t | _ | _ | _ := l
  · dsimp only [LongChats]
    obtain _ | ⟨a, _⟩ := σ.code t
    · exact .isTrue trivial
    · obtain ⟨⟩ := a <;> infer_instance
  all_goals exact .isTrue trivial

/-- Server and client agree on the format: every chat frame put on a send queue has room for a uid,
so that the handler of a client that receives it does not throw, and the server has not taken a slice
of negative length. -/
def FormatAgreed (cfg : Config) (σ : State) : Prop :=
  (∀ t s out, .pushed t s out ∈ σ.log → out.getTagField cfg.host = TagType.chatMsgToCli.val →
    8 ≤ out.contentBytes.length ∧ ∀ host n, n.msg host = out.msg cfg.host →
      ∃ o, AsyncClient.receiveHandler host n = .ok o) ∧
  σ.fault ≠ some .negativeLength

/-! ## What the acts carry

The receive loop hands on nodes that hold a frame. `Processor` turns a chat into one for a client in
place, or
builds a new one for another server; both need the eight bytes. From there on only the length matters. -/

/-- A received chat with room for the uid of the recipient. -/
structure IsChat (host : ByteOrder) (n : MsgNode) : Prop where
  received : n.Received host
  tag : n.getTagField host = TagType.chatMsg.val
  long : 8 ≤ n.ctxLen

/-- If the node is a chat for a client, it has room for the uid of the sender. -/
def FitsClient (host : ByteOrder) (n : MsgNode) : Prop :=
  n.getTagField host = TagType.chatMsgToCli.val → 8 ≤ n.contentBytes.length

def Act.WellFormed (host : ByteOrder) : Act → Prop
  | .frameRead _ n => n.Received host
  | .enqueue _ (some n) => n.Received host
  | .processor _ (some n) => n.Received host
  | .dispatch _ n => n.Received host
  | .verifyUser _ n _ _ => n.Received host
  | .chatFind _ n target => IsChat host n ∧ target = n.targetUid host
  | .getUserLocation _ n target => IsChat host n ∧ target = n.targetUid host
  | .sendToMsgQueue _ _ n target => IsChat host n ∧ target = n.targetUid host
  | .deliver _ n _ => IsChat host n
  | .mqFind _ n => FitsClient host n
  | .pushSend _ n => FitsClient host n
  | _ => True

/-- The acts that carry a node. -/
def Act.carries : Act → Bool
  | .frameRead _ _ | .enqueue _ (some _) | .processor _ (some _) | .dispatch _ _
  | .verifyUser _ _ _ _ | .chatFind _ _ _ | .getUserLocation _ _ _ | .sendToMsgQueue _ _ _ _
  | .deliver _ _ _ | .mqFind _ _ | .pushSend _ _ => true
  | _ => false

/-- Acts that carry no node are well formed. -/
theorem wellFormed_of_any {host : ByteOrder} (h : new.any Act.carries = false) :
    ∀ b ∈ new, b.WellFormed host := by
  refine forall_of_any (fun b hb => ?_) h
  unfold Act.WellFormed
  split <;> trivial

/-- A chat rewritten in place has room for the uid of the sender. -/
theorem IsChat.toCliInPlace {host : ByteOrder} {n : MsgNode} (h : IsChat host n) (uid : Uid) :
    (n.toCliInPlace host uid).Holds (chatToCli uid (n.contentBytes.drop 8)) :=
  h.received.1.toCliInPlace (by rw [← h.received.1.ctxLen_eq]; exact h.long) host uid

theorem chatToCli_length (uid : Uid) (text : List UInt8) :
    8 ≤ (chatToCli uid text).content.length := by
  simp [chatToCli]

/-- So it is fit for a client. -/
theorem fitsClient_toCliInPlace {host : ByteOrder} {n : MsgNode} (h : IsChat host n) (uid : Uid) :
    FitsClient host (n.toCliInPlace host uid) := by
  intro _
  rw [(h.toCliInPlace uid).contentBytes_eq]
  exact chatToCli_length uid _

/-- The greeting is no chat. -/
theorem welcome_tag {host : ByteOrder} {n : MsgNode}
    (h : MsgNode.ofContent host (fun _ => 0) welcomeText TagType.verifyDone.val = .ok n) :
    n.getTagField host = TagType.verifyDone.val := by
  rw [MsgNode.ofContent_eq host _ _ (by decide +kernel) (by decide +kernel)] at h
  cases h
  have hholds : MsgNode.Holds ⟨frame ⟨TagType.verifyDone.val, welcomeText⟩, 0, welcomeText.length⟩
      ⟨TagType.verifyDone.val, welcomeText⟩ :=
    ⟨by decide +kernel, rfl, List.take_of_length_le (by simp)⟩
  exact congrArg Msg.tag (hholds.msg_eq host)

/-- The acts that only bring others. The condition is used at `dispatch`, where the tag is read. -/
theorem Expands.wellFormed (h : Expands cfg σ a new) (ha : a.WellFormed cfg.host)
    (hlong : ∀ s n, a = .dispatch s n → n.getTagField cfg.host = TagType.chatMsg.val →
      (σ.sessions s).verified = true → 8 ≤ n.ctxLen) : ∀ b ∈ new, b.WellFormed cfg.host := by
  cases h with
  | dispatch hd =>
    cases hd with
    | nothing => exact wellFormed_of_any rfl
    | refused => exact wellFormed_of_any rfl
    | verify => simpa [Act.WellFormed] using ha
    | chat htag hv => simpa [Act.WellFormed] using ⟨ha, htag, hlong _ _ rfl htag hv⟩
  | processorFrame | chatRemote | located => simpa [Act.WellFormed] using ha
  | chatLocal => simpa [Act.WellFormed] using ha.1
  | frameRead => simpa [Act.WellFormed, postMessage] using ha
  | deliver => simpa [Act.WellFormed, send] using fitsClient_toCliInPlace ha _
  | welcome hn => simp [Act.WellFormed, send, FitsClient, welcome_tag hn, TagType.val]
  | mqMsg hn => simpa [Act.WellFormed, FitsClient] using fun _ => messageHandler_length hn
  | mqFind => simpa [Act.WellFormed, send] using ha
  | _ => exact wellFormed_of_any rfl

/-- And all acts. -/
theorem Exec.wellFormed (h : Exec cfg t σ a σ' new) (ha : a.WellFormed cfg.host)
    (hlong : ∀ s n, a = .dispatch s n → n.getTagField cfg.host = TagType.chatMsg.val →
      (σ.sessions s).verified = true → 8 ≤ n.ctxLen) : ∀ b ∈ new, b.WellFormed cfg.host := by
  cases h with
  | expand he => exact he.wellFormed ha hlong
  | pushSend hnew => rcases hnew with rfl | rfl <;> exact wellFormed_of_any rfl
  | _ => exact wellFormed_of_any rfl

/-! ## Runs

`FormatOk` adds to the acts what is in the queue, what was put on send queues, and that the difference
of
lengths was never negative. -/

structure FormatOk (cfg : Config) (σ : State) : Prop where
  acts : ∀ t, ∀ a ∈ σ.code t, a.WellFormed cfg.host
  queue : ∀ s n, (s, some n) ∈ σ.queue → n.Received cfg.host
  pushed : ∀ t s out, .pushed t s out ∈ σ.log → FitsClient cfg.host out
  fault : σ.fault ≠ some .negativeLength

theorem LongChats.dispatch (hok : LongChats cfg σ (.run t)) (hcode : σ.code t = a :: rest) :
    ∀ s n, a = .dispatch s n → n.getTagField cfg.host = TagType.chatMsg.val →
      (σ.sessions s).verified = true → 8 ≤ n.ctxLen := by
  rintro s n rfl
  simpa only [LongChats, hcode] using hok

/-- The length of the text is the content length less eight. -/
theorem Exec.fault_ne (h : Exec cfg t σ a σ' new) (ha : a.WellFormed cfg.host)
    (hf : σ.fault ≠ some .negativeLength) : σ'.fault ≠ some .negativeLength := by
  cases h with
  | crash hc =>
    cases hc with
    | negativeLength hshort =>
      -- the text is taken of a chat with room for the uid only
      exact absurd ha.1.long (by omega)
    | _ => nofun
  | verifyCrash => nofun
  | _ => exact hf

theorem FormatOk.run (h : FormatOk cfg σ) (hok : LongChats cfg σ (.run t))
    (hcode : σ.code t = a :: rest) (hex : Exec cfg t σ a σ' new) :
    FormatOk cfg { σ' with code := advance σ.code t new rest } := by
  have ha : a.WellFormed cfg.host := h.acts t a (head_mem hcode)
  have hfault := hex.fault_ne ha h.fault
  refine ⟨fun t' b hb => ?_, fun s n hn => ?_, fun t' s out hout => ?_, hfault⟩
  · rcases mem_advance hcode hb with ⟨rfl, hnew⟩ | hold
    · exact hex.wellFormed ha (hok.dispatch hcode) b hnew
    · exact h.acts t' b hold
  · rcases hex.queue with heq | ⟨s₀, msg, rfl, heq⟩
    · exact h.queue s n (heq ▸ hn)
    · simp only [heq, List.mem_append, List.mem_singleton] at hn
      rcases hn with hold | hnew
      · exact h.queue s n hold
      · cases hnew
        exact ha
  · rcases hex.mem_log hout with hold | hrec
    · exact h.pushed t' s out hold
    · cases hrec with
      | pushed => exact ha

/-- Frames come from the receive loop, and messages from a stream with a length that is checked. -/
theorem Entry.acts_wellFormed {e : Entry} (he : e.Enabled cfg σ t) :
    ∀ b ∈ e.acts σ, b.WellFormed cfg.host := by
  cases e with
  | frame s n => simpa [Entry.acts, Act.WellFormed] using he.2.2
  | writeDone s ok =>
    simp only [Entry.acts]
    split
    · split <;> exact wellFormed_of_any rfl
    · exact wellFormed_of_any rfl
  | _ => exact wellFormed_of_any rfl

/-- The acts of the worker are exchanged for new ones. -/
theorem FormatOk.acts_begin (h : FormatOk cfg σ) {acts : List Act}
    (hacts : ∀ b ∈ acts, b.WellFormed cfg.host) :
    ∀ t', ∀ b ∈ Function.update σ.code t acts t', b.WellFormed cfg.host := by
  intro t' b hb
  rcases mem_update hb with ⟨rfl, hnew⟩ | hold
  · exact hacts b hnew
  · exact h.acts t' b hold

theorem FormatOk.step (h : FormatOk cfg σ) (hok : LongChats cfg σ l) (hs : Stepped cfg σ l σ') :
    FormatOk cfg σ' := by
  cases hs with
  | run hcode hex => exact h.run hok hcode hex
  | wait => exact ⟨h.acts_begin (wellFormed_of_any rfl), h.queue, h.pushed, h.fault⟩
  | @take s msg q _ _ hq =>
    refine ⟨h.acts_begin ?_, fun s' n hn => h.queue s' n ?_, fun t s' out hout => ?_, h.fault⟩
    · intro b hb
      cases List.mem_singleton.mp hb
      cases msg with
      | none => trivial
      | some n => exact h.queue s n (by rw [hq]; exact List.mem_cons_self)
    · rw [hq]
      exact List.mem_cons_of_mem _ hn
    · simp only [List.mem_append, List.mem_singleton, reduceCtorEq, or_false] at hout
      exact h.pushed t s' out hout
  | leave => exact ⟨h.acts, h.queue, h.pushed, h.fault⟩
  | @call t e _ hcode he =>
    have hrest : (e.begin σ).queue = σ.queue ∧ (e.begin σ).log = σ.log ∧
        (e.begin σ).fault = σ.fault := by cases e <;> exact ⟨rfl, rfl, rfl⟩
    refine ⟨h.acts_begin (Entry.acts_wellFormed he), ?_, ?_, ?_⟩
    · rw [hrest.1]
      exact h.queue
    · rw [hrest.2.1]
      exact h.pushed
    · rw [hrest.2.2]
      exact h.fault
  | redis => exact ⟨h.acts, h.queue, h.pushed, h.fault⟩

theorem formatOk_init : FormatOk cfg init := by
  refine ⟨fun t a ha => ?_, nofun, nofun, nofun⟩
  rw [eq_lock_of_mem_init ha]
  trivial

/-- **Server and client agree on the format of chat frames**, as long as no chat too short for a uid
is processed. -/
theorem formatAgreed_of_longChats (cfg : Config) (σ : State)
    (h : Reach (step cfg) (LongChats cfg) init σ) : FormatAgreed cfg σ := by
  have hformat : FormatOk cfg σ := h.invariant formatOk_init fun _ _ _ hf hok hs =>
    hf.step hok (step_cases hs)
  refine ⟨fun t s out hout htag => ?_, hformat.fault⟩
  have hlen := hformat.pushed t s out hout htag
  refine ⟨hlen, fun host n hmsg => ?_⟩
  cases hok : AsyncClient.receiveHandler host n with
  | ok o => exact ⟨o, rfl⟩
  | error e =>
    have hshort := (AsyncClient.receiveHandler_error_iff host n).mp ⟨e, hok⟩
    rw [hmsg] at hshort
    exact absurd hshort.2 (Nat.not_lt.mpr hlen)

/-- User 7 writes `hi` to user 7. -/
theorem formatAgreed_hi :
    ∃ σ, (Reach (step exampleConfig) (LongChats exampleConfig) init σ ∧
      .pushed worker 0 (hiFrame.toCliInPlace .little 7) ∈ σ.log) ∧
      FormatAgreed exampleConfig σ := by
  have hrun : ((Trace.run (step exampleConfig) (LongChats exampleConfig) init
      (chatting verifyFrame hiFrame 11)).any
        fun σ => decide (.pushed worker 0 (hiFrame.toCliInPlace .little 7) ∈ σ.log)) = true := by
    decide +kernel
  obtain ⟨σ, hreach, htest⟩ := exists_reach_of_run hrun
  exact ⟨σ, ⟨hreach, of_decide_eq_true htest⟩, formatAgreed_of_longChats exampleConfig σ hreach⟩

/-- A chat without content, received into a buffer where the uid of user `target` lies behind it. -/
def emptyChat (target : UInt8) : MsgNode :=
  received [0, 0, 0, 0, 0, 0, 0, target] ⟨TagType.chatMsg.val, []⟩

/-- If the bytes behind an empty chat are the uid of a user of this server, a frame without a uid goes
out to them; if they are that of a user of another server, the length of the text is negative. -/
theorem not_formatAgreed_empty :
    (∃ σ, Reach (step exampleConfig) anyStep init σ ∧ (∃ out, .pushed worker 0 out ∈ σ.log ∧
        out.getTagField exampleConfig.host = TagType.chatMsgToCli.val ∧ out.contentBytes = []) ∧
      ¬ FormatAgreed exampleConfig σ) ∧
    ∃ σ, Reach (step exampleConfig) anyStep init σ ∧ σ.fault = some .negativeLength ∧
      ¬ FormatAgreed exampleConfig σ := by
  have hlocal : ((Trace.run (step exampleConfig) anyStep init
      (chatting verifyFrame (emptyChat 7) 11)).any
        fun σ => decide (.pushed worker 0 ((emptyChat 7).toCliInPlace .little 7) ∈ σ.log)) =
          true := by
    decide +kernel
  have hremote : ((Trace.run (step exampleConfig) anyStep init
      (chatting verifyFrame (emptyChat 8) 0 ++
        .redis { exampleRedis with location := fun _ => some [50] } ::
        List.replicate 10 (.run worker))).any
        fun σ => decide (σ.fault = some .negativeLength)) = true := by
    decide +kernel
  obtain ⟨σ, hreach, htest⟩ := exists_reach_of_run hlocal
  obtain ⟨σ₁, hreach₁, htest₁⟩ := exists_reach_of_run hremote
  have hpushed := of_decide_eq_true htest
  have hfault := of_decide_eq_true htest₁
  have htag : ((emptyChat 7).toCliInPlace .little 7).getTagField exampleConfig.host =
      TagType.chatMsgToCli.val := by decide +kernel
  refine ⟨⟨σ, hreach, ⟨_, hpushed, htag, rfl⟩, fun hagreed => ?_⟩, σ₁, hreach₁, hfault,
    fun hagreed => hagreed.2 hfault⟩
  exact absurd (hagreed.1 worker 0 _ hpushed htag).1 (by decide +kernel)

end Chatroom.Backend
