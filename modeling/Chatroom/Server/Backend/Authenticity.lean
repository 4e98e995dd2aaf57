import Chatroom.Lib.History
import Chatroom.Server.Backend.Format
import Chatroom.Server.Backend.Tables

/-!
# Who has sent a chat

Every chat frame that `MsgHandler` puts on a send queue and every entry it writes to a stream is
traced back, through the history, to a chat of a session that has proved its uid before: a `VERIFY`
frame of the session names a token and the uid, and Redis maps the one to the other.

What a `VERIFY` frame names is in its content. `Processor` parses more than the content: it reads
`GetContent()` as a C string, up to the first zero byte, and behind the content lies what the
allocator left there. `ParsesContent` is the condition on the steps that this makes no difference.
-/

namespace Chatroom.Backend

open ByteSeq History Trace Threads

variable {cfg : Config} {σ σ' : State} {t : Tid} {a : Act} {new rest : List Act} {l : Label}
  {s : SessId} {uid : Uid} {log log' : List Event} {sessions sessions' : SessId → SessionState}

/-! ## The property

An event of the history is justified by the events before it. For a chat on a send queue these are:
the
frame that the worker has taken last is a chat, it was received on a session that is verified, and
this
session has proved the uid that the outgoing frame names. Sessions never change their uid, so "the uid
of
the session" needs no time. -/

/-- The event taken last. -/
def lastTaken (log : List Event) : Option (SessId × Option MsgNode) :=
  lastSome? (fun | .taken s msg => some (s, msg) | _ => none) log

/-- Session `s` has proved to be user `uid`: a `VERIFY` frame of it names a token and the uid, and
Redis has answered the uid to the token. -/
def Proved (cfg : Config) (log : List Event) (s : SessId) (uid : Uid) : Prop :=
  ∃ n token text, .posted s n ∈ log ∧ n.getTagField cfg.host = TagType.verify.val ∧
    cfg.json (cString n.contentBytes) = .fields token uid ∧
    .verifyUser s n token (some text) ∈ log ∧ stoull text = .ok uid

/-- What happens now is caused by the chat `n` of the verified session `s`. -/
structure CausedBy (cfg : Config) (sessions : SessId → SessionState) (log : List Event) (s : SessId)
    (n : MsgNode) : Prop where
  taken : lastTaken log = some (s, some n)
  posted : .posted s n ∈ log
  chat : n.getTagField cfg.host = TagType.chatMsg.val
  verified : (sessions s).verified = true
  proved : Proved cfg log s (sessions s).userId

/-- What the history says about an event before it happens. -/
def Authentic (cfg : Config) (sessions : SessId → SessionState) (log : List Event) : Event → Prop
  | .pushed t s' out => t = worker → out.getTagField cfg.host = TagType.chatMsgToCli.val →
      ∃ s n, CausedBy cfg sessions log s n ∧
        out.wire = frame (chatToCli (sessions s).userId (n.contentBytes.drop 8)) ∧
        (sessions s').verified = true ∧
        beBytes 8 (sessions s').userId.toNat = n.contentBytes.take 8
  | .streamed _ item =>
      ∃ s n target, CausedBy cfg sessions log s n ∧
        item = sendToMsgQueue (sessions s).userId target (n.contentBytes.drop 8) ∧
        beBytes 8 target.toNat = n.contentBytes.take 8
  | _ => True

/-- Every chat is authentic, and no step changes the uid of a verified session. -/
def SendersAuthentic (cfg : Config) (σ : State) : Prop :=
  Justified (Authentic cfg σ.sessions) σ.log ∧
    ∀ l σ', step cfg σ l = some σ' → ∀ s, (σ.sessions s).verified = true →
      (σ'.sessions s).verified = true ∧ (σ'.sessions s).userId = (σ.sessions s).userId

/-- When a `VERIFY` of a session not verified yet is processed, the parser gets out of the C string at
`GetContent()` what is in the content. -/
def ParsesContent (cfg : Config) (σ : State) : Label → Prop
  | .run t =>
    match σ.code t with
    | .dispatch s n :: _ => n.getTagField cfg.host = TagType.verify.val →
        (σ.sessions s).verified = false →
        cfg.json (cString n.getContent) = cfg.json (cString n.contentBytes)
    | _ => True
  | _ => True

instance (cfg : Config) (σ : State) (l : Label) : Decidable (ParsesContent cfg σ l) := by
  obtain t | _ | _ | _ := l
  · dsimp only [ParsesContent]
    obtain _ | ⟨a, _⟩ := σ.code t
    · exact .isTrue trivial
    · obtain ⟨⟩ := a <;> infer_instance
  all_goals exact .isTrue trivial

/-- Both conditions: chats have room for a uid, and `VERIFY`s are parsed from their content. -/
def ReadsContent (cfg : Config) (σ : State) (l : Label) : Prop :=
  LongChats cfg σ l ∧ ParsesContent cfg σ l

instance (cfg : Config) (σ : State) (l : Label) : Decidable (ReadsContent cfg σ l) :=
  inferInstanceAs (Decidable (_ ∧ _))

/-! ## What stays true

Two monotonicity arguments carry the property from one state to the next: the history only grows, and
a
verified session stays verified with its uid. -/

/-- What has been proved stays proved. -/
theorem Proved.mono (h : Proved cfg log s uid) (hsub : ∀ e ∈ log, e ∈ log') :
    Proved cfg log' s uid := by
  obtain ⟨n, token, text, hposted, htag, hjson, hverify, htext⟩ := h
  exact ⟨n, token, text, hsub _ hposted, htag, hjson, hsub _ hverify, htext⟩

/-- Verified sessions stay so, with their uid. -/
def KeepsVerified (sessions sessions' : SessId → SessionState) : Prop :=
  ∀ s, (sessions s).verified = true →
    (sessions' s).verified = true ∧ (sessions' s).userId = (sessions s).userId

/-- The sender of an earlier chat is still who they were. -/
theorem CausedBy.mono {n : MsgNode} (h : CausedBy cfg sessions log s n)
    (hkeep : KeepsVerified sessions sessions') : CausedBy cfg sessions' log s n := by
  obtain ⟨hv, hu⟩ := hkeep s h.verified
  exact ⟨h.taken, h.posted, h.chat, hv, hu.symm ▸ h.proved⟩

/-- An event that was justified stays justified. -/
theorem Authentic.mono {e : Event} (h : Authentic cfg sessions log e)
    (hkeep : KeepsVerified sessions sessions') : Authentic cfg sessions' log e := by
  cases e with
  | pushed t s' out =>
    intro ht htag
    obtain ⟨s, n, hcause, hwire, hv', hbytes⟩ := h ht htag
    obtain ⟨hv, hu⟩ := hkeep s' hv'
    rw [← (hkeep s hcause.verified).2] at hwire
    exact ⟨s, n, hcause.mono hkeep, hwire, hv, hu.symm ▸ hbytes⟩
  | streamed sid item =>
    obtain ⟨s, n, target, hcause, hitem, hbytes⟩ := h
    rw [← (hkeep s hcause.verified).2] at hitem
    exact ⟨s, n, target, hcause.mono hkeep, hitem, hbytes⟩
  | _ => trivial

/-- `SetVerified` does nothing to a session that is verified. -/
theorem Stepped.keepsVerified (hs : Stepped cfg σ l σ') :
    KeepsVerified σ.sessions σ'.sessions := by
  intro s hv
  rcases hs.cases_run with ⟨t, a, rest, σ₁, new, rfl, -, hex, rfl⟩ | hq
  · exact hex.verified_mono hv
  · exact ⟨(hq.verified s).trans hv, hq.userId s⟩

/-! ## The acts of the worker

Between two acts the worker holds what it has found out in its local variables: the token and the uid
of a
`VERIFY`, the recipient of a chat, the session to send to. `Act.Known` says for each act what is known
of
them when its turn comes. It is established by the act before and kept by all steps of other threads. -/

/-- The chat `n` of the verified session `s` is being processed, for the session `s'` of its
recipient. -/
structure Delivers (host : ByteOrder) (σ : State) (s : SessId) (n : MsgNode) (s' : SessId) : Prop where
  item : σ.item = some (s, some n)
  chat : IsChat host n
  verified : (σ.sessions s).verified = true
  recipient : (σ.sessions s').verified = true ∧ (σ.sessions s').userId = n.targetUid host

/-- What is known when the worker comes to an act. It never does those of `MQHandler`. -/
def Act.Known (cfg : Config) (σ : State) : Act → Prop
  | .verifyUser _ n token uid => n.getTagField cfg.host = TagType.verify.val ∧
      cfg.json (cString n.contentBytes) = .fields token uid
  | .setVerified s uid => Proved cfg σ.log s uid
  | .chatFind s _ _ => (σ.sessions s).verified = true
  | .getUserLocation s _ _ => (σ.sessions s).verified = true
  | .sendToMsgQueue _ s _ _ => (σ.sessions s).verified = true
  | .deliver s n s' => Delivers cfg.host σ s n s'
  | .pushSend s' out => out.getTagField cfg.host = TagType.chatMsgToCli.val →
      ∃ s n, Delivers cfg.host σ s n s' ∧ out = n.toCliInPlace cfg.host (σ.sessions s).userId
  | .mqMsg _ _ => False
  | .mqFind _ _ => False
  | _ => True

/-- The acts that something is known of. -/
def Act.claims : Act → Bool
  | .verifyUser _ _ _ _ | .setVerified _ _ | .chatFind _ _ _ | .getUserLocation _ _ _
  | .sendToMsgQueue _ _ _ _ | .deliver _ _ _ | .pushSend _ _ | .mqMsg _ _ | .mqFind _ _ => true
  | _ => false

/-- Of the other acts nothing needs to be known. -/
theorem known_of_any (h : new.any Act.claims = false) : ∀ b ∈ new, b.Known cfg σ := by
  refine forall_of_any (fun b hb => ?_) h
  unfold Act.Known
  split <;> trivial

theorem Delivers.mono {host : ByteOrder} {n : MsgNode} {s' : SessId} (h : Delivers host σ s n s')
    (hitem : σ'.item = σ.item) (hkeep : KeepsVerified σ.sessions σ'.sessions) :
    Delivers host σ' s n s' := by
  obtain ⟨hv, hu⟩ := hkeep s' h.recipient.1
  exact ⟨hitem.trans h.item, h.chat, (hkeep s h.verified).1, hv, hu.trans h.recipient.2⟩

/-- Other threads may verify sessions and write history, and so do no harm. -/
theorem Act.Known.mono (h : a.Known cfg σ) (hitem : σ'.item = σ.item)
    (hkeep : KeepsVerified σ.sessions σ'.sessions) (hlog : ∀ e ∈ σ.log, e ∈ σ'.log) :
    a.Known cfg σ' := by
  cases a with
  | setVerified s uid => exact Proved.mono h hlog
  | chatFind s _ _ | getUserLocation s _ _ | sendToMsgQueue _ s _ _ => exact (hkeep s h).1
  | deliver => exact Delivers.mono h hitem hkeep
  | pushSend s' out =>
    intro htag
    obtain ⟨s, n, hdel, hout⟩ := h htag
    exact ⟨s, n, hdel.mono hitem hkeep, (hkeep s hdel.verified).2.symm ▸ hout⟩
  | _ => exact h

/-- What the history and the tables say in every state. -/
structure AuthOk (cfg : Config) (σ : State) : Prop where
  acts : ∀ a ∈ σ.code worker, a.Known cfg σ
  queue : ∀ s n, (s, some n) ∈ σ.queue → .posted s n ∈ σ.log
  item : ∀ s n, σ.item = some (s, some n) → .posted s n ∈ σ.log ∧
    lastTaken σ.log = some (s, some n)
  verified : ∀ s, (σ.sessions s).verified = true → Proved cfg σ.log s (σ.sessions s).userId
  log : Justified (Authentic cfg σ.sessions) σ.log

/-- What is proved elsewhere about every state. -/
structure Facts (cfg : Config) (σ : State) : Prop where
  sound : Sound σ
  sess : SessUid σ
  format : FormatOk cfg σ

/-- The new acts of the worker that leave the state alone. -/
theorem Expands.known (h : Expands cfg σ a new) (hfits : a.Fits σ.item)
    (hformed : a.WellFormed cfg.host) (hsess : SessUid σ) (ha : a.Known cfg σ)
    (hparse : ∀ s n, a = .dispatch s n → n.getTagField cfg.host = TagType.verify.val →
      (σ.sessions s).verified = false →
      cfg.json (cString n.getContent) = cfg.json (cString n.contentBytes)) :
    ∀ b ∈ new, b.Known cfg σ := by
  cases h with
  | dispatch hd =>
    cases hd with
    | nothing | refused => exact known_of_any rfl
    | verify htag hv hjson =>
      -- what the parser has found is in the content
      rw [hparse _ _ rfl htag hv] at hjson
      simpa [Act.Known] using ⟨htag, hjson⟩
    | chat _ hv => simpa [Act.Known] using hv
  | chatLocal htarget =>
    -- the session found under the target's uid is verified for it
    obtain ⟨hv, hu⟩ := hsess _ _ htarget
    simpa [Act.Known] using ⟨hfits, hformed.1, ha, hv, hu.trans hformed.2⟩
  | chatRemote | located => simpa [Act.Known] using ha
  | deliver => simpa [Act.Known, send] using fun _ => ⟨_, _, ha, rfl⟩
  | welcome hn => simp [Act.Known, send, welcome_tag hn, TagType.val]
  | mqMsg | mqFind => exact ha.elim
  | _ => exact known_of_any rfl

/-- **An act hands on what the next ones need.** -/
theorem Exec.known_new (h : Exec cfg t σ a σ' new) (hfits : a.Fits σ.item)
    (hformed : a.WellFormed cfg.host) (hsess : SessUid σ) (hauth : AuthOk cfg σ)
    (ha : a.Known cfg σ)
    (hparse : ∀ s n, a = .dispatch s n → n.getTagField cfg.host = TagType.verify.val →
      (σ.sessions s).verified = false →
      cfg.json (cString n.getContent) = cfg.json (cString n.contentBytes)) :
    ∀ b ∈ new, b.Known cfg σ' := by
  cases h with
  | expand he => exact he.known hfits hformed hsess ha hparse
  | @verifyOk s msg token uid text htext hstoull =>
    -- the frame was posted, and Redis has just answered
    have hposted := (hauth.item s msg hfits).1
    have hproved : Proved cfg (σ.record (.verifyUser s msg token (σ.redis.token token))).log s uid :=
      ⟨msg, token, text, List.mem_append_left _ hposted, ha.1, ha.2,
        htext ▸ List.mem_append_right _ List.mem_cons_self, hstoull⟩
    simpa [Act.Known] using hproved
  | pushSend hnew => rcases hnew with rfl | rfl <;> exact known_of_any rfl
  | _ => exact known_of_any rfl

/-! ## Runs

The invariant `AuthOk` joins the acts of the worker, its queue, the verified sessions and the history.
What
it needs from other modules, that sessions in `sess_` are verified under their key and that frames are
well
formed, is in `Facts`. -/

/-- Nothing but the worker itself takes a frame. -/
theorem Records.lastTaken_eq {e : Event} (h : Records t σ a e) :
    lastTaken (log ++ [e]) = lastTaken log := by
  rw [lastTaken, lastSome?_concat]
  cases h <;> rfl

/-- A chat in the hands of the worker is the cause of what it does. -/
theorem AuthOk.causedBy (h : AuthOk cfg σ) {n : MsgNode} (hitem : σ.item = some (s, some n))
    (htag : n.getTagField cfg.host = TagType.chatMsg.val)
    (hv : (σ.sessions s).verified = true) : CausedBy cfg σ.sessions σ.log s n := by
  obtain ⟨hposted, htaken⟩ := h.item s n hitem
  exact ⟨htaken, hposted, htag, hv, h.verified s hv⟩

/-- What an act records is authentic. -/
theorem AuthOk.records (h : AuthOk cfg σ) (hfacts : Facts cfg σ) (ha : a ∈ σ.code t) {e : Event}
    (hrec : Records t σ a e) : Authentic cfg σ.sessions σ.log e := by
  cases hrec with
  | @pushed s' out =>
    rintro rfl htag
    obtain ⟨s, n, hdel, rfl⟩ := h.acts _ ha htag
    have hholds := hdel.chat.received.1
    have h8 : 8 ≤ n.contentBytes.length := hholds.ctxLen_eq ▸ hdel.chat.long
    refine ⟨s, n, h.causedBy hdel.item hdel.chat.tag hdel.verified, ?_, hdel.recipient.1, ?_⟩
    · exact (hdel.chat.toCliInPlace _).wire_eq rfl
    · rw [hdel.recipient.2]
      exact hholds.targetUid h8 cfg.host
  | @streamed sid s n target =>
    have ht := hfacts.sound.worker.eq_worker ha rfl
    subst ht
    have hfits := hfacts.sound.worker.fits worker _ ha
    obtain ⟨hchat, rfl⟩ := hfacts.format.acts worker _ ha
    have hholds := hchat.received.1
    have h8 : 8 ≤ n.contentBytes.length := hholds.ctxLen_eq ▸ hchat.long
    refine ⟨s, n, _, h.causedBy hfits hchat.tag (h.acts _ ha), ?_, hholds.targetUid h8 cfg.host⟩
    rw [hholds.chatText]
    rfl
  | _ => trivial

/-- What the condition says when a frame is dispatched. -/
theorem ParsesContent.dispatch (hok : ParsesContent cfg σ (.run t)) (hcode : σ.code t = a :: rest) :
    ∀ s n, a = .dispatch s n → n.getTagField cfg.host = TagType.verify.val →
      (σ.sessions s).verified = false →
      cfg.json (cString n.getContent) = cfg.json (cString n.contentBytes) := by
  rintro s n rfl
  simpa only [ParsesContent, hcode] using hok

theorem Exec.mem_log_enqueue {n : MsgNode} (h : Exec cfg t σ (.enqueue s (some n)) σ' new) :
    .posted s n ∈ σ'.log := by
  cases h with
  | enqueueFrame => exact List.mem_append_right _ List.mem_cons_self
  | expand he => cases he
  | crash hc => cases hc

theorem AuthOk.run (h : AuthOk cfg σ) (hfacts : Facts cfg σ) (hok : ParsesContent cfg σ (.run t))
    (hcode : σ.code t = a :: rest) (hex : Exec cfg t σ a σ' new) :
    AuthOk cfg { σ' with code := advance σ.code t new rest } := by
  have ha : a ∈ σ.code t := head_mem hcode
  have hkeep : KeepsVerified σ.sessions σ'.sessions := fun s => hex.verified_mono
  have hsub : ∀ e ∈ σ.log, e ∈ σ'.log := fun e => hex.log_subset
  refine ⟨fun b hb => ?_, fun s n hn => ?_, fun s n hn => ?_, fun s hv => ?_, ?_⟩
  · refine Act.Known.mono (σ := σ') ?_ rfl (fun _ hv => ⟨hv, rfl⟩) fun _ he => he
    by_cases ht : worker = t
    · subst ht
      dsimp only at hb
      rw [advance_self, List.mem_append] at hb
      rcases hb with hnew | hold
      · exact hex.known_new (hfacts.sound.worker.fits worker a ha) (hfacts.format.acts worker a ha)
          hfacts.sess h (h.acts a ha) (hok.dispatch hcode) b hnew
      · exact (h.acts b (mem_of_rest hcode hold)).mono hex.item_eq
          hkeep hsub
    · dsimp only at hb
      rw [advance_of_ne ht] at hb
      exact (h.acts b hb).mono hex.item_eq hkeep hsub
  · rcases hex.queue with heq | ⟨s₀, msg, rfl, heq⟩
    · exact hsub _ (h.queue s n (heq ▸ hn))
    · simp only [heq, List.mem_append, List.mem_singleton] at hn
      rcases hn with hold | hnew
      · exact hsub _ (h.queue s n hold)
      · cases hnew
        exact hex.mem_log_enqueue
  · obtain ⟨hposted, htaken⟩ := h.item s n (hex.item_eq ▸ hn)
    refine ⟨hsub _ hposted, ?_⟩
    show lastTaken σ'.log = _
    rcases hex.log with heq | ⟨e, hrec, heq⟩
    · rw [heq, htaken]
    · rw [heq, hrec.lastTaken_eq, htaken]
  · show Proved cfg σ'.log s (σ'.sessions s).userId
    rcases hex.verified s with ⟨hsame, huid⟩ | ⟨uid, rfl, -, -, huid⟩
    · rw [huid]
      exact (h.verified s (hsame ▸ hv)).mono hsub
    · -- `SetVerified`: Redis has confirmed the token
      have ht := hfacts.sound.worker.eq_worker ha rfl
      subst ht
      rw [huid]
      exact Proved.mono (h.acts _ ha) hsub
  · show Justified (Authentic cfg σ'.sessions) σ'.log
    -- what was authentic stays so: the uids of verified sessions are fixed
    have hold : Justified (Authentic cfg σ'.sessions) σ.log := h.log.mono fun _ _ h => h.mono hkeep
    rcases hex.log with heq | ⟨e, hrec, heq⟩
    · rw [heq]
      exact hold
    · rw [heq]
      exact hold.concat ((h.records hfacts ha hrec).mono hkeep)

/-- A step that changes nothing of all this. -/
theorem AuthOk.congr (h : AuthOk cfg σ) (hcode : σ'.code worker = σ.code worker)
    (hqueue : σ'.queue = σ.queue) (hitem : σ'.item = σ.item) (hlog : σ'.log = σ.log)
    (hsame : ∀ s, (σ'.sessions s).verified = (σ.sessions s).verified ∧
      (σ'.sessions s).userId = (σ.sessions s).userId) : AuthOk cfg σ' := by
  have hkeep : KeepsVerified σ.sessions σ'.sessions := fun s hv =>
    ⟨(hsame s).1.trans hv, (hsame s).2⟩
  have hsub : ∀ e ∈ σ.log, e ∈ σ'.log := fun e he => hlog ▸ he
  refine ⟨fun a ha => ?_, fun s n hn => ?_, fun s n hn => ?_, fun s hv => ?_, ?_⟩
  · exact (h.acts a (hcode ▸ ha)).mono hitem hkeep hsub
  · exact hsub _ (h.queue s n (hqueue ▸ hn))
  · rw [hlog]
    exact h.item s n (hitem ▸ hn)
  · rw [hlog, (hsame s).2]
    exact h.verified s ((hsame s).1 ▸ hv)
  · rw [hlog]
    exact h.log.mono fun _ _ h => h.mono hkeep

/-- Other steps change neither the history nor the acts of the worker, or give it a frame that was
posted. -/
theorem AuthOk.step (h : AuthOk cfg σ) (hfacts : Facts cfg σ) (hok : ParsesContent cfg σ l)
    (hs : Stepped cfg σ l σ') : AuthOk cfg σ' := by
  cases hs with
  | run hcode hex => exact h.run hfacts hok hcode hex
  | wait => exact ⟨by simp [Act.Known], h.queue, nofun, h.verified, h.log⟩
  | @take s msg q _ _ hq =>
    have hsub : ∀ e ∈ σ.log, e ∈ σ.log ++ [.taken s msg] := fun e he => List.mem_append_left _ he
    refine ⟨by simp [Act.Known], fun s' n hn => ?_, fun s' n hn => ?_, fun s' hv => ?_, ?_⟩
    · exact hsub _ (h.queue s' n (by rw [hq]; exact List.mem_cons_of_mem _ hn))
    · obtain ⟨rfl, rfl⟩ : s = s' ∧ msg = some n := by simpa using hn
      refine ⟨hsub _ (h.queue s n (by rw [hq]; exact List.mem_cons_self)), ?_⟩
      rw [lastTaken, lastSome?_concat]
      rfl
    · exact (h.verified s' hv).mono hsub
    · exact h.log.concat trivial
  | leave _ hcode => exact ⟨by simp [hcode], h.queue, nofun, h.verified, h.log⟩
  | @call t e ht hcode he =>
    have hrest : (e.begin σ).queue = σ.queue ∧ (e.begin σ).item = σ.item ∧
        (e.begin σ).log = σ.log := by cases e <;> exact ⟨rfl, rfl, rfl⟩
    have hsame : ∀ s, ((e.begin σ).sessions s).verified = (σ.sessions s).verified ∧
        ((e.begin σ).sessions s).userId = (σ.sessions s).userId := by
      intro s
      obtain ⟨c, w, hx, -⟩ := e.begin_sessions (σ := σ) s
      simp [hx]
    exact h.congr (Function.update_of_ne (Ne.symm ht) ..) hrest.1 hrest.2.1 hrest.2.2 hsame
  | redis => exact h.congr rfl rfl rfl rfl fun _ => ⟨rfl, rfl⟩

theorem authOk_init : AuthOk cfg init := by
  refine ⟨fun a ha => ?_, nofun, nofun, nofun, justified_nil⟩
  rw [eq_lock_of_mem_init ha]
  trivial

/-- The facts hold in every run that keeps to the conditions. -/
theorem facts_of_reach (h : Reach (Backend.step cfg) (ReadsContent cfg) init σ) : Facts cfg σ :=
  ⟨sound_of_reach h, sessUid_of_reach h, h.invariant formatOk_init fun _ _ _ hf hok hs =>
    hf.step hok.1 (step_cases hs)⟩

/-- **Chats come from who they say**, as long as messages are read from their content: every chat
frame `MsgHandler` sends and every stream entry it writes goes back to a chat of a session that has
proved the sender's uid, it goes to the recipient named there, and the text is unchanged. -/
theorem sendersAuthentic_of_readsContent (cfg : Config) (σ : State)
    (h : Reach (Backend.step cfg) (ReadsContent cfg) init σ) : SendersAuthentic cfg σ := by
  have hauth : AuthOk cfg σ := h.invariant_of facts_of_reach authOk_init
    fun _ _ _ hfacts hauth hok hs => hauth.step hfacts hok.2 (step_cases hs)
  refine ⟨hauth.log, fun l σ' hs s hv => ?_⟩
  exact (step_cases hs).keepsVerified s hv

/-- User 7 writes `hi` to user 7. -/
theorem sendersAuthentic_hi :
    ∃ σ, (Reach (Backend.step exampleConfig) (ReadsContent exampleConfig) init σ ∧
      .pushed worker 0 (hiFrame.toCliInPlace .little 7) ∈ σ.log) ∧
      SendersAuthentic exampleConfig σ := by
  have hrun : ((Trace.run (Backend.step exampleConfig) (ReadsContent exampleConfig) init
      (chatting verifyFrame hiFrame 11)).any
        fun σ => decide (.pushed worker 0 (hiFrame.toCliInPlace .little 7) ∈ σ.log)) = true := by
    decide +kernel
  obtain ⟨σ, hreach, htest⟩ := exists_reach_of_run hrun
  exact ⟨σ, ⟨hreach, of_decide_eq_true htest⟩,
    sendersAuthentic_of_readsContent exampleConfig σ hreach⟩

/-- The event is no `VERIFY` that names anybody. -/
def namesNobody (cfg : Config) : Event → Bool
  | .verifyUser _ n _ _ => cfg.json (cString n.contentBytes) = .invalid
  | _ => true

/-- If no `VERIFY` names anybody, then nobody can have sent a chat. -/
theorem not_sendersAuthentic_of_namesNobody {out : MsgNode}
    (hnames : ∀ e ∈ σ.log, namesNobody cfg e = true) (hpushed : .pushed worker s out ∈ σ.log)
    (htag : out.getTagField cfg.host = TagType.chatMsgToCli.val) : ¬ SendersAuthentic cfg σ := by
  rintro ⟨hlog, -⟩
  obtain ⟨before, after, heq⟩ := List.append_of_mem hpushed
  obtain ⟨s', n, hcause, -⟩ := hlog before _ after heq rfl htag
  obtain ⟨n', token, text, -, -, hjson, hverify, -⟩ := hcause.proved
  have hnone := hnames _ (by rw [heq]; exact List.mem_append_left _ hverify)
  simp [namesNobody, hjson] at hnone

/-- A `VERIFY` without content, received into a buffer that holds the text of a `VERIFY` of user 7:
the session becomes user 7 and can write in their name. All chats are long enough. -/
theorem not_sendersAuthentic_residue :
    ∃ σ, Reach (Backend.step exampleConfig) (LongChats exampleConfig) init σ ∧
      ¬ SendersAuthentic exampleConfig σ := by
  have hrun : ((Trace.run (Backend.step exampleConfig) (LongChats exampleConfig) init
      (chatting (received verifyText ⟨TagType.verify.val, []⟩) hiFrame 11)).any
        fun σ => decide ((∀ e ∈ σ.log, namesNobody exampleConfig e = true) ∧
          .pushed worker 0 (hiFrame.toCliInPlace .little 7) ∈ σ.log)) = true := by
    decide +kernel
  obtain ⟨σ, hreach, htest⟩ := exists_reach_of_run hrun
  obtain ⟨hnames, hpushed⟩ := of_decide_eq_true htest
  exact ⟨σ, hreach, not_sendersAuthentic_of_namesNobody hnames hpushed (by decide +kernel)⟩

end Chatroom.Backend
