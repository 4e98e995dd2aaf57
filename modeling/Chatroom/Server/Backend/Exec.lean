import Chatroom.Server.Backend.State

/-!
# What an act can do

`exec` as a relation, one constructor for each branch. The acts that only expand to others, without
a change of the state, are `Expands`; the rest are the constructors of `Exec`. Everything proved
about runs goes by cases over these two and never looks into `exec` again.

Some constructors say less than the code: where nothing depends on it, the condition of a branch or
the new
value is left out (`popEmpty`, `addOnline`, `updateUserStatus`). What is proved from them holds all
the more. Where
more is needed, as for the entries in Redis, another relation over `exec` says it.
-/

namespace Chatroom.Backend

open Trace Threads

/-- What the switch over the tag of a message expands to. -/
inductive Dispatched (cfg : Config) (σ : State) (s : SessId) (msg : MsgNode) : List Act → Prop
  | nothing : Dispatched cfg σ s msg []
  | refused : msg.getTagField cfg.host = TagType.verify.val → (σ.sessions s).verified = false →
      Dispatched cfg σ s msg (verifyFailed s)
  | verify {token : List UInt8} {uid : Uid} : msg.getTagField cfg.host = TagType.verify.val →
      (σ.sessions s).verified = false → cfg.json (cString msg.getContent) = .fields token uid →
      Dispatched cfg σ s msg [.verifyUser s msg token uid]
  | chat : msg.getTagField cfg.host = TagType.chatMsg.val → (σ.sessions s).verified = true →
      Dispatched cfg σ s msg [.lock .mgr, .chatFind s msg (msg.targetUid cfg.host)]

/-- The acts that leave the state as it is. -/
inductive Expands (cfg : Config) (σ : State) : Act → List Act → Prop
  | closeDown {s} : (σ.sessions s).down = true → Expands cfg σ (.close s) []
  | processorClosed {s} : (σ.sessions s).verified = true →
      Expands cfg σ (.processor s none)
        [.lock .uploader, .removeOnline (σ.sessions s).userId, .unlock .uploader, .uploadImpl]
  | processorNothing {s} : Expands cfg σ (.processor s none) []
  | processorFrame {s n} : Expands cfg σ (.processor s (some n))
      [.lock .uploader, .addOnline (σ.sessions s).userId, .unlock .uploader, .dispatch s n]
  | dispatch {s msg new} : Dispatched cfg σ s msg new → Expands cfg σ (.dispatch s msg) new
  | setVerifiedAgain {s uid} : (σ.sessions s).verified = true →
      Expands cfg σ (.setVerified s uid) (addSession uid s ++ [.updateUserStatus uid, .welcome s])
  | emplaceRefused {uid s} : σ.sess uid ≠ none → Expands cfg σ (.emplaceSess uid s) []
  | welcome {s n} :
      MsgNode.ofContent cfg.host (fun _ => 0) welcomeText TagType.verifyDone.val = .ok n →
      Expands cfg σ (.welcome s) (send s n)
  | chatLocal {s msg target targetSess} : σ.sess target = some targetSess →
      Expands cfg σ (.chatFind s msg target) [.unlock .mgr, .deliver s msg targetSess]
  | chatRemote {s msg target} : σ.sess target = none →
      Expands cfg σ (.chatFind s msg target) [.unlock .mgr, .getUserLocation s msg target]
  | located {s msg target sid} : σ.redis.location target = some sid →
      Expands cfg σ (.getUserLocation s msg target) [.sendToMsgQueue sid s msg target]
  | offline {s msg target} : Expands cfg σ (.getUserLocation s msg target) []
  | deliver {s msg targetSess} : Expands cfg σ (.deliver s msg targetSess)
      (send targetSess (msg.toCliInPlace cfg.host (σ.sessions s).userId))
  | popEmpty {s} : Expands cfg σ (.popSend s) [.unlock (.latch s)]
  | uploadBusy : Expands cfg σ .uploadImpl []
  | addTempRefused {s} : σ.tempSess s ≠ none → Expands cfg σ (.addTemp s) []
  | frameDown {s n} : Expands cfg σ (.frameRead s n) []
  | frameRead {s n} : (σ.sessions s).down = false →
      Expands cfg σ (.frameRead s n) (postMessage s (some n))
  | ctrlMsg {uidStr uid} : Expands cfg σ (.ctrlMsg uidStr) [.lock .mgr, .kickFind uid]
  | kick {uid s} : σ.sess uid = some s → Expands cfg σ (.kickFind uid) [.unlock .mgr, .close s]
  | kickMissing {uid} : Expands cfg σ (.kickFind uid) [.unlock .mgr]
  | mqMsg {item fresh toUid n} :
      messageHandler cfg.host (List.getD fresh · 0) item = .ok (toUid, n) →
      Expands cfg σ (.mqMsg item fresh) [.lock .mgr, .mqFind toUid n]
  | mqFind {toUid n s} : σ.sess toUid = some s →
      Expands cfg σ (.mqFind toUid n) (.unlock .mgr :: send s n)
  | mqMissing {toUid n} : Expands cfg σ (.mqFind toUid n) [.unlock .mgr]
  | stopFind {uid s} : σ.sess uid = some s →
      Expands cfg σ (.stopFind uid) [.close s, .unlock .mgr]
  | stopMissing {uid} : Expands cfg σ (.stopFind uid) [.unlock .mgr]
  | stopped : Expands cfg σ .stopRunning [.unlock .handler]
  | join : Expands cfg σ .join []

/-- The acts that end the process, and how. -/
inductive Crashes (σ : State) : Act → Fault → Prop
  | welcome {s} : Crashes σ (.welcome s) .zeroSized
  | negativeLength {sid s msg target} : msg.ctxLen < 8 →
      Crashes σ (.sendToMsgQueue sid s msg target) .negativeLength
  | ctrlMsg {uidStr e} : Crashes σ (.ctrlMsg uidStr) (.uncaught e)
  | mqMsg {item fresh e} : Crashes σ (.mqMsg item fresh) (.uncaught e)

/-- One act of thread `t`. -/
inductive Exec (cfg : Config) (t : Tid) (σ : State) : Act → State → List Act → Prop
  | expand {a new} : Expands cfg σ a new → Exec cfg t σ a σ new
  | crash {a f} : Crashes σ a f → Exec cfg t σ a (σ.crash f) []
  | lock {m} : σ.owner m = none →
      Exec cfg t σ (.lock m) { σ with owner := Function.update σ.owner m (some t) } []
  | unlock {m} : Exec cfg t σ (.unlock m) { σ with owner := Function.update σ.owner m none } []
  | enqueueFrame {s n} : Exec cfg t σ (.enqueue s (some n))
      (State.record { σ with queue := σ.queue ++ [(s, some n)] } (.posted s n)) []
  | enqueueClosed {s} : Exec cfg t σ (.enqueue s none)
      { σ with queue := σ.queue ++ [(s, none)] } []
  | close {s} : (σ.sessions s).down = false → Exec cfg t σ (.close s)
      (σ.modify s fun x => { x with down := true, closer := some t, stage := .closing })
      (postMessage s none ++ [.closeTable s])
  | closeToSess {s} : (σ.sessions s).verified = true → Exec cfg t σ (.closeTable s)
      (σ.modify s fun x => { x with stage := .toSess })
      (closeRemoveSession s (σ.sessions s).userId)
  | closeToTemp {s} : (σ.sessions s).verified = false → Exec cfg t σ (.closeTable s)
      (σ.modify s fun x => { x with stage := .toTemp }) (closeRemoveTempSession s)
  | closeReturn {s} : Exec cfg t σ (.closeReturn s)
      (σ.modify s fun x => { x with stage := .returned }) []
  | eraseSess {s uid} : Exec cfg t σ (.eraseSess s uid)
      ((State.modify { σ with sess := Function.update σ.sess uid none } s
        fun x => { x with stage := .removed }).record (.erasedSess s (σ.sess uid)))
      [.unlock .mgr, .closeReturn s]
  | eraseTempClose {s} : Exec cfg t σ (.eraseTemp s true)
      ((State.modify { σ with tempSess := Function.update σ.tempSess s none } s
        fun x => { x with stage := .removed }).record (.erasedTemp s (σ.tempSess s)))
      [.unlock .temp, .closeReturn s]
  | eraseTemp {s} : Exec cfg t σ (.eraseTemp s false)
      { σ with tempSess := Function.update σ.tempSess s none } [.unlock .temp]
  | verifyFailed {s msg token uid} : Exec cfg t σ (.verifyUser s msg token uid)
      (σ.record (.verifyUser s msg token (σ.redis.token token))) (verifyFailed s)
  | verifyCrash {s msg token uid e} : Exec cfg t σ (.verifyUser s msg token uid)
      ((σ.record (.verifyUser s msg token (σ.redis.token token))).crash (.uncaught e)) []
  | verifyOk {s msg token uid text} : σ.redis.token token = some text → stoull text = .ok uid →
      Exec cfg t σ (.verifyUser s msg token uid)
        (σ.record (.verifyUser s msg token (σ.redis.token token))) [.setVerified s uid]
  | setVerified {s uid} : (σ.sessions s).verified = false → Exec cfg t σ (.setVerified s uid)
      (σ.modify s fun x => { x with userId := uid, verified := true })
      (addSession uid s ++ [.updateUserStatus uid, .welcome s])
  | emplace {uid s} : σ.sess uid = none → Exec cfg t σ (.emplaceSess uid s)
      { σ with sess := Function.update σ.sess uid (some s) } []
  | updateUserStatus {uid redis} : Exec cfg t σ (.updateUserStatus uid)
      { σ with redis := redis } []
  | sendToMsgQueue {sid s msg target} : 8 ≤ msg.ctxLen →
      Exec cfg t σ (.sendToMsgQueue sid s msg target)
        (σ.record (.streamed sid
          (Chatroom.sendToMsgQueue (σ.sessions s).userId target msg.chatText))) []
  | pushSend {s n new} :
      new = [.unlock (.latch s)] ∨ new = .unlock (.latch s) :: queueSend s →
      Exec cfg t σ (.pushSend s n)
        ((σ.modify s fun x => { x with sendQ := x.sendQ ++ [n] }).record (.pushed t s n)) new
  | popSend {s n q} : Exec cfg t σ (.popSend s)
      (σ.modify s fun x => { x with sendQ := q, sending := some n })
      [.unlock (.latch s), .asyncWrite s]
  | asyncWrite {s} : Exec cfg t σ (.asyncWrite s)
      (σ.modify s fun x => { x with writes := x.writes + 1 }) []
  | addOnline {uid us} : Exec cfg t σ (.addOnline uid) { σ with onlineSess := us } []
  | removeOnline {uid us vs} : Exec cfg t σ (.removeOnline uid)
      { σ with onlineSess := us, onlineRemoval := vs } []
  | uploadImpl : Exec cfg t σ .uploadImpl { σ with inProgress := true }
      [.lock .uploader, .uploadSwap]
  | uploadSwap {us} : Exec cfg t σ .uploadSwap { σ with onlineSess := [], onlineRemoval := [] }
      [.unlock .uploader, .uploadExec us]
  | uploadExec {us redis} : Exec cfg t σ (.uploadExec us)
      { σ with redis := redis, inProgress := false } []
  | addTemp {s} : σ.tempSess s = none → Exec cfg t σ (.addTemp s)
      { σ with tempSess := Function.update σ.tempSess s (some s) } []
  | start {s} : Exec cfg t σ (.start s) (σ.modify s fun x => { x with started := true }) []
  | stopRunning : Exec cfg t σ .stopRunning { σ with running := false }
      [.unlock .handler, .join, .lock .handler, .unlock .handler]

/-- The cases of the switch. -/
theorem dispatched_dispatch (cfg : Config) (σ : State) (s : SessId) (msg : MsgNode) :
    Dispatched cfg σ s msg (dispatch cfg σ s msg) := by
  unfold dispatch
  dsimp only
  -- `DEBUG`, `VERIFY`, `CHAT_MSG`, and the tags that nothing comes of
  split
  · exact .nothing
  split
  · next htag =>
    split
    · exact .nothing
    · next hv =>
      have hv : (σ.sessions s).verified = false := by simpa using hv
      split
      · exact .refused htag hv
      · exact .refused htag hv
      · next token uid hjson => exact .verify htag hv hjson
  split
  · next htag =>
    split
    · next hv => exact .chat htag hv
    · exact .nothing
  · exact .nothing

variable {cfg : Config} {t : Tid} {σ σ' : State} {a : Act} {new : List Act}

/-- The cases of the reply of Redis to `VerifyUser`. -/
theorem verifyReplied_exec {s : SessId} {msg : MsgNode} {token : List UInt8} {uid : Uid}
    (h : verifyReplied (σ.record (.verifyUser s msg token (σ.redis.token token))) s uid
      (σ.redis.token token) = (σ', new)) :
    Exec cfg t σ (.verifyUser s msg token uid) σ' new := by
  unfold verifyReplied at h
  split at h
  · cases h
    exact .verifyFailed
  · next text htext =>
    split at h
    · cases h
      exact .verifyCrash
    · next answer hanswer =>
      split at h
      · next heq =>
        cases h
        exact .verifyOk htext (heq ▸ hanswer)
      · cases h
        exact .verifyFailed

/-- **Everything an act can do is listed.** -/
theorem exec_cases (h : exec cfg t σ a = some (σ', new)) : Exec cfg t σ a σ' new := by
  cases a <;> simp only [exec] at h
  case lock m =>
    split at h
    · next hfree => cases h; exact .lock hfree
    · cases h
  case unlock m => cases h; exact .unlock
  case enqueue s msg =>
    cases msg with
    | none => cases h; exact .enqueueClosed
    | some n => cases h; exact .enqueueFrame
  case close s =>
    split at h
    · next hd => cases h; exact .expand (.closeDown hd)
    · next hd => cases h; exact .close (by simpa using hd)
  case closeTable s =>
    split at h
    · next hv => cases h; exact .closeToSess hv
    · next hv => cases h; exact .closeToTemp (by simpa using hv)
  case closeReturn s => cases h; exact .closeReturn
  case eraseSess s uid => cases h; exact .eraseSess
  case eraseTemp s byClose =>
    cases byClose with
    | false => cases h; exact .eraseTemp
    | true => cases h; exact .eraseTempClose
  case processor s msg =>
    cases msg with
    | none =>
      dsimp only at h
      split at h
      · next hv => cases h; exact .expand (.processorClosed hv)
      · cases h; exact .expand .processorNothing
    | some n => cases h; exact .expand .processorFrame
  case dispatch s msg => cases h; exact .expand (.dispatch (dispatched_dispatch _ _ _ _))
  case verifyUser s msg token uid => exact verifyReplied_exec (Option.some.inj h)
  case setVerified s uid =>
    cases h
    split
    · next hv => exact .expand (.setVerifiedAgain hv)
    · next hv => exact .setVerified (by simpa using hv)
  case emplaceSess uid s =>
    split at h
    · next hnone => cases h; exact .emplace hnone
    · next hsome => cases h; exact .expand (.emplaceRefused hsome)
  case updateUserStatus uid => cases h; exact .updateUserStatus
  case welcome s =>
    split at h
    · next n hn => cases h; exact .expand (.welcome hn)
    · cases h; exact .crash .welcome
  case chatFind s msg target =>
    cases h
    cases htarget : σ.sess target with
    | none => exact .expand (.chatRemote htarget)
    | some targetSess => exact .expand (.chatLocal htarget)
  case getUserLocation s msg target =>
    split at h
    · next sid hsid => cases h; exact .expand (.located hsid)
    · cases h; exact .expand .offline
  case sendToMsgQueue sid s msg target =>
    split at h
    · next hlen => cases h; exact .crash (.negativeLength hlen)
    · next hlen => cases h; exact .sendToMsgQueue (by omega)
  case deliver s msg targetSess => cases h; exact .expand .deliver
  case pushSend s n =>
    cases h
    refine .pushSend ?_
    split
    · exact .inr rfl
    · exact .inl rfl
  case popSend s =>
    split at h
    · cases h; exact .expand .popEmpty
    · cases h; exact .popSend
  case asyncWrite s => cases h; exact .asyncWrite
  case addOnline uid => cases h; exact .addOnline
  case removeOnline uid => cases h; exact .removeOnline
  case uploadImpl =>
    split at h
    · cases h; exact .expand .uploadBusy
    · cases h; exact .uploadImpl
  case uploadSwap => cases h; exact .uploadSwap
  case uploadExec erasing => cases h; exact .uploadExec
  case addTemp s =>
    split at h
    · next hnone => cases h; exact .addTemp hnone
    · next hsome => cases h; exact .expand (.addTempRefused hsome)
  case start s => cases h; exact .start
  case frameRead s n =>
    split at h
    · cases h; exact .expand .frameDown
    · next hd => cases h; exact .expand (.frameRead (by simpa using hd))
  case ctrlMsg uidStr =>
    split at h
    · cases h; exact .expand .ctrlMsg
    · cases h; exact .crash .ctrlMsg
  case kickFind uid =>
    cases h
    cases huid : σ.sess uid with
    | none => exact .expand .kickMissing
    | some s => exact .expand (.kick huid)
  case mqMsg item fresh =>
    split at h
    · next toUid n hok => cases h; exact .expand (.mqMsg hok)
    · cases h; exact .crash .mqMsg
  case mqFind toUid n =>
    cases h
    cases hto : σ.sess toUid with
    | none => exact .expand .mqMissing
    | some s => exact .expand (.mqFind hto)
  case stopFind uid =>
    split at h
    · next s hs => cases h; exact .expand (.stopFind hs)
    · cases h; exact .expand .stopMissing
  case stopRunning =>
    split at h
    · cases h; exact .stopRunning
    · cases h; exact .expand .stopped
  case join =>
    split at h
    · cases h
    · cases h; exact .expand .join

/-! ## The loop and the queue

What belongs to the loop of the worker is changed by the loop only, and acts only append to the queue. -/

theorem Exec.looping (h : Exec cfg t σ a σ' new) : σ'.looping = σ.looping := by
  cases h <;> rfl

theorem Exec.item_eq (h : Exec cfg t σ a σ' new) : σ'.item = σ.item := by
  cases h <;> rfl

/-- The queue grows at its end, by `PostMessage`. -/
theorem Exec.queue (h : Exec cfg t σ a σ' new) :
    σ'.queue = σ.queue ∨ ∃ s msg, a = .enqueue s msg ∧ σ'.queue = σ.queue ++ [(s, msg)] := by
  cases h with
  | enqueueFrame | enqueueClosed => exact .inr ⟨_, _, rfl, rfl⟩
  | _ => exact .inl rfl

/-! ## The history

The events of a run are a list that acts append to. `Records` says which act has which event; an event
of the
history is traced back to its act by cases on it. -/

/-- What thread `t` records with an act. -/
inductive Records (t : Tid) (σ : State) : Act → Event → Prop
  | posted {s n} : Records t σ (.enqueue s (some n)) (.posted s n)
  | erasedSess {s uid} : Records t σ (.eraseSess s uid) (.erasedSess s (σ.sess uid))
  | erasedTemp {s} : Records t σ (.eraseTemp s true) (.erasedTemp s (σ.tempSess s))
  | verifyUser {s msg token uid} : Records t σ (.verifyUser s msg token uid)
      (.verifyUser s msg token (σ.redis.token token))
  | streamed {sid s msg target} : 8 ≤ msg.ctxLen → Records t σ (.sendToMsgQueue sid s msg target)
      (.streamed sid (Chatroom.sendToMsgQueue (σ.sessions s).userId target msg.chatText))
  | pushed {s n} : Records t σ (.pushSend s n) (.pushed t s n)

/-- The history only grows, by what the act records. -/
theorem Exec.log (h : Exec cfg t σ a σ' new) :
    σ'.log = σ.log ∨ ∃ e, Records t σ a e ∧ σ'.log = σ.log ++ [e] := by
  cases h with
  | enqueueFrame => exact .inr ⟨_, .posted, rfl⟩
  | eraseSess => exact .inr ⟨_, .erasedSess, rfl⟩
  | eraseTempClose => exact .inr ⟨_, .erasedTemp, rfl⟩
  | verifyFailed | verifyCrash | verifyOk => exact .inr ⟨_, .verifyUser, rfl⟩
  | sendToMsgQueue hlen => exact .inr ⟨_, .streamed hlen, rfl⟩
  | pushSend => exact .inr ⟨_, .pushed, rfl⟩
  | _ => exact .inl rfl

/-- An event is old, or the act has recorded it. -/
theorem Exec.mem_log (h : Exec cfg t σ a σ' new) {e : Event} (he : e ∈ σ'.log) :
    e ∈ σ.log ∨ Records t σ a e := by
  rcases h.log with heq | ⟨e', hrec, heq⟩
  · exact .inl (heq ▸ he)
  · rw [heq, List.mem_append, List.mem_singleton] at he
    rcases he with hold | rfl
    · exact .inl hold
    · exact .inr hrec

theorem Exec.log_subset (h : Exec cfg t σ a σ' new) {e : Event} (he : e ∈ σ.log) : e ∈ σ'.log := by
  rcases h.log with heq | ⟨e', -, heq⟩
  · exact heq ▸ he
  · rw [heq]
    exact List.mem_append_left _ he

/-! ## Steps

The loop of the worker has three ways: it waits on an empty queue and releases the mutex meanwhile, it
takes an
event, or it leaves. Any other thread does what it was called for, act by act, and then may be called
again. -/

/-- What a step can do: a thread does its first act, the worker turns its loop, an entry point is
called, Redis changes. -/
inductive Stepped (cfg : Config) (σ : State) : Label → State → Prop
  | run {t a rest σ' new} : σ.code t = a :: rest → Exec cfg t σ a σ' new →
      Stepped cfg σ (.run t) { σ' with code := advance σ.code t new rest }
  | wait : σ.looping = true → σ.code worker = [] → σ.queue = [] →
      Stepped cfg σ .workerLoop
        { σ with
          item := none
          owner := Function.update σ.owner .handler none
          code := Function.update σ.code worker [.lock .handler] }
  | take {s msg q} : σ.looping = true → σ.code worker = [] → σ.queue = (s, msg) :: q →
      Stepped cfg σ .workerLoop
        { σ with
          item := some (s, msg)
          queue := q
          log := σ.log ++ [.taken s msg]
          code := Function.update σ.code worker [.processor s msg] }
  | leave : σ.looping = true → σ.code worker = [] →
      Stepped cfg σ .workerLoop
        { σ with
          item := none
          looping := false
          owner := Function.update σ.owner .handler none }
  | call {t e} : t ≠ worker → σ.code t = [] → e.Enabled cfg σ t →
      Stepped cfg σ (.call t e)
        { e.begin σ with code := Function.update σ.code t (e.acts σ) }
  | redis {r} : Stepped cfg σ (.redis r) { σ with redis := r }

/-- **Everything a step can do is listed.** -/
theorem step_cases {l : Label} (h : step cfg σ l = some σ') : Stepped cfg σ l σ' := by
  unfold step at h
  split at h
  · cases l with
    | run t =>
      dsimp only at h
      split at h
      · cases h
      · next a rest hcode =>
        obtain ⟨⟨σ₁, new⟩, hexec, rfl⟩ := Option.map_eq_some_iff.mp h
        exact .run hcode (exec_cases hexec)
    | workerLoop =>
      dsimp only at h
      split at h
      · next hcond =>
        cases h
        -- still running, with an empty queue or not, or stopped
        unfold workerLoop
        split
        · split
          · next hq => exact .wait hcond.1 hcond.2 hq
          · next s msg q hq => exact .take hcond.1 hcond.2 hq
        · exact .leave hcond.1 hcond.2
      · cases h
    | call t e =>
      dsimp only at h
      split at h
      · next hcond =>
        cases h
        exact .call hcond.1 hcond.2.1 hcond.2.2
      · cases h
    | redis r =>
      cases h
      exact .redis
  · -- after a fault there is no step
    cases h

end Chatroom.Backend
