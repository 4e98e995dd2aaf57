import Chatroom.Lib.Trace
import Chatroom.Lib.Threads
import Chatroom.Server.Delivery
import Chatroom.Server.Receive

/-!
# One backend server

The threads of a backend and what they share: the sessions, the tables of `SessionManager`, the
queue of `MsgHandler`, the sets of `OnlineStatusUploader`, and five kinds of mutexes. A thread has a
list of acts left to do. An act is as much of the program as happens without another thread seeing
the middle of it: to take or release a mutex, what is done inside a critical section, one read or
write of a shared variable outside. A call of a function puts the acts of its body in front.

- The *worker* is the thread of `MsgHandler::Worker`. It holds `MsgHandler::lck_` all the time,
  except while it waits on the condition variable, so while `Processor` runs too.
- The *acceptor* runs the callbacks of `async_accept`, each of which starts the next accept.
- Any other thread runs one entry point after another: a receive or write callback of a session, a
  message or a kick from the message queue, `StopSession`, a count, the upload timer, `Stop`.

Redis is part of the environment and may change at any time. Left out are the log output, the
condition variable's notifications (a wait may end at any time) and the re-arming of the upload
timer, which touch nothing of the above.
-/

namespace Chatroom.Backend

open ByteSeq

/-- A session object, by the number of its creation. -/
abbrev SessId := ℕ
abbrev Tid := ℕ
abbrev Uid := UInt64

def worker : Tid := 0
def acceptor : Tid := 1

/-- The mutexes: `lck_` of `MsgHandler`, `lck_` and `temp_lck_` of `SessionManager`, `lck_` of
`OnlineStatusUploader`, and the `send_latch_` of each session. -/
inductive Mutex where
  | handler
  | mgr
  | temp
  | uploader
  | latch (s : SessId)
  deriving DecidableEq, Repr

/-! ## What the environment provides

The JSON parser and the answers of Redis are arguments; nothing is assumed of them. -/

/-- What is read out of the text of a `VERIFY` message: it is no JSON, `token` or `uid` cannot be
converted, or the two values. -/
inductive JsonRoot where
  | invalid
  | badFields
  | fields (token : List UInt8) (uid : Uid)
  deriving DecidableEq, Repr

structure Config where
  host : ByteOrder
  serverId : List UInt8
  json : List UInt8 → JsonRoot

/-- The answers Redis gives: `GET token:<token>` and `HGET status:<uid> server_id`. -/
structure Redis where
  token : List UInt8 → Option (List UInt8)
  location : Uid → Option (List UInt8)

/-- The C string at the start of some memory. -/
def cString (bs : List UInt8) : List UInt8 := bs.takeWhile (· ≠ 0)

/-! ## The state

Fields of the classes keep their names. `created`, `started` and `writes` say what the environment may
do next. What is marked as history, and the log, is written by acts and read by none. -/

/-- How far the call of `Close` that closes the session has come: it has set `down_`, it has chosen
the table by the value of `verified_`, it has removed the entry, it has returned. -/
inductive CloseStage where
  | notClosed
  | closing
  | toTemp
  | toSess
  | removed
  | returned
  deriving DecidableEq, Repr

structure SessionState where
  created : Bool
  started : Bool
  verified : Bool
  userId : Uid
  down : Bool
  sendQ : List MsgNode
  sending : Option MsgNode
  /-- Writes outstanding on the socket. -/
  writes : ℕ
  /-- History of `Close`: the thread that closes the session, and how far it is. -/
  closer : Option Tid
  stage : CloseStage
  deriving DecidableEq, Repr

inductive Act where
  | lock (m : Mutex)
  | unlock (m : Mutex)
  /-- `MsgHandler::PostMessage`, inside its critical section. -/
  | enqueue (s : SessId) (msg : Option MsgNode)
  /-- `Session::Close`: the exchange of `down_`; the reading of `verified_`; the return. -/
  | close (s : SessId)
  | closeTable (s : SessId)
  | closeReturn (s : SessId)
  /-- `sess_.erase(uid)` for the `Close` of `s`. -/
  | eraseSess (s : SessId) (uid : Uid)
  /-- `temp_sess_.erase(s)`, for the `Close` of `s` or not. -/
  | eraseTemp (s : SessId) (byClose : Bool)
  /-- `MsgHandler::Processor` and its parts. -/
  | processor (s : SessId) (msg : Option MsgNode)
  | dispatch (s : SessId) (msg : MsgNode)
  | verifyUser (s : SessId) (msg : MsgNode) (token : List UInt8) (uid : Uid)
  | setVerified (s : SessId) (uid : Uid)
  | emplaceSess (uid : Uid) (s : SessId)
  | updateUserStatus (uid : Uid)
  | welcome (s : SessId)
  | chatFind (s : SessId) (msg : MsgNode) (target : Uid)
  | getUserLocation (s : SessId) (msg : MsgNode) (target : Uid)
  | sendToMsgQueue (sid : List UInt8) (s : SessId) (msg : MsgNode) (target : Uid)
  | deliver (s : SessId) (msg : MsgNode) (targetSess : SessId)
  /-- `Session::Send` and `Session::QueueSend`, inside their critical sections, and the write. -/
  | pushSend (s : SessId) (n : MsgNode)
  | popSend (s : SessId)
  | asyncWrite (s : SessId)
  /-- `OnlineStatusUploader`. -/
  | addOnline (uid : Uid)
  | removeOnline (uid : Uid)
  | uploadImpl
  | uploadSwap
  | uploadExec (erasing : List Uid)
  /-- `ServerClass::AcceptorFn`. -/
  | addTemp (s : SessId)
  | start (s : SessId)
  /-- The end of a receive callback: a complete frame. -/
  | frameRead (s : SessId) (n : MsgNode)
  /-- `MQHandler`: a kick, a message. -/
  | ctrlMsg (uidStr : List UInt8)
  | kickFind (uid : Uid)
  | mqMsg (item : StreamItem) (fresh : List UInt8)
  | mqFind (toUid : Uid) (n : MsgNode)
  /-- `SessionManager::StopSession`. -/
  | stopFind (uid : Uid)
  /-- `MsgHandler::Stop`. -/
  | stopRunning
  | join
  deriving DecidableEq, Repr

/-- What ends the process: an exception of `stoull` that nobody catches, a view of negative
length. -/
inductive Fault where
  | uncaught (e : StdError)
  | negativeLength
  | zeroSized
  deriving DecidableEq, Repr

/-- What the history records. -/
inductive Event where
  /-- A frame of session `s` was queued for the worker. -/
  | posted (s : SessId) (n : MsgNode)
  /-- The worker took an event of session `s` to process it. -/
  | taken (s : SessId) (msg : Option MsgNode)
  /-- `VerifyUser(token)` for a frame of session `s`, with the answer of Redis. -/
  | verifyUser (s : SessId) (n : MsgNode) (token : List UInt8) (reply : Option (List UInt8))
  /-- Thread `t` pushed a node on the send queue of `s`. -/
  | pushed (t : Tid) (s : SessId) (n : MsgNode)
  /-- An entry was written to the stream of server `sid`. -/
  | streamed (sid : List UInt8) (item : StreamItem)
  /-- The `Close` of `s` erased an entry of `sess_` or of `temp_sess_`. -/
  | erasedSess (s : SessId) (found : Option SessId)
  | erasedTemp (s : SessId) (found : Option SessId)
  deriving DecidableEq, Repr

structure State where
  sessions : SessId → SessionState
  /-- `sess_` and `temp_sess_` of `SessionManager`. -/
  sess : Uid → Option SessId
  tempSess : SessId → Option SessId
  /-- `q_` and `running_` of `MsgHandler`. -/
  queue : List (SessId × Option MsgNode)
  running : Bool
  /-- The worker is inside its loop; the event it took last. -/
  looping : Bool
  item : Option (SessId × Option MsgNode)
  /-- `sess_`, `removal_sess_` and `in_progress_` of `OnlineStatusUploader`. -/
  onlineSess : List Uid
  onlineRemoval : List Uid
  inProgress : Bool
  redis : Redis
  owner : Mutex → Option Tid
  code : Tid → List Act
  fault : Option Fault
  log : List Event

namespace State

/-- Change the state of one session. -/
def modify (σ : State) (s : SessId) (f : SessionState → SessionState) : State :=
  { σ with sessions := Function.update σ.sessions s (f (σ.sessions s)) }

def record (σ : State) (e : Event) : State := { σ with log := σ.log ++ [e] }

def crash (σ : State) (f : Fault) : State := { σ with fault := some f }

variable {σ : State} {s s' : SessId} {f : SessionState → SessionState}

@[simp] theorem modify_self : (σ.modify s f).sessions s = f (σ.sessions s) :=
  Function.update_self ..

theorem modify_of_ne (h : s' ≠ s) : (σ.modify s f).sessions s' = σ.sessions s' :=
  Function.update_of_ne h ..

end State

/-! ## The bodies of the functions

The functions whose bodies are more than one act. A body that ends in the release of a mutex by RAII
has the
release as its last act, or leaves it to the act that ends the critical section, where it depends on a
branch. -/

def postMessage (s : SessId) (msg : Option MsgNode) : List Act :=
  [.lock .handler, .enqueue s msg, .unlock .handler]

def queueSend (s : SessId) : List Act := [.lock (.latch s), .popSend s]

def send (s : SessId) (n : MsgNode) : List Act := [.lock (.latch s), .pushSend s n]

/-- `RemoveSession(user_id_)` and `RemoveTempSession(this)` as `Close` calls them. -/
def closeRemoveSession (s : SessId) (uid : Uid) : List Act := [.lock .mgr, .eraseSess s uid]
def closeRemoveTempSession (s : SessId) : List Act := [.lock .temp, .eraseTemp s true]

def removeTempSession (s : SessId) : List Act := [.lock .temp, .eraseTemp s false]

def addSession (uid : Uid) (s : SessId) : List Act :=
  [.lock .mgr, .lock .temp, .eraseTemp s false, .emplaceSess uid s, .unlock .mgr]

/-- A `VERIFY` that fails. -/
def verifyFailed (s : SessId) : List Act := .close s :: removeTempSession s

/-- `ServerClass::AcceptorFn`, for a new session. -/
def acceptorFn (s : SessId) : List Act := [.lock .temp, .addTemp s, .unlock .temp, .start s]

def welcomeText : List UInt8 := "Welcome to the chatroom!".toUTF8.data.toList

/-- The switch of `Processor` over the tag. -/
def dispatch (cfg : Config) (σ : State) (s : SessId) (msg : MsgNode) : List Act :=
  let tag := msg.getTagField cfg.host
  if tag = TagType.debug.val then []
  else if tag = TagType.verify.val then
    if (σ.sessions s).verified then []
    else match cfg.json (cString msg.getContent) with
      | .invalid => verifyFailed s
      | .badFields => verifyFailed s
      | .fields token uid => [.verifyUser s msg token uid]
  else if tag = TagType.chatMsg.val then
    if (σ.sessions s).verified then
      let target := msg.targetUid cfg.host
      [.lock .mgr, .chatFind s msg target]
    else []
  -- group chats are not implemented, pings need no answer, other tags are ignored
  else []

/-- `VerifyUser` has answered with `reply`. -/
def verifyReplied (σ : State) (s : SessId) (uid : Uid) (reply : Option (List UInt8)) :
    State × List Act :=
  match reply with
  | none => (σ, verifyFailed s)
  | some text =>
    match stoull text with
    | .error e => (σ.crash (.uncaught e), [])
    | .ok answer => (σ, if answer = uid then [.setVerified s uid] else verifyFailed s)

/-- One act of thread `t`; `none` if it has to wait. -/
def exec (cfg : Config) (t : Tid) (σ : State) : Act → Option (State × List Act)
  | .lock m =>
    if σ.owner m = none then some ({ σ with owner := Function.update σ.owner m (some t) }, [])
    else none
  | .unlock m => some ({ σ with owner := Function.update σ.owner m none }, [])
  | .enqueue s msg =>
    let σ := { σ with queue := σ.queue ++ [(s, msg)] }
    match msg with
    | some n => some (σ.record (.posted s n), [])
    | none => some (σ, [])
  | .close s =>
    if (σ.sessions s).down then some (σ, [])
    else some (σ.modify s fun x => { x with down := true, closer := some t, stage := .closing },
      postMessage s none ++ [.closeTable s])
  | .closeTable s =>
    if (σ.sessions s).verified then
      some (σ.modify s fun x => { x with stage := .toSess },
        closeRemoveSession s (σ.sessions s).userId)
    else
      some (σ.modify s fun x => { x with stage := .toTemp }, closeRemoveTempSession s)
  | .closeReturn s => some (σ.modify s fun x => { x with stage := .returned }, [])
  | .eraseSess s uid =>
    let found := σ.sess uid
    let σ := { σ with sess := Function.update σ.sess uid none }
    let σ := σ.modify s fun x => { x with stage := .removed }
    some (σ.record (.erasedSess s found), [.unlock .mgr, .closeReturn s])
  | .eraseTemp s byClose =>
    let found := σ.tempSess s
    let σ := { σ with tempSess := Function.update σ.tempSess s none }
    if byClose then
      let σ := σ.modify s fun x => { x with stage := .removed }
      some (σ.record (.erasedTemp s found), [.unlock .temp, .closeReturn s])
    else some (σ, [.unlock .temp])
  | .processor s msg =>
    let uid := (σ.sessions s).userId
    match msg with
    | none =>
      if (σ.sessions s).verified then
        some (σ, [.lock .uploader, .removeOnline uid, .unlock .uploader, .uploadImpl])
      else some (σ, [])
    | some n => some (σ, [.lock .uploader, .addOnline uid, .unlock .uploader, .dispatch s n])
  | .dispatch s msg => some (σ, dispatch cfg σ s msg)
  | .verifyUser s msg token uid =>
    let reply := σ.redis.token token
    some (verifyReplied (σ.record (.verifyUser s msg token reply)) s uid reply)
  | .setVerified s uid =>
    let σ :=
      if (σ.sessions s).verified then σ
      else σ.modify s fun x => { x with userId := uid, verified := true }
    some (σ, addSession uid s ++ [.updateUserStatus uid, .welcome s])
  | .emplaceSess uid s =>
    if σ.sess uid = none then some ({ σ with sess := Function.update σ.sess uid (some s) }, [])
    else some (σ, [])
  | .updateUserStatus uid =>
    let location := Function.update σ.redis.location uid (some cfg.serverId)
    some ({ σ with redis := { σ.redis with location := location } }, [])
  | .welcome s =>
    match MsgNode.ofContent cfg.host (fun _ => 0) welcomeText TagType.verifyDone.val with
    | .ok n => some (σ, send s n)
    | .error _ => some (σ.crash .zeroSized, [])
  | .chatFind s msg target =>
    some (σ, .unlock .mgr :: match σ.sess target with
      | none => [.getUserLocation s msg target]
      | some targetSess => [.deliver s msg targetSess])
  | .getUserLocation s msg target =>
    match σ.redis.location target with
    | some sid => some (σ, [.sendToMsgQueue sid s msg target])
    | none => some (σ, [])
  | .sendToMsgQueue sid s msg target =>
    if msg.ctxLen < 8 then some (σ.crash .negativeLength, [])
    else
      let item := Chatroom.sendToMsgQueue (σ.sessions s).userId target msg.chatText
      some (σ.record (.streamed sid item), [])
  | .deliver s msg targetSess =>
    some (σ, send targetSess (msg.toCliInPlace cfg.host (σ.sessions s).userId))
  | .pushSend s n =>
    let startSend := decide ((σ.sessions s).sendQ = [])
    let σ := σ.modify s fun x => { x with sendQ := x.sendQ ++ [n] }
    some (σ.record (.pushed t s n),
      .unlock (.latch s) :: if startSend then queueSend s else [])
  | .popSend s =>
    match (σ.sessions s).sendQ with
    | [] => some (σ, [.unlock (.latch s)])
    | n :: q =>
      some (σ.modify s fun x => { x with sendQ := q, sending := some n },
        [.unlock (.latch s), .asyncWrite s])
  | .asyncWrite s => some (σ.modify s fun x => { x with writes := x.writes + 1 }, [])
  | .addOnline uid => some ({ σ with onlineSess := σ.onlineSess.insert uid }, [])
  | .removeOnline uid =>
    some ({ σ with
      onlineSess := σ.onlineSess.erase uid
      onlineRemoval := σ.onlineRemoval.insert uid }, [])
  | .uploadImpl =>
    if σ.inProgress then some (σ, [])
    else some ({ σ with inProgress := true }, [.lock .uploader, .uploadSwap])
  | .uploadSwap =>
    some ({ σ with onlineSess := [], onlineRemoval := [] },
      [.unlock .uploader, .uploadExec σ.onlineRemoval])
  | .uploadExec erasing =>
    let location := fun uid => if uid ∈ erasing then none else σ.redis.location uid
    some ({ σ with redis := { σ.redis with location := location }, inProgress := false }, [])
  | .addTemp s =>
    if σ.tempSess s = none then
      some ({ σ with tempSess := Function.update σ.tempSess s (some s) }, [])
    else some (σ, [])
  | .start s => some (σ.modify s fun x => { x with started := true }, [])
  | .frameRead s n =>
    if (σ.sessions s).down then some (σ, []) else some (σ, postMessage s (some n))
  | .ctrlMsg uidStr =>
    match stoull uidStr with
    | .ok uid => some (σ, [.lock .mgr, .kickFind uid])
    | .error e => some (σ.crash (.uncaught e), [])
  | .kickFind uid =>
    some (σ, .unlock .mgr :: match σ.sess uid with
      | some s => [.close s]
      | none => [])
  | .mqMsg item fresh =>
    match messageHandler cfg.host (fresh.getD · 0) item with
    | .ok (toUid, n) => some (σ, [.lock .mgr, .mqFind toUid n])
    | .error e => some (σ.crash (.uncaught e), [])
  | .mqFind toUid n =>
    some (σ, .unlock .mgr :: match σ.sess toUid with
      | some s => send s n
      | none => [])
  | .stopFind uid =>
    match σ.sess uid with
    | some s => some (σ, [.close s, .unlock .mgr])
    | none => some (σ, [.unlock .mgr])
  | .stopRunning =>
    if σ.running then
      some ({ σ with running := false },
        [.unlock .handler, .join, .lock .handler, .unlock .handler])
    else some (σ, [.unlock .handler])
  | .join => if σ.looping then none else some (σ, [])

/-! ## Entry points and steps

A thread is free to take any entry point when it has nothing left to do. Boost.Asio runs callbacks on
any of its
threads; that reads and writes of one session do not overlap is not assumed, where the code does not
see to it. -/

inductive Entry where
  | accept (s : SessId)
  | frame (s : SessId) (n : MsgNode)
  /-- A read that ends with an error, at the end of the stream, or in an overlong header. -/
  | ioError (s : SessId)
  | writeDone (s : SessId) (ok : Bool)
  | kick (uidStr : List UInt8)
  | message (item : StreamItem) (fresh : List UInt8)
  | stopSession (uid : Uid)
  | getSessionCount
  | getTempSessionCount
  | getTotalSessionCount
  | uploadTimer
  | stop
  deriving DecidableEq, Repr

/-- The largest value Redis stores. -/
def redisMaxValue : ℕ := 512 * 1024 * 1024

namespace Entry

/-- When the environment can call an entry point on thread `t`. -/
def Enabled (cfg : Config) (σ : State) (t : Tid) : Entry → Prop
  | accept s => t = acceptor ∧ (σ.sessions s).created = false
  | frame s n => t ≠ acceptor ∧ (σ.sessions s).started = true ∧ n.Received cfg.host
  | ioError s => t ≠ acceptor ∧ (σ.sessions s).started = true
  | writeDone s _ => t ≠ acceptor ∧ 0 < (σ.sessions s).writes
  | message item _ => t ≠ acceptor ∧ item.content.length ≤ redisMaxValue
  | _ => t ≠ acceptor

instance (cfg : Config) (σ : State) (t : Tid) (e : Entry) : Decidable (e.Enabled cfg σ t) := by
  unfold Enabled; split <;> infer_instance

/-- What is different once it has been called. -/
def begin (σ : State) : Entry → State
  | accept s => σ.modify s fun x => { x with created := true }
  | writeDone s _ => σ.modify s fun x => { x with writes := x.writes - 1 }
  | _ => σ

def acts (σ : State) : Entry → List Act
  | accept s => acceptorFn s
  | frame s n => [.frameRead s n]
  | ioError s => [.close s]
  | writeDone s ok => if ok then (if (σ.sessions s).down then [] else queueSend s) else [.close s]
  | kick uidStr => [.ctrlMsg uidStr]
  | message item fresh => [.mqMsg item fresh]
  | stopSession uid => [.lock .mgr, .stopFind uid]
  | getSessionCount => [.lock .mgr, .unlock .mgr]
  | getTempSessionCount => [.lock .temp, .unlock .temp]
  | getTotalSessionCount => [.lock .mgr, .lock .temp, .unlock .temp, .unlock .mgr]
  | uploadTimer => [.uploadImpl]
  | stop => [.lock .handler, .stopRunning]

end Entry

/-- One turn of the loop of `MsgHandler::Worker`. The wait on the condition variable releases the
mutex and takes it again. -/
def workerLoop (σ : State) : State :=
  if σ.running then
    match σ.queue with
    | [] =>
      { σ with
        item := none
        owner := Function.update σ.owner .handler none
        code := Function.update σ.code worker [.lock .handler] }
    | (s, msg) :: q =>
      { σ with
        item := some (s, msg)
        queue := q
        log := σ.log ++ [.taken s msg]
        code := Function.update σ.code worker [.processor s msg] }
  else
    { σ with
      item := none
      looping := false
      owner := Function.update σ.owner .handler none }

inductive Label where
  | run (t : Tid)
  | workerLoop
  | call (t : Tid) (e : Entry)
  | redis (r : Redis)

/-- One step; the process takes none after a fault. -/
def step (cfg : Config) (σ : State) (l : Label) : Option State :=
  if σ.fault = none then
    match l with
    | .run t =>
      match σ.code t with
      | [] => none
      | a :: rest => (exec cfg t σ a).map fun (σ', new) =>
          { σ' with code := Threads.advance σ.code t new rest }
    | .workerLoop => if σ.looping = true ∧ σ.code worker = [] then some (workerLoop σ) else none
    | .call t e =>
      if t ≠ worker ∧ σ.code t = [] ∧ e.Enabled cfg σ t then
        some { e.begin σ with code := Function.update σ.code t (e.acts σ) }
      else none
    | .redis r => some { σ with redis := r }
  else none

/-- A server just started: the worker is about to enter its loop. -/
def init : State where
  sessions := fun _ =>
    { created := false, started := false, verified := false, userId := 0, down := false,
      sendQ := [], sending := none, writes := 0, closer := none, stage := .notClosed }
  sess := fun _ => none
  tempSess := fun _ => none
  queue := []
  running := true
  looping := true
  item := none
  onlineSess := []
  onlineRemoval := []
  inProgress := false
  redis := ⟨fun _ => none, fun _ => none⟩
  owner := fun _ => none
  code := fun t => if t = worker then [.lock .handler] else []
  fault := none
  log := []

/-- The one act pending at the start. -/
theorem eq_lock_of_mem_init {t : Tid} {a : Act} (ha : a ∈ init.code t) : a = .lock .handler := by
  by_cases ht : t = worker
  · simpa [init, ht] using ha
  · simp [init, ht] at ha

/-! ## Pieces of runs

For the runs on which the modules that follow try out their results. -/

/-- The text of a `VERIFY` for user 7, with the token `t`. -/
def verifyText : List UInt8 := "\x7b\"token\":\"t\",\"uid\":7\x7d".toUTF8.data.toList

/-- A server whose parser knows this text, and a Redis that knows the token. -/
def exampleConfig : Config where
  host := .little
  serverId := [49]
  json := fun text => if text = verifyText then .fields [116] 7 else .invalid

def exampleRedis : Redis where
  token := fun token => if token = [116] then some [55] else none
  location := fun _ => none

/-- A node that has received the short message `m`, with `residue` and zeros behind the frame. -/
def received (residue : List UInt8) (m : Msg) : MsgNode where
  data := (frame m ++ residue ++ List.replicate Session.initialNodeSize 0).take
    Session.initialNodeSize
  curPos := headLen + m.content.length
  ctxLen := m.content.length

/-- The `VERIFY` of user 7, and a chat in which user 7 writes `hi` to user 7. -/
def verifyFrame : MsgNode := received [] ⟨TagType.verify.val, verifyText⟩
def hiFrame : MsgNode := received [] ⟨TagType.chatMsg.val, [0, 0, 0, 0, 0, 0, 0, 7, 104, 105]⟩

/-- The server comes up: the worker waits for events. -/
def starting : List Label := [.redis exampleRedis, .run worker, .workerLoop]

/-- The acceptor accepts a connection. -/
def accepting (s : SessId) : List Label :=
  .call acceptor (.accept s) :: List.replicate 4 (.run acceptor)

/-- Thread `t` receives a frame of session `s` and queues it. -/
def receiving (t : Tid) (s : SessId) (n : MsgNode) : List Label :=
  .call t (.frame s n) :: List.replicate 4 (.run t)

/-- Thread `t` closes session `s` because of an error. -/
def closing (t : Tid) (s : SessId) : List Label :=
  .call t (.ioError s) :: List.replicate 9 (.run t)

/-- The worker takes the next event and does `k` acts of its processing. A `VERIFY` that succeeds takes
22 acts. -/
def taking (k : ℕ) : List Label := .workerLoop :: List.replicate k (.run worker)

/-- The same, after it has been woken. -/
def waking (k : ℕ) : List Label := .run worker :: taking k

/-- Session 0 sends a `VERIFY` and a chat; the worker processes the one and `k` acts of the other. -/
def chatting (verify chat : MsgNode) (k : ℕ) : List Label :=
  starting ++ accepting 0 ++ receiving 2 0 verify ++ receiving 2 0 chat ++ waking 22 ++ taking k

end Chatroom.Backend
