import Chatroom.Server.Backend.State

/-!
# What lies behind a frame

The buffer of a received node is longer than the frame in it, and what lies behind the frame is what
the allocation happened to find. Two servers that differ in such residue only should not be told
apart by what they do. Most of `Processor` keeps to `ctx_len_`: the uid of a chat is in its first
eight bytes, its text goes by an explicit length. The JSON of a `VERIFY` is parsed as a C string, and
so runs on into the residue unless the content has a NUL of its own.

A map of nodes is carried over to whole states (`State.mapNodes`). For a map that changes nothing that
is read (`Unread`), a step and its image agree up to the map; `bare`, which cuts a node to its frame
where nothing else is read of it, is such a map.
-/

namespace Chatroom

open ByteSeq

namespace MsgNode

/-! ## Nodes cut to their frame

`cut` drops the residue. What `Processor` reads of a node by a length or at a fixed place is the same
before and after (`getTagField_cut`, `getContent_cut`, `targetUid_cut`, `chatText_cut`), provided that
the place is within the content; this is where the eight bytes of a chat are needed. -/

/-- The node without what lies behind its frame. -/
def cut (n : MsgNode) : MsgNode := { n with data := n.data.take (headLen + n.ctxLen) }

variable {n : MsgNode} {host : ByteOrder}

/-- A frame has nothing behind it to cut off. -/
theorem cut_cut (n : MsgNode) : n.cut.cut = n.cut := by
  simp only [cut, List.take_take, Nat.min_self]

theorem getTagField_cut (host : ByteOrder) (n : MsgNode) :
    n.cut.getTagField host = n.getTagField host := by
  have h4 : 0 + 4 ≤ headLen + n.ctxLen := by simp only [headLen, tagLen]; omega
  simp only [getTagField, readNetField32, cut, slice_take h4]

/-- Of the cut node `GetContent` points to the content and to nothing after it. -/
theorem getContent_cut (n : MsgNode) : n.cut.getContent = n.contentBytes := by
  rw [getContent, cut, List.drop_take, Nat.add_sub_cancel_left]
  rfl

theorem contentBytes_cut (n : MsgNode) : n.cut.contentBytes = n.contentBytes := by
  rw [contentBytes, getContent_cut]
  exact List.take_of_length_le (List.length_take_le _ _)

/-- The uid of the recipient is read from the content, if there are eight bytes of it. -/
theorem targetUid_cut (h : 8 ≤ n.ctxLen) : n.cut.targetUid host = n.targetUid host := by
  have hin : headLen + 8 ≤ headLen + n.ctxLen := by omega
  simp only [targetUid, readNetField64, cut, slice_take hin]

theorem chatText_cut (h : 8 ≤ n.ctxLen) : n.cut.chatText = n.chatText := by
  have hin : 8 + (n.ctxLen - 8) ≤ n.ctxLen := by omega
  rw [chatText, getContent_cut]
  exact slice_take hin

/-- The fields rewritten in place lie at the front, so what is cut off does not matter. -/
theorem cut_toCliInPlace_cut (n : MsgNode) (uid : UInt64) :
    (n.cut.toCliInPlace host uid).cut = (n.toCliInPlace host uid).cut := by
  have htag : ∀ bs : List UInt8, (splice n.cut.data 0 bs).take (headLen + n.ctxLen) =
      (splice n.data 0 bs).take (headLen + n.ctxLen) := fun _ => take_splice_take (Nat.zero_le _)
  have huid : ∀ buf bs : List UInt8, (splice buf headLen bs).take (headLen + n.ctxLen) =
      (splice (buf.take (headLen + n.ctxLen)) headLen bs).take (headLen + n.ctxLen) :=
    fun _ _ => (take_splice_take (Nat.le_add_right ..)).symm
  have hdata : (n.cut.toCliInPlace host uid).data.take (headLen + n.ctxLen) =
      (n.toCliInPlace host uid).data.take (headLen + n.ctxLen) := by
    simp only [toCliInPlace, setTagField, resetCurPos, writeNetField32, writeNetField64]
    rw [huid, htag, ← huid]
  exact congrArg (fun data => MsgNode.mk data 0 n.ctxLen) hdata

/-- The rewritten node is a `CHAT_MSG_TO_CLI`: the uid is written behind the tag and leaves it alone.
-/
theorem getTagField_toCliInPlace (n : MsgNode) (uid : UInt64) :
    (n.toCliInPlace host uid).getTagField host = TagType.chatMsgToCli.val := by
  have hlen : (beBytes 4 TagType.chatMsgToCli.val.toNat).length = 4 := beBytes_length ..
  have h4 : 0 + 4 ≤ (splice n.data 0 (beBytes 4 TagType.chatMsgToCli.val.toNat)).length := by
    simp only [splice, List.length_append, hlen]
    omega
  have hslice : slice (n.toCliInPlace host uid).data 0 4 =
      beBytes 4 TagType.chatMsgToCli.val.toNat := by
    simp only [toCliInPlace, setTagField, resetCurPos, writeNetField32_eq, writeNetField64_eq]
    rw [slice_splice_before h4 (by decide)]
    exact slice_splice_self (Nat.zero_le _)
  rw [getTagField, readNetField32, hslice, ntohl_load host hlen]
  decide +kernel

/-- Nothing behind the frame is read when the node is processed: the JSON of a `VERIFY` ends within
the content, a chat has room for the uid of the recipient. -/
def Closed (host : ByteOrder) (n : MsgNode) : Prop :=
  (n.getTagField host = TagType.verify.val → 0 ∈ n.contentBytes) ∧
  (n.getTagField host = TagType.chatMsg.val → 8 ≤ n.ctxLen)

instance (host : ByteOrder) (n : MsgNode) : Decidable (n.Closed host) :=
  inferInstanceAs (Decidable (_ ∧ _))

/-- Whether a node is closed can be told from its frame. -/
theorem closed_cut : n.cut.Closed host ↔ n.Closed host := by
  simp only [Closed, getTagField_cut, contentBytes_cut]
  rfl

/-- A node that was rewritten for a client has a tag that `Processor` does not know. -/
theorem closed_toCliInPlace (n : MsgNode) (uid : UInt64) : (n.toCliInPlace host uid).Closed host := by
  rw [Closed, getTagField_toCliInPlace]
  exact ⟨fun h => absurd h (by decide), fun h => absurd h (by decide)⟩

/-- The node cut to its frame, if nothing else is read of it. -/
def bare (host : ByteOrder) (n : MsgNode) : MsgNode := if n.Closed host then n.cut else n

theorem bare_of_closed (h : n.Closed host) : n.bare host = n.cut := if_pos h

/-- What is the same of a closed node and of its frame is the same of a node and of the bare one. -/
theorem apply_bare {β : Type*} (g : MsgNode → β) (h : n.Closed host → g n.cut = g n) :
    g (n.bare host) = g n := by
  unfold bare
  split
  · next hclosed => exact h hclosed
  · rfl

theorem cut_bare (host : ByteOrder) (n : MsgNode) : (n.bare host).cut = n.cut :=
  apply_bare cut fun _ => cut_cut n

/-- Making a node bare a second time changes nothing. -/
theorem bare_bare (host : ByteOrder) (n : MsgNode) : (n.bare host).bare host = n.bare host :=
  apply_bare (bare host) fun h => by
    rw [bare_of_closed h, bare_of_closed (closed_cut.mpr h), cut_cut]

end MsgNode

end Chatroom

namespace Chatroom.Backend

open ByteSeq Trace Threads

/-- The C string at the start of some memory ends at the first NUL. -/
theorem cString_take {bs : List UInt8} {k : ℕ} (h : 0 ∈ bs.take k) :
    cString (bs.take k) = cString bs := by
  have hsplit : cString (bs.take k ++ bs.drop k) = cString (bs.take k) := by
    rw [cString, List.takeWhile_append, if_neg]
    · rfl
    · intro hlen
      have hall := List.takeWhile_eq_self_iff.mp
        ((List.takeWhile_prefix (p := fun b : UInt8 => decide (b ≠ 0))).eq_of_length hlen)
      exact absurd (hall 0 h) (by decide)
  rw [← hsplit, List.take_append_drop]

/-! ## Maps that change nothing that is read

The proofs below are about any map `f` of nodes with the fields of `Unread`, not about `cut` itself:
one for each place where the server looks at a node. `cut` alone is no such map, since it changes the
C
string of a `VERIFY`; `bare` cuts only where this cannot happen. -/

/-- A map of nodes that changes nothing the server reads. -/
structure Unread (host : ByteOrder) (f : MsgNode → MsgNode) : Prop where
  idem : ∀ n, f (f n) = f n
  tag : ∀ n, (f n).getTagField host = n.getTagField host
  text : ∀ n, n.getTagField host = TagType.verify.val →
    cString (f n).getContent = cString n.getContent
  target : ∀ n, n.getTagField host = TagType.chatMsg.val → (f n).targetUid host = n.targetUid host
  ctxLen : ∀ n, (f n).ctxLen = n.ctxLen
  chatText : ∀ n, 8 ≤ n.ctxLen → (f n).chatText = n.chatText
  toCli : ∀ n uid, f ((f n).toCliInPlace host uid) = f (n.toCliInPlace host uid)

/-- **Bare nodes are read like the nodes they come from.** -/
theorem unread_bare (host : ByteOrder) : Unread host (MsgNode.bare host) where
  idem := MsgNode.bare_bare host
  tag n := MsgNode.apply_bare (MsgNode.getTagField host) fun _ => n.getTagField_cut host
  text n htag := by
    refine MsgNode.apply_bare (fun n => cString n.getContent) fun h => ?_
    rw [MsgNode.getContent_cut]
    exact cString_take (h.1 htag)
  target n htag :=
    MsgNode.apply_bare (MsgNode.targetUid host) fun h => MsgNode.targetUid_cut (h.2 htag)
  ctxLen n := MsgNode.apply_bare MsgNode.ctxLen fun _ => rfl
  chatText n h8 := MsgNode.apply_bare MsgNode.chatText fun _ => MsgNode.chatText_cut h8
  toCli n uid := by
    rw [MsgNode.bare_of_closed (MsgNode.closed_toCliInPlace _ uid),
      MsgNode.bare_of_closed (MsgNode.closed_toCliInPlace _ uid)]
    exact MsgNode.apply_bare (fun n => (n.toCliInPlace host uid).cut) fun _ =>
      n.cut_toCliInPlace_cut uid

/-! ## A map of the nodes of a state

Nodes are in the queues of the sessions, in the queue of the worker, in what a thread is about to do
and in the log. `mapNodes` applies the map at all of these places. The lemmas that follow say how it
goes through compositions and through the ways in which a step changes a state. -/

section MapNodes

variable (f : MsgNode → MsgNode)

def SessionState.mapNodes (x : SessionState) : SessionState :=
  { x with sendQ := x.sendQ.map f, sending := x.sending.map f }

def Act.mapNodes : Act → Act
  | .enqueue s msg => .enqueue s (msg.map f)
  | .processor s msg => .processor s (msg.map f)
  | .dispatch s msg => .dispatch s (f msg)
  | .verifyUser s msg token uid => .verifyUser s (f msg) token uid
  | .chatFind s msg target => .chatFind s (f msg) target
  | .getUserLocation s msg target => .getUserLocation s (f msg) target
  | .sendToMsgQueue sid s msg target => .sendToMsgQueue sid s (f msg) target
  | .deliver s msg targetSess => .deliver s (f msg) targetSess
  | .pushSend s n => .pushSend s (f n)
  | .frameRead s n => .frameRead s (f n)
  | .mqFind toUid n => .mqFind toUid (f n)
  | a => a

def Event.mapNodes : Event → Event
  | .posted s n => .posted s (f n)
  | .taken s msg => .taken s (msg.map f)
  | .verifyUser s n token reply => .verifyUser s (f n) token reply
  | .pushed t s n => .pushed t s (f n)
  | e => e

def State.mapNodes (σ : State) : State :=
  { σ with
    sessions := fun s => (σ.sessions s).mapNodes f
    queue := σ.queue.map (Prod.map id (Option.map f))
    item := σ.item.map (Prod.map id (Option.map f))
    code := fun t => (σ.code t).map (Act.mapNodes f)
    log := σ.log.map (Event.mapNodes f) }

/-- The same for what an act results in. -/
def mapResult (r : State × List Act) : State × List Act :=
  (r.1.mapNodes f, r.2.map (Act.mapNodes f))

end MapNodes

variable {f g : MsgNode → MsgNode} {σ : State}

theorem optionMap_comp (hfg : ∀ n, f (g n) = f n) (o : Option MsgNode) :
    (o.map g).map f = o.map f := by
  cases o with
  | none => rfl
  | some n => exact congrArg some (hfg n)

theorem SessionState.mapNodes_comp (hfg : ∀ n, f (g n) = f n) (x : SessionState) :
    (x.mapNodes g).mapNodes f = x.mapNodes f := by
  simp only [mapNodes, List.map_map, optionMap_comp hfg, Function.comp_def, hfg]

theorem Act.mapNodes_comp (hfg : ∀ n, f (g n) = f n) (a : Act) :
    (a.mapNodes g).mapNodes f = a.mapNodes f := by
  cases a
  case enqueue s msg => exact congrArg (Act.enqueue s) (optionMap_comp hfg msg)
  case processor s msg => exact congrArg (Act.processor s) (optionMap_comp hfg msg)
  case dispatch s msg => exact congrArg (Act.dispatch s) (hfg msg)
  case verifyUser s msg token uid => exact congrArg (Act.verifyUser s · token uid) (hfg msg)
  case chatFind s msg target => exact congrArg (Act.chatFind s · target) (hfg msg)
  case getUserLocation s msg target => exact congrArg (Act.getUserLocation s · target) (hfg msg)
  case sendToMsgQueue sid s msg target =>
    exact congrArg (Act.sendToMsgQueue sid s · target) (hfg msg)
  case deliver s msg targetSess => exact congrArg (Act.deliver s · targetSess) (hfg msg)
  case pushSend s n => exact congrArg (Act.pushSend s) (hfg n)
  case frameRead s n => exact congrArg (Act.frameRead s) (hfg n)
  case mqFind toUid n => exact congrArg (Act.mqFind toUid) (hfg n)
  all_goals rfl

theorem Event.mapNodes_comp (hfg : ∀ n, f (g n) = f n) (e : Event) :
    (e.mapNodes g).mapNodes f = e.mapNodes f := by
  cases e with
  | posted s n => exact congrArg (Event.posted s) (hfg n)
  | taken s msg => exact congrArg (Event.taken s) (optionMap_comp hfg msg)
  | verifyUser s n token reply => exact congrArg (Event.verifyUser s · token reply) (hfg n)
  | pushed t s n => exact congrArg (Event.pushed t s) (hfg n)
  | _ => rfl

theorem actsMap_comp (hfg : ∀ n, f (g n) = f n) (as : List Act) :
    (as.map (Act.mapNodes g)).map (Act.mapNodes f) = as.map (Act.mapNodes f) := by
  rw [List.map_map]
  exact List.map_congr_left fun a _ => Act.mapNodes_comp hfg a

/-- The second of two maps may absorb the first one. With `f = g` this is idempotence, and with `cut`
after `bare` it compares the two. -/
theorem State.mapNodes_comp (hfg : ∀ n, f (g n) = f n) (σ : State) :
    (σ.mapNodes g).mapNodes f = σ.mapNodes f := by
  have hpair : ∀ p : SessId × Option MsgNode,
      Prod.map id (Option.map f) (Prod.map id (Option.map g) p) = Prod.map id (Option.map f) p :=
    fun p => congrArg (Prod.mk p.1) (optionMap_comp hfg p.2)
  simp only [mapNodes, SessionState.mapNodes_comp hfg, actsMap_comp hfg, List.map_map,
    Option.map_map, Function.comp_def, hpair, Event.mapNodes_comp hfg]

theorem mapResult_comp (hfg : ∀ n, f (g n) = f n) (r : State × List Act) :
    mapResult f (mapResult g r) = mapResult f r :=
  Prod.ext (State.mapNodes_comp hfg r.1) (actsMap_comp hfg r.2)

/-- A change of a session has the image of the change as its image, if the two commute on sessions. -/
theorem State.mapNodes_modify {s : SessId} {h h' : SessionState → SessionState}
    (hcomm : ∀ x, (h x).mapNodes f = h' (x.mapNodes f)) :
    (σ.modify s h).mapNodes f = (σ.mapNodes f).modify s h' := by
  have hsessions := Function.comp_update (SessionState.mapNodes f) σ.sessions s (h (σ.sessions s))
  rw [hcomm] at hsessions
  exact congrArg (fun sessions => { σ.mapNodes f with sessions := sessions }) hsessions

theorem State.mapNodes_update {code : Tid → List Act} {t : Tid} {new : List Act} :
    State.mapNodes f { σ with code := Function.update code t new } =
      { σ.mapNodes f with
        code := Function.update (fun t' => (code t').map (Act.mapNodes f)) t
          (new.map (Act.mapNodes f)) } :=
  congrArg (fun code => { σ.mapNodes f with code := code }) (Function.comp_update _ _ _ _)

/-- What a thread goes on with is mapped act by act. -/
theorem State.mapNodes_advance {code : Tid → List Act} {t : Tid} {new rest : List Act} :
    State.mapNodes f { σ with code := advance code t new rest } =
      { σ.mapNodes f with
        code := advance (fun t' => (code t').map (Act.mapNodes f)) t (new.map (Act.mapNodes f))
          (rest.map (Act.mapNodes f)) } :=
  congrArg (fun code => { σ.mapNodes f with code := code }) (map_advance _)

theorem State.mapNodes_record (e : Event) :
    (σ.record e).mapNodes f = (σ.mapNodes f).record (e.mapNodes f) :=
  congrArg (fun log => { σ.mapNodes f with log := log }) List.map_append

/-! ## Acts

Almost every act does to the image what it does to the state, mapped (`exec_map`). The three acts that
make a new node are apart: the new node need not be its own image, so there both sides are mapped once
more before they are compared (`exec_mapNodes`). -/

/-- The acts that make a node: out of the one received, out of nothing, out of an entry of a
stream. -/
def Act.makesNode : Act → Bool
  | .deliver _ _ _ | .welcome _ | .mqMsg _ _ => true
  | _ => false

section Steps

variable {cfg : Config} {t : Tid}

/-- The answer to `VerifyUser` is handled without a look at a node. -/
theorem map_verifyReplied (s : SessId) (uid : Uid) (reply : Option (List UInt8)) :
    verifyReplied (σ.mapNodes f) s uid reply = mapResult f (verifyReplied σ s uid reply) := by
  unfold verifyReplied
  cases reply with
  | none => rfl
  | some text =>
    dsimp only
    cases stoull text with
    | error e => rfl
    | ok answer =>
      dsimp only
      split <;> rfl

/-- A change of a session that leaves its nodes alone. -/
theorem map_modify {s : SessId} {h : SessionState → SessionState} (new : List Act)
    (hcomm : ∀ x, (h x).mapNodes f = h (x.mapNodes f)) :
    some ((σ.mapNodes f).modify s h, new.map (Act.mapNodes f)) =
      (some (σ.modify s h, new)).map (mapResult f) :=
  congrArg (fun σ' => some (σ', new.map (Act.mapNodes f))) (State.mapNodes_modify hcomm).symm

theorem map_modify_record (σ : State) {s : SessId} {h : SessionState → SessionState} (e : Event)
    (new : List Act) (hcomm : ∀ x, (h x).mapNodes f = h (x.mapNodes f)) :
    some (((σ.mapNodes f).modify s h).record (e.mapNodes f), new.map (Act.mapNodes f)) =
      (some ((σ.modify s h).record e, new)).map (mapResult f) := by
  rw [← State.mapNodes_modify hcomm, ← State.mapNodes_record]
  rfl

/-- A test that does not depend on nodes goes the same way on both sides. -/
theorem map_ite {c : Prop} [Decidable c] {r₁ r₂ r₁' r₂' : Option (State × List Act)}
    (h₁ : r₁ = r₁'.map (mapResult f)) (h₂ : r₂ = r₂'.map (mapResult f)) :
    (if c then r₁ else r₂) = (if c then r₁' else r₂').map (mapResult f) := by
  split
  · exact h₁
  · exact h₂

/-! ### The acts with a node -/

/-- `PostMessage` puts the image of the node into the queue and records it. -/
theorem map_enqueue (s : SessId) (msg : Option MsgNode) :
    exec cfg t (σ.mapNodes f) (.enqueue s (msg.map f)) =
      (exec cfg t σ (.enqueue s msg)).map (mapResult f) := by
  have hqueue : (σ.mapNodes f).queue ++ [(s, msg.map f)] =
      (σ.queue ++ [(s, msg)]).map (Prod.map id (Option.map f)) := by
    rw [List.map_append]
    rfl
  cases msg with
  | none => exact congrArg (fun queue => some ({ σ.mapNodes f with queue := queue }, [])) hqueue
  | some n =>
    refine congrArg (fun σ' => some (σ', [])) (Eq.trans ?_ (State.mapNodes_record _).symm)
    exact congrArg (fun queue => State.record { σ.mapNodes f with queue := queue }
      (.posted s (f n))) hqueue

theorem map_setVerified (s : SessId) (uid : Uid) :
    exec cfg t (σ.mapNodes f) (.setVerified s uid) =
      (exec cfg t σ (.setVerified s uid)).map (mapResult f) := by
  have hset : (if (σ.sessions s).verified then σ.mapNodes f
      else (σ.mapNodes f).modify s fun x => { x with userId := uid, verified := true }) =
      (if (σ.sessions s).verified then σ
        else σ.modify s fun x => { x with userId := uid, verified := true }).mapNodes f := by
    split
    · rfl
    · exact (State.mapNodes_modify (by intro; rfl)).symm
  exact congrArg (fun σ' => some (σ', addSession uid s ++ [.updateUserStatus uid, .welcome s])) hset

/-- `Send` asks whether the queue is empty, which the map does not change. -/
theorem map_pushSend (s : SessId) (n : MsgNode) :
    exec cfg t (σ.mapNodes f) (.pushSend s (f n)) =
      (exec cfg t σ (.pushSend s n)).map (mapResult f) := by
  have hempty : decide (((σ.mapNodes f).sessions s).sendQ = []) =
      decide ((σ.sessions s).sendQ = []) :=
    decide_eq_decide.mpr List.map_eq_nil_iff
  have hpush : ((σ.mapNodes f).modify s fun x => { x with sendQ := x.sendQ ++ [f n] }) =
      (σ.modify s fun x => { x with sendQ := x.sendQ ++ [n] }).mapNodes f :=
    (State.mapNodes_modify fun x =>
      congrArg (fun q => { x.mapNodes f with sendQ := q }) List.map_append).symm
  have hnew : ∀ b : Bool, (Act.unlock (.latch s) :: if b then queueSend s else []) =
      (Act.unlock (.latch s) :: if b then queueSend s else []).map (Act.mapNodes f) := by
    intro b
    cases b <;> rfl
  simp only [exec, hempty, hpush]
  refine congrArg some (Prod.ext ?_ (hnew _))
  exact (State.mapNodes_record (.pushed t s n)).symm

theorem map_popSend (s : SessId) :
    exec cfg t (σ.mapNodes f) (.popSend s) = (exec cfg t σ (.popSend s)).map (mapResult f) := by
  have hq : ((σ.mapNodes f).sessions s).sendQ = (σ.sessions s).sendQ.map f := rfl
  simp only [exec, hq]
  cases (σ.sessions s).sendQ with
  | nil => rfl
  | cons n q =>
    have hpop : (σ.modify s fun x => { x with sendQ := q, sending := some n }).mapNodes f =
        (σ.mapNodes f).modify s fun x => { x with sendQ := q.map f, sending := some (f n) } :=
      State.mapNodes_modify (by intro; rfl)
    exact congrArg (fun σ' => some (σ', [Act.unlock (.latch s), .asyncWrite s])) hpop.symm

variable (hf : Unread cfg.host f)
include hf

/-- The text of a forwarded chat is taken by its length, so its entry is the same. -/
theorem map_sendToMsgQueue (sid : List UInt8) (s : SessId) (n : MsgNode) (target : Uid) :
    exec cfg t (σ.mapNodes f) (.sendToMsgQueue sid s (f n) target) =
      (exec cfg t σ (.sendToMsgQueue sid s n target)).map (mapResult f) := by
  by_cases h8 : n.ctxLen < 8
  · simp only [exec, hf.ctxLen, if_pos h8]
    rfl
  · simp only [exec, hf.ctxLen, if_neg h8, hf.chatText n (Nat.le_of_not_lt h8)]
    exact congrArg (fun σ' => some (σ', [])) (State.mapNodes_record (.streamed sid
      (Chatroom.sendToMsgQueue (σ.sessions s).userId target n.chatText))).symm

/-- The switch over the tag: here the tag, the C string and the uid of the recipient are read. -/
theorem map_dispatch (s : SessId) (n : MsgNode) :
    dispatch cfg (σ.mapNodes f) s (f n) = (dispatch cfg σ s n).map (Act.mapNodes f) := by
  have hverified : ((σ.mapNodes f).sessions s).verified = (σ.sessions s).verified := rfl
  simp only [dispatch, hf.tag, hverified]
  split
  · rfl
  split
  · next htag =>
    rw [hf.text n htag]
    split
    · rfl
    · cases cfg.json (cString n.getContent) <;> rfl
  split
  · next htag =>
    rw [hf.target n htag]
    split <;> rfl
  · rfl

/-! ### All of them -/

/-- What an act that makes no node does to the image is the image of what it does. -/
theorem exec_map {a : Act} (ha : a.makesNode = false) :
    exec cfg t (σ.mapNodes f) (a.mapNodes f) = (exec cfg t σ a).map (mapResult f) := by
  have hsess : (σ.mapNodes f).sess = σ.sess := rfl
  -- each act reads of a node only what `f` keeps, so that it can be done before or after `f` is
  -- applied
  cases a
  case deliver | welcome | mqMsg => cases ha
  case lock m => exact map_ite rfl rfl
  case unlock m => rfl
  case enqueue s msg => exact map_enqueue s msg
  case close s =>
    exact map_ite rfl (map_modify (postMessage s none ++ [.closeTable s]) (by intro; rfl))
  case closeTable s =>
    exact map_ite (map_modify (closeRemoveSession s (σ.sessions s).userId) (by intro; rfl))
      (map_modify (closeRemoveTempSession s) (by intro; rfl))
  case closeReturn s => exact map_modify [] (by intro; rfl)
  case eraseSess s uid =>
    exact map_modify_record { σ with sess := Function.update σ.sess uid none }
      (.erasedSess s (σ.sess uid)) [.unlock .mgr, .closeReturn s] (by intro; rfl)
  case eraseTemp s byClose =>
    exact map_ite (map_modify_record { σ with tempSess := Function.update σ.tempSess s none }
      (.erasedTemp s (σ.tempSess s)) [.unlock .temp, .closeReturn s] (by intro; rfl)) rfl
  case processor s msg =>
    cases msg with
    | none => exact map_ite rfl rfl
    | some n => rfl
  case dispatch s msg =>
    exact congrArg (fun new => some (σ.mapNodes f, new)) (map_dispatch hf s msg)
  case verifyUser s msg token uid =>
    rw [exec, Option.map_some, ← map_verifyReplied, State.mapNodes_record]
    rfl
  case setVerified s uid => exact map_setVerified s uid
  case emplaceSess uid s => exact map_ite rfl rfl
  case updateUserStatus uid => rfl
  -- the acts that look somebody up: what they find does not depend on any node
  case chatFind s msg target =>
    show exec cfg t (σ.mapNodes f) (.chatFind s (f msg) target) = _
    simp only [exec, hsess]
    cases σ.sess target <;> rfl
  case getUserLocation s msg target =>
    have hredis : (σ.mapNodes f).redis = σ.redis := rfl
    show exec cfg t (σ.mapNodes f) (.getUserLocation s (f msg) target) = _
    simp only [exec, hredis]
    cases σ.redis.location target <;> rfl
  case sendToMsgQueue sid s msg target => exact map_sendToMsgQueue hf sid s msg target
  case pushSend s n => exact map_pushSend s n
  case popSend s => exact map_popSend s
  case asyncWrite s => exact map_modify [] (by intro; rfl)
  case addOnline uid => rfl
  case removeOnline uid => rfl
  case uploadImpl => exact map_ite rfl rfl
  case uploadSwap => rfl
  case uploadExec erasing => rfl
  case addTemp s => exact map_ite rfl rfl
  case start s => exact map_modify [] (by intro; rfl)
  case frameRead s n => exact map_ite rfl rfl
  case ctrlMsg uidStr =>
    show exec cfg t (σ.mapNodes f) (.ctrlMsg uidStr) = _
    simp only [exec]
    cases stoull uidStr <;> rfl
  case kickFind uid =>
    show exec cfg t (σ.mapNodes f) (.kickFind uid) = _
    simp only [exec, hsess]
    cases σ.sess uid <;> rfl
  case mqFind toUid n =>
    show exec cfg t (σ.mapNodes f) (.mqFind toUid (f n)) = _
    simp only [exec, hsess]
    cases σ.sess toUid <;> rfl
  case stopFind uid =>
    show exec cfg t (σ.mapNodes f) (.stopFind uid) = _
    simp only [exec, hsess]
    cases σ.sess uid <;> rfl
  case stopRunning => exact map_ite rfl rfl
  case join => exact map_ite rfl rfl

/-- **An act and its image agree up to the map.** -/
theorem exec_mapNodes (a : Act) :
    (exec cfg t (σ.mapNodes f) (a.mapNodes f)).map (mapResult f) =
      (exec cfg t σ a).map (mapResult f) := by
  have hσ : (σ.mapNodes f).mapNodes f = σ.mapNodes f := State.mapNodes_comp hf.idem σ
  cases a
  -- a new node need not be its own image, but both acts make it alike
  case deliver s n targetSess =>
    exact congrArg some (Prod.ext hσ (congrArg (send targetSess) (hf.toCli n (σ.sessions s).userId)))
  case welcome s =>
    show (exec cfg t (σ.mapNodes f) (.welcome s)).map _ = _
    simp only [exec]
    cases MsgNode.ofContent cfg.host (fun _ => 0) welcomeText TagType.verifyDone.val with
    | ok n => exact congrArg some (Prod.ext hσ rfl)
    | error e => exact congrArg (fun σ' : State => some (σ'.crash .zeroSized, [])) hσ
  case mqMsg item fresh =>
    show (exec cfg t (σ.mapNodes f) (.mqMsg item fresh)).map _ = _
    simp only [exec]
    cases messageHandler cfg.host (fresh.getD · 0) item with
    | ok p => exact congrArg some (Prod.ext hσ rfl)
    | error e => exact congrArg (fun σ' : State => some (σ'.crash (.uncaught e), [])) hσ
  all_goals
    rw [exec_map hf rfl, Option.map_map]
    exact congrArg (Option.map · _) (funext (mapResult_comp hf.idem))

/-! ## Steps and runs

From acts to steps: a thread runs the first of its acts, an entry point gives a free thread its acts,
and the worker takes an item from its queue. From steps to runs by `run_view_eq`: since a step of a
state
and of its image agree up to the map, so do the runs of any two states with one image. -/

omit hf in
/-- The worker takes the image of the item it would have taken. -/
theorem map_workerLoop (σ : State) : workerLoop (σ.mapNodes f) = (workerLoop σ).mapNodes f := by
  have hcode : ∀ as : List Act, Function.update (σ.mapNodes f).code worker (as.map (Act.mapNodes f)) =
      fun t => (Function.update σ.code worker as t).map (Act.mapNodes f) :=
    fun as => (Function.comp_update (List.map (Act.mapNodes f)) σ.code worker as).symm
  have hlog : ∀ (s : SessId) (msg : Option MsgNode), (σ.mapNodes f).log ++ [Event.taken s (msg.map f)] =
      (σ.log ++ [Event.taken s msg]).map (Event.mapNodes f) := by
    intro s msg
    rw [List.map_append]
    rfl
  have hrunning : (σ.mapNodes f).running = σ.running := rfl
  have hqueue : (σ.mapNodes f).queue = σ.queue.map (Prod.map id (Option.map f)) := rfl
  simp only [workerLoop, hrunning, hqueue]
  split
  · cases σ.queue with
    | nil =>
      exact congrArg (fun code => { σ.mapNodes f with
        item := none
        queue := []
        owner := Function.update σ.owner .handler none
        code := code }) (hcode [.lock .handler])
    | cons p q =>
      exact congrArg₂ (fun log code => { σ.mapNodes f with
        item := some (p.1, p.2.map f)
        queue := q.map (Prod.map id (Option.map f))
        log := log
        code := code }) (hlog p.1 p.2) (hcode [.processor p.1 p.2])
  · rfl

omit hf in
/-- No entry point looks at a node. -/
theorem map_begin (σ : State) (e : Entry) : (e.begin σ).mapNodes f = e.begin (σ.mapNodes f) := by
  cases e
  case accept | writeDone =>
    simp only [Entry.begin]
    exact State.mapNodes_modify (by intro; rfl)
  all_goals rfl

omit hf in
/-- What a thread goes on with depends only on what its act results in. -/
theorem map_resume {r r' : Option (State × List Act)} {code code' : Tid → List Act}
    {rest rest' : List Act} (hr : r.map (mapResult f) = r'.map (mapResult f))
    (hcode : (fun t' => (code t').map (Act.mapNodes f)) = fun t' => (code' t').map (Act.mapNodes f))
    (hrest : rest.map (Act.mapNodes f) = rest'.map (Act.mapNodes f)) :
    (r.map fun (σ', new) => { σ' with code := advance code t new rest }).map (State.mapNodes f) =
      (r'.map fun (σ', new) => { σ' with code := advance code' t new rest' }).map
        (State.mapNodes f) := by
  have hboth : ∀ (code : Tid → List Act) (rest : List Act),
      (State.mapNodes f ∘ fun (σ', new) => { σ' with code := advance code t new rest }) =
        (fun r : State × List Act => { r.1 with
          code := advance (fun t' => (code t').map (Act.mapNodes f)) t r.2
            (rest.map (Act.mapNodes f)) }) ∘ mapResult f :=
    fun code rest => funext fun _ => State.mapNodes_advance
  rw [Option.map_map, Option.map_map, hboth, hboth, ← Option.map_map, ← Option.map_map, hr, hcode,
    hrest]

/-- **A step and its image agree up to the map.** -/
theorem step_mapNodes (σ : State) (l : Label) :
    (step cfg (σ.mapNodes f) l).map (State.mapNodes f) = (step cfg σ l).map (State.mapNodes f) := by
  have hσ : (σ.mapNodes f).mapNodes f = σ.mapNodes f := State.mapNodes_comp hf.idem σ
  have hfault : (σ.mapNodes f).fault = σ.fault := rfl
  -- after a fault neither state has a step
  by_cases hnone : σ.fault = none
  · cases l with
    | run t =>
      have hcode : (σ.mapNodes f).code t = (σ.code t).map (Act.mapNodes f) := rfl
      simp only [step, hfault, if_pos hnone, hcode]
      cases σ.code t with
      | nil => rfl
      | cons a rest =>
        exact map_resume (exec_mapNodes hf a) (congrArg State.code hσ) (actsMap_comp hf.idem rest)
    | workerLoop =>
      have hcode : (σ.mapNodes f).code worker = [] ↔ σ.code worker = [] := List.map_eq_nil_iff
      have hlooping : (σ.mapNodes f).looping = σ.looping := rfl
      simp only [step, hfault, if_pos hnone, hcode, hlooping]
      split
      · rw [map_workerLoop]
        exact congrArg some (State.mapNodes_comp hf.idem _)
      · rfl
    | call t e =>
      have hcode : (σ.mapNodes f).code t = [] ↔ σ.code t = [] := List.map_eq_nil_iff
      have henabled : e.Enabled cfg (σ.mapNodes f) t = e.Enabled cfg σ t := by cases e <;> rfl
      simp only [step, hfault, if_pos hnone, hcode, henabled]
      split
      · have hbegin : (e.begin (σ.mapNodes f)).mapNodes f = (e.begin σ).mapNodes f := by
          rw [← map_begin, State.mapNodes_comp hf.idem]
        have hacts : e.acts (σ.mapNodes f) = e.acts σ := by cases e <;> rfl
        refine congrArg some ?_
        rw [State.mapNodes_update, State.mapNodes_update, hbegin, hacts]
        exact congrArg (fun code => { (e.begin σ).mapNodes f with
          code := Function.update code t ((e.acts σ).map (Act.mapNodes f)) })
          (congrArg State.code hσ)
      · rfl
    | redis r =>
      simp only [step, hfault, if_pos hnone]
      exact congrArg (fun σ' => some { σ' with redis := r }) hσ
  · simp only [step, hfault, if_neg hnone]

/-- **Runs from states with the same image stay so**, whatever the threads and the environment do. -/
theorem run_mapNodes (ls : List Label) {σ σ' : State} (h : σ.mapNodes f = σ'.mapNodes f) :
    (run (step cfg) anyStep σ ls).map (State.mapNodes f) =
      (run (step cfg) anyStep σ' ls).map (State.mapNodes f) := by
  refine run_view_eq (fun σ σ' l h => ?_) ls h
  rw [← step_mapNodes hf σ l, h, step_mapNodes hf σ' l]

end Steps

/-! ## Processing a message -/

/-- The worker calls `Processor` for a frame of session `s`. -/
def State.process (σ : State) (s : SessId) (n : MsgNode) : State :=
  { σ with
    item := some (s, some n)
    code := Function.update σ.code worker [.processor s (some n)] }

theorem State.mapNodes_process (σ : State) (s : SessId) (n : MsgNode) :
    (σ.process s n).mapNodes f = (σ.mapNodes f).process s (f n) :=
  congrArg (fun code => { σ.mapNodes f with item := some (s, some (f n)), code := code })
    (Function.comp_update (List.map (Act.mapNodes f)) σ.code worker [.processor s (some n)])

/-- Two received nodes with the same frame: they differ behind it only. -/
structure SameFrame (host : ByteOrder) (m m' : MsgNode) : Prop where
  left : m.Received host
  right : m'.Received host
  cut_eq : m.cut = m'.cut

/-- Whichever of the two nodes `Processor` is called for, in every run the threads do the same from
there on: what they decide, what they change in sessions and tables, what they write to queues and
streams is equal, up to what lies behind the frames. -/
def Indistinct (cfg : Config) (σ : State) (s : SessId) (m m' : MsgNode) : Prop :=
  ∀ ls, (run (step cfg) anyStep (σ.process s m) ls).map (State.mapNodes MsgNode.cut) =
    (run (step cfg) anyStep (σ.process s m') ls).map (State.mapNodes MsgNode.cut)

/-- Two closed nodes with one frame have one bare node, and so their runs agree up to `bare`; hence
also up to `cut`, which shows less. -/
theorem SameFrame.indistinct {cfg : Config} {m m' : MsgNode} (h : SameFrame cfg.host m m')
    (hclosed : m.Closed cfg.host) (σ : State) (s : SessId) : Indistinct cfg σ s m m' := by
  have hclosed' : m'.Closed cfg.host :=
    MsgNode.closed_cut.mp (h.cut_eq ▸ MsgNode.closed_cut.mpr hclosed)
  have hbare : m.bare cfg.host = m'.bare cfg.host := by
    rw [MsgNode.bare_of_closed hclosed, MsgNode.bare_of_closed hclosed', h.cut_eq]
  intro ls
  have hruns := run_mapNodes (unread_bare cfg.host) ls
    (show (σ.process s m).mapNodes _ = (σ.process s m').mapNodes _ by
      rw [State.mapNodes_process, State.mapNodes_process, hbare])
  -- a frame shows less than a bare node does
  have hcut : State.mapNodes MsgNode.cut =
      State.mapNodes MsgNode.cut ∘ State.mapNodes (MsgNode.bare cfg.host) :=
    funext fun σ => (State.mapNodes_comp (MsgNode.cut_bare cfg.host) σ).symm
  rw [hcut, ← Option.map_map, ← Option.map_map, hruns]

/-! ### A C string that runs on

The other direction. If a `VERIFY` has no NUL in its content, the parser is given the content and the
residue up to its first NUL (`cString_padded`). A parser that refuses the content alone and accepts it
with anything behind it closes the session in the one case and asks Redis in the other. -/

/-- A node with the frame of `msg` and `residue` behind it. -/
def padded (residue : List UInt8) (msg : Msg) : MsgNode where
  data := frame msg ++ residue
  curPos := headLen + msg.content.length
  ctxLen := msg.content.length

section Padded

variable {residue residue' : List UInt8} {msg : Msg} (hfits : msg.content.length ≤ maxCtxLen)

theorem cut_padded : (padded residue msg).cut =
    ⟨frame msg, headLen + msg.content.length, msg.content.length⟩ := by
  have htake : (frame msg ++ residue).take (headLen + msg.content.length) = frame msg :=
    List.take_left' (frame_length msg)
  simp only [MsgNode.cut, padded, htake]

include hfits

theorem padded_holds : (padded residue msg).Holds msg :=
  ⟨hfits, rfl, congrArg MsgNode.data cut_padded⟩

/-- Such a node can be what `ReceiveHead` and `ReceiveContent` leave: its buffer is large enough. -/
theorem padded_received (host : ByteOrder) (hlen : Session.initialNodeSize ≤ residue.length) :
    (padded residue msg).Received host := by
  have hholds : (padded residue msg).Holds msg := padded_holds hfits
  refine ⟨?_, ?_⟩
  · rw [hholds.msg_eq host]
    exact hholds
  · simp only [MsgNode.maxLen, padded, List.length_append]
    omega

/-- Two residues of sufficient length give two nodes that may be received for one message. -/
theorem sameFrame_padded (host : ByteOrder) (hlen : Session.initialNodeSize ≤ residue.length)
    (hlen' : Session.initialNodeSize ≤ residue'.length) :
    SameFrame host (padded residue msg) (padded residue' msg) :=
  ⟨padded_received hfits host hlen, padded_received hfits host hlen', cut_padded.trans cut_padded.symm⟩

omit hfits in
/-- The parser is given the content and what follows it up to the first NUL. -/
theorem cString_padded (hnul : 0 ∉ msg.content) :
    cString (padded residue msg).getContent = msg.content ++ cString residue := by
  have hcontent : (padded residue msg).getContent = msg.content ++ residue := by
    rw [MsgNode.getContent, padded, frame, List.append_assoc]
    exact List.drop_left' (by simp [headLen])
  rw [hcontent, cString, List.takeWhile_append_of_pos]
  · rfl
  · intro b hb
    exact decide_eq_true fun h0 => hnul (h0 ▸ hb)

end Padded

/-- Five acts of the worker, and the switch over the tag has been taken. -/
theorem exists_dispatched (cfg : Config) (n : MsgNode) : ∃ σ σ' : State,
    run (step cfg) anyStep (init.process 0 n) (List.replicate 5 (.run worker)) = some σ' ∧
      σ'.code worker = dispatch cfg σ 0 n ∧ (σ.sessions 0).verified = false :=
  ⟨_, _, rfl, List.append_nil _, rfl⟩

section Verify

variable {cfg : Config} {s : SessId} {n : MsgNode} (htag : n.getTagField cfg.host = TagType.verify.val)
  (hv : (σ.sessions s).verified = false)
include htag hv

/-- A JSON that cannot be parsed ends the verification. -/
theorem dispatch_invalid (hjson : cfg.json (cString n.getContent) = .invalid) :
    dispatch cfg σ s n = verifyFailed s := by
  have hne : TagType.verify.val ≠ TagType.debug.val := by decide
  simp only [dispatch, htag, if_neg hne, if_true, hv, Bool.false_eq_true, if_false, hjson]

/-- A JSON with the fields goes to Redis. -/
theorem dispatch_fields {token : List UInt8} {uid : Uid}
    (hjson : cfg.json (cString n.getContent) = .fields token uid) :
    dispatch cfg σ s n = [.verifyUser s n token uid] := by
  have hne : TagType.verify.val ≠ TagType.debug.val := by decide
  simp only [dispatch, htag, if_neg hne, if_true, hv, Bool.false_eq_true, if_false, hjson]

end Verify

/-- Without a NUL in the content there is a parser that tells two residues apart. -/
theorem exists_not_indistinct {msg : Msg} (hfits : msg.content.length ≤ maxCtxLen)
    (htag : msg.tag = TagType.verify.val) (hnul : 0 ∉ msg.content) : ∃ cfg m m',
    SameFrame cfg.host m m' ∧ m.msg cfg.host = msg ∧ ¬ Indistinct cfg init 0 m m' := by
  let cfg : Config :=
    { host := .little
      serverId := []
      json := fun text => if text = msg.content then .invalid else .fields [] 0 }
  let zeros : List UInt8 := List.replicate Session.initialNodeSize 0
  have hzeros : Session.initialNodeSize ≤ zeros.length := by simp [zeros]
  have htagged : ∀ residue, (padded residue msg).getTagField cfg.host = TagType.verify.val :=
    fun _ => (congrArg Msg.tag ((padded_holds hfits).msg_eq cfg.host)).trans htag
  refine ⟨cfg, padded zeros msg, padded (1 :: zeros) msg,
    sameFrame_padded hfits _ hzeros (Nat.le_succ_of_le hzeros),
    (padded_holds hfits).msg_eq cfg.host, fun hind => ?_⟩
  obtain ⟨σ₁, σ₁', hrun₁, hcode₁, hv₁⟩ := exists_dispatched cfg (padded zeros msg)
  obtain ⟨σ₂, σ₂', hrun₂, hcode₂, hv₂⟩ := exists_dispatched cfg (padded (1 :: zeros) msg)
  -- the one text is that of the message, the other goes on
  have htext₁ : cString (padded zeros msg).getContent = msg.content := by
    rw [cString_padded hnul]
    exact List.append_nil _
  have htext₂ : cString (padded (1 :: zeros) msg).getContent = msg.content ++ [1] := by
    rw [cString_padded hnul]
    rfl
  have hjson₁ : cfg.json (cString (padded zeros msg).getContent) = .invalid := if_pos htext₁
  have hjson₂ : cfg.json (cString (padded (1 :: zeros) msg).getContent) = .fields [] 0 :=
    if_neg (by rw [htext₂]; simp)
  have hsame := hind (List.replicate 5 (.run worker))
  rw [hrun₁, hrun₂] at hsame
  have hcodes : (σ₁'.code worker).map (Act.mapNodes MsgNode.cut) =
      (σ₂'.code worker).map (Act.mapNodes MsgNode.cut) :=
    congrFun (congrArg State.code (Option.some.inj hsame)) worker
  rw [hcode₁, dispatch_invalid (htagged _) hv₁ hjson₁, hcode₂,
    dispatch_fields (htagged _) hv₂ hjson₂] at hcodes
  cases hcodes

/-- **What lies behind a frame makes no difference** to the processing of a message, whatever the
parser, the state and the run, if and only if the message is no `VERIFY` or has a NUL in its
content. -/
theorem indistinct_iff (msg : Msg) (hfits : msg.content.length ≤ maxCtxLen)
    (hchat : msg.tag = TagType.chatMsg.val → 8 ≤ msg.content.length) :
    (∀ cfg σ s m m', SameFrame cfg.host m m' → m.msg cfg.host = msg → Indistinct cfg σ s m m') ↔
      (msg.tag = TagType.verify.val → 0 ∈ msg.content) := by
  constructor
  · intro hall htag
    by_contra hnul
    obtain ⟨cfg, m, m', hsame, hmsg, hnot⟩ := exists_not_indistinct hfits htag hnul
    exact hnot (hall cfg init 0 m m' hsame hmsg)
  · intro hnul cfg σ s m m' hsame hmsg
    have hlen : m.ctxLen = msg.content.length := hmsg ▸ hsame.left.1.ctxLen_eq
    have htag : m.getTagField cfg.host = msg.tag := congrArg Msg.tag hmsg
    have hcontent : m.contentBytes = msg.content := congrArg Msg.content hmsg
    refine hsame.indistinct ⟨?_, ?_⟩ σ s
    · rw [htag, hcontent]
      exact hnul
    · rw [htag, hlen]
      exact hchat

/-- A `VERIFY` that ends with a NUL is such a message. -/
theorem indistinct_verify_nul : Indistinct exampleConfig init 0
    (received [] ⟨TagType.verify.val, verifyText ++ [0]⟩)
    (received [125] ⟨TagType.verify.val, verifyText ++ [0]⟩) := by
  have hsame : SameFrame exampleConfig.host (received [] ⟨TagType.verify.val, verifyText ++ [0]⟩)
      (received [125] ⟨TagType.verify.val, verifyText ++ [0]⟩) :=
    ⟨by decide +kernel, by decide +kernel, by decide +kernel⟩
  have hall := (indistinct_iff ⟨TagType.verify.val, verifyText ++ [0]⟩ (by decide +kernel)
    (fun h => absurd h (by decide))).mpr fun _ => by decide +kernel
  exact hall exampleConfig init 0 _ _ hsame (by decide +kernel)

/-- A `VERIFY` whose JSON lacks the closing brace. -/
def unclosedVerify : Msg := ⟨TagType.verify.val, verifyText.dropLast⟩

/-- With zeros behind it the parser fails and the session is closed. With a brace behind it, left over
from whatever was in that memory before, the user is verified and greeted. -/
theorem not_indistinct_left_over_brace :
    SameFrame exampleConfig.host (received [] unclosedVerify) (received [125] unclosedVerify) ∧
    ∃ σ, Reach (step exampleConfig) anyStep init σ ∧
      (∃ σ', run (step exampleConfig) anyStep (σ.process 0 (received [] unclosedVerify))
          (List.replicate 6 (.run worker)) = some σ' ∧
        (σ'.sessions 0).down = true ∧ (σ'.sessions 0).verified = false) ∧
      (∃ σ', run (step exampleConfig) anyStep (σ.process 0 (received [125] unclosedVerify))
          (List.replicate 22 (.run worker)) = some σ' ∧
        (σ'.sessions 0).verified = true ∧ σ'.sess 7 = some 0 ∧ (σ'.sessions 0).writes = 1) ∧
      ¬ Indistinct exampleConfig σ 0 (received [] unclosedVerify) (received [125] unclosedVerify) := by
  have hframe : SameFrame exampleConfig.host (received [] unclosedVerify)
      (received [125] unclosedVerify) :=
    ⟨by decide +kernel, by decide +kernel, by decide +kernel⟩
  have hrun : ((run (step exampleConfig) anyStep init
      (starting ++ accepting 0 ++ [.run worker])).any fun σ =>
        ((run (step exampleConfig) anyStep (σ.process 0 (received [] unclosedVerify))
          (List.replicate 6 (.run worker))).any fun σ' =>
            decide ((σ'.sessions 0).down = true ∧ (σ'.sessions 0).verified = false)) &&
        ((run (step exampleConfig) anyStep (σ.process 0 (received [125] unclosedVerify))
          (List.replicate 6 (.run worker))).any fun σ' => decide ((σ'.sessions 0).down = false)) &&
        ((run (step exampleConfig) anyStep (σ.process 0 (received [125] unclosedVerify))
          (List.replicate 22 (.run worker))).any fun σ' => decide ((σ'.sessions 0).verified = true ∧
            σ'.sess 7 = some 0 ∧ (σ'.sessions 0).writes = 1))) = true := by
    decide +kernel
  obtain ⟨σ, hreach, htest⟩ := exists_reach_of_run hrun
  simp only [Bool.and_eq_true, Option.any_eq_true, decide_eq_true_eq] at htest
  obtain ⟨⟨⟨σ₁, hrun₁, hdown, hrest⟩, σ₂, hrun₂, hup⟩, hverified⟩ := htest
  refine ⟨hframe, σ, hreach, ⟨σ₁, hrun₁, hdown, hrest⟩, hverified, fun hind => ?_⟩
  have hsame := hind (List.replicate 6 (.run worker))
  rw [hrun₁, hrun₂] at hsame
  have hcut : σ₁.mapNodes MsgNode.cut = σ₂.mapNodes MsgNode.cut := Option.some.inj hsame
  have hdowns : (σ₁.sessions 0).down = (σ₂.sessions 0).down := by
    have hsessions := congrFun (congrArg State.sessions hcut) 0
    exact (congrArg SessionState.down hsessions :)
  rw [hdown, hup] at hdowns
  cases hdowns

end Chatroom.Backend
