import Chatroom.Client.Console
import Chatroom.Client.Sending
import Chatroom.Server.Delivery
import Chatroom.Transport

/-!
# The way of a message

From the queue of a client over the connection to the server, and from the console of one user to the
screen of another. The parts are those of the other modules: the worker that writes the queue, the
frames and the receive loops, the two ways through the servers.
-/

namespace Chatroom

open ByteSeq Trace SendWorker

/-! ## From `Send` to the server

The client writes whole frames one after another, and the connection may end anywhere in them. What
the server
parses of a begin of the bytes is a begin of the messages. -/

/-- More bytes bring more messages. -/
theorem parse_append_prefix (s x : List UInt8) : (parse s).msgs <+: (parse (s ++ x)).msgs := by
  fun_induction parse s with
  | case1 s hshort => exact List.nil_prefix
  | case2 s hlong hover => exact List.nil_prefix
  | case3 s hlong hfits hincomplete => exact List.nil_prefix
  | case4 s hlong hfits hcomplete ih =>
    have hhead : headLen ≤ s.length := Nat.le_of_not_lt hlong
    have hlen : headLen + headCtxLen s ≤ s.length := Nat.le_of_not_lt hcomplete
    have hslice : slice (s ++ x) headLen (headCtxLen s) = slice s headLen (headCtxLen s) := by
      unfold slice
      rw [List.drop_append_of_le_length hhead,
        List.take_append_of_le_length (by rw [List.length_drop]; omega)]
    have hdrop : (s ++ x).drop (headLen + headCtxLen s) = s.drop (headLen + headCtxLen s) ++ x :=
      List.drop_append_of_le_length hlen
    rw [parse.eq_1 (s ++ x), headCtxLen_append hhead, headTag_append hhead, List.length_append,
      if_neg (by omega), if_neg hfits, if_neg (by omega), hslice, hdrop]
    exact List.prefix_append_right_inj _ |>.mpr ih

section Upstream

variable {side : Side} {stream : List UInt8} {c : Conn} {ms : List Msg}

/-- A begin of the frames means a begin of the messages. -/
theorem parse_prefix_frames (hfit : ∀ m ∈ ms, m.content.length ≤ maxCtxLen)
    (hstream : stream <+: ms.flatMap frame) : (parse stream).msgs <+: ms := by
  obtain ⟨x, hx⟩ := hstream
  have hmore := parse_append_prefix stream x
  rwa [hx, parse_frames hfit] at hmore

/-- In every state of the receive loop. -/
theorem Conn.Good.handed_prefix (h : c.Good side stream) :
    c.recv.handedMsgs side.host <+: (parse stream).msgs := by
  have hparse := h.inv.parse_append c.rest
  rw [h.inOrder] at hparse
  rw [hparse]
  exact List.prefix_append _ _

/-- A loop that reads nothing but nonempty messages never waits for an empty content. -/
theorem Conn.Good.not_pending (h : c.Good side stream)
    (hne : ∀ m ∈ (parse stream).msgs, 0 < m.content.length) : ¬ c.recv.EmptyContentPending := by
  intro hpend
  have hparse := h.inv.parse_append c.rest
  rw [h.inOrder, h.inv.underway_of_pending hpend, parse_frame_append (by simp),
    Parsed.after_after] at hparse
  have hmem : ⟨c.recv.node.getTagField side.host, []⟩ ∈ (parse stream).msgs := by
    rw [hparse]
    exact List.mem_append_left _ (List.mem_append_right _ List.mem_cons_self)
  exact absurd (hne _ hmem) (Nat.lt_irrefl 0)

end Upstream

/-- **What is sent is what arrives**, in every run of the client and however its bytes are split on the
way. The server gets a begin of what was given to `Send`; and when it has read everything that is on the
wire, with the message under way in part, it has got at least the messages that were written. -/
theorem upstream_exact (sender receiver : ByteOrder) (τ : Traffic Outgoing)
    (h : Reach Traffic.step anyStep Traffic.init τ) :
    ∃ out bytes part, τ.posted = τ.written ++ out ++ τ.client.sendQ ∧ out.length ≤ 1 ∧
      writeAll sender τ.written = .ok bytes ∧ writeAll sender out = .ok part ∧
      ∀ k fresh es,
        let s := (Session.connect fresh (bytes ++ part.take k)).run (Session.side receiver) es
        s.recv.handedMsgs receiver <+: τ.posted.map Outgoing.msg ∧
        (¬ s.Over → 0 < s.recv.requested) ∧
        (s.Over → τ.written.map Outgoing.msg <+: s.recv.handedMsgs receiver) := by
  obtain ⟨out, hout, heq⟩ := inTurn_of_reach h
  refine ⟨out, _, _, heq, hout.length_le, writeAll_eq sender _, writeAll_eq sender _, ?_⟩
  intro k fresh es s
  have hfit : ∀ m ∈ τ.posted.map Outgoing.msg, m.content.length ≤ maxCtxLen := by
    simpa using fun o _ => o.fits
  have hne : ∀ m ∈ τ.posted.map Outgoing.msg, 0 < m.content.length := by
    simpa using fun o _ => o.nonempty
  have hwritten : τ.written ⊆ τ.posted := by
    rw [heq, List.append_assoc]
    exact List.subset_append_left _ _
  have hgood := Session.run_good receiver fresh ((τ.written.map Outgoing.msg).flatMap frame ++
    ((out.map Outgoing.msg).flatMap frame).take k) es
  -- what is on the wire is a begin of the frames of everything that was posted
  have hwire : (τ.written.map Outgoing.msg).flatMap frame ++
      ((out.map Outgoing.msg).flatMap frame).take k <+: (τ.posted.map Outgoing.msg).flatMap frame := by
    rw [heq, List.map_append, List.map_append, List.flatMap_append, List.flatMap_append,
      List.append_assoc]
    exact (List.prefix_append_right_inj _).mpr
      ((List.take_prefix _ _).trans (List.prefix_append _ _))
  have hparse := parse_prefix_frames hfit hwire
  have hpend := hgood.not_pending fun m hm => hne m (hparse.subset hm)
  refine ⟨hgood.handed_prefix.trans hparse, fun hover => hgood.requested_pos hover hpend,
    fun hover => ?_⟩
  -- at the end the loop has handed over all that the bytes mean, which begins with what was written
  have hall := hgood.handed_of_over hover hpend
  rw [upToThrow_session] at hall
  show _ <+: s.recv.handedMsgs (Session.side receiver).host
  rw [hall, parse_flatMap_frame fun m hm => hfit m (List.map_subset _ hwritten hm)]
  exact List.prefix_append _ _

/-- Two messages, of which the first is being written. -/
def twoNotes : List (Label Outgoing) :=
  [.connected, .send debugNote, .send debugNote, .test, .lock, .check, .leave]

/-- The first message is under way, and the second waits. -/
theorem upstream_exact_notes : ∃ τ : Traffic Outgoing, Reach Traffic.step anyStep Traffic.init τ ∧
    τ.posted = [debugNote, debugNote] ∧ ∃ out bytes part,
      τ.posted = τ.written ++ out ++ τ.client.sendQ ∧ out.length ≤ 1 ∧
      writeAll .little τ.written = .ok bytes ∧ writeAll .little out = .ok part ∧
      ∀ k fresh es,
        let s := (Session.connect fresh (bytes ++ part.take k)).run (Session.side .big) es
        s.recv.handedMsgs .big <+: τ.posted.map Outgoing.msg ∧
        (¬ s.Over → 0 < s.recv.requested) ∧
        (s.Over → τ.written.map Outgoing.msg <+: s.recv.handedMsgs .big) := by
  have hrun : run Traffic.step anyStep (Traffic.init : Traffic Outgoing) twoNotes = some _ := rfl
  exact ⟨_, reach_of_run hrun, rfl, upstream_exact .little .big _ (reach_of_run hrun)⟩

/-! ## From the console to the screen

At each place the message is a node that holds a frame, so the steps compose: the uid is written by
the console
and read by the server, the text is carried along, and the uid of the sender is read by the client. -/

section Chat

variable {n : MsgNode} {uid : UInt64} {text : List UInt8}

theorem take_uid (uid : UInt64) (text : List UInt8) :
    (beBytes 8 uid.toNat ++ text).take 8 = beBytes 8 uid.toNat :=
  List.take_left' (beBytes_length 8 _)

theorem drop_uid (uid : UInt64) (text : List UInt8) : (beBytes 8 uid.toNat ++ text).drop 8 = text :=
  List.drop_left' (beBytes_length 8 _)

/-- A uid is determined by its bytes. -/
theorem uid_eq_of_beBytes {u v : UInt64} (h : beBytes 8 u.toNat = beBytes 8 v.toNat) : u = v := by
  have hvalue := congrArg beValue h
  rw [beValue_beBytes, beValue_beBytes, Nat.mod_eq_of_lt (lt_of_lt_of_eq u.toNat_lt (by norm_num)),
    Nat.mod_eq_of_lt (lt_of_lt_of_eq v.toNat_lt (by norm_num))] at hvalue
  exact UInt64.toNat.inj hvalue

/-- The recipient the server reads off a message is the one the client has written into it. -/
theorem MsgNode.Holds.targetUid_eq {tag : UInt32} (h : n.Holds ⟨tag, beBytes 8 uid.toNat ++ text⟩)
    (host : ByteOrder) : n.targetUid host = uid := by
  have hread := h.targetUid (by simp) host
  rw [take_uid] at hread
  exact uid_eq_of_beBytes hread

/-- What the client shows. -/
theorem MsgNode.Holds.receiveHandler_chat (h : n.Holds (chatToCli uid text)) (host : ByteOrder) :
    AsyncClient.receiveHandler host n = .ok (.chat uid text) := by
  have htag : n.getTagField host = TagType.chatMsgToCli.val := congrArg Msg.tag (h.msg_eq host)
  have huid : readNetField64 host n.data headLen = uid := h.targetUid_eq host
  have htext : substr n.contentBytes 8 = .ok text := by
    rw [h.contentBytes_eq]
    show substr (beBytes 8 uid.toNat ++ text) 8 = _
    rw [substr, if_neg (by simp), drop_uid]
  unfold AsyncClient.receiveHandler
  dsimp only
  rw [htag, huid, htext]
  rfl

/-- The node that another server builds for the recipient. -/
theorem MsgNode.Holds.rebuilt {tag : UInt32} (h : n.Holds ⟨tag, beBytes 8 uid.toNat ++ text⟩)
    (host : ByteOrder) (fresh : ℕ → UInt8) (sender : UInt64) :
    ∃ sending, messageHandler host fresh (sendToMsgQueue sender uid n.chatText) = .ok (uid, sending) ∧
      sending.wire = frame (chatToCli sender text) := by
  have htext : n.chatText = text := h.chatText.trans (drop_uid uid text)
  have hfits : 8 + text.length ≤ maxCtxLen := by
    have hlen := h.fits
    rwa [List.length_append, beBytes_length] at hlen
  rw [htext]
  obtain ⟨sending, hok, hcur, hholds⟩ := @messageHandler_holds (sendToMsgQueue sender uid text)
    sender uid host fresh (stoull_toDecimal sender) (stoull_toDecimal uid) hfits
  exact ⟨sending, hok, hholds.wire_eq hcur⟩

end Chat

/-- **What is typed is what is shown.** A line in the form of `\send` leaves the console as a message;
a server that is handed this message reads the recipient that was typed, and what it sends on, itself or
through the stream of another server, are the bytes of one message to a client; a client that is handed
that message shows the text that was typed as coming from the sender. The four machines may have any byte
order, and the two connections carry any bytes, in any splitting, besides. -/
theorem chat_shown (client server server' receiver : ByteOrder) (line : Console.Line)
    (sender uid : UInt64) (text : List UInt8) (hrunning : line.running = true)
    (hsends : Console.SendsTo (Console.buffer line.text) uid text) :
    ∃ content, .send TagType.chatMsg.val content ∈ line.effects client ∧
      (∀ fresh stream es,
        ∀ n ∈ ((Session.connect fresh stream).run (Session.side server) es).recv.handed,
          n.msg server = ⟨TagType.chatMsg.val, content⟩ → n.targetUid server = uid ∧
            (n.toCliInPlace server sender).wire = frame (chatToCli sender text) ∧
            ∀ fresh', ∃ sending,
              messageHandler server' fresh' (sendToMsgQueue sender (n.targetUid server) n.chatText) =
                .ok (uid, sending) ∧ sending.wire = frame (chatToCli sender text)) ∧
      ∀ fresh stream es,
        ∀ n ∈ ((AsyncClient.connect fresh stream).run (AsyncClient.side receiver) es).recv.handed,
          n.msg receiver = chatToCli sender text →
            AsyncClient.receiveHandler receiver n = .ok (.chat sender text) := by
  refine ⟨beBytes 8 uid.toNat ++ text,
    Console.mem_effects_iff.mpr ⟨hrunning, uid, text, hsends, rfl⟩, ?_, ?_⟩
  · intro fresh stream es n hn hmsg
    -- the server: the node that is handed over holds the message
    have hholds := (Session.handed_received server fresh stream es n hn).1
    rw [hmsg] at hholds
    have hlocal := hholds.toCliInPlace (by simp) server sender
    rw [drop_uid] at hlocal
    have huid := hholds.targetUid_eq server
    rw [huid]
    exact ⟨rfl, hlocal.wire_eq rfl, fun fresh' => hholds.rebuilt server' fresh' sender⟩
  · intro fresh stream es n hn hmsg
    -- the client: likewise
    have hholds := ((AsyncClient.run_good receiver fresh stream es).inv.nodes n hn).1
    have hmsg' : n.msg (AsyncClient.side receiver).host = chatToCli sender text := hmsg
    rw [hmsg'] at hholds
    exact hholds.receiveHandler_chat receiver

/-- `\send 7 hi`. -/
def sendHi : Console.Line := ⟨[92, 115, 101, 110, 100, 32, 55, 32, 104, 105], true⟩

/-- With machines of both byte orders. -/
theorem chat_shown_hi : Console.SendsTo (Console.buffer sendHi.text) 7 [104, 105] ∧
    ∃ content, .send TagType.chatMsg.val content ∈ sendHi.effects .little ∧
      (∀ fresh stream es,
        ∀ n ∈ ((Session.connect fresh stream).run (Session.side .big) es).recv.handed,
          n.msg .big = ⟨TagType.chatMsg.val, content⟩ → n.targetUid .big = 7 ∧
            (n.toCliInPlace .big 5).wire = frame (chatToCli 5 [104, 105]) ∧
            ∀ fresh', ∃ sending,
              messageHandler .little fresh' (sendToMsgQueue 5 (n.targetUid .big) n.chatText) =
                .ok (7, sending) ∧ sending.wire = frame (chatToCli 5 [104, 105])) ∧
      ∀ fresh stream es,
        ∀ n ∈ ((AsyncClient.connect fresh stream).run (AsyncClient.side .little) es).recv.handed,
          n.msg .little = chatToCli 5 [104, 105] →
            AsyncClient.receiveHandler .little n = .ok (.chat 5 [104, 105]) := by
  have hsends : Console.SendsTo (Console.buffer sendHi.text) 7 [104, 105] :=
    ⟨by decide, [55], [], by decide, by decide, .inl ⟨rfl, by decide⟩, by decide⟩
  exact ⟨hsends, chat_shown .little .big .little .little sendHi 5 7 [104, 105] rfl hsends⟩

end Chatroom
