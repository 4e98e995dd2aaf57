import Chatroom.Common.Framing
import Chatroom.Utils.StdString

/-!
# The two ways of a chat message

A `CHAT_MSG` carries the uid of the recipient in its first eight content bytes, a `CHAT_MSG_TOCLI`
that of the sender. If the recipient is on the same server, `MsgHandler::Processor` rewrites the
received node in place and sends it on. If not, the text goes to the stream of the recipient's
server, with the uids as decimal strings (`RedisMgr::SendToMsgQueue`), and that server's
`MQHandler::MessageHandler` builds a new node. Both put the same bytes on the wire.
-/

namespace Chatroom

open ByteSeq

/-! ## On the same server

The node that was received is sent on, in the same buffer. The uid of the recipient is overwritten by
that of the
sender, which has the same length, so that the frame stays as long as it was. -/

/-- The received node as it is sent on: tag and first eight content bytes are overwritten. -/
def MsgNode.toCliInPlace (host : ByteOrder) (userId : UInt64) (n : MsgNode) : MsgNode :=
  let n := n.resetCurPos
  let n := n.setTagField host TagType.chatMsgToCli.val
  { n with data := writeNetField64 host n.data headLen userId }

/-- `ReadNetField64(msg->GetContent())`: the recipient. -/
def MsgNode.targetUid (host : ByteOrder) (n : MsgNode) : UInt64 :=
  readNetField64 host n.data headLen

/-- `std::string_view(msg->GetContent() + 8, msg->GetContent() + msg->GetContentLen())`, where the
content is long enough for the range to be one. -/
def MsgNode.chatText (n : MsgNode) : List UInt8 := slice n.getContent 8 (n.ctxLen - 8)

/-! ## Through the message queue

The stream entry has three fields. The text is what is behind the uid in the content; the uids are
written in
decimal and read with `stoull`, whose exceptions nobody catches. -/

/-- An entry of a server's stream. -/
structure StreamItem where
  fromStr : List UInt8
  toStr : List UInt8
  content : List UInt8
  deriving DecidableEq, Repr

/-- The entry `SendToMsgQueue` writes. -/
def sendToMsgQueue (fromUid toUid : UInt64) (content : List UInt8) : StreamItem where
  fromStr := toDecimal fromUid.toNat
  toStr := toDecimal toUid.toNat
  content := content

/-- `MQHandler::MessageHandler`: the recipient, and the node built for it. -/
def messageHandler (host : ByteOrder) (fresh : ℕ → UInt8) (item : StreamItem) :
    Except StdError (UInt64 × MsgNode) := do
  let fromUid ← stoull item.fromStr
  let toUid ← stoull item.toStr
  let sending := MsgNode.ofMaxLen fresh (headLen + 8 + item.content.length)
  let sending := { sending with data := writeNetField64 host sending.data headLen fromUid }
  let sending := { sending with data := splice sending.data (headLen + 8) item.content }
  let sending := sending.setTagField host TagType.chatMsgToCli.val
  let sending := sending.setContentLenField host (8 + item.content.length)
  return (toUid, sending)

/-! ## What they send

Both ways are described by the message that the node holds (`MsgNode.Holds`), so the comparison is one
of messages
and not of buffers. The buffer of the first way may have anything behind the frame, and none of it is
sent. -/

/-- The message that reaches the recipient's client. -/
def chatToCli (userId : UInt64) (text : List UInt8) : Msg :=
  ⟨TagType.chatMsgToCli.val, beBytes 8 userId.toNat ++ text⟩

theorem MsgNode.Holds.contentBytes_eq {n : MsgNode} {m : Msg} (h : n.Holds m) :
    n.contentBytes = m.content :=
  congrArg Msg.content (h.msg_eq .big)

/-- The text is what is behind the uid. -/
theorem MsgNode.Holds.chatText {n : MsgNode} {m : Msg} (h : n.Holds m) :
    n.chatText = m.content.drop 8 := by
  rw [← h.contentBytes_eq, MsgNode.contentBytes, List.drop_take]
  rfl

/-- The recipient is the uid in the first eight content bytes. -/
theorem MsgNode.Holds.targetUid {n : MsgNode} {m : Msg} (h : n.Holds m)
    (h8 : 8 ≤ m.content.length) (host : ByteOrder) :
    beBytes 8 (n.targetUid host).toNat = m.content.take 8 := by
  have hctx : 8 ≤ n.ctxLen := h.ctxLen_eq ▸ h8
  have hfit : headLen + n.ctxLen ≤ n.data.length := h.le_maxLen
  have hslice : slice n.data headLen 8 = m.content.take 8 := by
    rw [← h.contentBytes_eq, MsgNode.contentBytes, List.take_take, Nat.min_eq_left hctx]
    rfl
  have hlen : (m.content.take 8).length = 8 := by simpa using h8
  have hlt : beValue (m.content.take 8) < 2 ^ 64 :=
    lt_of_lt_of_eq (beValue_lt _) (by rw [hlen]; norm_num)
  have hbytes := beBytes_beValue (m.content.take 8)
  rw [hlen] at hbytes
  rw [MsgNode.targetUid, readNetField64_eq host (by omega), hslice,
    UInt64.toNat_ofNat_of_lt' hlt, hbytes]

/-- Rewriting in place makes a chat message for the client out of one for the server. -/
theorem MsgNode.Holds.toCliInPlace {n : MsgNode} {m : Msg} (h : n.Holds m)
    (h8 : 8 ≤ m.content.length) (host : ByteOrder) (userId : UInt64) :
    (n.toCliInPlace host userId).Holds (chatToCli userId (m.content.drop 8)) := by
  have hlen : (chatToCli userId (m.content.drop 8)).content.length = m.content.length := by
    simp only [chatToCli, List.length_append, beBytes_length, List.length_drop]; omega
  have hfit : 8 + n.ctxLen ≤ n.data.length := h.le_maxLen
  have hctx : 8 ≤ n.ctxLen := h.ctxLen_eq ▸ h8
  have htag : (splice n.data 0 (beBytes 4 TagType.chatMsgToCli.val.toNat)).length =
      n.data.length := splice_length (by simp only [beBytes_length]; omega)
  refine ⟨hlen ▸ h.fits, h.ctxLen_eq.trans hlen.symm, ?_⟩
  -- both fields lie inside the frame, so overwriting the buffer is overwriting the frame
  calc (n.toCliInPlace host userId).data.take (headLen + n.ctxLen)
      = (splice (splice n.data 0 (beBytes 4 TagType.chatMsgToCli.val.toNat)) 8
          (beBytes 8 userId.toNat)).take (8 + n.ctxLen) := by
        rw [← writeNetField32_eq host, ← writeNetField64_eq host]; rfl
    _ = splice (splice (n.data.take (8 + n.ctxLen)) 0 (beBytes 4 TagType.chatMsgToCli.val.toNat)) 8
          (beBytes 8 userId.toNat) := by
        rw [take_splice (by omega) (by simp only [beBytes_length]; omega),
          take_splice (Nat.zero_le _) (by simp only [beBytes_length]; omega)]
    _ = splice (frame ⟨TagType.chatMsgToCli.val, m.content⟩) 8 (beBytes 8 userId.toNat) := by
        rw [← splice_frame_tag, ← h.data_eq]; rfl
    _ = frame (chatToCli userId (m.content.drop 8)) := by
        have hbs : (beBytes 8 userId.toNat).length ≤ m.content.length := by simpa using h8
        have hsplice := splice_frame_content (m := ⟨TagType.chatMsgToCli.val, m.content⟩) hbs
        rwa [beBytes_length] at hsplice

/-- The node built from an entry holds the chat message for the client. -/
theorem messageHandler_holds {item : StreamItem} {fromUid toUid : UInt64} (host : ByteOrder)
    (fresh : ℕ → UInt8) (hfrom : stoull item.fromStr = .ok fromUid)
    (hto : stoull item.toStr = .ok toUid) (hmax : 8 + item.content.length ≤ maxCtxLen) :
    ∃ n, messageHandler host fresh item = .ok (toUid, n) ∧ n.curPos = 0 ∧
      n.Holds (chatToCli fromUid item.content) := by
  have hsize : (UInt32.ofNat (8 + item.content.length)).toNat = 8 + item.content.length :=
    UInt32.toNat_ofNat_of_lt' (lt_of_le_of_lt hmax (by decide))
  -- the new buffer, cut where the fields will be
  have hlen : (newChars fresh (headLen + 8 + item.content.length)).length =
      4 + (4 + (8 + item.content.length)) := by
    simp only [newChars_length, headLen, tagLen, lengthLen]; omega
  obtain ⟨a, buf₁, hbuf, ha, hlen₁⟩ := exists_append_of_length_eq hlen
  obtain ⟨b, buf₂, rfl, hb, hlen₂⟩ := exists_append_of_length_eq hlen₁
  obtain ⟨c, d, rfl, hc, hd⟩ := exists_append_of_length_eq hlen₂
  refine ⟨⟨frame (chatToCli fromUid item.content), 0, 8 + item.content.length⟩, ?_, rfl, ?_⟩
  · have hdata : writeNetField32 host (writeNetField32 host (splice (writeNetField64 host
          (a ++ (b ++ (c ++ d))) headLen fromUid) (headLen + 8) item.content) 0
          TagType.chatMsgToCli.val) tagLen (UInt32.ofNat (8 + item.content.length)) =
        frame (chatToCli fromUid item.content) := by
      simp only [writeNetField32_eq, writeNetField64_eq, hsize]
      rw [← List.append_assoc a b, splice_part (by simp [ha, hb, headLen, tagLen, lengthLen])
          (by simp [hc]), ← List.append_assoc (a ++ b), ← List.append_nil d,
        splice_part (by simp [ha, hb, headLen, tagLen, lengthLen]) (by simp [hd]),
        List.append_assoc, List.append_assoc, splice_front (by simp [ha]),
        splice_part (by simp [tagLen]) (by simp [hb])]
      simp [frame, chatToCli, tagLen, lengthLen]
    rw [messageHandler, hfrom, hto]
    show Except.ok (toUid, (_ : MsgNode)) = _
    rw [← hdata, ← hbuf]
    rfl
  · refine ⟨?_, ?_, List.take_of_length_le (by simp [chatToCli])⟩
    · simpa [chatToCli] using hmax
    · simp [chatToCli]

/-- A node built from an entry has room for the uid of the sender. -/
theorem messageHandler_length {host : ByteOrder} {fresh : ℕ → UInt8} {item : StreamItem}
    {toUid : UInt64} {n : MsgNode} (h : messageHandler host fresh item = .ok (toUid, n)) :
    8 ≤ n.contentBytes.length := by
  obtain ⟨fromUid, hfrom⟩ : ∃ fromUid, stoull item.fromStr = .ok fromUid := by
    cases hfrom : stoull item.fromStr with
    | error e => rw [messageHandler, hfrom] at h; cases h
    | ok fromUid => exact ⟨fromUid, rfl⟩
  obtain ⟨toUid', hto⟩ : ∃ toUid', stoull item.toStr = .ok toUid' := by
    cases hto : stoull item.toStr with
    | error e => rw [messageHandler, hfrom, hto] at h; cases h
    | ok toUid' => exact ⟨toUid', rfl⟩
  rw [messageHandler, hfrom, hto] at h
  cases h
  rw [MsgNode.contentBytes_eq, slice, List.length_take, List.length_drop]
  -- the writes never shorten the buffer; the content length is at least 8
  have hbuf := newChars_length fresh (headLen + 8 + item.content.length)
  have hlen := ((le_writeNetField64_length host
      (newChars fresh (headLen + 8 + item.content.length)) headLen fromUid).trans
    (le_splice_length _ (headLen + 8) item.content)).trans
    ((le_writeNetField32_length host _ 0 TagType.chatMsgToCli.val).trans
      (le_writeNetField32_length host _ tagLen (UInt32.ofNat (8 + item.content.length))))
  have hroom : 8 + headLen ≤ _ := le_trans (by omega) hlen
  exact le_min (Nat.le_add_right 8 _) (Nat.le_sub_of_add_le hroom)

/-- **Both ways of a chat message put the same bytes on the wire.** A chat frame was received, with
anything behind it in the buffer. Rewritten in place, or sent as a stream entry and built anew by a
server of any byte order, it leaves as the same frame; the entry never makes the rebuild throw. -/
theorem local_eq_remote (host host' : ByteOrder) (fresh : ℕ → UInt8) (sender target : UInt64)
    (content residue : List UInt8) (h8 : 8 ≤ content.length) (hmax : content.length ≤ maxCtxLen) :
    let msg : MsgNode :=
      ⟨frame ⟨TagType.chatMsg.val, content⟩ ++ residue, headLen + content.length, content.length⟩
    ∃ sending, messageHandler host' fresh (sendToMsgQueue sender target msg.chatText) =
        .ok (target, sending) ∧
      sending.wire = (msg.toCliInPlace host sender).wire ∧
      sending.wire = frame (chatToCli sender (content.drop 8)) := by
  intro msg
  have hmsg : msg.Holds ⟨TagType.chatMsg.val, content⟩ :=
    ⟨hmax, rfl, List.take_left' (frame_length _)⟩
  have htext : msg.chatText = content.drop 8 := hmsg.chatText
  have hfit : 8 + (sendToMsgQueue sender target msg.chatText).content.length ≤ maxCtxLen := by
    rw [htext]; show 8 + (content.drop 8).length ≤ _; rw [List.length_drop]; omega
  obtain ⟨sending, hok, hcur, hholds⟩ := messageHandler_holds host' fresh
    (stoull_toDecimal sender) (stoull_toDecimal target) hfit
  have hwire : sending.wire = frame (chatToCli sender (content.drop 8)) := by
    rw [hholds.wire_eq hcur]
    show frame (chatToCli sender msg.chatText) = _
    rw [htext]
  refine ⟨sending, hok, ?_, hwire⟩
  rw [hwire, (hmsg.toCliInPlace h8 host sender).wire_eq rfl]

/-- A chat of two characters from user 5 to user 7, received on a little-endian server and delivered
by a big-endian one. -/
theorem local_eq_remote_hi :
    ∃ sending, messageHandler .big (fun _ => 255) (sendToMsgQueue 5 7 [104, 105]) =
        .ok (7, sending) ∧ sending.wire = frame (chatToCli 5 [104, 105]) := by
  obtain ⟨sending, hok, -, hwire⟩ := local_eq_remote .little .big (fun _ => 255) 5 7
    [0, 0, 0, 0, 0, 0, 0, 7, 104, 105] [1, 2, 3] (by decide) (by decide)
  exact ⟨sending, hok, hwire⟩

end Chatroom
