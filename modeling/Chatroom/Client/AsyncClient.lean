import Chatroom.Common.Receiver
import Chatroom.Utils.StdString

/-!
# The client's end of a connection (`AsyncClient`)

The client keeps one buffer for its whole life and handles each message in place before the buffer
is reused. Its `ReceiveHandler` takes the sender's uid off a `CHAT_MSG_TOCLI` message with
`content.substr(sizeof(uint64_t))`, which throws when the content is shorter than that; the
exception leaves the callback and with it `io_context::run`, so no further read is started.

`side` is the client as an instance of the receive loop that it shares with the server: the two fields
about
exceptions are what makes it different.
-/

namespace Chatroom

/-- A message on which the client's `ReceiveHandler` throws. -/
def Msg.TooShortForClient (m : Msg) : Prop :=
  m.tag = TagType.chatMsgToCli.val ∧ m.content.length < 8

instance (m : Msg) : Decidable m.TooShortForClient := inferInstanceAs (Decidable (_ ∧ _))

namespace AsyncClient

def recvBufSize : ℕ := 1024

/-- What `ReceiveHandler` shows to the user. -/
inductive Output where
  | verifyDone (content : List UInt8)
  | chat (fromUid : UInt64) (content : List UInt8)
  | unknown (tag : UInt32)
  deriving DecidableEq, Repr

/-- `ReceiveHandler(len, tag)` on the receive buffer. -/
def receiveHandler (host : ByteOrder) (n : MsgNode) : Except StdError Output :=
  let content := n.contentBytes
  let tag := n.getTagField host
  if tag = TagType.verifyDone.val then
    .ok (.verifyDone content)
  else if tag = TagType.chatMsgToCli.val then
    let fromUid := readNetField64 host n.data headLen
    match substr content 8 with
    | .ok text => .ok (.chat fromUid text)
    | .error e => .error e
  else
    .ok (.unknown tag)

/-- **The handler throws exactly on a chat message without room for a uid.** -/
theorem receiveHandler_error_iff (host : ByteOrder) (n : MsgNode) :
    (∃ e, receiveHandler host n = .error e) ↔ (n.msg host).TooShortForClient := by
  unfold receiveHandler Msg.TooShortForClient MsgNode.msg substr
  by_cases hv : n.getTagField host = TagType.verifyDone.val
  · simp [hv, TagType.val]
  · by_cases hc : n.getTagField host = TagType.chatMsgToCli.val
    · by_cases hlen : n.contentBytes.length < 8
      · simp [hc, hlen, TagType.val]
      · simp [hc, hlen, TagType.val]
    · simp [hv, hc]

/-- The receive loop of a client: the buffer stays, unless the handler throws. -/
def side (host : ByteOrder) : Side where
  host := host
  receiveHandler := fun _ n =>
    match receiveHandler host n with
    | .ok _ => some n
    | .error _ => none
  throwsOn := fun m => m.TooShortForClient
  throws_iff := by
    intro fresh n
    rw [decide_eq_true_iff, ← receiveHandler_error_iff]
    cases h : receiveHandler host n <;> simp
  minLen := recvBufSize
  headLen_le := by decide
  room := by
    intro fresh n n' hn h
    split at h
    · cases h; exact hn
    · cases h

/-- A client just connected, over which `stream` is about to arrive. -/
def connect (fresh : ℕ → UInt8) (stream : List UInt8) : Conn :=
  .start (.ofMaxLen fresh recvBufSize) stream

end AsyncClient

end Chatroom
