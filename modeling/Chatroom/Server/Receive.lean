import Chatroom.Common.Receiver

/-!
# The server's end of a connection (`Session::ReceiveHead`, `ReceiveContent`, `ReceiveHandler`)

A `Session` gives the node of a complete message away (`PostMessage` takes the shared pointer) and
goes on with a new node of `INITIAL_NODE_SIZE` bytes. `handler_` stays alive for as long as
callbacks run: `ServerClass` drops it only after `ctx.run()` has returned.

`side` is the server as an instance of the receive loop that it shares with the client. It never
throws, and its
buffers have the initial size at least.
-/

namespace Chatroom.Session

open Chatroom

def initialNodeSize : ℕ := 1024

/-- `ReceiveHandler`: the node is posted, a fresh one takes its place. -/
def receiveHandler (fresh : ℕ → UInt8) (_ : MsgNode) : Option MsgNode :=
  some (.ofMaxLen fresh initialNodeSize)

/-- The receive loop of a session. -/
def side (host : ByteOrder) : Side where
  host := host
  receiveHandler := receiveHandler
  throwsOn := fun _ => false
  throws_iff := by simp [receiveHandler]
  minLen := initialNodeSize
  headLen_le := by decide
  room := by
    intro fresh n n' _ h
    rw [receiveHandler, Option.some.injEq] at h
    rw [← h, MsgNode.ofMaxLen_maxLen]

/-- A session just started, over which `stream` is about to arrive. -/
def connect (fresh : ℕ → UInt8) (stream : List UInt8) : Conn :=
  .start (.ofMaxLen fresh initialNodeSize) stream

end Chatroom.Session

namespace Chatroom

/-- A node as the receive loop of a session hands it over: it holds a frame, in a buffer that has
at least the initial size. What lies behind the frame is arbitrary. -/
def MsgNode.Received (host : ByteOrder) (n : MsgNode) : Prop :=
  n.Holds (n.msg host) ∧ Session.initialNodeSize ≤ n.maxLen

instance (host : ByteOrder) (n : MsgNode) : Decidable (n.Received host) :=
  decidable_of_iff
    (((n.msg host).content.length ≤ maxCtxLen ∧ n.ctxLen = (n.msg host).content.length ∧
      n.data.take (headLen + n.ctxLen) = frame (n.msg host)) ∧
      Session.initialNodeSize ≤ n.maxLen)
    ⟨fun ⟨⟨h₁, h₂, h₃⟩, h⟩ => ⟨⟨h₁, h₂, h₃⟩, h⟩, fun ⟨⟨h₁, h₂, h₃⟩, h⟩ => ⟨⟨h₁, h₂, h₃⟩, h⟩⟩

end Chatroom
