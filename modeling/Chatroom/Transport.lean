import Chatroom.Server.Receive
import Chatroom.Client.AsyncClient

/-!
# Frames over a connection

What the two ends make of a byte stream, and of the bytes the other end writes. The receive loops
differ in one point only: the server's handler takes every message, the client's throws on a chat
message too short for the sender's uid, and that ends its loop.
-/

namespace Chatroom

open ByteSeq

/-! ## Any stream

Both ends run the same loop, with a handler and a first buffer of their own; `Conn.Good` is what is
known of the
loop in every state. -/

/-- The loop of the server. -/
theorem Session.run_good (host : ByteOrder) (fresh : ℕ → UInt8) (stream : List UInt8)
    (es : List Completion) : ((connect fresh stream).run (side host) es).Good (side host) stream :=
  have hroom : (side host).minLen ≤ (MsgNode.ofMaxLen fresh initialNodeSize).maxLen := by
    rw [MsgNode.ofMaxLen_maxLen]; rfl
  (Conn.start_good (side host) hroom rfl stream).run es

/-- The loop of the client. -/
theorem AsyncClient.run_good (host : ByteOrder) (fresh : ℕ → UInt8) (stream : List UInt8)
    (es : List Completion) : ((connect fresh stream).run (side host) es).Good (side host) stream :=
  have hroom : (side host).minLen ≤ (MsgNode.ofMaxLen fresh recvBufSize).maxLen := by
    rw [MsgNode.ofMaxLen_maxLen]; rfl
  (Conn.start_good (side host) hroom rfl stream).run es

/-- What the server's loop hands over are received nodes. -/
theorem Session.handed_received (host : ByteOrder) (fresh : ℕ → UInt8) (stream : List UInt8)
    (es : List Completion) :
    ∀ n ∈ ((connect fresh stream).run (side host) es).recv.handed, n.Received host :=
  (run_good host fresh stream es).inv.nodes

/-- The server throws on nothing. -/
theorem upToThrow_session (ms : List Msg) (host : ByteOrder) :
    upToThrow (Session.side host).throwsOn ms = ms :=
  upToThrow_of_fine fun _ _ => rfl

/-- **Both receive loops compute the reference parse**, for every stream and every splitting into
completions. In every state the messages handed over are the parse of the bytes consumed; a loop
that has come to its end has handed over what the whole stream means, the client only up to the
first message its handler throws on. -/
theorem receive_exact (host : ByteOrder) (fresh : ℕ → UInt8) (stream : List UInt8)
    (es : List Completion) :
    let s := (Session.connect fresh stream).run (Session.side host) es
    let c := (AsyncClient.connect fresh stream).run (AsyncClient.side host) es
    (s.Exact host stream ∧ (s.Over → ¬ s.recv.EmptyContentPending →
      s.recv.handedMsgs host = (parse stream).msgs)) ∧
    (c.Exact host stream ∧ (c.Over → ¬ c.recv.EmptyContentPending →
      c.recv.handedMsgs host = upToThrow (·.TooShortForClient) (parse stream).msgs)) := by
  intro s c
  have hs := Session.run_good host fresh stream es
  have hc := AsyncClient.run_good host fresh stream es
  refine ⟨⟨hs.exact, fun hover hpend => ?_⟩, hc.exact, fun hover hpend => ?_⟩
  · have h := hs.handed_of_over hover hpend
    rwa [upToThrow_session] at h
  · exact hc.handed_of_over hover hpend

/-! ## What the other end writes

The bytes of whole frames. Their parse is known, so the general result says what arrives. -/

/-- A message about to be sent, with what the allocation of its node finds in memory. -/
structure Outgoing where
  tag : UInt32
  content : List UInt8
  fresh : ℕ → UInt8
  nonempty : 0 < content.length
  fits : content.length ≤ maxCtxLen

def Outgoing.msg (o : Outgoing) : Msg := ⟨o.tag, o.content⟩

/-- The bytes on the wire when the messages are built and written one after another. -/
def writeAll (host : ByteOrder) : List Outgoing → Except MsgNodeError (List UInt8)
  | [] => .ok []
  | o :: os => do
    let n ← MsgNode.ofContent host o.fresh o.content o.tag
    let bytes ← writeAll host os
    return n.wire ++ bytes

/-- The constructor of a node builds the frame, in either byte order. -/
theorem writeAll_eq (host : ByteOrder) : ∀ os : List Outgoing,
    writeAll host os = .ok ((os.map Outgoing.msg).flatMap frame)
  | [] => rfl
  | o :: os => by
    have hwire : (⟨frame o.msg, 0, o.content.length⟩ : MsgNode).wire = frame o.msg :=
      MsgNode.Holds.wire_eq ⟨o.fits, rfl, List.take_of_length_le (by rw [frame_length]; rfl)⟩ rfl
    have hnode : MsgNode.ofContent host o.fresh o.content o.tag =
        .ok ⟨frame o.msg, 0, o.content.length⟩ :=
      MsgNode.ofContent_eq host o.fresh o.tag o.nonempty o.fits
    rw [writeAll, hnode, writeAll_eq host os]
    show Except.ok (MsgNode.wire _ ++ _) = _
    rw [hwire, List.map_cons, List.flatMap_cons]

/-- The messages have arrived, all of them, in order and unchanged, and nothing is left over. -/
structure Conn.Delivered (host : ByteOrder) (ms : List Msg) (c : Conn) : Prop where
  handed : c.recv.handedMsgs host = ms
  rest : c.rest = []
  underway : c.recv.underway = []

section Written

variable {side : Side} {ms : List Msg} {c : Conn}

/-- Frames are parsed to their messages, with nothing left over. -/
theorem parse_frames (hfit : ∀ m ∈ ms, m.content.length ≤ maxCtxLen) :
    parse (ms.flatMap frame) = ⟨ms, false⟩ := by
  have h := parse_flatMap_frame hfit []
  rw [List.append_nil, parse_nil] at h
  simpa [Parsed.after] using h

/-- The frames of nonempty messages never leave the loop waiting for an empty content. -/
theorem Conn.Good.not_emptyContentPending (h : c.Good side (ms.flatMap frame))
    (hfit : ∀ m ∈ ms, m.content.length ≤ maxCtxLen) (hne : ∀ m ∈ ms, 0 < m.content.length) :
    ¬ c.recv.EmptyContentPending := by
  intro hpend
  have hparse := h.inv.parse_append c.rest
  rw [h.inOrder, parse_frames hfit, h.inv.underway_of_pending hpend,
    parse_frame_append (by simp), Parsed.after_after] at hparse
  have hms : ms = (c.recv.handedMsgs side.host ++ [⟨c.recv.node.getTagField side.host, []⟩]) ++
      (parse c.rest).msgs := congrArg Parsed.msgs hparse
  have hmem : ⟨c.recv.node.getTagField side.host, []⟩ ∈ ms := by
    rw [hms]; simp
  exact absurd (hne _ hmem) (by simp)

/-- The messages written arrive exactly if the receiving handler throws on none of them, except
perhaps on the last. -/
theorem Conn.Good.delivered_iff (h : c.Good side (ms.flatMap frame))
    (hfit : ∀ m ∈ ms, m.content.length ≤ maxCtxLen) (hne : ∀ m ∈ ms, 0 < m.content.length)
    (hover : c.Over) :
    c.Delivered side.host ms ↔ ∀ m ∈ ms.dropLast, side.throwsOn m = false := by
  have hhanded := h.handed_of_over hover (h.not_emptyContentPending hfit hne)
  rw [parse_frames hfit] at hhanded
  rw [← upToThrow_eq_self_iff, ← hhanded]
  refine ⟨fun hd => hd.handed, fun hms => ?_⟩
  have hbytes : ms.flatMap frame ++ (c.recv.underway ++ c.rest) = ms.flatMap frame ++ [] := by
    have hinv := h.inv.bytes
    rw [hms] at hinv
    rw [← List.append_assoc, ← hinv, h.inOrder, List.append_nil]
  have hnil := List.append_eq_nil_iff.mp (List.append_cancel_left hbytes)
  exact ⟨hms, hnil.2, hnil.1⟩

end Written

/-- **The frame round trip**: what is built and written at one end arrives at a server's end
complete and unchanged under every splitting, and at a client's end exactly if none of the messages
but the last is a chat message without room for a uid. Until then the loop keeps asking for bytes. -/
theorem frame_roundtrip (sender receiver : ByteOrder) (fresh : ℕ → UInt8) (os : List Outgoing)
    (es : List Completion) :
    ∃ bytes, writeAll sender os = .ok bytes ∧
      (let s := (Session.connect fresh bytes).run (Session.side receiver) es
       (¬ s.Over → 0 < s.recv.requested) ∧
       (s.Over → s.Delivered receiver (os.map Outgoing.msg))) ∧
      (let c := (AsyncClient.connect fresh bytes).run (AsyncClient.side receiver) es
       (¬ c.Over → 0 < c.recv.requested) ∧
       (c.Over → (c.Delivered receiver (os.map Outgoing.msg) ↔
         ∀ m ∈ (os.map Outgoing.msg).dropLast, ¬ m.TooShortForClient))) := by
  refine ⟨_, writeAll_eq sender os, ?_⟩
  have hfit : ∀ m ∈ os.map Outgoing.msg, m.content.length ≤ maxCtxLen := by
    simpa using fun o _ => o.fits
  have hne : ∀ m ∈ os.map Outgoing.msg, 0 < m.content.length := by
    simpa using fun o _ => o.nonempty
  have hs := Session.run_good receiver fresh ((os.map Outgoing.msg).flatMap frame) es
  have hc := AsyncClient.run_good receiver fresh ((os.map Outgoing.msg).flatMap frame) es
  refine ⟨⟨fun hover => hs.requested_pos hover (hs.not_emptyContentPending hfit hne),
    fun hover => (hs.delivered_iff hfit hne hover).mpr fun _ _ => rfl⟩,
    fun hover => hc.requested_pos hover (hc.not_emptyContentPending hfit hne), fun hover => ?_⟩
  refine (hc.delivered_iff hfit hne hover).trans ?_
  simp [AsyncClient.side]

def shortChat : Outgoing := ⟨TagType.chatMsgToCli.val, [0], fun _ => 0, by decide, by decide⟩
def debugNote : Outgoing := ⟨TagType.debug.val, [1], fun _ => 0, by decide, by decide⟩

/-- Two messages of one byte each: the client's loop ends at the first. -/
theorem frame_roundtrip_shortChat :
    ∃ bytes, writeAll .little [shortChat, debugNote] = .ok bytes ∧
      (let c := (AsyncClient.connect (fun _ => 0) bytes).run (AsyncClient.side .little)
        [⟨8, fun _ => 0⟩, ⟨1, fun _ => 0⟩, ⟨8, fun _ => 0⟩, ⟨1, fun _ => 0⟩]
       c.recv.phase = .stopped .threw ∧ c.recv.handedMsgs .little = [shortChat.msg] ∧
         ¬ c.Delivered .little ([shortChat, debugNote].map Outgoing.msg)) := by
  refine ⟨frame shortChat.msg ++ frame debugNote.msg, ?_, by decide +kernel, by decide +kernel, ?_⟩
  · rw [writeAll_eq]; rfl
  · intro h
    have hrest := h.rest
    revert hrest
    decide +kernel

end Chatroom
