import Chatroom.Common.Framing

/-!
# The receive loop

`Session` (server) and `AsyncClient` (client) receive frames by the same two-phase loop of
callbacks: `ReceiveHead` reads up to 8 bytes, takes the content length out of them and grows the
buffer if needed; `ReceiveContent` reads the content, hands the message over and starts again. They
differ in what `ReceiveHandler` does with a complete message, so that is a parameter (`Side`).

A read may complete with any number of bytes up to the number requested; the callbacks then ask for
the rest. A completion with an error closes the connection, which ends the run: it hands nothing
over and consumes nothing.

The invariant that carries everything says where the bytes are: those consumed so far are the frames
of the messages handed over, then the half-received frame in the buffer. What they parse to follows
from the reference parse undoing the framing.
-/

namespace Chatroom

open ByteSeq

/-- Why no further read was started: an announced length above `MAX_CTX_LEN`, or an exception out
of `ReceiveHandler`. -/
inductive StopReason where
  | overlong
  | threw
  deriving DecidableEq, Repr

/-- The read that is outstanding. -/
inductive ReadPhase where
  | head
  | content
  | stopped (why : StopReason)
  deriving DecidableEq, Repr

structure Receiver where
  node : MsgNode
  phase : ReadPhase
  /-- The nodes given to `ReceiveHandler` so far. -/
  handed : List MsgNode
  deriving DecidableEq, Repr

/-- One end of a connection: its byte order, and its `ReceiveHandler`, which returns the node the
loop goes on with (`none`: it threw, and on which messages it does is part of the side). Its nodes
have a certain size at least, enough for a header. -/
structure Side where
  host : ByteOrder
  receiveHandler : (ℕ → UInt8) → MsgNode → Option MsgNode
  throwsOn : Msg → Bool
  throws_iff : ∀ fresh n, receiveHandler fresh n = none ↔ throwsOn (n.msg host) = true
  minLen : ℕ
  headLen_le : headLen ≤ minLen
  room : ∀ {fresh n n'}, minLen ≤ n.maxLen → receiveHandler fresh n = some n' → minLen ≤ n'.maxLen

namespace Receiver

/-- The number of bytes the outstanding `async_read` asks for. -/
def requested (r : Receiver) : ℕ :=
  match r.phase with
  | .head => sub32 headLen r.node.curPos
  | .content => sub32 (u32 (r.node.ctxLen + headLen)) r.node.curPos
  | .stopped _ => 0

/-- Grow the buffer to the announced length if it is too short. -/
def makeRoom (fresh : ℕ → UInt8) (n : MsgNode) : MsgNode :=
  if u32 (n.ctxLen + headLen) > n.maxLen then n.reallocate fresh (u32 (n.ctxLen + headLen)) else n

/-- The callback of `ReceiveHead`, after `cur_pos_` has been advanced. -/
def headReceived (side : Side) (fresh : ℕ → UInt8) (n : MsgNode) (r : Receiver) : Receiver :=
  if headLen ≤ n.curPos then
    let n := n.updateContentLenField side.host
    if n.ctxLen > maxCtxLen then
      { r with node := n, phase := .stopped .overlong }
    else
      { r with node := makeRoom fresh n, phase := .content }
  else
    { r with node := n, phase := .head }

/-- The callback of `ReceiveContent`, after `cur_pos_` has been advanced. -/
def contentReceived (side : Side) (fresh : ℕ → UInt8) (n : MsgNode) (r : Receiver) : Receiver :=
  if u32 (n.ctxLen + headLen) ≤ n.curPos then
    match side.receiveHandler fresh n with
    | some n' => { node := n'.zero, phase := .head, handed := r.handed ++ [n] }
    | none => { node := n, phase := .stopped .threw, handed := r.handed ++ [n] }
  else
    { r with node := n, phase := .content }

/-- The node after asio has put `bytes` at `cur_pos_` and the callback has advanced it. -/
def fill (bytes : List UInt8) (n : MsgNode) : MsgNode :=
  { n with data := splice n.data n.curPos bytes, curPos := u32 (n.curPos + bytes.length) }

/-- The outstanding read completes with `bytes`. -/
def complete (side : Side) (fresh : ℕ → UInt8) (bytes : List UInt8) (r : Receiver) : Receiver :=
  match r.phase with
  | .head => headReceived side fresh (fill bytes r.node) r
  | .content => contentReceived side fresh (fill bytes r.node) r
  | .stopped _ => r

/-- The messages handed over so far. -/
def handedMsgs (host : ByteOrder) (r : Receiver) : List Msg := r.handed.map (·.msg host)

/-- The bytes in the buffer that belong to the frame under way. -/
def underway (r : Receiver) : List UInt8 :=
  match r.phase with
  | .stopped .threw => []
  | _ => r.node.data.take r.node.curPos

/-- A zero-length content: asio completes the read at once, without a byte from the stream. -/
def EmptyContentPending (r : Receiver) : Prop := r.phase = .content ∧ r.requested = 0

instance (r : Receiver) : Decidable r.EmptyContentPending :=
  inferInstanceAs (Decidable (_ ∧ _))

end Receiver

/-! ## A connection

The stream is what the peer sends; a completion takes the next bytes of it, at most as many as it
wants and as the loop asked for. -/

/-- A read completion: how many bytes it is willing to deliver, and what an allocation made by the
callback finds in memory. -/
structure Completion where
  bytes : ℕ
  fresh : ℕ → UInt8

structure Conn where
  recv : Receiver
  consumed : List UInt8
  rest : List UInt8

namespace Conn

/-- How many bytes a completion delivers. -/
def delivered (c : Conn) (e : Completion) : ℕ := min e.bytes c.recv.requested

def step (side : Side) (c : Conn) (e : Completion) : Conn :=
  match c.recv.phase with
  | .stopped _ => c
  | _ =>
    { recv := c.recv.complete side e.fresh (c.rest.take (c.delivered e))
      consumed := c.consumed ++ c.rest.take (c.delivered e)
      rest := c.rest.drop (c.delivered e) }

/-- The connection after a sequence of completions. -/
def run (side : Side) (c : Conn) (es : List Completion) : Conn := es.foldl (step side) c

/-- A connection over which `stream` is about to arrive, with the first node `n`. -/
def start (n : MsgNode) (stream : List UInt8) : Conn :=
  { recv := { node := n, phase := .head, handed := [] }, consumed := [], rest := stream }

end Conn

/-! ## The invariant

Between two callbacks the loop waits for a header or for a content, or it has stopped. `PhaseInv` says
for each of these where `cur_pos_` stands; `Inv` adds that the bytes taken from the stream so far are
the frames of the messages handed over and then the bytes in the buffer up to `cur_pos_`. From the
bounds in `PhaseInv` it follows that none of the sums of the code, all of them in `uint32_t`, wraps. -/

namespace Receiver

/-- What holds between two callbacks, by the read that is outstanding. -/
def PhaseInv (r : Receiver) : Prop :=
  match r.phase with
  | .head => r.node.curPos < headLen
  | .content =>
      headLen ≤ r.node.curPos ∧ r.node.curPos ≤ headLen + r.node.ctxLen ∧
        r.node.ctxLen ≤ maxCtxLen ∧ headLen + r.node.ctxLen ≤ r.node.maxLen ∧
        headCtxLen r.underway = r.node.ctxLen ∧
        (r.node.curPos < headLen + r.node.ctxLen ∨ r.node.ctxLen = 0)
  | .stopped .overlong => r.node.curPos = headLen ∧ maxCtxLen < headCtxLen r.underway
  | .stopped .threw => r.node.curPos ≤ r.node.maxLen

/-- The invariant of the loop: the outstanding read fits its phase, and the bytes `consumed` so far
are the frames of the messages handed over, followed by the frame under way. -/
structure Inv (side : Side) (consumed : List UInt8) (r : Receiver) : Prop where
  room : side.minLen ≤ r.node.maxLen
  phase : r.PhaseInv
  nodes : ∀ n ∈ r.handed, n.Holds (n.msg side.host) ∧ side.minLen ≤ n.maxLen
  bytes : consumed = (r.handedMsgs side.host).flatMap frame ++ r.underway

theorem headLen_eq : headLen = 8 := rfl
theorem maxCtxLen_eq : maxCtxLen = 1048576 := rfl

/-- In the head phase the loop asks for the rest of the header. -/
theorem requested_head {r : Receiver} (hp : r.phase = .head) (h : r.node.curPos < headLen) :
    r.requested = headLen - r.node.curPos := by
  rw [headLen_eq] at *
  simp only [requested, hp, headLen_eq]
  rw [sub32_of_le (by omega) (by omega)]

/-- In the content phase it asks for the rest of the content. -/
theorem requested_content {r : Receiver} (hp : r.phase = .content)
    (hmax : r.node.ctxLen ≤ maxCtxLen) (h : r.node.curPos ≤ headLen + r.node.ctxLen) :
    r.requested = headLen + r.node.ctxLen - r.node.curPos := by
  rw [headLen_eq] at h
  rw [maxCtxLen_eq] at hmax
  simp only [requested, hp, headLen_eq]
  rw [u32_of_lt (by omega), sub32_of_le (by omega) (by omega)]
  omega

/-- The outstanding read stays inside the buffer. -/
theorem Inv.inBuffer {side : Side} {consumed : List UInt8} {r : Receiver}
    (h : r.Inv side consumed) : r.node.curPos + r.requested ≤ r.node.maxLen := by
  have hroom := le_trans side.headLen_le h.room
  have hph := h.phase
  unfold PhaseInv at hph
  split at hph
  · next hp => rw [requested_head hp hph]; omega
  · next hp =>
    obtain ⟨-, hhi, hmax, hfit, -, -⟩ := hph
    rw [requested_content hp hmax hhi]; omega
  · next hp => simp only [requested, hp]; omega
  · next hp => simp only [requested, hp]; omega

/-! ### Filling the buffer

asio writes behind `cur_pos_`, so what was there before stays, and the callback counts on. -/

/-- The frame under way grows by the bytes delivered. -/
theorem fill_take {bytes : List UInt8} {n : MsgNode} (h : n.curPos + bytes.length ≤ n.maxLen)
    (hlt : n.curPos + bytes.length < 2 ^ 32) :
    (fill bytes n).data.take (fill bytes n).curPos = n.data.take n.curPos ++ bytes := by
  have hle : n.curPos ≤ n.data.length := by unfold MsgNode.maxLen at h; omega
  simp only [fill, u32_of_lt hlt, take_splice_extend hle]

theorem fill_maxLen {bytes : List UInt8} {n : MsgNode} (h : n.curPos + bytes.length ≤ n.maxLen) :
    (fill bytes n).maxLen = n.maxLen :=
  splice_length h

theorem fill_curPos {bytes : List UInt8} {n : MsgNode} (hlt : n.curPos + bytes.length < 2 ^ 32) :
    (fill bytes n).curPos = n.curPos + bytes.length :=
  u32_of_lt hlt

/-! ### Making room

`Reallocate` copies the old buffer, so growing it changes nothing that was read; afterwards the
announced content fits. -/

/-- The buffer never shrinks, and the whole frame fits into it. -/
theorem makeRoom_maxLen (fresh : ℕ → UInt8) {n : MsgNode} (hne : n.data ≠ [])
    (hmax : n.ctxLen ≤ maxCtxLen) :
    n.maxLen ≤ (makeRoom fresh n).maxLen ∧ headLen + n.ctxLen ≤ (makeRoom fresh n).maxLen := by
  rw [maxCtxLen_eq] at hmax
  unfold makeRoom
  rw [headLen_eq, u32_of_lt (by omega)]
  split
  · rw [MsgNode.reallocate_maxLen hne]; omega
  · omega

theorem makeRoom_curPos (fresh : ℕ → UInt8) {n : MsgNode} (hne : n.data ≠ []) :
    (makeRoom fresh n).curPos = n.curPos := by
  unfold makeRoom
  split
  · exact MsgNode.reallocate_curPos hne
  · rfl

theorem makeRoom_ctxLen (fresh : ℕ → UInt8) {n : MsgNode} (hne : n.data ≠ []) :
    (makeRoom fresh n).ctxLen = n.ctxLen := by
  unfold makeRoom
  split
  · exact MsgNode.reallocate_ctxLen hne
  · rfl

/-- What has been received stays in the buffer. -/
theorem makeRoom_take (fresh : ℕ → UInt8) {n : MsgNode} (hne : n.data ≠ []) {k : ℕ}
    (hk : k ≤ n.maxLen) : (makeRoom fresh n).data.take k = n.data.take k := by
  unfold makeRoom
  split
  · exact MsgNode.reallocate_take hne hk
  · rfl

/-! ### The callbacks keep the invariant -/

/-- What the completion of a read leaves in the node: the frame under way, longer by `bytes`. -/
theorem Inv.filled {side : Side} {consumed bytes : List UInt8} {r : Receiver}
    (h : r.Inv side consumed) (hp : r.phase = .head ∨ r.phase = .content)
    (hb : bytes.length ≤ r.requested) :
    (fill bytes r.node).maxLen = r.node.maxLen ∧
    (fill bytes r.node).curPos = r.node.curPos + bytes.length ∧
    (fill bytes r.node).data.take (fill bytes r.node).curPos = r.underway ++ bytes ∧
    consumed ++ bytes = (r.handedMsgs side.host).flatMap frame ++
      (fill bytes r.node).data.take (fill bytes r.node).curPos := by
  have hfit : r.node.curPos + bytes.length ≤ r.node.maxLen := by
    have := h.inBuffer; omega
  -- the position stays far below the range of a `uint32_t`, so the sum does not wrap
  have hlt : r.node.curPos + bytes.length < 2 ^ 32 := by
    have hph := h.phase
    rcases hp with hp | hp <;> simp only [PhaseInv, hp] at hph
    · rw [requested_head hp hph] at hb
      rw [headLen_eq] at *
      omega
    · obtain ⟨-, hhi, hmax, -, -, -⟩ := hph
      rw [requested_content hp hmax hhi] at hb
      rw [headLen_eq] at *
      rw [maxCtxLen_eq] at hmax
      omega
  have hunder : r.underway = r.node.data.take r.node.curPos := by
    rcases hp with hp | hp <;> simp only [underway, hp]
  have htake : (fill bytes r.node).data.take (fill bytes r.node).curPos = r.underway ++ bytes := by
    rw [hunder]; exact fill_take hfit hlt
  exact ⟨fill_maxLen hfit, fill_curPos hlt, htake,
    by rw [htake, ← List.append_assoc, ← h.bytes]⟩

/-- The invariant with a content read outstanding on node `n`. -/
theorem Inv.ofContent {side : Side} {consumed : List UInt8} {n : MsgNode}
    {handed : List MsgNode} (hlo : headLen ≤ n.curPos) (hhi : n.curPos ≤ headLen + n.ctxLen)
    (hmax : n.ctxLen ≤ maxCtxLen) (hfit : headLen + n.ctxLen ≤ n.maxLen)
    (hctx : headCtxLen (n.data.take n.curPos) = n.ctxLen)
    (hmore : n.curPos < headLen + n.ctxLen ∨ n.ctxLen = 0)
    (hroom : side.minLen ≤ n.maxLen)
    (hnodes : ∀ n ∈ handed, n.Holds (n.msg side.host) ∧ side.minLen ≤ n.maxLen)
    (hbytes : consumed = (handed.map (·.msg side.host)).flatMap frame ++ n.data.take n.curPos) :
    Inv side consumed { node := n, phase := .content, handed := handed } :=
  ⟨hroom, ⟨hlo, hhi, hmax, hfit, hctx, hmore⟩, hnodes, hbytes⟩

/-- `ReceiveHead` keeps the invariant: it goes on reading the header, goes over to the content, or
stops at an announced length that is too large. -/
theorem Inv.headReceived {side : Side} {consumed bytes : List UInt8} {r : Receiver}
    (h : r.Inv side consumed) (hp : r.phase = .head) (hb : bytes.length ≤ r.requested)
    (fresh : ℕ → UInt8) :
    (headReceived side fresh (fill bytes r.node) r).Inv side (consumed ++ bytes) := by
  have hcur : r.node.curPos < headLen := by
    have := h.phase; simpa only [PhaseInv, hp] using this
  have hroom := h.room
  have hhead := side.headLen_le
  obtain ⟨hnmax, hncur, -, hbytes⟩ := h.filled (.inl hp) hb
  rw [requested_head hp hcur] at hb
  generalize fill bytes r.node = n at hnmax hncur hbytes
  have hnroom : side.minLen ≤ n.maxLen := by omega
  unfold Receiver.headReceived
  split
  · next hfull =>
    -- no more than the header was asked for, so the frame under way is the header alone
    have hcur8 : n.curPos = headLen := by omega
    have hctx := MsgNode.updateContentLenField_ctxLen side.host (n := n) hfull (by omega)
    dsimp only
    generalize hm : n.updateContentLenField side.host = m at hctx
    have hmdata : m.data = n.data := by rw [← hm]; rfl
    have hmcur : m.curPos = n.curPos := by rw [← hm]; rfl
    have hmmax : m.maxLen = n.maxLen := congrArg List.length hmdata
    rw [← hmdata, ← hmcur] at hctx hbytes
    split
    · next hover =>
      exact ⟨hmmax ▸ hnroom, ⟨hmcur ▸ hcur8, hctx ▸ hover⟩, h.nodes, hbytes⟩
    · next hok =>
      have hne : m.data ≠ [] := by
        intro hnil
        have h0 : m.maxLen = 0 := by simp [MsgNode.maxLen, hnil]
        rw [headLen_eq] at hhead
        omega
      have hmr := makeRoom_maxLen fresh hne (by omega)
      -- a longer buffer starts with the header received so far
      have hkeep : (makeRoom fresh m).data.take (makeRoom fresh m).curPos = m.data.take m.curPos := by
        rw [makeRoom_curPos fresh hne, makeRoom_take fresh hne (by omega)]
      have hc := makeRoom_curPos fresh hne
      have hl := makeRoom_ctxLen fresh hne
      exact .ofContent (by omega) (by omega) (by omega) (by omega)
        (by rw [hkeep, hl, hctx]) (by omega) (by omega) h.nodes (by rw [hkeep]; exact hbytes)
  · next hshort =>
    exact ⟨hnroom, by show n.curPos < headLen; omega, h.nodes, hbytes⟩

/-- `ReceiveContent` keeps the invariant: either it goes on reading, or the frame under way is
complete, its message is handed over and the next frame is under way with no bytes yet. -/
theorem Inv.contentReceived {side : Side} {consumed bytes : List UInt8} {r : Receiver}
    (h : r.Inv side consumed) (hp : r.phase = .content) (hb : bytes.length ≤ r.requested)
    (fresh : ℕ → UInt8) :
    (contentReceived side fresh (fill bytes r.node) r).Inv side (consumed ++ bytes) := by
  have hph := h.phase
  simp only [PhaseInv, hp] at hph
  obtain ⟨hlo, hhi, hmax, hfit, hctx, -⟩ := hph
  have hroom := h.room
  obtain ⟨hnmax, hncur, hntake, hbytes⟩ := h.filled (.inr hp) hb
  rw [requested_content hp hmax hhi] at hb
  have hnctx : (fill bytes r.node).ctxLen = r.node.ctxLen := rfl
  generalize fill bytes r.node = n at hnmax hncur hntake hnctx hbytes
  have hunder : headLen ≤ r.underway.length := by
    have : r.underway = r.node.data.take r.node.curPos := by simp only [underway, hp]
    rw [this, List.length_take]
    unfold MsgNode.maxLen at hfit
    omega
  have hhead : headCtxLen (n.data.take n.curPos) = n.ctxLen := by
    rw [hntake, headCtxLen_append hunder, hctx, hnctx]
  have hu : u32 (n.ctxLen + headLen) = headLen + n.ctxLen := by
    rw [maxCtxLen_eq] at hmax
    rw [headLen_eq, u32_of_lt (by omega), Nat.add_comm]
  unfold Receiver.contentReceived
  rw [hu]
  split
  · next hfull =>
    -- the whole frame is there: it joins the frames handed over
    have hend : n.curPos = headLen + n.ctxLen := by omega
    have hlen : (n.data.take n.curPos).length = headLen + headCtxLen (n.data.take n.curPos) := by
      rw [hhead, List.length_take]
      unfold MsgNode.maxLen at hnmax hfit
      omega
    have hmsg : n.msg side.host =
        ⟨headTag (n.data.take n.curPos), (n.data.take n.curPos).drop headLen⟩ := by
      rw [MsgNode.msg, MsgNode.getTagField_eq side.host (k := n.curPos) (by omega) (by omega),
        MsgNode.contentBytes, MsgNode.getContent, List.drop_take, hend]
      simp
    have hframe : n.data.take n.curPos = frame (n.msg side.host) := by
      rw [hmsg, frame_of_bytes hlen]
    have hholds : n.Holds (n.msg side.host) := by
      refine ⟨?_, ?_, hend ▸ hframe⟩ <;> rw [hmsg, List.length_drop] <;> omega
    have hnodes : ∀ n' ∈ r.handed ++ [n],
        n'.Holds (n'.msg side.host) ∧ side.minLen ≤ n'.maxLen := by
      intro n' hn'
      rcases List.mem_append.mp hn' with hn' | hn'
      · exact h.nodes n' hn'
      · rw [List.mem_singleton.mp hn']
        exact ⟨hholds, hnmax ▸ hroom⟩
    have hdone : consumed ++ bytes = ((r.handed ++ [n]).map (·.msg side.host)).flatMap frame := by
      rw [hbytes, List.map_append, List.flatMap_append, List.map_singleton,
        List.flatMap_singleton, hframe]
      rfl
    split
    · next n' hn' =>
      have hnext : side.minLen ≤ n'.maxLen := side.room (hnmax ▸ hroom) hn'
      exact ⟨hnext, by show 0 < headLen; decide, hnodes, by simpa [underway, handedMsgs] using hdone⟩
    · exact ⟨hnmax ▸ hroom, by show n.curPos ≤ n.maxLen; omega, hnodes,
        by simpa [underway, handedMsgs] using hdone⟩
  · next hmore =>
    exact .ofContent (by omega) (by omega) (by omega) (by omega) hhead (.inl (by omega))
      (hnmax ▸ hroom) h.nodes hbytes

/-- **One completion keeps the invariant**, whatever it delivers. -/
theorem Inv.complete {side : Side} {consumed bytes : List UInt8} {r : Receiver}
    (h : r.Inv side consumed) (hrun : ∀ why, r.phase ≠ .stopped why)
    (hb : bytes.length ≤ r.requested) (fresh : ℕ → UInt8) :
    (r.complete side fresh bytes).Inv side (consumed ++ bytes) := by
  unfold Receiver.complete
  split
  · next hp => exact h.headReceived hp hb fresh
  · next hp => exact h.contentReceived hp hb fresh
  · next why hp => exact absurd hp (hrun why)

/-! ### What the bytes consumed so far parse to

Since the reference parse undoes the framing, the frames of the messages handed over parse to these
messages and can be split off (`Inv.parse_append`). What remains is the parse of one frame under way,
which the phase decides. -/

/-- Unless the handler has thrown, `cur_pos_` counts the bytes of the frame under way. -/
theorem Inv.underway_length {side : Side} {consumed : List UInt8} {r : Receiver}
    (h : r.Inv side consumed) (hp : r.phase ≠ .stopped .threw) :
    r.underway.length = r.node.curPos := by
  have hunder : r.underway = r.node.data.take r.node.curPos := by
    unfold underway
    split
    · next hp' => exact absurd hp' hp
    · rfl
  have hfit : r.node.curPos ≤ r.node.data.length := by
    have := h.inBuffer; unfold MsgNode.maxLen at this; omega
  rw [hunder, List.length_take]
  omega

/-- No message handed over is longer than `MAX_CTX_LEN`. -/
theorem Inv.sizes {side : Side} {consumed : List UInt8} {r : Receiver} (h : r.Inv side consumed) :
    ∀ m ∈ r.handedMsgs side.host, m.content.length ≤ maxCtxLen := by
  intro m hm
  obtain ⟨n, hn, rfl⟩ := List.mem_map.mp hm
  exact (h.nodes n hn).1.fits

/-- Whatever comes after the bytes consumed, the messages handed over are parsed first. -/
theorem Inv.parse_append {side : Side} {consumed : List UInt8} {r : Receiver}
    (h : r.Inv side consumed) (x : List UInt8) :
    parse (consumed ++ x) = (parse (r.underway ++ x)).after (r.handedMsgs side.host) := by
  conv_lhs => rw [h.bytes, List.append_assoc]
  exact parse_flatMap_frame h.sizes (r.underway ++ x)

theorem Inv.parse_eq {side : Side} {consumed : List UInt8} {r : Receiver}
    (h : r.Inv side consumed) : parse consumed = (parse r.underway).after (r.handedMsgs side.host) := by
  simpa using h.parse_append []

/-- With an empty content pending, the frame under way is complete. -/
theorem Inv.underway_of_pending {side : Side} {consumed : List UInt8} {r : Receiver}
    (h : r.Inv side consumed) (hpend : r.EmptyContentPending) :
    r.underway = frame ⟨r.node.getTagField side.host, []⟩ := by
  obtain ⟨hp, hzero⟩ := hpend
  have hph := h.phase
  simp only [PhaseInv, hp] at hph
  obtain ⟨hlo, hhi, hmax, hfit, hctx, hmore⟩ := hph
  have hlen := h.underway_length (by simp [hp])
  have hreq := requested_content hp hmax hhi
  have hfull : r.underway.length = headLen + headCtxLen r.underway := by omega
  have htag : r.node.getTagField side.host = headTag r.underway := by
    rw [MsgNode.getTagField_eq side.host (k := r.node.curPos) hlo (by omega)]
    simp only [underway, hp]
  have hframe := frame_of_bytes hfull
  rw [List.drop_of_length_le (by omega), ← htag] at hframe
  exact hframe.symm

/-- The messages handed over are those of the bytes consumed, except for an empty message whose
read, of no bytes, has yet to complete. -/
theorem Inv.parse_cases {side : Side} {consumed : List UInt8} {r : Receiver}
    (h : r.Inv side consumed) :
    (r.EmptyContentPending ∧ parse consumed =
        ⟨r.handedMsgs side.host ++ [⟨r.node.getTagField side.host, []⟩], false⟩) ∨
      (¬ r.EmptyContentPending ∧
        parse consumed = ⟨r.handedMsgs side.host, decide (r.phase = .stopped .overlong)⟩) := by
  have hph := h.phase
  have heq := h.parse_eq
  -- in each phase the frame under way alone decides: too short, incomplete, overlong or gone
  unfold PhaseInv at hph
  split at hph
  · next hp =>
    have hlen := h.underway_length (by simp [hp])
    refine .inr ⟨by simp [EmptyContentPending, hp], ?_⟩
    rw [heq, parse_short (by omega)]
    simp [Parsed.after, hp]
  · next hp =>
    obtain ⟨hlo, hhi, hmax, hfit, hctx, hmore⟩ := hph
    have hlen := h.underway_length (by simp [hp])
    have hreq := requested_content hp hmax hhi
    by_cases hzero : r.requested = 0
    · refine .inl ⟨⟨hp, hzero⟩, ?_⟩
      have hone := parse_frame_append (m := ⟨r.node.getTagField side.host, []⟩) (by simp) []
      rw [List.append_nil, parse_nil] at hone
      rw [heq, h.underway_of_pending ⟨hp, hzero⟩, hone, Parsed.after_after]
      simp [Parsed.after]
    · refine .inr ⟨fun hpend => hzero hpend.2, ?_⟩
      rw [heq, parse_incomplete (by omega) (by omega)]
      simp [Parsed.after, hp]
  · next hp =>
    have hlen := h.underway_length (by simp [hp])
    refine .inr ⟨by simp [EmptyContentPending, hp], ?_⟩
    rw [heq, parse_overlong (by omega) hph.2]
    simp [Parsed.after, hp]
  · next hp =>
    have hnil : r.underway = [] := by simp [underway, hp]
    refine .inr ⟨by simp [EmptyContentPending, hp], ?_⟩
    rw [heq, hnil, parse_nil]
    simp [Parsed.after, hp]

/-! ### What the handler was called on

A handler that throws ends the loop, since the exception leaves the callback before the next read is
started. So the messages it was called on are fine up to the last one. -/

/-- The handler has thrown on none of the messages, except on the last one if that ended the loop. -/
def Handled (side : Side) (r : Receiver) : Prop :=
  match r.phase with
  | .stopped .threw => ∃ ms m, r.handedMsgs side.host = ms ++ [m] ∧ side.throwsOn m = true ∧
      ∀ m' ∈ ms, side.throwsOn m' = false
  | _ => ∀ m ∈ r.handedMsgs side.host, side.throwsOn m = false

theorem Handled.headReceived {side : Side} {r : Receiver} (h : r.Handled side)
    (hp : r.phase = .head) (fresh : ℕ → UInt8) (n : MsgNode) :
    (headReceived side fresh n r).Handled side := by
  simp only [Handled, hp] at h
  unfold Receiver.headReceived
  split
  · dsimp only
    split <;> exact h
  · exact h

/-- A message on which the handler throws is the last one. -/
theorem Handled.contentReceived {side : Side} {r : Receiver} (h : r.Handled side)
    (hp : r.phase = .content) (fresh : ℕ → UInt8) (n : MsgNode) :
    (contentReceived side fresh n r).Handled side := by
  simp only [Handled, hp] at h
  unfold Receiver.contentReceived
  split
  · split
    · next n' hn' =>
      have hfine : side.throwsOn (n.msg side.host) = false := by
        rw [← Bool.not_eq_true, ← side.throws_iff fresh, hn']; simp
      intro m hm
      simp only [handedMsgs, List.map_append, List.mem_append, List.map_singleton,
        List.mem_singleton] at hm
      rcases hm with hm | rfl
      · exact h m hm
      · exact hfine
    · next hn' =>
      exact ⟨r.handedMsgs side.host, n.msg side.host, by simp [handedMsgs],
        (side.throws_iff fresh n).mp hn', h⟩
  · exact h

theorem Handled.complete {side : Side} {r : Receiver} (h : r.Handled side) (fresh : ℕ → UInt8)
    (bytes : List UInt8) : (r.complete side fresh bytes).Handled side := by
  unfold Receiver.complete
  split
  · next hp => exact h.headReceived hp fresh _
  · next hp => exact h.contentReceived hp fresh _
  · exact h

end Receiver

/-! ## Whole connections

`Good` puts together the invariant of the loop, the order of the bytes and what the handler has seen.
It
holds at the start, a completion keeps it, and so it holds in every run; `Exact` is what a user of the
loop needs of it. -/

/-- The messages a handler gets to see: up to the first one it throws on. -/
def upToThrow (throwsOn : Msg → Bool) : List Msg → List Msg
  | [] => []
  | m :: ms => if throwsOn m then [m] else m :: upToThrow throwsOn ms

section UpToThrow

variable {throwsOn : Msg → Bool}

/-- A handler that does not throw sees all messages. -/
theorem upToThrow_of_fine : ∀ {ms : List Msg}, (∀ m ∈ ms, throwsOn m = false) →
    upToThrow throwsOn ms = ms
  | [], _ => rfl
  | m :: ms, h => by
    have hm : throwsOn m = false := h m (by simp)
    rw [upToThrow, if_neg (by simp [hm]), upToThrow_of_fine fun m' hm' => h m' (by simp [hm'])]

/-- Nothing behind the first message on which the handler throws is seen. -/
theorem upToThrow_append {m : Msg} (hm : throwsOn m = true) (x : List Msg) :
    ∀ {ms : List Msg}, (∀ m ∈ ms, throwsOn m = false) →
      upToThrow throwsOn (ms ++ m :: x) = ms ++ [m]
  | [], _ => by rw [List.nil_append, upToThrow, if_pos hm]; rfl
  | m' :: ms, h => by
    have hm' : throwsOn m' = false := h m' (by simp)
    rw [List.cons_append, upToThrow, if_neg (by simp [hm']),
      upToThrow_append hm x fun m'' h'' => h m'' (by simp [h'']), List.cons_append]

/-- Nothing is cut off exactly if the handler throws on the last message at most. -/
theorem upToThrow_eq_self_iff : ∀ {ms : List Msg},
    upToThrow throwsOn ms = ms ↔ ∀ m ∈ ms.dropLast, throwsOn m = false
  | [] => by simp [upToThrow]
  | [m] => by simp [upToThrow]
  | m :: m' :: ms => by
    rw [upToThrow, List.dropLast_cons_cons, List.forall_mem_cons]
    by_cases hm : throwsOn m = true
    · simp [hm]
    · rw [if_neg hm, List.cons_inj_right, upToThrow_eq_self_iff]
      simp [hm]

end UpToThrow

namespace Conn

/-- The bytes are used up, or the loop has ended. -/
def Over (c : Conn) : Prop := c.rest = [] ∨ ∃ why, c.recv.phase = .stopped why

/-- What a connection over which `stream` arrives guarantees in every state of every run. -/
structure Exact (host : ByteOrder) (stream : List UInt8) (c : Conn) : Prop where
  /-- No byte of the stream is lost, repeated or reordered. -/
  inOrder : c.consumed ++ c.rest = stream
  /-- The read outstanding lies inside the node's buffer. -/
  inBuffer : c.recv.node.curPos + c.recv.requested ≤ c.recv.node.maxLen
  /-- The messages handed over are the parse of the bytes consumed. -/
  handed : ¬ c.recv.EmptyContentPending → c.recv.handedMsgs host = (parse c.consumed).msgs
  /-- A message without content waits only for the completion of a read of no bytes. -/
  handedEmpty : c.recv.EmptyContentPending →
    (parse c.consumed).msgs = c.recv.handedMsgs host ++ [⟨c.recv.node.getTagField host, []⟩]
  /-- The loop closes the connection exactly at a header that announces too much. -/
  closed : c.recv.phase = .stopped .overlong ↔ (parse c.consumed).closed = true

/-- The invariant of a whole connection. -/
structure Good (side : Side) (stream : List UInt8) (c : Conn) : Prop where
  inv : c.recv.Inv side c.consumed
  inOrder : c.consumed ++ c.rest = stream
  handled : c.recv.Handled side

variable {side : Side} {stream : List UInt8}

/-- A new connection is good: nothing is consumed and nothing under way. -/
theorem start_good (side : Side) {n : MsgNode} (hroom : side.minLen ≤ n.maxLen) (hcur : n.curPos = 0)
    (stream : List UInt8) : (start n stream).Good side stream := by
  refine ⟨⟨hroom, ?_, ?_, ?_⟩, rfl, ?_⟩
  · show n.curPos < headLen
    rw [hcur]; decide
  · simp [start]
  · simp [start, Receiver.underway, hcur, Receiver.handedMsgs]
  · simp [start, Receiver.Handled, Receiver.handedMsgs]

/-- **A completion keeps a connection good**, also one that delivers less than was asked for. -/
theorem Good.step {c : Conn} (h : c.Good side stream) (e : Completion) :
    (c.step side e).Good side stream := by
  unfold Conn.step
  split
  · exact h
  · next hrun =>
    refine ⟨h.inv.complete (fun why hp => hrun why hp) ?_ e.fresh, ?_, h.handled.complete _ _⟩
    · rw [List.length_take, delivered]; omega
    · rw [List.append_assoc, List.take_append_drop, h.inOrder]

/-- And so does any sequence of them. -/
theorem Good.run {c : Conn} (h : c.Good side stream) : ∀ es, (c.run side es).Good side stream
  | [] => h
  | e :: es => (h.step e).run es

/-- **The receive loop is exact**: in every run over every stream, under every splitting. -/
theorem Good.exact {c : Conn} (h : c.Good side stream) : c.Exact side.host stream := by
  refine ⟨h.inOrder, h.inv.inBuffer, ?_, ?_, ?_⟩ <;>
    rcases h.inv.parse_cases with ⟨hpend, heq⟩ | ⟨hpend, heq⟩ <;> rw [heq]
  · exact fun hno => absurd hpend hno
  · exact fun _ => rfl
  · exact fun _ => rfl
  · exact fun hyes => absurd hyes hpend
  · simp [hpend.1]
  · simp

/-- Once the stream is used up or the loop has ended, the handler has seen the messages of the
stream up to the first one it throws on. -/
theorem Good.handed_of_over {c : Conn} (h : c.Good side stream) (hover : c.Over)
    (hpend : ¬ c.recv.EmptyContentPending) :
    c.recv.handedMsgs side.host = upToThrow side.throwsOn (parse stream).msgs := by
  have hparse := h.inv.parse_append c.rest
  rw [h.inOrder] at hparse
  rw [hparse]
  have hfine := h.handled
  unfold Receiver.Handled at hfine
  split at hfine
  -- the handler has thrown: the rest of the stream is not looked at
  · next hp =>
    obtain ⟨ms, m, hms, hm, hall⟩ := hfine
    rw [hms]
    simp only [Parsed.after, List.append_assoc, List.singleton_append]
    exact (upToThrow_append hm _ hall).symm
  · next hp =>
    -- nothing was thrown: what has not been handed over is not a message
    have hnil : (parse (c.recv.underway ++ c.rest)).msgs = [] := by
      rcases hover with hrest | ⟨why, hwhy⟩
      · rw [hrest, List.append_nil]
        rcases h.inv.parse_cases with ⟨hyes, -⟩ | ⟨-, heq⟩
        · exact absurd hyes hpend
        · rw [h.inv.parse_eq] at heq
          exact List.append_right_eq_self.mp (congrArg Parsed.msgs heq)
      · cases why with
        | threw => exact absurd hwhy hp
        | overlong =>
          have hph := h.inv.phase
          simp only [Receiver.PhaseInv, hwhy] at hph
          have hlen := h.inv.underway_length (by simp [hwhy])
          rw [parse_overlong (by rw [List.length_append]; omega)
            (by rw [headCtxLen_append (by omega)]; exact hph.2)]
    simp only [Parsed.after, hnil, List.append_nil]
    exact (upToThrow_of_fine hfine).symm

/-- As long as the loop runs and no empty content is pending, it asks for more bytes. -/
theorem Good.requested_pos {c : Conn} (h : c.Good side stream) (hover : ¬ c.Over)
    (hpend : ¬ c.recv.EmptyContentPending) : 0 < c.recv.requested := by
  have hph := h.inv.phase
  unfold Receiver.PhaseInv at hph
  split at hph
  · next hp => rw [Receiver.requested_head hp hph]; omega
  · next hp =>
    by_contra hzero
    exact hpend ⟨hp, by omega⟩
  · next hp => exact absurd (.inr ⟨_, hp⟩) hover
  · next hp => exact absurd (.inr ⟨_, hp⟩) hover

end Conn

end Chatroom
