import Chatroom.Utils.FieldOp

/-!
# The message node (`common/msgnode.hpp`)

A `MsgNode` is the buffer a frame is received into or sent from:

    | Tag (4 bytes, network order) | Len (4 bytes, network order) | Content (Len bytes) |

The buffer may be longer than the frame it holds, and `new char[n]` does not initialise it, so what
lies behind the content is arbitrary: every allocation of the model takes the bytes it happens to
find (`fresh`) as an argument.

The 32-bit members are natural numbers here. Sums and differences that C++ takes modulo `2 ^ 32`
go through `u32` and `sub32`; that they never wrap is something to prove.
-/

namespace Chatroom

open ByteSeq

/-- Addition of `uint32_t` values: the sum modulo `2 ^ 32`. -/
def u32 (n : ℕ) : ℕ := n % 2 ^ 32

/-- Subtraction of `uint32_t` values. -/
def sub32 (a b : ℕ) : ℕ := (a + 2 ^ 32 - b) % 2 ^ 32

/-- A sum that fits is the sum. -/
theorem u32_of_lt {n : ℕ} (h : n < 2 ^ 32) : u32 n = n := Nat.mod_eq_of_lt h

/-- A difference that is not negative is the difference. -/
theorem sub32_of_le {a b : ℕ} (ha : a < 2 ^ 32) (h : b ≤ a) : sub32 a b = a - b := by
  unfold sub32; omega

/-! ## Tags

The enumeration of the protocol. A received tag is any number of 32 bits, and need not be one of
these. -/

inductive TagType where
  | debug
  | verify
  | verifyDone
  | chatMsg
  | chatMsgToCli
  | groupChatMsg
  | ping
  | reserved
  deriving DecidableEq, Repr

/-- The value of the enumerator. -/
def TagType.val : TagType → UInt32
  | debug => 0
  | verify => 1
  | verifyDone => 2
  | chatMsg => 3
  | chatMsgToCli => 4
  | groupChatMsg => 5
  | ping => 6
  | reserved => 7

def tagLen : ℕ := 4
def lengthLen : ℕ := 4
def headLen : ℕ := tagLen + lengthLen
def maxCtxLen : ℕ := 1024 * 1024

/-! ## The node

The methods of the class, each on its own. The buffer is the only place where bytes are, and its
length is
`max_len_`; the position and the content length are taken from the wire and need not agree with it. -/

/-- The bytes `new char[n]` hands out, whatever they are. -/
def newChars (fresh : ℕ → UInt8) (n : ℕ) : List UInt8 := (List.range n).map fresh

@[simp] theorem newChars_length (fresh : ℕ → UInt8) (n : ℕ) : (newChars fresh n).length = n := by
  simp [newChars]

/-- The buffer with the read/write position and the content length. A node without a buffer
(`data_ == nullptr`) is one with an empty `data`. -/
structure MsgNode where
  data : List UInt8
  curPos : ℕ
  ctxLen : ℕ
  deriving DecidableEq, Repr

/-- What a frame carries. -/
structure Msg where
  tag : UInt32
  content : List UInt8
  deriving DecidableEq, Repr

/-- `std::invalid_argument` of the constructor from a content. -/
inductive MsgNodeError where
  | zeroSized
  deriving DecidableEq, Repr

def MsgNodeError.what : MsgNodeError → String
  | zeroSized => "Attempt to create a zero-sized message"

namespace MsgNode

/-- `max_len_`: the length of the allocated block, so the length of `data`. -/
def maxLen (n : MsgNode) : ℕ := n.data.length

/-- `MsgNode(max_len)`: an empty node with an uninitialised buffer. -/
def ofMaxLen (fresh : ℕ → UInt8) (maxLen : ℕ) : MsgNode :=
  { data := newChars fresh maxLen, curPos := 0, ctxLen := 0 }

/-- `MsgNode(content, msg_len, tag)`: a node that holds the whole frame. The lengths are those of
the callers, far below `2 ^ 32`. -/
def ofContent (host : ByteOrder) (fresh : ℕ → UInt8) (content : List UInt8) (tag : UInt32) :
    Except MsgNodeError MsgNode :=
  if content.length > 0 then
    let buf := newChars fresh (headLen + content.length)
    let buf := writeNetField32 host buf 0 tag
    let buf := writeNetField32 host buf tagLen (UInt32.ofNat content.length)
    let buf := splice buf (tagLen + lengthLen) content
    .ok { data := buf, curPos := 0, ctxLen := content.length }
  else
    .error .zeroSized

def resetCurPos (n : MsgNode) : MsgNode := { n with curPos := 0 }

/-- `Zero()` clears the position and the length, not the buffer. -/
def zero (n : MsgNode) : MsgNode := { n with curPos := 0, ctxLen := 0 }

/-- `Reallocate(new_len)`: a longer buffer with the old content in front, or the node as it is when
it is long enough already. -/
def reallocate (fresh : ℕ → UInt8) (newLen : ℕ) (n : MsgNode) : MsgNode :=
  if n.data = [] then
    { data := newChars fresh newLen, curPos := 0, ctxLen := 0 }
  else if newLen > n.maxLen then
    { n with data := splice (newChars fresh newLen) 0 n.data }
  else n

/-- `UpdateContentLenField()`: take the content length from the received header. -/
def updateContentLenField (host : ByteOrder) (n : MsgNode) : MsgNode :=
  { n with ctxLen := (readNetField32 host n.data tagLen).toNat }

def setContentLenField (host : ByteOrder) (n : MsgNode) (contentLen : ℕ) : MsgNode :=
  { n with
    data := writeNetField32 host n.data tagLen (UInt32.ofNat contentLen)
    ctxLen := contentLen }

def getTagField (host : ByteOrder) (n : MsgNode) : UInt32 := readNetField32 host n.data 0

def setTagField (host : ByteOrder) (n : MsgNode) (tag : UInt32) : MsgNode :=
  { n with data := writeNetField32 host n.data 0 tag }

/-- What `GetContent()` points to: the buffer behind the header, to its end. -/
def getContent (n : MsgNode) : List UInt8 := n.data.drop headLen

/-- `std::string(GetContent(), GetContentLen())`: the content proper. -/
def contentBytes (n : MsgNode) : List UInt8 := n.getContent.take n.ctxLen

/-- The tag and the content of the frame in the node. -/
def msg (host : ByteOrder) (n : MsgNode) : Msg := ⟨n.getTagField host, n.contentBytes⟩

/-- The bytes a write of the node puts on the wire: from `cur_pos_` to the end of the frame. -/
def wire (n : MsgNode) : List UInt8 :=
  slice n.data n.curPos (sub32 (u32 (n.ctxLen + headLen)) n.curPos)

/-! ### Lemmas -/

@[simp] theorem ofMaxLen_maxLen (fresh : ℕ → UInt8) (n : ℕ) : (ofMaxLen fresh n).maxLen = n := by
  simp [ofMaxLen, maxLen]

@[simp] theorem zero_maxLen (n : MsgNode) : n.zero.maxLen = n.maxLen := rfl
@[simp] theorem zero_curPos (n : MsgNode) : n.zero.curPos = 0 := rfl
@[simp] theorem zero_ctxLen (n : MsgNode) : n.zero.ctxLen = 0 := rfl

@[simp] theorem updateContentLenField_data (host : ByteOrder) (n : MsgNode) :
    (n.updateContentLenField host).data = n.data := rfl
@[simp] theorem updateContentLenField_curPos (host : ByteOrder) (n : MsgNode) :
    (n.updateContentLenField host).curPos = n.curPos := rfl

theorem contentBytes_eq (n : MsgNode) : n.contentBytes = slice n.data headLen n.ctxLen := rfl

/-- Growing the buffer keeps every byte that was in it. -/
theorem reallocate_take {fresh : ℕ → UInt8} {newLen : ℕ} {n : MsgNode} (h : n.data ≠ []) {k : ℕ}
    (hk : k ≤ n.maxLen) : (n.reallocate fresh newLen).data.take k = n.data.take k := by
  unfold reallocate
  rw [if_neg h]
  split
  · have hfill : (splice (newChars fresh newLen) 0 n.data).take (0 + n.data.length) =
        (newChars fresh newLen).take 0 ++ n.data :=
      take_splice_extend (Nat.zero_le _)
    simp only [Nat.zero_add, List.take_zero, List.nil_append] at hfill
    have hpre := congrArg (List.take k) hfill
    rwa [List.take_take, Nat.min_eq_left (show k ≤ n.data.length from hk)] at hpre
  · rfl

/-- A buffer never gets shorter. -/
theorem reallocate_maxLen {fresh : ℕ → UInt8} {newLen : ℕ} {n : MsgNode} (h : n.data ≠ []) :
    (n.reallocate fresh newLen).maxLen = max n.maxLen newLen := by
  unfold reallocate
  rw [if_neg h]
  split
  · next hlt =>
    have hlen : (splice (newChars fresh newLen) 0 n.data).length = newLen := by
      rw [splice_length (by simp only [newChars_length, maxLen] at hlt ⊢; omega), newChars_length]
    show (splice (newChars fresh newLen) 0 n.data).length = _
    omega
  · omega

theorem reallocate_curPos {fresh : ℕ → UInt8} {newLen : ℕ} {n : MsgNode} (h : n.data ≠ []) :
    (n.reallocate fresh newLen).curPos = n.curPos := by
  unfold reallocate; rw [if_neg h]; split <;> rfl

theorem reallocate_ctxLen {fresh : ℕ → UInt8} {newLen : ℕ} {n : MsgNode} (h : n.data ≠ []) :
    (n.reallocate fresh newLen).ctxLen = n.ctxLen := by
  unfold reallocate; rw [if_neg h]; split <;> rfl

end MsgNode

end Chatroom
