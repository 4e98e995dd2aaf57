import Chatroom.Common.MsgNode

/-!
# Frames in a byte stream

What a byte stream means, independent of how it is received: `parse` repeatedly takes an 8-byte
header and the content whose length it announces. It stops at a header that announces more than
`MAX_CTX_LEN` bytes, and an incomplete frame at the end means nothing yet.

This is the reference the receive loops of the server and of the client are compared with. The
encoder `frame` writes one message the way the `MsgNode` constructor lays it out.
-/

namespace Chatroom

open ByteSeq

/-- The messages of a stream, and whether an overlong header ended it. -/
structure Parsed where
  msgs : List Msg
  closed : Bool
  deriving DecidableEq, Repr

/-- The messages `ms`, then the rest of a parse. -/
def Parsed.after (ms : List Msg) (p : Parsed) : Parsed := ⟨ms ++ p.msgs, p.closed⟩

@[simp] theorem Parsed.after_nil (p : Parsed) : p.after [] = p := rfl

@[simp] theorem Parsed.after_after (ms ms' : List Msg) (p : Parsed) :
    (p.after ms').after ms = p.after (ms ++ ms') := by
  simp [Parsed.after]

/-- The tag and the content length announced by a header. -/
def headTag (bs : List UInt8) : UInt32 := UInt32.ofNat (beValue (slice bs 0 tagLen))
def headCtxLen (bs : List UInt8) : ℕ := beValue (slice bs tagLen lengthLen)

/-- The reference parse of a byte stream. -/
def parse (bs : List UInt8) : Parsed :=
  if bs.length < headLen then ⟨[], false⟩
  else if maxCtxLen < headCtxLen bs then ⟨[], true⟩
  else if bs.length < headLen + headCtxLen bs then ⟨[], false⟩
  else
    (parse (bs.drop (headLen + headCtxLen bs))).after
      [⟨headTag bs, slice bs headLen (headCtxLen bs)⟩]
termination_by bs.length
decreasing_by
  simp only [List.length_drop, headLen, tagLen, lengthLen] at *
  omega

/-! ## Its cases

The recursion is on the length of the stream; these four equations replace its definition from here
on. -/

/-- Not even a header is there. -/
theorem parse_short {bs : List UInt8} (h : bs.length < headLen) : parse bs = ⟨[], false⟩ := by
  rw [parse, if_pos h]

@[simp] theorem parse_nil : parse [] = ⟨[], false⟩ := parse_short (by decide)

/-- A header that announces too much ends the parse for good. -/
theorem parse_overlong {bs : List UInt8} (h : headLen ≤ bs.length)
    (hlen : maxCtxLen < headCtxLen bs) : parse bs = ⟨[], true⟩ := by
  rw [parse, if_neg (by omega), if_pos hlen]

/-- The content is not all there. -/
theorem parse_incomplete {bs : List UInt8} (hlen : headCtxLen bs ≤ maxCtxLen)
    (h : bs.length < headLen + headCtxLen bs) : parse bs = ⟨[], false⟩ := by
  by_cases hs : bs.length < headLen
  · exact parse_short hs
  · rw [parse, if_neg hs, if_neg (by omega), if_pos h]

/-- The header of a stream is that of any of its prefixes that holds it. -/
theorem headCtxLen_append {t x : List UInt8} (h : headLen ≤ t.length) :
    headCtxLen (t ++ x) = headCtxLen t := by
  have h8 : tagLen + lengthLen ≤ t.length := h
  simp only [headCtxLen, slice]
  rw [List.drop_append_of_le_length (by omega),
    List.take_append_of_le_length (by simp only [List.length_drop]; omega)]

theorem headTag_append {t x : List UInt8} (h : headLen ≤ t.length) :
    headTag (t ++ x) = headTag t := by
  have h8 : tagLen + lengthLen ≤ t.length := h
  simp only [headTag, slice, List.drop_zero]
  rw [List.take_append_of_le_length (by omega)]

/-! ## The encoder

`frame` is the layout: tag, length, content, the first two big-endian. It is what the constructor of
`MsgNode` produces, and its header fields are read back by `headTag` and `headCtxLen`. -/

/-- The bytes of one frame. -/
def frame (m : Msg) : List UInt8 :=
  beBytes tagLen m.tag.toNat ++ beBytes lengthLen m.content.length ++ m.content

@[simp] theorem frame_length (m : Msg) : (frame m).length = headLen + m.content.length := by
  simp [frame, headLen, Nat.add_assoc]

/-- **The constructor from a content lays out a frame**, in a buffer of exactly its length. -/
theorem MsgNode.ofContent_eq (host : ByteOrder) (fresh : ℕ → UInt8) {content : List UInt8}
    (tag : UInt32) (hne : 0 < content.length) (hmax : content.length ≤ maxCtxLen) :
    MsgNode.ofContent host fresh content tag =
      .ok ⟨frame ⟨tag, content⟩, 0, content.length⟩ := by
  have hsize : (UInt32.ofNat content.length).toNat = content.length :=
    UInt32.toNat_ofNat_of_lt' (lt_of_le_of_lt hmax (by decide))
  have hbuf : (newChars fresh (headLen + content.length)).length = 8 + content.length := by
    rw [newChars_length]; rfl
  rw [MsgNode.ofContent, if_pos hne]
  dsimp only
  rw [writeNetField32_eq, writeNetField32_eq, hsize]
  congr 2
  exact splice_three hbuf (beBytes_length _ _) (beBytes_length _ _)

/-- The tag can be read from a frame. -/
theorem headTag_frame (m : Msg) : headTag (frame m) = m.tag := by
  have htag : m.tag.toNat < 256 ^ tagLen := m.tag.toNat_lt
  have hslice : slice (frame m) 0 tagLen = beBytes tagLen m.tag.toNat := by
    simp [slice, frame]
  rw [headTag, hslice, beValue_beBytes, Nat.mod_eq_of_lt htag, UInt32.ofNat_toNat]

/-- The length too, as long as it fits into its field. -/
theorem headCtxLen_frame {m : Msg} (h : m.content.length ≤ maxCtxLen) :
    headCtxLen (frame m) = m.content.length := by
  have hlen : m.content.length < 256 ^ lengthLen :=
    lt_of_le_of_lt h (by decide)
  have hslice : slice (frame m) tagLen lengthLen = beBytes lengthLen m.content.length := by
    rw [slice, frame, List.append_assoc, List.drop_left' (by simp), List.take_left' (by simp)]
  rw [headCtxLen, hslice, beValue_beBytes, Nat.mod_eq_of_lt hlen]

/-- Bytes that make up one complete frame are the frame of what they carry. -/
theorem frame_of_bytes {t : List UInt8} (ht : t.length = headLen + headCtxLen t) :
    frame ⟨headTag t, t.drop headLen⟩ = t := by
  have h8 : headLen ≤ t.length := by omega
  have h4 : 0 + tagLen ≤ t.length := by simp only [headLen] at h8; omega
  have hval : beValue (slice t 0 tagLen) < 2 ^ 32 :=
    lt_of_lt_of_eq (beValue_lt _) (by rw [slice_length h4]; rfl)
  have htag : beBytes tagLen (headTag t).toNat = slice t 0 tagLen := by
    have h := beBytes_beValue (slice t 0 tagLen)
    rw [slice_length h4] at h
    rw [headTag, UInt32.toNat_ofNat_of_lt' hval, h]
  have hlen : beBytes lengthLen (t.drop headLen).length = slice t tagLen lengthLen := by
    have h := beBytes_beValue (slice t tagLen lengthLen)
    rw [slice_length h8] at h
    rw [List.length_drop, ht, Nat.add_sub_cancel_left, headCtxLen, h]
  rw [frame, htag, hlen]
  simp only [slice, List.drop_zero, headLen]
  rw [← List.drop_drop, List.append_assoc, List.take_append_drop, List.take_append_drop]

/-! ## Overwriting a part of a frame

`MsgHandler` rewrites a chat in place, tag and uid, before it sends it on. What results is a frame
again. -/

/-- Another tag on the same content. -/
theorem splice_frame_tag (m : Msg) (tag : UInt32) :
    splice (frame m) 0 (beBytes 4 tag.toNat) = frame ⟨tag, m.content⟩ := by
  rw [frame, List.append_assoc, splice_front (by simp [tagLen]), frame, List.append_assoc]
  rfl

/-- Another front of the content under the same tag. -/
theorem splice_frame_content {m : Msg} {bs : List UInt8} (h : bs.length ≤ m.content.length) :
    splice (frame m) headLen bs = frame ⟨m.tag, bs ++ m.content.drop bs.length⟩ := by
  have hlen : (bs ++ m.content.drop bs.length).length = m.content.length := by simp; omega
  have hhead : (beBytes tagLen m.tag.toNat ++ beBytes lengthLen m.content.length).length =
      headLen := by simp [headLen]
  have hsplit : frame m = (beBytes tagLen m.tag.toNat ++ beBytes lengthLen m.content.length) ++
      (m.content.take bs.length ++ m.content.drop bs.length) := by
    rw [List.take_append_drop]; rfl
  rw [hsplit, splice_part hhead (by simp; omega), frame, hlen]

/-! ## Nodes that hold a frame

`Holds` relates a node to a message: the frame stands at the front of the buffer, and `ctx_len_` is
its
length. The buffer may be longer, and what is behind the frame is not said. -/

/-- The header fields of a node are those of the filled part of its buffer. -/
theorem MsgNode.getTagField_eq (host : ByteOrder) {n : MsgNode} {k : ℕ} (hk : headLen ≤ k)
    (h : k ≤ n.maxLen) : n.getTagField host = headTag (n.data.take k) := by
  have h8 : tagLen + lengthLen ≤ k := hk
  have hlen : 0 + 4 ≤ n.data.length := by
    simp only [tagLen, lengthLen, MsgNode.maxLen] at h8 h; omega
  rw [MsgNode.getTagField, readNetField32_eq host hlen, headTag, slice_take (by
    simp only [tagLen, lengthLen] at h8 ⊢; omega)]
  rfl

theorem MsgNode.updateContentLenField_ctxLen (host : ByteOrder) {n : MsgNode} {k : ℕ} (hk : headLen ≤ k)
    (h : k ≤ n.maxLen) : (n.updateContentLenField host).ctxLen = headCtxLen (n.data.take k) := by
  have h8 : tagLen + lengthLen ≤ k := hk
  have hlen : tagLen + 4 ≤ n.data.length := by
    simp only [tagLen, lengthLen, MsgNode.maxLen] at h8 h ⊢; omega
  have hval : beValue (slice n.data tagLen 4) < 2 ^ 32 :=
    lt_of_lt_of_eq (beValue_lt _) (by rw [slice_length hlen]; norm_num)
  rw [headCtxLen, slice_take h8]
  show (readNetField32 host n.data tagLen).toNat = _
  rw [readNetField32_eq host hlen, UInt32.toNat_ofNat_of_lt' hval]
  rfl

/-- The node holds the frame of `m` in front of its buffer. -/
structure MsgNode.Holds (n : MsgNode) (m : Msg) : Prop where
  fits : m.content.length ≤ maxCtxLen
  ctxLen_eq : n.ctxLen = m.content.length
  data_eq : n.data.take (headLen + n.ctxLen) = frame m

/-- The whole frame is inside the buffer. -/
theorem MsgNode.Holds.le_maxLen {n : MsgNode} {m : Msg} (h : n.Holds m) :
    headLen + n.ctxLen ≤ n.maxLen := by
  have hlen := congrArg List.length h.data_eq
  rw [List.length_take, frame_length, ← h.ctxLen_eq] at hlen
  unfold MsgNode.maxLen
  omega

/-- The tag and the content of such a node are those of the message. -/
theorem MsgNode.Holds.msg_eq {n : MsgNode} {m : Msg} (h : n.Holds m) (host : ByteOrder) :
    n.msg host = m := by
  have htag : n.getTagField host = m.tag := by
    rw [getTagField_eq host (Nat.le_add_right headLen n.ctxLen) h.le_maxLen, h.data_eq,
      headTag_frame]
  have hcontent : n.contentBytes = m.content := by
    have hdrop := congrArg (List.drop headLen) h.data_eq
    rw [List.drop_take, Nat.add_sub_cancel_left] at hdrop
    rw [contentBytes, getContent, hdrop, frame, List.drop_left' (by simp [headLen])]
  rw [MsgNode.msg, htag, hcontent]

/-- A node that holds a frame and of which nothing has been written puts the frame on the wire. -/
theorem MsgNode.Holds.wire_eq {n : MsgNode} {m : Msg} (h : n.Holds m) (hcur : n.curPos = 0) :
    n.wire = frame m := by
  have hmax := h.fits
  rw [← h.ctxLen_eq] at hmax
  have hlt : n.ctxLen + headLen < 2 ^ 32 :=
    calc n.ctxLen + headLen ≤ maxCtxLen + headLen := by omega
      _ < 2 ^ 32 := by decide
  rw [MsgNode.wire, hcur, u32_of_lt hlt, sub32_of_le hlt (Nat.zero_le _), slice_zero, Nat.sub_zero,
    Nat.add_comm, h.data_eq]

/-! ## Parsing undoes framing

One frame first, then any number of them by induction. Further bytes may follow; they are parsed next. -/

/-- The first frame of a stream. -/
theorem parse_frame_append {m : Msg} (h : m.content.length ≤ maxCtxLen) (x : List UInt8) :
    parse (frame m ++ x) = (parse x).after [m] := by
  have h8 : headLen ≤ (frame m).length := by simp
  have hl : headCtxLen (frame m ++ x) = m.content.length := by
    rw [headCtxLen_append h8, headCtxLen_frame h]
  have hcontent : slice (frame m ++ x) headLen m.content.length = m.content := by
    rw [slice, List.drop_append_of_le_length h8]
    have : (frame m).drop headLen = m.content := by
      rw [frame, List.drop_left' (by simp [headLen])]
    rw [this, List.take_left]
  rw [parse, hl, headTag_append h8, headTag_frame, hcontent,
    if_neg (by simp only [List.length_append, frame_length]; omega), if_neg (by omega),
    if_neg (by simp only [List.length_append, frame_length]; omega),
    List.drop_left' (by simp)]

/-- **Parsing undoes framing**, in front of any further bytes. -/
theorem parse_flatMap_frame : ∀ {ms : List Msg}, (∀ m ∈ ms, m.content.length ≤ maxCtxLen) →
    ∀ x, parse (ms.flatMap frame ++ x) = (parse x).after ms
  | [], _, x => rfl
  | m :: ms, h, x => by
    have hm : m.content.length ≤ maxCtxLen := h m (by simp)
    have hms : ∀ m' ∈ ms, m'.content.length ≤ maxCtxLen := fun m' hm' => h m' (by simp [hm'])
    rw [List.flatMap_cons, List.append_assoc, parse_frame_append hm, parse_flatMap_frame hms,
      Parsed.after_after]
    rfl

end Chatroom
