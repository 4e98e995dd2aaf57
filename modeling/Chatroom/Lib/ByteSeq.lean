import Mathlib.Data.List.Basic
import Mathlib.Data.Nat.Notation
import Mathlib.Tactic.Ring

/-!
# Byte sequences: fixed-width numbers and buffers

Two things a wire format needs, over plain lists.

* Fixed-width numbers: `leBytes w v` and `beBytes w v` are the low `w` bytes of `v` in either
  order, `leValue` and `beValue` read them back. Big-endian is little-endian reversed, so each law
  is proved once.
* Buffers: `splice buf off bs` overwrites part of a buffer (a `memcpy` into it), `slice buf off n`
  reads part of it. The laws say what a read sees after a write: the bytes written, or, off the
  written range, the bytes that were there.
-/

namespace ByteSeq

/-! ## Fixed-width numbers

The recursion of `leBytes` and `leValue` is on the width, a byte at a time. A number is determined by
its bytes as
far as they reach (`leValue_leBytes`), and bytes by their number (`leBytes_leValue`). -/

/-- The low `w` bytes of `v`, least significant first. -/
def leBytes : ℕ → ℕ → List UInt8
  | 0, _ => []
  | w + 1, v => UInt8.ofNat v :: leBytes w (v / 256)

/-- The number a byte list denotes, least significant byte first. -/
def leValue : List UInt8 → ℕ
  | [] => 0
  | b :: bs => b.toNat + 256 * leValue bs

/-- The low `w` bytes of `v`, most significant first. -/
def beBytes (w v : ℕ) : List UInt8 := (leBytes w v).reverse

/-- The number a byte list denotes, most significant byte first. -/
def beValue (bs : List UInt8) : ℕ := leValue bs.reverse

@[simp] theorem leBytes_length : ∀ w v, (leBytes w v).length = w
  | 0, _ => rfl
  | w + 1, v => by simp [leBytes, leBytes_length w]

@[simp] theorem beBytes_length (w v : ℕ) : (beBytes w v).length = w := by
  simp [beBytes]

/-- A number of `w` bytes is below `256 ^ w`. -/
theorem leValue_lt : ∀ bs : List UInt8, leValue bs < 256 ^ bs.length
  | [] => by simp [leValue]
  | b :: bs => by
    have hb : b.toNat < 256 := b.toNat_lt
    have ih := leValue_lt bs
    simp only [leValue, List.length_cons, pow_succ]
    omega

theorem beValue_lt (bs : List UInt8) : beValue bs < 256 ^ bs.length := by
  simpa [beValue] using leValue_lt bs.reverse

/-- Reading back the low `w` bytes of `v` gives `v` modulo `256 ^ w`. -/
theorem leValue_leBytes : ∀ w v, leValue (leBytes w v) = v % 256 ^ w
  | 0, v => by simp [leBytes, leValue, Nat.mod_one]
  | w + 1, v => by
    have ih := leValue_leBytes w (v / 256)
    simp only [leBytes, leValue, ih]
    have hb : (UInt8.ofNat v).toNat = v % 256 := by simp
    rw [hb, pow_succ, Nat.mul_comm (256 ^ w) 256, Nat.mod_mul]

theorem beValue_beBytes (w v : ℕ) : beValue (beBytes w v) = v % 256 ^ w := by
  simp [beValue, beBytes, leValue_leBytes]

/-- Any `w` bytes are the bytes of the number they denote. -/
theorem leBytes_leValue : ∀ bs : List UInt8, leBytes bs.length (leValue bs) = bs
  | [] => rfl
  | b :: bs => by
    have hb : b.toNat < 256 := b.toNat_lt
    have hlow : UInt8.ofNat (b.toNat + 256 * leValue bs) = b := by
      apply UInt8.toNat_inj.mp
      simp
    have hhigh : (b.toNat + 256 * leValue bs) / 256 = leValue bs := by omega
    simp only [List.length_cons, leBytes, leValue, hlow, hhigh, leBytes_leValue bs]

theorem beBytes_beValue (bs : List UInt8) : beBytes bs.length (beValue bs) = bs := by
  have h := leBytes_leValue bs.reverse
  simp only [List.length_reverse] at h
  simp [beBytes, beValue, h]

/-- The bytes of a number are the bytes of its low part, then those of its high part. -/
theorem leBytes_add : ∀ a b v, leBytes (a + b) v = leBytes a v ++ leBytes b (v / 256 ^ a)
  | 0, b, v => by simp [leBytes]
  | a + 1, b, v => by
    have hdiv : v / 256 / 256 ^ a = v / 256 ^ (a + 1) := by
      rw [Nat.div_div_eq_div_mul, pow_succ, Nat.mul_comm]
    rw [Nat.add_right_comm]
    simp only [leBytes, leBytes_add a b, hdiv, List.cons_append]

/-- Only the part of a number that fits matters. -/
theorem leBytes_mod (w v : ℕ) : leBytes w (v % 256 ^ w) = leBytes w v := by
  have h := leBytes_leValue (leBytes w v)
  rwa [leBytes_length, leValue_leBytes] at h

/-! ## Buffers

`splice` is total: a write that reaches beyond the end makes the buffer longer. A program that writes
inside of
its buffer keeps the length (`splice_length`), and that is what has to be shown of it. -/

variable {α : Type*}

/-- Overwrite `buf` from position `off` with `bs`. -/
def splice (buf : List α) (off : ℕ) (bs : List α) : List α :=
  buf.take off ++ bs ++ buf.drop (off + bs.length)

/-- The `n` elements of `buf` from position `off` on. -/
def slice (buf : List α) (off n : ℕ) : List α := (buf.drop off).take n

/-- A write inside of the buffer keeps its length. -/
theorem splice_length {buf bs : List α} {off : ℕ} (h : off + bs.length ≤ buf.length) :
    (splice buf off bs).length = buf.length := by
  simp only [splice, List.length_append, List.length_take, List.length_drop]
  omega

/-- Writing never makes a buffer shorter. -/
theorem le_splice_length (buf : List α) (off : ℕ) (bs : List α) :
    buf.length ≤ (splice buf off bs).length := by
  simp only [splice, List.length_append, List.length_take, List.length_drop]
  omega

theorem slice_length {buf : List α} {off n : ℕ} (h : off + n ≤ buf.length) :
    (slice buf off n).length = n := by
  simp only [slice, List.length_take, List.length_drop]
  omega

@[simp] theorem splice_nil (buf : List α) (off : ℕ) : splice buf off [] = buf := by
  simp [splice]

theorem slice_zero (buf : List α) (n : ℕ) : slice buf 0 n = buf.take n := rfl

/-- A read of the range just written sees what was written. -/
theorem slice_splice_self {buf bs : List α} {off : ℕ} (h : off ≤ buf.length) :
    slice (splice buf off bs) off bs.length = bs := by
  have hlen : (buf.take off).length = off := by simp [h]
  rw [slice, splice, List.append_assoc, List.drop_append_of_le_length (by omega)]
  rw [List.drop_of_length_le (by omega), List.nil_append]
  simp

/-- Writing back what was read changes nothing. -/
theorem splice_slice {buf : List α} {off n : ℕ} (h : off + n ≤ buf.length) :
    splice buf off (slice buf off n) = buf := by
  rw [splice, slice_length h, slice, List.append_assoc, ← List.drop_drop, List.take_append_drop,
    List.take_append_drop]

/-- A read before the written range sees the old content. -/
theorem slice_splice_before {buf bs : List α} {off i n : ℕ} (h : i + n ≤ buf.length)
    (hi : i + n ≤ off) : slice (splice buf off bs) i n = slice buf i n := by
  apply List.ext_getElem?
  intro k
  simp only [slice, splice, List.getElem?_take, List.getElem?_drop, List.append_assoc]
  split
  · rw [List.getElem?_append_left (by simp; omega), List.getElem?_take_of_lt (by omega)]
  · rfl

/-- Writing at the end of the filled part extends the filled part. -/
theorem take_splice_extend {buf bs : List α} {off : ℕ} (h : off ≤ buf.length) :
    (splice buf off bs).take (off + bs.length) = buf.take off ++ bs := by
  have hlen : (buf.take off ++ bs).length = off + bs.length := by simp; omega
  rw [splice, List.take_append_of_le_length (by omega), ← hlen, List.take_length]

/-- A buffer can be cut where its length says. -/
theorem exists_append_of_length_eq {buf : List α} {m n : ℕ} (h : buf.length = m + n) :
    ∃ x y, buf = x ++ y ∧ x.length = m ∧ y.length = n :=
  ⟨buf.take m, buf.drop m, (List.take_append_drop m buf).symm, by simp; omega, by simp; omega⟩

/-- Overwriting a part of a buffer given by its parts. -/
theorem splice_part {x y z bs : List α} {off : ℕ} (hx : x.length = off)
    (hy : y.length = bs.length) : splice (x ++ (y ++ z)) off bs = x ++ (bs ++ z) := by
  rw [splice, List.take_left' hx, List.drop_append, List.drop_of_length_le (by omega), ← hx,
    Nat.add_sub_cancel_left, List.nil_append, List.drop_left' hy, List.append_assoc]

/-- The same at the front of the buffer. -/
theorem splice_front {y z bs : List α} (hy : y.length = bs.length) :
    splice (y ++ z) 0 bs = bs ++ z :=
  splice_part (x := []) rfl hy

/-- A write inside a prefix of the buffer, seen through that prefix. -/
theorem take_splice {buf bs : List α} {off k : ℕ} (hoff : off ≤ buf.length)
    (h : off + bs.length ≤ k) : (splice buf off bs).take k = splice (buf.take k) off bs := by
  have hlen : (buf.take off ++ bs).length = off + bs.length := by simp; omega
  rw [splice, splice, List.take_append, hlen, List.take_of_length_le (by omega), List.take_take,
    Nat.min_eq_left (by omega), List.drop_take]

/-- Three writes one behind the other that fill the buffer. -/
theorem splice_three {buf a b c : List α} {i j : ℕ} (h : buf.length = i + j + c.length)
    (ha : a.length = i) (hb : b.length = j) :
    splice (splice (splice buf 0 a) i b) (i + j) c = a ++ b ++ c := by
  have hlen₁ : (splice buf 0 a).length = buf.length := splice_length (by omega)
  have hlen₂ : (splice (splice buf 0 a) i b).length = buf.length := by
    rw [splice_length (by omega), hlen₁]
  have hfill₁ : (splice buf 0 a).take i = a := by
    have hext : (splice buf 0 a).take (0 + a.length) = buf.take 0 ++ a :=
      take_splice_extend (Nat.zero_le _)
    simpa [ha] using hext
  have hfill₂ : (splice (splice buf 0 a) i b).take (i + j) = a ++ b := by
    rw [← hb, take_splice_extend (by omega), hfill₁]
  rw [splice, hfill₂, List.drop_of_length_le (by omega), List.append_nil]

/-- A read inside of a prefix. -/
theorem slice_take {buf : List α} {off n m : ℕ} (h : off + n ≤ m) :
    slice (buf.take m) off n = slice buf off n := by
  simp only [slice, List.drop_take, List.take_take]
  congr 1
  omega

/-- What a write puts into the first `k` elements does not depend on those behind. -/
theorem take_splice_take {buf bs : List α} {off k : ℕ} (h : off ≤ k) :
    (splice (buf.take k) off bs).take k = (splice buf off bs).take k := by
  simp only [splice, List.append_assoc, List.take_append, List.take_take, List.length_take,
    Nat.min_eq_left h, List.drop_take]
  by_cases hoff : off ≤ buf.length
  · congr 3
    omega
  · simp only [List.drop_of_length_le (show buf.length ≤ off + bs.length by omega), List.take_nil]

end ByteSeq
