import Mathlib.Data.Nat.Digits.Lemmas
import Mathlib.Data.List.TakeWhile

/-!
# The string functions of the C++ standard library that the program calls

`std::to_string`, `std::stoull` and `std::stoi`, and `find` and `substr` of the strings, over byte
strings and with the exceptions they throw. Uids travel through Redis as decimal text, so the round
trip `stoull (to_string v) = v` is what the message queue rests on; a stored password hash begins with
an `int` in decimal.
-/

namespace Chatroom

/-- The standard exceptions that matter here. -/
inductive StdError where
  | invalidArgument
  | outOfRange
  deriving DecidableEq, Repr

/-- `s.substr(pos)`. -/
def substr (s : List UInt8) (pos : ℕ) : Except StdError (List UInt8) :=
  if pos > s.length then .error .outOfRange else .ok (s.drop pos)

/-- `s.substr(pos, n)`. -/
def substrN (s : List UInt8) (pos n : ℕ) : Except StdError (List UInt8) :=
  if pos > s.length then .error .outOfRange else .ok ((s.drop pos).take n)

/-- `s.find(c, pos)`, with `none` for `npos`. -/
def find (s : List UInt8) (c : UInt8) (pos : ℕ) : Option ℕ :=
  ((s.drop pos).findIdx? (· == c)).map (pos + ·)

/-! ## Decimal text

`stoull` and `stoi` skip blanks, read a sign and then as many digits as there are; the text behind
them
is ignored, and a text without digits or out of range throws. Note that `stoull` accepts a minus sign
and
negates modulo 2⁶⁴. -/

/-- The character of a decimal digit. -/
def digitChar (d : ℕ) : UInt8 := UInt8.ofNat (48 + d)

def isDigit (b : UInt8) : Bool := 48 ≤ b.toNat && b.toNat ≤ 57

/-- `std::to_string` of an unsigned value. -/
def toDecimal (n : ℕ) : List UInt8 :=
  if n = 0 then [digitChar 0] else ((Nat.digits 10 n).map digitChar).reverse

/-- `std::to_string` of an `int`. -/
def toDecimalInt (n : ℤ) : List UInt8 :=
  if n < 0 then 45 :: toDecimal n.natAbs else toDecimal n.natAbs

/-- The value of a run of digits, read left to right. -/
def digitsValue (ds : List UInt8) : ℕ := ds.foldl (fun acc b => 10 * acc + (b.toNat - 48)) 0

/-- `isspace` in the default locale. -/
def isSpace (b : UInt8) : Bool := b = 32 || (9 ≤ b.toNat && b.toNat ≤ 13)

/-- The number at the front of `s`, negated modulo `2 ^ 64` after a minus sign. -/
def readUnsigned (negative : Bool) (s : List UInt8) : Except StdError UInt64 :=
  let ds := s.takeWhile isDigit
  if ds = [] then .error .invalidArgument
  else if digitsValue ds ≥ 2 ^ 64 then .error .outOfRange
  else .ok (if negative then -(UInt64.ofNat (digitsValue ds)) else UInt64.ofNat (digitsValue ds))

/-- `std::stoull(s)`, base ten: blanks, an optional sign, then at least one digit; what follows the
digits is ignored. -/
def stoull (s : List UInt8) : Except StdError UInt64 :=
  match s.dropWhile isSpace with
  | 43 :: rest => readUnsigned false rest
  | 45 :: rest => readUnsigned true rest
  | rest => readUnsigned false rest

/-- The `int` at the front of `s`, after the sign. -/
def readInt (negative : Bool) (s : List UInt8) : Except StdError ℤ :=
  let ds := s.takeWhile isDigit
  if ds = [] then .error .invalidArgument
  else
    let v : ℤ := if negative then -(digitsValue ds : ℤ) else digitsValue ds
    if v < -2147483648 ∨ 2147483647 < v then .error .outOfRange else .ok v

/-- `std::stoi(s)`, base ten. -/
def stoi (s : List UInt8) : Except StdError ℤ :=
  match s.dropWhile isSpace with
  | 43 :: rest => readInt false rest
  | 45 :: rest => readInt true rest
  | rest => readInt false rest

/-! ## The round trips

`to_string` writes digits only, so reading takes all of the text, and with the digits it takes the
value. -/

theorem toNat_digitChar {d : ℕ} (h : d < 10) : (digitChar d).toNat = 48 + d := by
  rw [digitChar, UInt8.toNat_ofNat_of_lt' (by show 48 + d < 256; omega)]

theorem isDigit_digitChar {d : ℕ} (h : d < 10) : isDigit (digitChar d) = true := by
  simp only [isDigit, toNat_digitChar h, Bool.and_eq_true, decide_eq_true_eq]
  omega

/-- Reading goes on by one digit. -/
theorem digitsValue_append (ds : List UInt8) (b : UInt8) :
    digitsValue (ds ++ [b]) = 10 * digitsValue ds + (b.toNat - 48) := by
  simp [digitsValue]

/-- Reading the reversed digit characters evaluates the digits. -/
theorem digitsValue_reverse : ∀ {ds : List ℕ}, (∀ d ∈ ds, d < 10) →
    digitsValue (ds.map digitChar).reverse = Nat.ofDigits 10 ds
  | [], _ => rfl
  | d :: ds, h => by
    have hd : d < 10 := h d (by simp)
    have hds : ∀ d' ∈ ds, d' < 10 := fun d' hd' => h d' (by simp [hd'])
    rw [List.map_cons, List.reverse_cons, digitsValue_append, digitsValue_reverse hds,
      toNat_digitChar hd, Nat.ofDigits_cons]
    omega

/-- The digits of a number have the number as their value. -/
theorem digitsValue_toDecimal (n : ℕ) : digitsValue (toDecimal n) = n := by
  unfold toDecimal
  split
  · next h => rw [h]; decide
  · rw [digitsValue_reverse (fun d hd => Nat.digits_lt_base (by norm_num) hd), Nat.ofDigits_digits]

/-- There is nothing but digits. -/
theorem isDigit_of_mem_toDecimal {n : ℕ} {b : UInt8} (h : b ∈ toDecimal n) : isDigit b = true := by
  unfold toDecimal at h
  split at h
  · rw [List.mem_singleton] at h
    rw [h]; decide
  · rw [List.mem_reverse, List.mem_map] at h
    obtain ⟨d, hd, rfl⟩ := h
    exact isDigit_digitChar (Nat.digits_lt_base (by norm_num) hd)

theorem toDecimal_ne_nil (n : ℕ) : toDecimal n ≠ [] := by
  unfold toDecimal
  split
  · simp
  · next h =>
    rw [Ne, List.reverse_eq_nil_iff, List.map_eq_nil_iff]
    exact Nat.digits_ne_nil_iff_ne_zero.mpr h

theorem takeWhile_isDigit_toDecimal (n : ℕ) : (toDecimal n).takeWhile isDigit = toDecimal n :=
  List.takeWhile_eq_self_iff.mpr fun _ hb => isDigit_of_mem_toDecimal hb

theorem isSpace_of_isDigit {b : UInt8} (h : isDigit b = true) : isSpace b = false := by
  simp only [isDigit, Bool.and_eq_true, decide_eq_true_eq] at h
  have h32 : b ≠ 32 := by rintro rfl; simp at h
  simp only [isSpace, h32, decide_false, Bool.false_or, Bool.and_eq_false_iff,
    decide_eq_false_iff_not]
  omega

/-- No blank is skipped. -/
theorem dropWhile_isSpace_toDecimal (n : ℕ) : (toDecimal n).dropWhile isSpace = toDecimal n := by
  cases hs : toDecimal n with
  | nil => rfl
  | cons b bs =>
    have hb : isDigit b = true := isDigit_of_mem_toDecimal (n := n) (by simp [hs])
    rw [List.dropWhile_cons, isSpace_of_isDigit hb]
    simp

/-- A digit is neither of the two signs. -/
theorem toDecimal_ne_sign {n : ℕ} {b : UInt8} {rest : List UInt8} (h : isDigit b = false) :
    toDecimal n ≠ b :: rest := by
  intro hs
  have hb := isDigit_of_mem_toDecimal (n := n) (b := b) (by simp [hs])
  rw [h] at hb
  cases hb

/-- A value of 64 bits is in range. -/
theorem readUnsigned_toDecimal (v : UInt64) : readUnsigned false (toDecimal v.toNat) = .ok v := by
  have hlt : ¬ v.toNat ≥ 2 ^ 64 := by have := v.toNat_lt; omega
  simp only [readUnsigned, takeWhile_isDigit_toDecimal, toDecimal_ne_nil, digitsValue_toDecimal,
    if_false, hlt, UInt64.ofNat_toNat, Bool.false_eq_true]

/-- **A uid survives the trip through decimal text.** -/
theorem stoull_toDecimal (v : UInt64) : stoull (toDecimal v.toNat) = .ok v := by
  unfold stoull
  rw [dropWhile_isSpace_toDecimal]
  split
  · next hs => exact absurd hs (toDecimal_ne_sign (by decide))
  · next hs => exact absurd hs (toDecimal_ne_sign (by decide))
  · exact readUnsigned_toDecimal v

/-- And so is one that fits into an `int`. -/
theorem readInt_toDecimal {n : ℕ} (h : n ≤ 2147483647) : readInt false (toDecimal n) = .ok n := by
  have hrange : ¬ ((n : ℤ) < -2147483648 ∨ 2147483647 < (n : ℤ)) := by omega
  simp only [readInt, takeWhile_isDigit_toDecimal, toDecimal_ne_nil, digitsValue_toDecimal,
    if_false, hrange, Bool.false_eq_true]

/-- There is no blank and no sign in front of the digits. -/
theorem stoi_toDecimal_eq (n : ℕ) : stoi (toDecimal n) = readInt false (toDecimal n) := by
  unfold stoi
  rw [dropWhile_isSpace_toDecimal]
  split
  · next hs => exact absurd hs (toDecimal_ne_sign (by decide))
  · next hs => exact absurd hs (toDecimal_ne_sign (by decide))
  · rfl

/-- The number in front of a stored hash can be read back. -/
theorem stoi_toDecimal {n : ℕ} (h : n ≤ 2147483647) : stoi (toDecimal n) = .ok n := by
  rw [stoi_toDecimal_eq, readInt_toDecimal h]

/-! ## Positions in a string

How `find` and `substr` take a text apart that was put together from known parts. -/

/-- `npos`. -/
theorem find_eq_none {s : List UInt8} {c : UInt8} (h : c ∉ s) : find s c 0 = none := by
  unfold find
  rw [List.drop_zero, Option.map_eq_none_iff, List.findIdx?_eq_none_iff]
  intro b hb
  rw [beq_eq_false_iff_ne]
  rintro rfl
  exact h hb

/-- The first `c` is where the part without one ends. -/
theorem find_append {s : List UInt8} {c : UInt8} (h : c ∉ s) (t : List UInt8) :
    find (s ++ c :: t) c 0 = some s.length := by
  have hnone := find_eq_none h
  unfold find at hnone ⊢
  rw [List.drop_zero, Option.map_eq_none_iff] at hnone
  rw [List.drop_zero, List.findIdx?_append, hnone, List.findIdx?_cons, if_pos (beq_self_eq_true c)]
  simp

/-- A search that begins after a part of the string. -/
theorem find_length_append (s t : List UInt8) (c : UInt8) :
    find (s ++ t) c s.length = (find t c 0).map (s.length + ·) := by
  unfold find
  rw [List.drop_left, List.drop_zero, Option.map_map]
  simp [Function.comp_def]

/-- The first part. -/
theorem substrN_zero (s t : List UInt8) : substrN (s ++ t) 0 s.length = .ok s := by
  unfold substrN
  rw [if_neg (Nat.not_lt_zero _), List.drop_zero, List.take_left]

/-- The part of a string after one part and before another. -/
theorem substrN_length_append (s t u : List UInt8) :
    substrN (s ++ (t ++ u)) s.length t.length = .ok t := by
  unfold substrN
  rw [if_neg (by rw [List.length_append]; omega), List.drop_left, List.take_left]

/-- The last part. -/
theorem substr_length_append (s t : List UInt8) : substr (s ++ t) s.length = .ok t := by
  unfold substr
  rw [if_neg (by rw [List.length_append]; omega), List.drop_left]

end Chatroom
