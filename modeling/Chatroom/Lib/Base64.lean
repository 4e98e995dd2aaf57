import Mathlib.Data.Nat.Notation
import Mathlib.Data.List.Basic

/-!
# Base64

Three bytes are written as four digits to the base 64; the characters of the digits are a parameter, and
so is the character that fills up the last group. `encode` is the padded text, `encodeBare` the one
without the padding, and `decode` reads the latter.
-/

namespace Base64

/-- The four digits of three bytes. -/
def digit₁ (a : ℕ) : ℕ := a / 4
def digit₂ (a b : ℕ) : ℕ := a % 4 * 16 + b / 16
def digit₃ (b c : ℕ) : ℕ := b % 16 * 4 + c / 64
def digit₄ (c : ℕ) : ℕ := c % 64

/-- A text with the padding `pad`. -/
def encode (char : ℕ → UInt8) (pad : UInt8) : List UInt8 → List UInt8
  | [] => []
  | [a] => [char (digit₁ a.toNat), char (digit₂ a.toNat 0), pad, pad]
  | [a, b] =>
    [char (digit₁ a.toNat), char (digit₂ a.toNat b.toNat), char (digit₃ b.toNat 0), pad]
  | a :: b :: c :: rest =>
    char (digit₁ a.toNat) :: char (digit₂ a.toNat b.toNat) :: char (digit₃ b.toNat c.toNat) ::
      char (digit₄ c.toNat) :: encode char pad rest

def encodeBare (char : ℕ → UInt8) : List UInt8 → List UInt8
  | [] => []
  | [a] => [char (digit₁ a.toNat), char (digit₂ a.toNat 0)]
  | [a, b] => [char (digit₁ a.toNat), char (digit₂ a.toNat b.toNat), char (digit₃ b.toNat 0)]
  | a :: b :: c :: rest =>
    char (digit₁ a.toNat) :: char (digit₂ a.toNat b.toNat) :: char (digit₃ b.toNat c.toNat) ::
      char (digit₄ c.toNat) :: encodeBare char rest

/-- The three bytes of four digits. -/
def byte₁ (p q : ℕ) : UInt8 := .ofNat (p * 4 + q / 16)
def byte₂ (q r : ℕ) : UInt8 := .ofNat (q % 16 * 16 + r / 4)
def byte₃ (r s : ℕ) : UInt8 := .ofNat (r % 4 * 64 + s)

def decode (value : UInt8 → Option ℕ) : List UInt8 → Option (List UInt8)
  | [] => some []
  | [_] => none
  | [x, y] => do
    let p ← value x
    let q ← value y
    return [byte₁ p q]
  | [x, y, z] => do
    let p ← value x
    let q ← value y
    let r ← value z
    return [byte₁ p q, byte₂ q r]
  | x :: y :: z :: w :: rest => do
    let p ← value x
    let q ← value y
    let r ← value z
    let s ← value w
    let bs ← decode value rest
    return byte₁ p q :: byte₂ q r :: byte₃ r s :: bs

variable {char : ℕ → UInt8} {pad : UInt8} {value : UInt8 → Option ℕ}

/-! ## The characters

The texts have no other characters than those of the digits and the padding. So a replacement of
characters, or
the removal of the padding, can be followed through the text. -/

/-- The four digits are below 64. -/
theorem digit₁_lt (a : UInt8) : digit₁ a.toNat < 64 := by
  have ha := a.toNat_lt
  unfold digit₁
  omega

theorem digit₂_lt (a : ℕ) {b : ℕ} (hb : b < 256) : digit₂ a b < 64 := by
  unfold digit₂
  omega

theorem digit₃_lt (b : ℕ) {c : ℕ} (hc : c < 256) : digit₃ b c < 64 := by
  unfold digit₃
  omega

theorem digit₄_lt (c : ℕ) : digit₄ c < 64 := Nat.mod_lt _ (by decide)

/-- Every character of the text is that of a digit. -/
theorem exists_digit_of_mem_encodeBare : ∀ {bs : List UInt8} {x : UInt8}, x ∈ encodeBare char bs →
    ∃ d, d < 64 ∧ x = char d
  | [a], x, h => by
    simp only [encodeBare, List.mem_cons, List.not_mem_nil, or_false] at h
    rcases h with rfl | rfl
    · exact ⟨_, digit₁_lt a, rfl⟩
    · exact ⟨_, digit₂_lt _ (by decide), rfl⟩
  | [a, b], x, h => by
    simp only [encodeBare, List.mem_cons, List.not_mem_nil, or_false] at h
    rcases h with rfl | rfl | rfl
    · exact ⟨_, digit₁_lt a, rfl⟩
    · exact ⟨_, digit₂_lt _ b.toNat_lt, rfl⟩
    · exact ⟨_, digit₃_lt _ (by decide), rfl⟩
  | a :: b :: c :: rest, x, h => by
    simp only [encodeBare, List.mem_cons] at h
    rcases h with rfl | rfl | rfl | rfl | h
    · exact ⟨_, digit₁_lt a, rfl⟩
    · exact ⟨_, digit₂_lt _ b.toNat_lt, rfl⟩
    · exact ⟨_, digit₃_lt _ c.toNat_lt, rfl⟩
    · exact ⟨_, digit₄_lt _, rfl⟩
    · exact exists_digit_of_mem_encodeBare h

/-- Other characters for the digits. -/
theorem map_encode (f : UInt8 → UInt8) : ∀ bs : List UInt8,
    (encode char pad bs).map f = encode (f ∘ char) (f pad) bs
  | [] | [_] | [_, _] => rfl
  | a :: b :: c :: rest => by
    simp only [encode, List.map_cons, map_encode f rest, Function.comp_apply]

/-- Without its padding. -/
theorem filter_encode (hpad : ∀ d, d < 64 → char d ≠ pad) : ∀ bs : List UInt8,
    (encode char pad bs).filter (· ≠ pad) = encodeBare char bs
  | [] => rfl
  | [a] => by
    simp [encode, encodeBare, hpad _ (digit₁_lt a), hpad _ (digit₂_lt a.toNat (b := 0) (by decide))]
  | [a, b] => by
    simp [encode, encodeBare, hpad _ (digit₁_lt a), hpad _ (digit₂_lt a.toNat b.toNat_lt),
      hpad _ (digit₃_lt b.toNat (c := 0) (by decide))]
  | a :: b :: c :: rest => by
    have hrest := filter_encode hpad rest
    simp [encode, encodeBare, hpad _ (digit₁_lt a), hpad _ (digit₂_lt a.toNat b.toNat_lt),
      hpad _ (digit₃_lt b.toNat c.toNat_lt), hpad _ (digit₄_lt c.toNat), ← hrest]

/-! ## The round trip

A group of three bytes is recovered from its four digits by arithmetic; the shorter groups at the end
are the same
with zeros for the bytes that are missing. -/

/-- The three bytes from their digits. -/
theorem byte₁_digits (a : UInt8) {b : ℕ} (hb : b < 256) :
    byte₁ (digit₁ a.toNat) (digit₂ a.toNat b) = a := by
  have heq : digit₁ a.toNat * 4 + digit₂ a.toNat b / 16 = a.toNat := by
    unfold digit₁ digit₂
    omega
  rw [byte₁, heq, UInt8.ofNat_toNat]

theorem byte₂_digits (a : ℕ) (b : UInt8) {c : ℕ} (hc : c < 256) :
    byte₂ (digit₂ a b.toNat) (digit₃ b.toNat c) = b := by
  have hb := b.toNat_lt
  have heq : digit₂ a b.toNat % 16 * 16 + digit₃ b.toNat c / 4 = b.toNat := by
    unfold digit₂ digit₃
    omega
  rw [byte₂, heq, UInt8.ofNat_toNat]

theorem byte₃_digits (b : ℕ) (c : UInt8) : byte₃ (digit₃ b c.toNat) (digit₄ c.toNat) = c := by
  have hc := c.toNat_lt
  have heq : digit₃ b c.toNat % 4 * 64 + digit₄ c.toNat = c.toNat := by
    unfold digit₃ digit₄
    omega
  rw [byte₃, heq, UInt8.ofNat_toNat]

/-- **What is written can be read back.** -/
theorem decode_encodeBare (hvalue : ∀ d, d < 64 → value (char d) = some d) : ∀ bs : List UInt8,
    decode value (encodeBare char bs) = some bs
  | [] => rfl
  | [a] => by
    have hzero : (0 : ℕ) < 256 := by decide
    simp only [encodeBare, decode, hvalue _ (digit₁_lt a), hvalue _ (digit₂_lt a.toNat hzero),
      Option.bind_eq_bind, Option.bind_some, byte₁_digits a hzero]
    rfl
  | [a, b] => by
    have hzero : (0 : ℕ) < 256 := by decide
    simp only [encodeBare, decode, hvalue _ (digit₁_lt a), hvalue _ (digit₂_lt a.toNat b.toNat_lt),
      hvalue _ (digit₃_lt b.toNat hzero), Option.bind_eq_bind, Option.bind_some,
      byte₁_digits a b.toNat_lt, byte₂_digits a.toNat b hzero]
    rfl
  | a :: b :: c :: rest => by
    simp only [encodeBare, decode, hvalue _ (digit₁_lt a), hvalue _ (digit₂_lt a.toNat b.toNat_lt),
      hvalue _ (digit₃_lt b.toNat c.toNat_lt), hvalue _ (digit₄_lt c.toNat),
      decode_encodeBare hvalue rest, Option.bind_eq_bind, Option.bind_some,
      byte₁_digits a b.toNat_lt, byte₂_digits a.toNat b c.toNat_lt, byte₃_digits]
    rfl

/-- Whole groups of three bytes need no padding. -/
theorem length_encodeBare : ∀ {bs : List UInt8} {k : ℕ}, bs.length = 3 * k →
    (encodeBare char bs).length = 4 * k
  | [], k, h => by
    rw [List.length_nil] at h
    rw [encodeBare, List.length_nil]
    omega
  | [a], k, h | [a, b], k, h => by
    simp only [List.length_cons, List.length_nil] at h
    omega
  | a :: b :: c :: rest, k, h => by
    obtain _ | k := k
    · cases h
    · have hrest : rest.length = 3 * k := by
        simp only [List.length_cons] at h
        omega
      simp only [encodeBare, List.length_cons, length_encodeBare hrest]
      omega

end Base64
