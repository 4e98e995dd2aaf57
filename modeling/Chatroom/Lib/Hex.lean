import Mathlib.Data.Nat.Notation
import Mathlib.Data.List.Basic

/-!
# Hexadecimal text

Each byte is written as two digits, the letters in upper case. Letters of either case are read. The
text is read digit by digit and pair by pair, and the first thing wrong with it is reported. What is
accepted is any text of hexadecimal digits of even length.
-/

section Except

universe u

variable {ε ε' : Type*} {α β : Type u} {x : Except ε α}

/-- A computation returns if each of its parts does. -/
theorem Except.bind_eq_ok {f : α → Except ε β} {b : β} :
    x >>= f = .ok b ↔ ∃ a, x = .ok a ∧ f a = .ok b := by
  cases x with
  | error e =>
    constructor
    · intro h
      cases h
    · rintro ⟨a, h, _⟩
      cases h
  | ok a =>
    constructor
    · intro h
      exact ⟨a, rfl, h⟩
    · rintro ⟨_, ha, h⟩
      cases ha
      exact h

theorem Except.mapError_eq_ok {f : ε → ε'} {a : α} : x.mapError f = .ok a ↔ x = .ok a := by
  cases x with
  | error e =>
    constructor
    · intro h
      cases h
    · intro h
      cases h
  | ok a =>
    constructor
    · intro h
      cases h
      rfl
    · intro h
      cases h
      rfl

end Except

namespace Hex

inductive Error where
  | nonHexInput
  | notEnoughInput
  deriving DecidableEq, Repr

/-- The character of a digit. -/
def digit (d : ℕ) : UInt8 := if d < 10 then UInt8.ofNat (48 + d) else UInt8.ofNat (55 + d)

/-- The value of a character that is a digit. -/
def value (b : UInt8) : Option ℕ :=
  if 48 ≤ b.toNat ∧ b.toNat ≤ 57 then some (b.toNat - 48)
  else if 65 ≤ b.toNat ∧ b.toNat ≤ 70 then some (b.toNat - 55)
  else if 97 ≤ b.toNat ∧ b.toNat ≤ 102 then some (b.toNat - 87)
  else none

def hex : List UInt8 → List UInt8
  | [] => []
  | b :: bs => digit (b.toNat / 16) :: digit (b.toNat % 16) :: hex bs

/-- The value of a character, or the error it is. -/
def readDigit (b : UInt8) : Except Error ℕ :=
  match value b with
  | some d => .ok d
  | none => .error .nonHexInput

def unhex : List UInt8 → Except Error (List UInt8)
  | [] => .ok []
  | [a] => do
    let _ ← readDigit a
    .error .notEnoughInput
  | a :: b :: rest => do
    let hi ← readDigit a
    let lo ← readDigit b
    let bs ← unhex rest
    return UInt8.ofNat (16 * hi + lo) :: bs

/-! ## The round trip

What was written in upper case is read back; nothing is said here of other texts for the same bytes. -/

theorem toNat_digit {d : ℕ} (h : d < 16) : (digit d).toNat = if d < 10 then 48 + d else 55 + d := by
  unfold digit
  split
  · exact UInt8.toNat_ofNat_of_lt' (by show 48 + d < 256; omega)
  · exact UInt8.toNat_ofNat_of_lt' (by show 55 + d < 256; omega)

/-- A digit is read as what it stands for. -/
theorem value_digit {d : ℕ} (h : d < 16) : value (digit d) = some d := by
  unfold value
  rw [toNat_digit h]
  by_cases hd : d < 10
  · rw [if_pos hd, if_pos (by omega)]
    congr
    omega
  · rw [if_neg hd, if_neg (by omega), if_pos (by omega)]
    congr
    omega

theorem readDigit_digit {d : ℕ} (h : d < 16) : readDigit (digit d) = .ok d := by
  unfold readDigit
  rw [value_digit h]

/-- **Reading undoes writing.** -/
theorem unhex_hex (bs : List UInt8) : unhex (hex bs) = .ok bs := by
  induction bs with
  | nil => rfl
  | cons b bs ih =>
    have hb : b.toNat < 256 := b.toNat_lt
    have hbyte : UInt8.ofNat (16 * (b.toNat / 16) + b.toNat % 16) = b := by
      rw [Nat.div_add_mod]
      exact UInt8.ofNat_toNat
    rw [hex, unhex, readDigit_digit (by omega), readDigit_digit (by omega), ih]
    show Except.ok (UInt8.ofNat (16 * (b.toNat / 16) + b.toNat % 16) :: bs) = .ok (b :: bs)
    rw [hbyte]

/-- Two characters for each byte. -/
theorem length_hex (bs : List UInt8) : (hex bs).length = 2 * bs.length := by
  induction bs with
  | nil => rfl
  | cons b bs ih =>
    rw [hex, List.length_cons, List.length_cons, ih, List.length_cons]
    omega

/-- A text of digits. -/
def IsHex (s : List UInt8) : Prop := ∀ b ∈ s, (value b).isSome

instance (s : List UInt8) : Decidable (IsHex s) := inferInstanceAs (Decidable (∀ _ ∈ _, _))

/-- Only digits are written. -/
theorem isHex_hex (bs : List UInt8) : IsHex (hex bs) := by
  have hdigit : ∀ {d : ℕ}, d < 16 → (value (digit d)).isSome := fun hd => by
    rw [value_digit hd]
    rfl
  induction bs with
  | nil =>
    intro b hb
    cases hb
  | cons b bs ih =>
    have hb : b.toNat < 256 := b.toNat_lt
    intro c hc
    rw [hex] at hc
    rcases List.mem_cons.mp hc with rfl | hc
    · exact hdigit (by omega)
    · rcases List.mem_cons.mp hc with rfl | hc
      · exact hdigit (by omega)
      · exact ih c hc

/-! ## What is accepted

The texts that are read without an error, pair by pair. The recursion of `unhex` takes two characters
at a time,
so a text of odd length is found to be one at its very end, if nothing else is wrong with it. -/

theorem readDigit_eq_ok {a : UInt8} {d : ℕ} : readDigit a = .ok d ↔ value a = some d := by
  unfold readDigit
  cases value a with
  | none => exact ⟨fun h => (by cases h), fun h => (by cases h)⟩
  | some => exact ⟨fun h => (by cases h; rfl), fun h => (by cases h; rfl)⟩

/-- A text is read if its first pair is, and the rest. -/
theorem unhex_pair_eq_ok {a b : UInt8} {rest bs : List UInt8} :
    unhex (a :: b :: rest) = .ok bs ↔ ∃ hi lo bs', value a = some hi ∧ value b = some lo ∧
      unhex rest = .ok bs' ∧ bs = UInt8.ofNat (16 * hi + lo) :: bs' := by
  rw [unhex]
  simp only [Except.bind_eq_ok, readDigit_eq_ok]
  constructor
  · rintro ⟨hi, ha, lo, hb, bs', hrest, heq⟩
    cases heq
    exact ⟨hi, lo, bs', ha, hb, hrest, rfl⟩
  · rintro ⟨hi, lo, bs', ha, hb, hrest, rfl⟩
    exact ⟨hi, ha, lo, hb, bs', hrest, rfl⟩

/-- A single character is not read. -/
theorem unhex_single_ne_ok {a : UInt8} {bs : List UInt8} : unhex [a] ≠ .ok bs := by
  intro h
  rw [unhex, Except.bind_eq_ok] at h
  obtain ⟨_, _, h⟩ := h
  cases h

/-- **Exactly the texts of digits of even length are read.** -/
theorem exists_unhex_iff : ∀ {s : List UInt8},
    (∃ bs, unhex s = .ok bs) ↔ s.length % 2 = 0 ∧ IsHex s
  | [] => iff_of_true ⟨[], rfl⟩ ⟨rfl, fun _ hb => by cases hb⟩
  | [a] => iff_of_false (fun ⟨_, h⟩ => unhex_single_ne_ok h) fun h => by cases h.1
  | a :: b :: rest => by
    have hlen : (a :: b :: rest).length % 2 = rest.length % 2 := by
      rw [List.length_cons, List.length_cons]
      omega
    have hall : IsHex (a :: b :: rest) ↔
        (value a).isSome ∧ (value b).isSome ∧ IsHex rest := by
      unfold IsHex
      rw [List.forall_mem_cons, List.forall_mem_cons]
    rw [hlen, hall]
    constructor
    · rintro ⟨bs, h⟩
      obtain ⟨hi, lo, bs', ha, hb, hrest, _⟩ := unhex_pair_eq_ok.mp h
      obtain ⟨heven, hhex⟩ := exists_unhex_iff.mp ⟨bs', hrest⟩
      exact ⟨heven, by rw [ha]; rfl, by rw [hb]; rfl, hhex⟩
    · rintro ⟨heven, ha, hb, hhex⟩
      obtain ⟨bs', hrest⟩ := exists_unhex_iff.mpr ⟨heven, hhex⟩
      obtain ⟨hi, ha⟩ := Option.isSome_iff_exists.mp ha
      obtain ⟨lo, hb⟩ := Option.isSome_iff_exists.mp hb
      exact ⟨_, unhex_pair_eq_ok.mpr ⟨hi, lo, bs', ha, hb, hrest, rfl⟩⟩

theorem value_lt {b : UInt8} {d : ℕ} (h : value b = some d) : d < 16 := by
  unfold value at h
  split at h
  · cases h
    omega
  · split at h
    · cases h
      omega
    · split at h
      · cases h
        omega
      · cases h

/-- Only one character stands for zero. -/
theorem value_eq_zero_iff {b : UInt8} : value b = some 0 ↔ b = 48 := by
  constructor
  · intro h
    have hb : b.toNat = 48 := by
      unfold value at h
      split at h
      · injection h with h
        omega
      · split at h
        · injection h with h
          omega
        · split at h
          · injection h with h
            omega
          · cases h
    exact UInt8.toNat_inj.mp hb
  · rintro rfl
    rfl

/-- The bytes are zero if all digits are. -/
theorem unhex_all_zero_iff : ∀ {s bs : List UInt8}, unhex s = .ok bs →
    ((∀ b ∈ bs, b = 0) ↔ ∀ c ∈ s, c = 48)
  | [], bs, h => by
    cases h
    exact iff_of_true (fun _ hb => by cases hb) (fun _ hc => by cases hc)
  | [a], bs, h => absurd h unhex_single_ne_ok
  | a :: b :: rest, bs, h => by
    obtain ⟨hi, lo, bs', ha, hb, hrest, rfl⟩ := unhex_pair_eq_ok.mp h
    have hhi := value_lt ha
    have hlo := value_lt hb
    have hbyte : UInt8.ofNat (16 * hi + lo) = 0 ↔ hi = 0 ∧ lo = 0 := by
      rw [← UInt8.toNat_inj, UInt8.toNat_ofNat_of_lt' (by show 16 * hi + lo < 256; omega)]
      show 16 * hi + lo = 0 ↔ _
      omega
    have hza : hi = 0 ↔ a = 48 := by
      rw [← value_eq_zero_iff, ha, Option.some.injEq]
    have hzb : lo = 0 ↔ b = 48 := by
      rw [← value_eq_zero_iff, hb, Option.some.injEq]
    rw [List.forall_mem_cons, List.forall_mem_cons, List.forall_mem_cons, hbyte, hza, hzb,
      unhex_all_zero_iff hrest, and_assoc]

end Hex
