import Chatroom.Lib.Hex
import Chatroom.Utils.StdString

/-!
# The hashes of the passwords (`Security`)

`HashPassword` stores the iteration count, the derived key and the salt as text, with `&` between
them. `Verify` finds the three fields by the positions of the first two `&`, derives a key of the
length of the stored one with the stored count and salt, and compares the two.

PBKDF2 is any function of its arguments that returns as many bytes as it is asked for. The call of it
fails for a count that is not positive, and leaves the buffer for the key as it was.

Of what is stored, `Verify` checks only that there are two separators. It throws if the count is not an
`int` or a field is not hexadecimal. The length of the key is taken from the text, so a hash with an
empty key accepts every password.
-/

namespace Chatroom.Gateway.Security

/-- `'&'`. -/
def sep : UInt8 := 38

/-- An array of `n` bytes. -/
abbrev Bytes (n : ℕ) := { bs : List UInt8 // bs.length = n }

/-- PBKDF2-HMAC-SHA512. -/
structure Pbkdf2 where
  derive : (code salt : List UInt8) → (iter len : ℕ) → List UInt8
  length_derive : ∀ code salt iter len, (derive code salt iter len).length = len

/-- What `Verify` throws. -/
inductive Thrown where
  | std (e : StdError)
  | hex (e : Hex.Error)
  deriving DecidableEq, Repr

/-- `PKCS5_PBKDF2_HMAC`, with the contents of the buffer `out` after it. -/
def pkcs5Pbkdf2Hmac (kdf : Pbkdf2) (code salt : List UInt8) (iter : ℤ) (out : List UInt8) :
    List UInt8 :=
  if iter < 1 then out else kdf.derive code salt iter.toNat out.length

def bin2Hex (bin : List UInt8) : List UInt8 := Hex.hex bin

def hex2Bin (hex : List UInt8) : Except Thrown (List UInt8) := (Hex.unhex hex).mapError .hex

/-- The default of `iter`. -/
def defaultIter : ℤ := 200000

/-- `HashPassword(code, iter)`, where `RAND_bytes` returns `salt`; `key` is the buffer for the key, which
is not initialized. -/
def hashPassword (kdf : Pbkdf2) (salt : Bytes 16) (key : Bytes 64) (code : List UInt8) (iter : ℤ) :
    List UInt8 :=
  let derivedKey := pkcs5Pbkdf2Hmac kdf code salt.val iter key.val
  toDecimalInt iter ++ [sep] ++ bin2Hex derivedKey ++ [sep] ++ bin2Hex salt.val

/-- `Verify(code, stored_hash)`. -/
def verify (kdf : Pbkdf2) (code storedHash : List UInt8) : Except Thrown Bool :=
  let pos1 := find storedHash sep 0
  -- `npos + 1` is `0`
  let pos2 := find storedHash sep (pos1.elim 0 (· + 1))
  match pos1, pos2 with
  | some pos1, some pos2 => do
    let iter ← (substrN storedHash 0 pos1 >>= stoi).mapError .std
    let keyHex ← (substrN storedHash (pos1 + 1) (pos2 - pos1 - 1)).mapError .std
    let saltHex ← (substr storedHash (pos2 + 1)).mapError .std
    let salt ← hex2Bin saltHex
    let storedKey ← hex2Bin keyHex
    let derivedKey :=
      pkcs5Pbkdf2Hmac kdf code salt iter (List.replicate storedKey.length 0)
    return derivedKey == storedKey
  | _, _ => return false

/-! ## The fields

`Verify` works with positions in the text. A text with two separators is three fields, and of these
`Fields.verify` says the same without positions (`verify_text`); everything below is about the fields. -/

/-- Three fields, the first two without a separator. -/
structure Fields where
  count : List UInt8
  key : List UInt8
  salt : List UInt8
  sep_notMem_count : sep ∉ count
  sep_notMem_key : sep ∉ key

def Fields.text (f : Fields) : List UInt8 := f.count ++ sep :: (f.key ++ sep :: f.salt)

/-- What `Verify` does with the fields. -/
def Fields.verify (kdf : Pbkdf2) (code : List UInt8) (f : Fields) : Except Thrown Bool := do
  let iter ← (stoi f.count).mapError .std
  let salt ← hex2Bin f.salt
  let key ← hex2Bin f.key
  return pkcs5Pbkdf2Hmac kdf code salt iter (List.replicate key.length 0) == key

variable {kdf : Pbkdf2} {code storedHash : List UInt8} {f : Fields}

theorem hex2Bin_eq_ok {hex bin : List UInt8} : hex2Bin hex = .ok bin ↔ Hex.unhex hex = .ok bin :=
  Except.mapError_eq_ok

/-- `Verify` returns if the fields can be read, and then it compares the keys. -/
theorem Fields.verify_eq_ok_iff {b : Bool} : f.verify kdf code = .ok b ↔ ∃ iter salt key,
    stoi f.count = .ok iter ∧ Hex.unhex f.salt = .ok salt ∧ Hex.unhex f.key = .ok key ∧
      b = (pkcs5Pbkdf2Hmac kdf code salt iter (List.replicate key.length 0) == key) := by
  unfold Fields.verify
  simp only [Except.bind_eq_ok, Except.mapError_eq_ok, hex2Bin_eq_ok]
  constructor
  · rintro ⟨iter, hiter, salt, hsalt, key, hkey, heq⟩
    cases heq
    exact ⟨iter, salt, key, hiter, hsalt, hkey, rfl⟩
  · rintro ⟨iter, salt, key, hiter, hsalt, hkey, rfl⟩
    exact ⟨iter, hiter, salt, hsalt, key, hkey, rfl⟩

/-- The positions of the first two separators cut out the fields. -/
theorem verify_text (kdf : Pbkdf2) (code : List UInt8) (f : Fields) :
    verify kdf code f.text = f.verify kdf code := by
  have hpos1 : find f.text sep 0 = some f.count.length := find_append f.sep_notMem_count _
  have hfront : f.text = (f.count ++ [sep]) ++ (f.key ++ sep :: f.salt) := by
    rw [List.append_assoc]
    rfl
  have hlen : (f.count ++ [sep]).length = f.count.length + 1 := List.length_append
  have hpos2 : find f.text sep (f.count.length + 1) =
      some (f.count.length + 1 + f.key.length) := by
    rw [hfront, ← hlen, find_length_append, find_append f.sep_notMem_key]
    rfl
  have hcount : substrN f.text 0 f.count.length = .ok f.count := substrN_zero _ _
  have hkey : substrN f.text (f.count.length + 1) f.key.length = .ok f.key := by
    rw [hfront, ← hlen]
    exact substrN_length_append _ _ _
  have hsalt : substr f.text (f.count.length + 1 + f.key.length + 1) = .ok f.salt := by
    have hfront : f.text = ((f.count ++ [sep]) ++ (f.key ++ [sep])) ++ f.salt := by
      simp [Fields.text]
    have hlen : ((f.count ++ [sep]) ++ (f.key ++ [sep])).length =
        f.count.length + 1 + f.key.length + 1 := by
      rw [List.length_append, hlen, List.length_append, List.length_singleton, ← Nat.add_assoc]
    rw [hfront, ← hlen]
    exact substr_length_append _ _
  have hsub : f.count.length + 1 + f.key.length - f.count.length - 1 = f.key.length := by omega
  unfold verify
  simp only [hpos1, Option.elim_some, hpos2, hcount, hsub, hkey, hsalt]
  rfl

/-- With two separators or more there are the fields. -/
theorem exists_fields (h : 2 ≤ storedHash.count sep) : ∃ f : Fields, f.text = storedHash := by
  have hmem : sep ∈ storedHash := List.count_pos_iff.mp (by omega)
  obtain ⟨count, rest, rfl, hcount⟩ := List.eq_append_cons_of_mem hmem
  rw [List.count_append, List.count_eq_zero_of_not_mem hcount, List.count_cons_self] at h
  have hmem : sep ∈ rest := List.count_pos_iff.mp (by omega)
  obtain ⟨key, salt, rfl, hkey⟩ := List.eq_append_cons_of_mem hmem
  exact ⟨⟨count, key, salt, hcount, hkey⟩, rfl⟩

/-- With less than two, the password is refused. -/
theorem verify_of_count_lt (h : storedHash.count sep < 2) : verify kdf code storedHash = .ok false := by
  unfold verify
  by_cases hmem : sep ∈ storedHash
  · obtain ⟨count, rest, rfl, hcount⟩ := List.eq_append_cons_of_mem hmem
    rw [List.count_append, List.count_eq_zero_of_not_mem hcount, List.count_cons_self] at h
    have hrest : sep ∉ rest := List.count_eq_zero.mp (by omega)
    have hpos2 : find (count ++ sep :: rest) sep (count.length + 1) = none := by
      have hfront : count ++ sep :: rest = (count ++ [sep]) ++ rest := by simp
      have hlen : (count ++ [sep]).length = count.length + 1 := List.length_append
      rw [hfront, ← hlen, find_length_append, find_eq_none hrest]
      rfl
    simp only [find_append hcount, Option.elim_some, hpos2]
    rfl
  · simp only [find_eq_none hmem]
    rfl

/-! ## The round trip

What `HashPassword` writes are the fields of `hashed`: decimal digits and hexadecimal digits contain
no
separator, so the positions that `Verify` finds are those where `HashPassword` has put one. -/

theorem sep_notMem_of_isHex {s : List UInt8} (h : Hex.IsHex s) : sep ∉ s := by
  intro hmem
  exact absurd (h sep hmem) (by decide)

/-- Nor is there one among decimal digits. -/
theorem sep_notMem_toDecimal (n : ℕ) : sep ∉ toDecimal n := by
  intro hmem
  exact absurd (isDigit_of_mem_toDecimal hmem) (by decide)

theorem toDecimalInt_of_pos {iter : ℤ} (h : 0 < iter) : toDecimalInt iter = toDecimal iter.toNat := by
  unfold toDecimalInt
  rw [if_neg (by omega)]
  congr 1
  omega

/-- The fields of a hash that `HashPassword` makes with a positive count. -/
def hashed (kdf : Pbkdf2) (salt : Bytes 16) (code : List UInt8) (iter : ℤ) : Fields where
  count := toDecimal iter.toNat
  key := bin2Hex (kdf.derive code salt.val iter.toNat 64)
  salt := bin2Hex salt.val
  sep_notMem_count := sep_notMem_toDecimal _
  sep_notMem_key := sep_notMem_of_isHex (Hex.isHex_hex _)

theorem pkcs5Pbkdf2Hmac_of_pos {salt out : List UInt8} {iter : ℤ} (h : 0 < iter) :
    pkcs5Pbkdf2Hmac kdf code salt iter out = kdf.derive code salt iter.toNat out.length :=
  if_neg (by omega)

/-- With a positive count the buffer for the key has been filled. -/
theorem hashPassword_eq (salt : Bytes 16) (key : Bytes 64) {iter : ℤ} (h : 0 < iter) :
    hashPassword kdf salt key code iter = (hashed kdf salt code iter).text := by
  unfold hashPassword hashed Fields.text
  rw [toDecimalInt_of_pos h, pkcs5Pbkdf2Hmac_of_pos h, key.property]
  simp

/-- The count, the salt and the key are read back, and the derived key is compared with the stored
one. -/
theorem hashed_verify (salt : Bytes 16) (code code' : List UInt8) {iter : ℤ} (hpos : 0 < iter)
    (hint : iter ≤ 2147483647) :
    (hashed kdf salt code iter).verify kdf code' =
      .ok (decide (kdf.derive code' salt.val iter.toNat 64 = kdf.derive code salt.val iter.toNat 64)) := by
  have hiter : stoi (toDecimal iter.toNat) = .ok iter := by
    rw [stoi_toDecimal (by omega), Int.toNat_of_nonneg (by omega)]
  refine Fields.verify_eq_ok_iff.mpr
    ⟨iter, salt.val, _, hiter, Hex.unhex_hex _, Hex.unhex_hex _, ?_⟩
  rw [pkcs5Pbkdf2Hmac_of_pos hpos, List.length_replicate, kdf.length_derive]
  exact (beq_eq_decide _ _).symm

/-- **A password is accepted if and only if it gives the key of the one that was hashed**, and the right
one always is. -/
theorem verify_hashPassword (kdf : Pbkdf2) (code code' : List UInt8) (salt : Bytes 16)
    (key : Bytes 64) (iter : ℤ) (hpos : 0 < iter) (hint : iter ≤ 2147483647) :
    verify kdf code' (hashPassword kdf salt key code iter) =
        .ok (decide (kdf.derive code' salt.val iter.toNat 64 = kdf.derive code salt.val iter.toNat 64)) ∧
      verify kdf code (hashPassword kdf salt key code iter) = .ok true := by
  rw [hashPassword_eq salt key hpos, verify_text, verify_text, hashed_verify salt code code' hpos hint,
    hashed_verify salt code code hpos hint, decide_eq_true rfl]
  exact ⟨rfl, rfl⟩

/-- A key that repeats the first byte of the password. -/
def firstByte : Pbkdf2 where
  derive := fun code _ _ len => List.replicate len (code.headD 0)
  length_derive := fun _ _ _ _ => List.length_replicate

def zeroes (n : ℕ) : Bytes n := ⟨List.replicate n 0, List.length_replicate⟩

theorem verify_hashPassword_firstByte :
    verify firstByte [2] (hashPassword firstByte (zeroes 16) (zeroes 64) [1] defaultIter) = .ok false ∧
      verify firstByte [1] (hashPassword firstByte (zeroes 16) (zeroes 64) [1] defaultIter) = .ok true :=
  verify_hashPassword firstByte [1] [2] (zeroes 16) (zeroes 64) defaultIter (by decide) (by decide)

/-! ## Other texts

What `Verify` does with a text that `HashPassword` has not made. It throws, refuses or compares, and
it is
known when each of them happens; in particular no form is checked beyond the two separators. -/

/-- The form of what `HashPassword` makes: a positive decimal `int`, 128 hexadecimal digits and 32. -/
def OfForm (storedHash : List UInt8) : Prop :=
  ∃ f : Fields, f.text = storedHash ∧ (∃ iter, 0 < iter ∧ iter ≤ 2147483647 ∧ f.count = toDecimal iter) ∧
    f.key.length = 128 ∧ Hex.IsHex f.key ∧ f.salt.length = 32 ∧ Hex.IsHex f.salt

/-- What `HashPassword` makes is of this form. -/
theorem ofForm_hashPassword (salt : Bytes 16) (key : Bytes 64) {iter : ℤ} (hpos : 0 < iter)
    (hint : iter ≤ 2147483647) : OfForm (hashPassword kdf salt key code iter) := by
  refine ⟨_, (hashPassword_eq salt key hpos).symm, ⟨iter.toNat, by omega, by omega, rfl⟩, ?_,
    Hex.isHex_hex _, ?_, Hex.isHex_hex _⟩
  · show (Hex.hex _).length = 128
    rw [Hex.length_hex, kdf.length_derive]
  · show (Hex.hex _).length = 32
    rw [Hex.length_hex, salt.property]

/-- A short text is not. -/
theorem length_of_ofForm (h : OfForm storedHash) : 162 < storedHash.length := by
  obtain ⟨f, rfl, ⟨iter, _, _, hcount⟩, hkey, _, hsalt, _⟩ := h
  have hne : 0 < f.count.length := by
    rw [hcount]
    exact List.length_pos_of_ne_nil (toDecimal_ne_nil iter)
  unfold Fields.text
  rw [List.length_append, List.length_cons, List.length_append, List.length_cons, hkey, hsalt]
  omega

/-- The fields can be read, and the key that is computed from them and the password is not theirs. -/
def Fields.Differs (kdf : Pbkdf2) (code : List UInt8) (f : Fields) : Prop :=
  ∃ iter salt key, stoi f.count = .ok iter ∧ Hex.unhex f.salt = .ok salt ∧ Hex.unhex f.key = .ok key ∧
    pkcs5Pbkdf2Hmac kdf code salt iter (List.replicate key.length 0) ≠ key

/-- The fields can be read, the count is not positive, and the key is not all zero. -/
structure Fields.Failing (f : Fields) : Prop where
  count : ∃ iter, stoi f.count = .ok iter ∧ iter ≤ 0
  salt : f.salt.length % 2 = 0 ∧ Hex.IsHex f.salt
  key : f.key.length % 2 = 0 ∧ Hex.IsHex f.key
  nonzero : ¬ ∀ c ∈ f.key, c = 48

theorem Fields.verify_eq_false_iff : f.verify kdf code = .ok false ↔ f.Differs kdf code := by
  rw [Fields.verify_eq_ok_iff]
  constructor
  · rintro ⟨iter, salt, key, hiter, hsalt, hkey, hfalse⟩
    exact ⟨iter, salt, key, hiter, hsalt, hkey, beq_eq_false_iff_ne.mp hfalse.symm⟩
  · rintro ⟨iter, salt, key, hiter, hsalt, hkey, hne⟩
    exact ⟨iter, salt, key, hiter, hsalt, hkey, (beq_eq_false_iff_ne.mpr hne).symm⟩

/-- PBKDF2, if it always had `key` for its result. -/
def constKey (key : List UInt8) : Pbkdf2 where
  derive := fun _ _ _ len => if key.length = len then key else List.replicate len 0
  length_derive := fun _ _ _ len => by
    split
    · assumption
    · exact List.length_replicate

/-- The key of a failed call is the buffer as it was. -/
theorem replicate_ne_iff {keyHex key : List UInt8} (h : Hex.unhex keyHex = .ok key) :
    List.replicate key.length 0 ≠ key ↔ ¬ ∀ c ∈ keyHex, c = 48 := by
  rw [← Hex.unhex_all_zero_iff h, Ne, eq_comm, List.eq_replicate_iff]
  simp

/-- A call of PBKDF2 that fails leaves zeros, and the key is not zero. -/
theorem Fields.differs_of_failing (h : f.Failing) : f.Differs kdf code := by
  obtain ⟨iter, hiter, hneg⟩ := h.count
  obtain ⟨salt, hsalt⟩ := Hex.exists_unhex_iff.mpr h.salt
  obtain ⟨key, hkey⟩ := Hex.exists_unhex_iff.mpr h.key
  refine ⟨iter, salt, key, hiter, hsalt, hkey, ?_⟩
  unfold pkcs5Pbkdf2Hmac
  rw [if_pos (by omega)]
  exact (replicate_ne_iff hkey).mpr h.nonzero

/-- If no PBKDF2 can match the key, then not even one that always returns it: the call must have
failed. -/
theorem Fields.failing_of_differs (h : ∀ kdf code, f.Differs kdf code) : f.Failing := by
  obtain ⟨_, _, key, _, _, hkey, _⟩ := h firstByte []
  obtain ⟨iter, salt, key', hiter, hsalt, hkey', hne⟩ := h (constKey key) []
  cases hkey.symm.trans hkey'
  unfold pkcs5Pbkdf2Hmac at hne
  split at hne
  · next hneg =>
    exact ⟨⟨iter, hiter, by omega⟩, Hex.exists_unhex_iff.mp ⟨salt, hsalt⟩,
      Hex.exists_unhex_iff.mp ⟨key, hkey⟩, (replicate_ne_iff hkey).mp hne⟩
  · -- with a positive count the key can be the stored one
    rw [List.length_replicate] at hne
    exact absurd (if_pos rfl) hne

theorem verify_eq_false_iff (h : f.text = storedHash) :
    verify kdf code storedHash = .ok false ↔ f.Differs kdf code := by
  rw [← h, verify_text, Fields.verify_eq_false_iff]

/-- **When `Verify` refuses a text**, whether it has the form of a hash or not: there are less than two
separators, or the fields can be read and give another key. The texts that no password can match,
whatever PBKDF2 computes, are the first ones and those with a count that is not positive and a key that
is not zero. -/
theorem verify_refuses_iff (storedHash : List UInt8) :
    (∀ kdf code, verify kdf code storedHash = .ok false ↔
      storedHash.count sep < 2 ∨ ∃ f : Fields, f.text = storedHash ∧ f.Differs kdf code) ∧
    ((∀ kdf code, verify kdf code storedHash = .ok false) ↔
      storedHash.count sep < 2 ∨ ∃ f : Fields, f.text = storedHash ∧ f.Failing) := by
  constructor
  · intro kdf code
    constructor
    · intro h
      by_cases hfew : storedHash.count sep < 2
      · exact .inl hfew
      · obtain ⟨f, hf⟩ := exists_fields (Nat.le_of_not_lt hfew)
        exact .inr ⟨f, hf, (verify_eq_false_iff hf).mp h⟩
    · rintro (hfew | ⟨f, hf, hdiffers⟩)
      · exact verify_of_count_lt hfew
      · exact (verify_eq_false_iff hf).mpr hdiffers
  · constructor
    · intro h
      by_cases hfew : storedHash.count sep < 2
      · exact .inl hfew
      · obtain ⟨f, hf⟩ := exists_fields (Nat.le_of_not_lt hfew)
        exact .inr ⟨f, hf, Fields.failing_of_differs fun kdf code =>
          (verify_eq_false_iff hf).mp (h kdf code)⟩
    · rintro (hfew | ⟨f, hf, hfailing⟩) kdf code
      · exact verify_of_count_lt hfew
      · exact (verify_eq_false_iff hf).mpr (Fields.differs_of_failing hfailing)

/-- A text with an empty key accepts every password. -/
theorem verify_of_key_nil (h : f.text = storedHash) (hkey : f.key = [])
    (hcount : ∃ iter, stoi f.count = .ok iter) (hsalt : f.salt.length % 2 = 0 ∧ Hex.IsHex f.salt) :
    verify kdf code storedHash = .ok true := by
  obtain ⟨iter, hiter⟩ := hcount
  obtain ⟨salt, hsalt⟩ := Hex.exists_unhex_iff.mpr hsalt
  rw [← h, verify_text]
  refine Fields.verify_eq_ok_iff.mpr ⟨iter, salt, [], hiter, hsalt, by rw [hkey]; rfl, ?_⟩
  have hlen : (pkcs5Pbkdf2Hmac kdf code salt iter []).length = 0 := by
    unfold pkcs5Pbkdf2Hmac
    split
    · rfl
    · exact kdf.length_derive _ _ _ _
  rw [List.length_nil, List.replicate_zero, List.eq_nil_of_length_eq_zero hlen]
  rfl

/-- `1&&` accepts a password, and `x&&` makes `Verify` throw. -/
theorem verify_malformed : ¬ OfForm [49, 38, 38] ∧ verify firstByte [7] [49, 38, 38] = .ok true ∧
    ¬ OfForm [120, 38, 38] ∧ verify firstByte [7] [120, 38, 38] = .error (.std .invalidArgument) := by
  refine ⟨fun h => ?_, rfl, fun h => ?_, rfl⟩
  · exact absurd (length_of_ofForm h) (by decide)
  · exact absurd (length_of_ofForm h) (by decide)

end Chatroom.Gateway.Security
