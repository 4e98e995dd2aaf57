import Chatroom.Lib.Base64
import Chatroom.Http.Dbm.Security

/-!
# The tokens of the logins (`TokenGenerator`)

A token is 24 random bytes in base64, made safe for URLs: two characters are replaced and the padding
is removed. Nothing is lost on the way, so two tokens are equal only if the bytes are. The encoder is
OpenSSL's `EVP_EncodeBlock`, so it is a parameter here, and that it writes the usual base64 is a
hypothesis.
-/

namespace Chatroom.Gateway

open Security (Bytes)

/-- The character of a digit in the usual base64. -/
def base64Char (d : ℕ) : UInt8 :=
  if d < 26 then .ofNat (65 + d)
  else if d < 52 then .ofNat (71 + d)
  else if d < 62 then .ofNat (d - 4)
  else if d = 62 then 43
  else 47

/-- `'='`. -/
def base64Pad : UInt8 := 61

/-- The usual base64 of a block of bytes. -/
def base64 (bytes : List UInt8) : List UInt8 := Base64.encode base64Char base64Pad bytes

/-- What is assumed of `EVP_EncodeBlock`: it writes the usual base64, with padding and without line
breaks. -/
def WritesBase64 (evpEncodeBlock : List UInt8 → List UInt8) : Prop :=
  ∀ bytes, evpEncodeBlock bytes = base64 bytes

/-- `'+'` becomes `'-'`, and `'/'` becomes `'_'`. -/
def urlSafe (c : UInt8) : UInt8 := if c = 43 then 45 else if c = 47 then 95 else c

/-- `TokenGenerator()`, where `RAND_bytes` has drawn `bytes`. -/
def tokenGenerator (evpEncodeBlock : List UInt8 → List UInt8) (bytes : Bytes 24) : List UInt8 :=
  ((evpEncodeBlock bytes.val).map urlSafe).filter (· ≠ base64Pad)

/-- The characters of a token: letters, digits, `-` and `_`; and their values. -/
def urlValue (c : UInt8) : Option ℕ :=
  if 65 ≤ c.toNat ∧ c.toNat ≤ 90 then some (c.toNat - 65)
  else if 97 ≤ c.toNat ∧ c.toNat ≤ 122 then some (c.toNat - 71)
  else if 48 ≤ c.toNat ∧ c.toNat ≤ 57 then some (c.toNat + 4)
  else if c = 45 then some 62
  else if c = 95 then some 63
  else none

variable {evpEncodeBlock : List UInt8 → List UInt8}

/-! ## Reading a token back

The replacement is one of digits by digits, so the token is base64 in another alphabet. Since 24 is a
multiple
of three there is no padding to remove, and the general round trip applies. -/

/-- The value of a digit can be read off its character, also after the replacement. -/
theorem urlValue_urlSafe : ∀ d, d < 64 → urlValue (urlSafe (base64Char d)) = some d := by
  decide

/-- No digit is taken for padding and removed. -/
theorem urlSafe_ne_pad : ∀ d, d < 64 → urlSafe (base64Char d) ≠ base64Pad := by
  decide

/-- The token as base64 without padding, with digits that are safe in a URL. -/
theorem tokenGenerator_eq (h : WritesBase64 evpEncodeBlock) (bytes : Bytes 24) :
    tokenGenerator evpEncodeBlock bytes = Base64.encodeBare (urlSafe ∘ base64Char) bytes.val := by
  unfold tokenGenerator
  rw [h, base64, Base64.map_encode]
  exact Base64.filter_encode urlSafe_ne_pad bytes.val

/-- **A token keeps all of the random bytes**: they can be read back. It has 32 characters, and all of
them are safe in a URL. -/
theorem tokenGenerator_readable (evpEncodeBlock : List UInt8 → List UInt8)
    (h : WritesBase64 evpEncodeBlock) (bytes : Bytes 24) :
    Base64.decode urlValue (tokenGenerator evpEncodeBlock bytes) = some bytes.val ∧
      (tokenGenerator evpEncodeBlock bytes).length = 32 ∧
      ∀ c ∈ tokenGenerator evpEncodeBlock bytes, (urlValue c).isSome := by
  rw [tokenGenerator_eq h]
  refine ⟨Base64.decode_encodeBare urlValue_urlSafe bytes.val,
    Base64.length_encodeBare (k := 8) bytes.property, fun c hc => ?_⟩
  obtain ⟨d, hd, rfl⟩ := Base64.exists_digit_of_mem_encodeBare hc
  exact Option.isSome_iff_exists.mpr ⟨d, urlValue_urlSafe d hd⟩

/-- Bytes whose base64 is `++//` over and over; the token is `--__`. -/
theorem tokenGenerator_readable_plus :
    tokenGenerator base64 ⟨(List.replicate 8 [251, 239, 255]).flatten, rfl⟩ =
        (List.replicate 8 [45, 45, 95, 95]).flatten ∧
      Base64.decode urlValue (List.replicate 8 [45, 45, 95, 95]).flatten =
        some (List.replicate 8 [251, 239, 255]).flatten := by
  have htoken : tokenGenerator base64 ⟨(List.replicate 8 [251, 239, 255]).flatten, rfl⟩ =
      (List.replicate 8 [45, 45, 95, 95]).flatten := by
    decide +kernel
  refine ⟨htoken, ?_⟩
  rw [← htoken]
  exact (tokenGenerator_readable base64 (fun _ => rfl) _).1

end Chatroom.Gateway
