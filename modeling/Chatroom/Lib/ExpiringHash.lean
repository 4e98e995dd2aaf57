import Mathlib.Data.Fintype.Defs
import Mathlib.Data.Nat.Notation
import Mathlib.Logic.Function.Basic

/-!
# Hashes that expire

A key of a store that holds fields, where the key may have a time of expiry and so may each field. A
key is there while its time has not come and some field is left. What is written to a key that is no
longer there makes a new key, which has no time of expiry; setting the time of expiry of a field does
nothing to a field that is not there. All operations are made at a time `now`.

`live` is what can be seen of a hash at a time, and each operation has one lemma about it.

A hash is not cleaned up when its time comes, but when it is next written to: `purge` leaves what is
still there, and every operation that writes starts with it. So the difference between a field that
has
expired and one that was never set cannot be seen.
-/

namespace ExpiringHash

/-- The time has not come. -/
def alive (now : ℕ) : Option ℕ → Bool
  | none => true
  | some t => now < t

structure Field (β : Type*) where
  val : β
  expiresAt : Option ℕ
  deriving DecidableEq, Repr

structure Hash (φ β : Type*) where
  fields : φ → Option (Field β)
  expiresAt : Option ℕ

namespace Hash

variable {φ β : Type*} {now now' ttl : ℕ} {h : Hash φ β} {f g : φ} {x : Field β} {v : β}

/-- No key. -/
def empty : Hash φ β := ⟨fun _ => none, none⟩

/-- A field as long as it is there. -/
def live (h : Hash φ β) (now : ℕ) (f : φ) : Option (Field β) :=
  if alive now h.expiresAt then (h.fields f).filter fun x => alive now x.expiresAt else none

def hget (h : Hash φ β) (now : ℕ) (f : φ) : Option β := (h.live now f).map Field.val

@[simp] theorem live_empty (now : ℕ) (f : φ) : (empty : Hash φ β).live now f = none := rfl

@[simp] theorem hget_empty (now : ℕ) (f : φ) : (empty : Hash φ β).hget now f = none := rfl

/-- A field is seen while neither its own time nor that of the key has come. -/
theorem live_eq_some_iff : h.live now f = some x ↔
    alive now h.expiresAt = true ∧ h.fields f = some x ∧ alive now x.expiresAt = true := by
  unfold live
  split
  · next hkey => simp [hkey, Option.filter_eq_some_iff]
  · next hkey => simp [hkey]

theorem live_of_alive (hkey : alive now h.expiresAt = true) :
    h.live now f = (h.fields f).filter fun x => alive now x.expiresAt := by
  rw [live, if_pos hkey]

/-- Of a field that is seen the time has not come. -/
theorem filter_live (h : Hash φ β) (now : ℕ) (f : φ) :
    ((h.live now f).filter fun x => alive now x.expiresAt) = h.live now f := by
  unfold live
  split
  · simp [Option.filter_filter]
  · rfl

/-- With the key all of its fields go. -/
theorem live_of_expired (hkey : alive now h.expiresAt = false) : h.live now f = none := by
  rw [live, hkey]
  rfl

/-- A time that has not come by now had not come before. -/
theorem alive_mono {t : Option ℕ} (hle : now ≤ now') (h : alive now' t = true) :
    alive now t = true := by
  cases t with
  | none => rfl
  | some t =>
    simp only [alive, decide_eq_true_eq] at h ⊢
    omega

/-- **Time only takes away.** -/
theorem live_mono (hle : now ≤ now') (hlive : h.live now' f = some x) : h.live now f = some x := by
  rw [live_eq_some_iff] at hlive ⊢
  exact ⟨alive_mono hle hlive.1, hlive.2.1, alive_mono hle hlive.2.2⟩

/-! ## The operations

`live` of the result at the time of the operation is what a reader sees next; for the time after it
the expiry of the key is needed as well, which only `pexpire` sets and which a key loses by becoming
empty. -/

variable [Fintype φ]

/-- What is left at a time. -/
def purge (h : Hash φ β) (now : ℕ) : Hash φ β :=
  if ∀ f, (h.live now f).isNone = true then empty else ⟨h.live now, h.expiresAt⟩

/-- What is left of a hash has not expired. -/
theorem alive_purge (h : Hash φ β) (now : ℕ) : alive now (h.purge now).expiresAt = true := by
  unfold purge
  split
  · rfl
  · next hsome =>
    by_contra hkey
    exact hsome fun f => by rw [live_of_expired (by simpa using hkey)]; rfl

/-- What is left are the fields that are seen. -/
theorem fields_purge (h : Hash φ β) (now : ℕ) : (h.purge now).fields = h.live now := by
  funext f
  unfold purge
  split
  · next hnone => exact (Option.isNone_iff_eq_none.mp (hnone f)).symm
  · rfl

/-- A key with a field left keeps its time of expiry. -/
theorem purge_of_live (hlive : h.live now f = some x) : h.purge now = ⟨h.live now, h.expiresAt⟩ := by
  refine if_neg fun hnone => ?_
  have hf := hnone f
  rw [hlive] at hf
  cases hf

/-- Of a key whose time has come nothing is left, and the next write makes a new key. -/
theorem purge_of_expired (hkey : alive now h.expiresAt = false) : h.purge now = empty := by
  refine if_pos fun f => ?_
  rw [live_of_expired hkey]
  rfl

@[simp] theorem purge_empty (now : ℕ) : (empty : Hash φ β).purge now = empty := if_pos fun _ => rfl

/-- `PEXPIRE`. -/
def pexpire (h : Hash φ β) (now ttl : ℕ) : Hash φ β :=
  let h := h.purge now
  if ∀ f, (h.fields f).isNone = true then h else { h with expiresAt := some (now + ttl) }

/-- Setting the time of the key changes none of its fields. -/
theorem live_pexpire (hpos : 0 < ttl) : (h.pexpire now ttl).live now f = h.live now f := by
  unfold pexpire
  dsimp only
  split
  · rw [live_of_alive (alive_purge h now), fields_purge, filter_live]
  · have hkey : alive now (some (now + ttl)) = true := by simp [alive, hpos]
    rw [live_of_alive hkey, fields_purge, filter_live]

/-- It is the time of the key from then on, if the key is there. -/
theorem expiresAt_pexpire (hlive : h.live now f = some x) :
    (h.pexpire now ttl).expiresAt = some (now + ttl) := by
  unfold pexpire
  dsimp only
  rw [if_neg]
  intro hnone
  have hf := hnone f
  rw [fields_purge, hlive] at hf
  cases hf

variable [DecidableEq φ]

/-- Change one field of what is left. -/
def modify (h : Hash φ β) (now : ℕ) (f : φ) (k : Option (Field β) → Option (Field β)) : Hash φ β :=
  let h := h.purge now
  { h with fields := Function.update h.fields f (k (h.fields f)) }

/-- `HSET` and `HSETEX` of one field. -/
def hset (h : Hash φ β) (now : ℕ) (f : φ) (v : β) : Hash φ β := h.modify now f fun _ => some ⟨v, none⟩

def hsetex (h : Hash φ β) (now ttl : ℕ) (f : φ) (v : β) : Hash φ β :=
  h.modify now f fun _ => some ⟨v, some (now + ttl)⟩

/-- `HEXPIRE` of one field. -/
def hexpire (h : Hash φ β) (now ttl : ℕ) (f : φ) : Hash φ β :=
  h.modify now f (Option.map fun x => { x with expiresAt := some (now + ttl) })

variable {k : Option (Field β) → Option (Field β)}

theorem fields_modify_self : (h.modify now f k).fields f = k (h.live now f) := by
  rw [← fields_purge]
  exact Function.update_self ..

theorem fields_modify_of_ne (hne : g ≠ f) : (h.modify now f k).fields g = h.live now g := by
  rw [← fields_purge]
  exact Function.update_of_ne hne ..

/-- A field that has been changed is there if its time has not come. -/
theorem live_modify_self : (h.modify now f k).live now f =
    (k (h.live now f)).filter fun x => alive now x.expiresAt := by
  have hkey : alive now (h.modify now f k).expiresAt = true := alive_purge h now
  rw [live_of_alive hkey, fields_modify_self]

/-- The other fields are seen as before. -/
theorem live_modify_of_ne (hne : g ≠ f) : (h.modify now f k).live now g = h.live now g := by
  have hkey : alive now (h.modify now f k).expiresAt = true := alive_purge h now
  rw [live_of_alive hkey, fields_modify_of_ne hne, filter_live]

/-- **Writing a field does not prolong the life of the key.** -/
theorem expiresAt_modify (hlive : h.live now g = some x) :
    (h.modify now f k).expiresAt = h.expiresAt := by
  rw [modify, purge_of_live hlive]

/-- A value written can be read. -/
theorem hget_hset_self : (h.hset now f v).hget now f = some v := by
  rw [hget, hset, live_modify_self]
  rfl

theorem hget_hsetex_self (hpos : 0 < ttl) : (h.hsetex now ttl f v).hget now f = some v := by
  rw [hget, hsetex, live_modify_self]
  simp [alive, hpos]

/-- Writing one field leaves the others readable as they were. -/
theorem hget_modify_of_ne (hne : g ≠ f) : (h.modify now f k).hget now g = h.hget now g := by
  rw [hget, live_modify_of_ne hne, hget]

/-- To expire later is not seen. -/
theorem hget_hexpire (hpos : 0 < ttl) : (h.hexpire now ttl f).hget now g = h.hget now g := by
  by_cases hg : g = f
  · subst hg
    rw [hget, hexpire, live_modify_self, hget]
    cases h.live now g with
    | none => rfl
    | some x => simp [alive, hpos]
  · exact hget_modify_of_ne hg

/-- Nothing comes of a key that is no longer there. -/
theorem hexpire_of_purge (hgone : h.purge now = empty) : h.hexpire now ttl f = empty := by
  rw [hexpire, modify, hgone]
  show (⟨Function.update (fun _ => none) f none, none⟩ : Hash φ β) = empty
  rw [Function.update_eq_self_iff.mpr rfl]
  rfl

@[simp] theorem hexpire_empty (now ttl : ℕ) (f : φ) :
    (empty : Hash φ β).hexpire now ttl f = empty :=
  hexpire_of_purge (purge_empty now)

/-- The key keeps its time of expiry, if it is there. -/
theorem expiresAt_hexpire (h : Hash φ β) (now ttl : ℕ) (f : φ) :
    (h.hexpire now ttl f).expiresAt = h.expiresAt ∨ h.hexpire now ttl f = empty := by
  by_cases hgone : h.purge now = empty
  · exact .inr (hexpire_of_purge hgone)
  · have hkept : h.purge now = ⟨h.live now, h.expiresAt⟩ := by
      unfold purge at hgone ⊢
      split at hgone
      · exact absurd rfl hgone
      · next hsome => rw [if_neg hsome]
    left
    rw [hexpire, modify, hkept]

end Hash

end ExpiringHash
