import Mathlib.Data.List.Nodup
import Mathlib.Data.List.Perm.Basic
import Mathlib.Logic.Function.Basic

/-!
# Lists with an index of positions

A list whose elements have keys, beside a map that is to say where each key stands. The operations
are those of an array that moves its elements about: swap two slots, append, overwrite a slot with
the last element and drop that. `Indexes` says that the map knows the position of every element; it
may know more (`support` lemmas say which keys it has).
-/

namespace PosIndex

variable {α κ : Type*} {key : α → κ} {l : List α} {m : κ → Option ℕ} {i j : ℕ}
  {a b : α}

/-- The map knows the position of every element. -/
def Indexes (key : α → κ) (l : List α) (m : κ → Option ℕ) : Prop :=
  ∀ i a, l[i]? = some a → m (key a) = some i

/-- A key stands in one place only. -/
theorem Indexes.slot_unique (h : Indexes key l m) (hi : l[i]? = some a) (hj : l[j]? = some b)
    (hk : key a = key b) : i = j := by
  have ha := h i a hi
  rw [hk, h j b hj] at ha
  exact (Option.some.inj ha).symm

/-- So no key occurs twice. -/
theorem Indexes.nodup_keys (h : Indexes key l m) : (l.map key).Nodup := by
  rw [List.nodup_iff_injective_getElem]
  rintro ⟨i, hi⟩ ⟨j, hj⟩ hij
  rw [List.length_map] at hi hj
  simp only [List.getElem_map] at hij
  exact Fin.ext (h.slot_unique (List.getElem?_eq_getElem hi) (List.getElem?_eq_getElem hj) hij)

theorem Indexes.nodup (h : Indexes key l m) : l.Nodup := h.nodup_keys.of_map

/-- Two elements with one key are the same. -/
theorem Indexes.key_inj (h : Indexes key l m) (ha : a ∈ l) (hb : b ∈ l) (hk : key a = key b) :
    a = b := by
  obtain ⟨i, hi⟩ := List.mem_iff_getElem?.mp ha
  obtain ⟨j, hj⟩ := List.mem_iff_getElem?.mp hb
  rw [h.slot_unique hi hj hk, hj] at hi
  exact (Option.some.inj hi).symm

/-- Every element has an entry. The converse is not part of `Indexes`. -/
theorem Indexes.isSome (h : Indexes key l m) (ha : a ∈ l) : (m (key a)).isSome := by
  obtain ⟨i, hi⟩ := List.mem_iff_getElem?.mp ha
  rw [h i a hi]; rfl

theorem Indexes.congr {key' : α → κ} (h : Indexes key l m) (hk : ∀ a ∈ l, key' a = key a) :
    Indexes key' l m := by
  intro i a hi
  rw [hk a (List.mem_of_getElem? hi), h i a hi]

/-- An element with the key of slot `i` may stand there in its place. -/
theorem Indexes.set (h : Indexes key l m) (hi : l[i]? = some a) (hk : key b = key a) :
    Indexes key (l.set i b) m := by
  have hil := (List.getElem?_eq_some_iff.mp hi).1
  intro k c hc
  rw [List.getElem?_set] at hc
  split at hc
  · next hik =>
    cases hc
    rw [hk, h i a hi, hik]
  · exact h k c hc

/-- To write what is there changes nothing. -/
theorem set_getElem?_self (hi : l[i]? = some a) : l.set i a = l := by
  obtain ⟨hlt, rfl⟩ := List.getElem?_eq_some_iff.mp hi
  exact List.set_getElem_self hlt

variable [DecidableEq κ]

/-! ## Swapping two slots

The entries are exchanged as they are, without a look at the list: this is right since they are the
positions of the two elements that are exchanged. -/

/-- Exchange the entries of two keys; a key without one counts as at position 0. -/
def swapKeys (x y : κ) (m : κ → Option ℕ) : κ → Option ℕ :=
  Function.update (Function.update m x (some ((m y).getD 0))) y (some ((m x).getD 0))

theorem swapKeys_of_ne {x y z : κ} (hx : z ≠ x) (hy : z ≠ y) : swapKeys x y m z = m z := by
  rw [swapKeys, Function.update_of_ne hy, Function.update_of_ne hx]

theorem swapKeys_right {x y : κ} : swapKeys x y m y = some ((m x).getD 0) := by
  rw [swapKeys, Function.update_self]

theorem swapKeys_left {x y : κ} : swapKeys x y m x = some ((m y).getD 0) := by
  by_cases hxy : x = y
  · rw [hxy, swapKeys_right]
  · rw [swapKeys, Function.update_of_ne hxy, Function.update_self]

/-- No key gets or loses an entry. -/
theorem swapKeys_support {x y z : κ} (hx : (m x).isSome) (hy : (m y).isSome) :
    (swapKeys x y m z).isSome = (m z).isSome := by
  by_cases hzx : z = x
  · rw [hzx, swapKeys_left, hx]; rfl
  by_cases hzy : z = y
  · rw [hzy, swapKeys_right, hy]; rfl
  rw [swapKeys_of_ne hzx hzy]

/-- The elements stay the same. -/
theorem swap_perm (hi : l[i]? = some a) (hj : l[j]? = some b) :
    ((l.set i b).set j a).Perm l := by
  obtain ⟨hil, rfl⟩ := List.getElem?_eq_some_iff.mp hi
  obtain ⟨hjl, rfl⟩ := List.getElem?_eq_some_iff.mp hj
  exact List.set_set_perm hil hjl

/-- Swapping two slots and the entries of their keys keeps the map right. -/
theorem Indexes.swap (h : Indexes key l m) (hi : l[i]? = some a) (hj : l[j]? = some b) :
    Indexes key ((l.set i b).set j a) (swapKeys (key b) (key a) m) := by
  have hil := (List.getElem?_eq_some_iff.mp hi).1
  have hjl := (List.getElem?_eq_some_iff.mp hj).1
  intro k c hk
  rw [List.getElem?_set] at hk
  split at hk
  · next hjk =>
    rw [List.length_set, if_pos (by omega)] at hk
    cases hk
    rw [swapKeys_right, h j b hj, Option.getD_some, hjk]
  · next hjk =>
    rw [List.getElem?_set] at hk
    split at hk
    · next hik =>
      cases hk
      rw [swapKeys_left, h i a hi, Option.getD_some, hik]
    · next hik =>
      have hcb : key c ≠ key b := fun hcb => hjk (h.slot_unique hk hj hcb).symm
      have hca : key c ≠ key a := fun hca => hik (h.slot_unique hk hi hca).symm
      rw [swapKeys_of_ne hcb hca, h k c hk]

/-! ## Appending

A new element comes last, and its entry is the old length. -/

/-- The other elements stay where they were. -/
theorem Indexes.append (h : Indexes key l m) (hnew : ∀ b ∈ l, key b ≠ key a) :
    Indexes key (l ++ [a]) (Function.update m (key a) (some l.length)) := by
  intro k c hk
  rw [List.getElem?_append] at hk
  split at hk
  · have hc : key c ≠ key a := hnew c (List.mem_of_getElem? hk)
    rw [Function.update_of_ne hc, h k c hk]
  · next hge =>
    have hk0 : k - l.length = 0 := by
      have := (List.getElem?_eq_some_iff.mp hk).1
      simpa using this
    rw [hk0] at hk
    cases hk
    rw [Function.update_self]
    congr 1
    omega

/-! ## The last element takes a slot

This is how an element is taken out of the middle without moving the others. The order of the three
updates
of the map matters for the last element itself: its key goes and comes back, unless the list had one
element
only. `backfillKeys_support` says which keys are left over. -/

/-- Overwrite slot `i` with the last element and drop the last slot. -/
def backfill (l : List α) (i : ℕ) (back : α) : List α := (l.set i back).dropLast

/-- The entries after that: the key that stood at `i` goes, the last one's is `i` now, except that
a list of one element leaves nothing to enter. -/
def backfillKeys (key : α → κ) (l : List α) (m : κ → Option ℕ) (i : ℕ) (gone : κ) (back : α) :
    κ → Option ℕ :=
  let m := Function.update m gone none
  if l.length > 1 then Function.update m (key back) (some i) else m

theorem backfill_length (l : List α) (i : ℕ) (back : α) :
    (backfill l i back).length = l.length - 1 := by
  simp [backfill]

/-- What stands where afterwards. -/
theorem getElem?_backfill {back : α} {k : ℕ} {c : α} (hk : (backfill l i back)[k]? = some c) :
    k + 1 < l.length ∧ (k = i ∧ c = back ∨ k ≠ i ∧ l[k]? = some c) := by
  have hlt := (List.getElem?_eq_some_iff.mp hk).1
  rw [backfill_length] at hlt
  refine ⟨by omega, ?_⟩
  rw [backfill, List.getElem?_dropLast, if_pos (by simpa using hlt), List.getElem?_set] at hk
  split at hk
  · next hik =>
    rw [if_pos (by omega)] at hk
    exact .inl ⟨hik.symm, (Option.some.inj hk).symm⟩
  · next hik => exact .inr ⟨fun h => hik h.symm, hk⟩

/-- One element is gone, and the rest is there. -/
theorem backfill_perm {back : α} (hi : l[i]? = some a) (hback : l.getLast? = some back) :
    l.Perm (a :: backfill l i back) := by
  obtain ⟨init, rfl⟩ := List.getLast?_eq_some_iff.mp hback
  obtain ⟨hil, hia⟩ := List.getElem?_eq_some_iff.mp hi
  rw [List.length_append, List.length_singleton] at hil
  by_cases hlast : i < init.length
  · -- the last element moves into the slot of `a`
    have hset : backfill (init ++ [back]) i back = init.set i back := by
      rw [backfill, List.set_append_left _ _ hlast, List.dropLast_concat]
    have ha : init[i] = a := by rw [← hia, List.getElem_append_left hlast]
    calc (init ++ [back]).Perm (back :: init) := List.perm_append_singleton back init
      _ |>.Perm (back :: a :: init.eraseIdx i) := by
          rw [← ha]; exact ((List.getElem_cons_eraseIdx_perm hlast).symm).cons back
      _ |>.Perm (a :: back :: init.eraseIdx i) := List.Perm.swap _ _ _
      _ |>.Perm (a :: backfill (init ++ [back]) i back) := by
          rw [hset]; exact (List.set_perm_cons_eraseIdx hlast back).symm.cons a
  · -- `a` is the last element, and is overwritten with itself before it goes
    have hi : i = init.length := by omega
    subst hi
    have ha : a = back := by rw [← hia]; simp
    have hset : backfill (init ++ [back]) init.length back = init := by
      simp [backfill]
    rw [hset, ha]
    exact List.perm_append_singleton back init

/-- The map stays right for the elements that remain. -/
theorem Indexes.backfill {back : α} (h : Indexes key l m) (hi : l[i]? = some a)
    (hback : l.getLast? = some back) :
    Indexes key (backfill l i back) (backfillKeys key l m i (key a) back) := by
  rw [List.getLast?_eq_getElem?] at hback
  intro k c hk
  obtain ⟨hlt, hcase⟩ := getElem?_backfill hk
  rw [backfillKeys, if_pos (by omega)]
  rcases hcase with ⟨rfl, rfl⟩ | ⟨hki, hkc⟩
  · rw [Function.update_self]
  · have hcb : key c ≠ key back := fun hcb => by
      have := h.slot_unique hkc hback hcb; omega
    have hca : key c ≠ key a := fun hca => hki (h.slot_unique hkc hi hca)
    rw [Function.update_of_ne hcb, Function.update_of_ne hca, h k c hkc]

/-- Which keys have an entry after that. The one that stood at `i` has kept its own exactly if `i`
was the last of several slots. -/
theorem Indexes.backfillKeys_support {back : α} (h : Indexes key l m) (hi : l[i]? = some a)
    (hback : l.getLast? = some back) (x : κ) :
    (backfillKeys key l m i (key a) back x).isSome ↔
      (m x).isSome ∧ (x = key a → i + 1 = l.length ∧ 1 < l.length) := by
  rw [List.getLast?_eq_getElem?] at hback
  have hil := (List.getElem?_eq_some_iff.mp hi).1
  -- the entry written for the last element is that of `key a` only if the two are the same
  have hlast : key back = key a ↔ i + 1 = l.length := by
    constructor
    · intro hk
      have := h.slot_unique hback hi hk; omega
    · intro hlast
      have : l.length - 1 = i := by omega
      rw [this, hi] at hback
      rw [Option.some.inj hback]
  have hm : (m (key back)).isSome := by rw [h _ _ hback]; rfl
  have hma : (m (key a)).isSome := by rw [h _ _ hi]; rfl
  unfold backfillKeys
  by_cases hxa : x = key a
  · subst hxa
    by_cases hlen : l.length > 1
    · rw [if_pos hlen, Function.update_apply, Function.update_self]
      by_cases hb : key a = key back
      · simp [hb, hm, hlast.mp hb.symm, hlen]
      · have hne : ¬ i + 1 = l.length := fun hl => hb (hlast.mpr hl).symm
        simp [hb, hne]
    · rw [if_neg hlen, Function.update_self]
      simp [hlen]
  · by_cases hlen : l.length > 1
    · rw [if_pos hlen, Function.update_apply, Function.update_of_ne hxa]
      by_cases hb : x = key back
      · simp [hb, hm]
        intro hba; exact absurd (hb.trans hba) hxa
      · simp [hb, hxa]
    · rw [if_neg hlen, Function.update_of_ne hxa]
      simp [hxa]

end PosIndex
