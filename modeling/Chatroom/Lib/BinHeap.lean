import Mathlib.Order.Lattice
import Mathlib.Order.Nat

/-!
# The order of a binary heap

The slots of a binary heap are numbered from 0, and those below slot `p` are `2p + 1` and `2p + 2`. Of
the elements only the keys matter here: `key k` is that of the element in slot `k`, for `k < n`.

`Ordered` is the order of a heap. A repair works on a heap that is out of order around one slot `i`
only. Then the two pairs around `i` are what is left to mend, above (`UpOrdered`), below
(`DownOrdered`) or both (`OrderedExcept`). In all three the slot above `i` and those below it are in
order with each other, so that an exchange across `i` does no harm. Each exchange moves the trouble by
one slot; the lemmas say where to.
-/

namespace BinHeap

variable {β : Type*} [LinearOrder β] {key key' : ℕ → β} {n p c i : ℕ}

/-- Slot `c` is right below slot `p`. -/
def Child (p c : ℕ) : Prop := c = p * 2 + 1 ∨ c = p * 2 + 2

theorem Child.lt (h : Child p c) : p < c := by
  unfold Child at h
  omega

theorem Child.pos (h : Child p c) : 0 < c := Nat.lt_of_le_of_lt (Nat.zero_le p) h.lt

/-- A slot is below one other. -/
theorem Child.unique {q : ℕ} (h : Child p c) (h' : Child q c) : q = p := by
  unfold Child at h h'
  omega

/-- The slot that a program computes by a division is the one above. -/
theorem child_parent (h : 0 < c) : Child ((c - 1) / 2) c := by
  unfold Child
  omega

/-- No element is below one with a greater key. -/
def Ordered (key : ℕ → β) (n : ℕ) : Prop := ∀ p c, Child p c → c < n → key p ≤ key c

/-- The slot above `i` is in order with the slots below `i`. -/
def Bridged (key : ℕ → β) (n i : ℕ) : Prop :=
  ∀ p c, Child p i → Child i c → c < n → key p ≤ key c

/-- In order except for the pair above slot `i`. -/
structure UpOrdered (key : ℕ → β) (n i : ℕ) : Prop where
  pairs : ∀ p c, Child p c → c < n → c ≠ i → key p ≤ key c
  bridged : Bridged key n i

/-- In order except for the pairs below slot `i`. -/
structure DownOrdered (key : ℕ → β) (n i : ℕ) : Prop where
  pairs : ∀ p c, Child p c → c < n → p ≠ i → key p ≤ key c
  bridged : Bridged key n i

/-- In order except for the pairs above and below slot `i`. -/
structure OrderedExcept (key : ℕ → β) (n i : ℕ) : Prop where
  pairs : ∀ p c, Child p c → c < n → p ≠ i → c ≠ i → key p ≤ key c
  bridged : Bridged key n i

/-- The keys after slots `i` and `j` have been exchanged. -/
structure Swapped (i j : ℕ) (key key' : ℕ → β) : Prop where
  left : key' i = key j
  right : key' j = key i
  other : ∀ k, k ≠ i → k ≠ j → key' k = key k

/-! ## From order to order

How a heap gets out of order, by a new key in one slot or by an element at its end, and that one which
is in
order is so around every slot. -/

/-- In an ordered heap the slots around any slot are in order with each other. -/
theorem Ordered.bridged (h : Ordered key n) (i : ℕ) : Bridged key n i := by
  intro p c hp hc hlt
  exact (h p i hp (hc.lt.trans hlt)).trans (h i c hc hlt)

theorem Ordered.up (h : Ordered key n) (i : ℕ) : UpOrdered key n i :=
  ⟨fun p c hc hlt _ => h p c hc hlt, h.bridged i⟩

theorem Ordered.down (h : Ordered key n) (i : ℕ) : DownOrdered key n i :=
  ⟨fun p c hc hlt _ => h p c hc hlt, h.bridged i⟩

/-- The element on top has the least key. -/
theorem Ordered.top_le (h : Ordered key n) : ∀ {k : ℕ}, k < n → key 0 ≤ key k := by
  intro k
  induction k using Nat.strong_induction_on with
  | _ k ih =>
    intro hk
    rcases Nat.eq_zero_or_pos k with rfl | hpos
    · exact le_refl _
    · have hparent := child_parent hpos
      exact (ih _ hparent.lt (hparent.lt.trans hk)).trans (h _ _ hparent hk)

/-- One slot has changed, and the last ones may be gone. -/
theorem Ordered.except {m : ℕ} (h : Ordered key n) (hm : m ≤ n)
    (hsame : ∀ k, k ≠ i → k < m → key' k = key k) : OrderedExcept key' m i := by
  constructor
  · intro p c hc hlt hp hci
    rw [hsame p hp (hc.lt.trans hlt), hsame c hci hlt]
    exact h p c hc (hlt.trans_le hm)
  · intro p c hp hc hlt
    have hi : i < m := hc.lt.trans hlt
    rw [hsame p hp.lt.ne (hp.lt.trans hi), hsame c hc.lt.ne' hlt]
    exact h.bridged i p c hp hc (hlt.trans_le hm)

/-- An element has come in behind the last. -/
theorem Ordered.append (h : Ordered key n) (hsame : ∀ k < n, key' k = key k) :
    UpOrdered key' (n + 1) n := by
  constructor
  · intro p c hc hlt hne
    have hcn : c < n := by omega
    rw [hsame p (hc.lt.trans hcn), hsame c hcn]
    exact h p c hc hcn
  · intro p c _ hc hlt
    have := hc.lt
    omega

/-! ## Going up

A repair upwards compares with the slot above and exchanges. It may stop where that pair is in order. -/

/-- The pair above is in order after all. -/
theorem UpOrdered.ordered (h : UpOrdered key n i)
    (hi : ∀ p, Child p i → i < n → key p ≤ key i) : Ordered key n := by
  intro p c hc hlt
  rcases eq_or_ne c i with rfl | hne
  · exact hi p hc hlt
  · exact h.pairs p c hc hlt hne

/-- On top there is no pair above. -/
theorem UpOrdered.top (h : UpOrdered key n 0) : Ordered key n := by
  apply h.ordered
  intro p hp
  exact absurd hp.pos (Nat.lt_irrefl 0)

/-- The greater element above `i` has been exchanged with that in `i`. -/
theorem UpOrdered.swap (h : UpOrdered key n i) (hp : Child p i) (hi : i < n) (hle : key i ≤ key p)
    (hs : Swapped p i key key') : UpOrdered key' n p := by
  have hne : p ≠ i := hp.lt.ne
  constructor
  · intro q c hc hlt hcp
    rcases eq_or_ne c i with rfl | hci
    · obtain rfl := hp.unique hc
      rw [hs.left, hs.right]
      exact hle
    · rw [hs.other c hcp hci]
      rcases eq_or_ne q p with rfl | hqp
      · -- the other slot below `p`
        rw [hs.left]
        exact hle.trans (h.pairs q c hc hlt hci)
      · rcases eq_or_ne q i with rfl | hqi
        · rw [hs.right]
          exact h.bridged p c hp hc hlt
        · rw [hs.other q hqp hqi]
          exact h.pairs q c hc hlt hci
  · intro q c hq hc hlt
    have hqi : q ≠ i := (hq.lt.trans hp.lt).ne
    rw [hs.other q hq.lt.ne hqi]
    have hqp : key q ≤ key p := h.pairs q p hq (hp.lt.trans hi) hne
    rcases eq_or_ne c i with rfl | hci
    · rw [hs.right]
      exact hqp
    · rw [hs.other c hc.lt.ne' hci]
      exact hqp.trans (h.pairs p c hc hlt hci)

/-! ## Going down

A repair downwards compares with the lesser of the two slots below. -/

/-- The pairs below are in order after all. -/
theorem DownOrdered.ordered (h : DownOrdered key n i)
    (hi : ∀ c, Child i c → c < n → key i ≤ key c) : Ordered key n := by
  intro p c hc hlt
  rcases eq_or_ne p i with rfl | hne
  · exact hi c hc hlt
  · exact h.pairs p c hc hlt hne

/-- The lesser of the elements below `i` has been exchanged with that in `i`. -/
theorem DownOrdered.swap (h : DownOrdered key n i) (hc : Child i c) (hlt : c < n)
    (hmin : ∀ d, Child i d → d < n → key c ≤ key d) (hle : key c ≤ key i)
    (hs : Swapped i c key key') : DownOrdered key' n c := by
  have hne : i ≠ c := hc.lt.ne
  constructor
  · intro q d hd hdn hqc
    rcases eq_or_ne q i with rfl | hqi
    · rw [hs.left]
      rcases eq_or_ne d c with rfl | hdc
      · rw [hs.right]
        exact hle
      · rw [hs.other d hd.lt.ne' hdc]
        exact hmin d hd hdn
    · rw [hs.other q hqi hqc]
      rcases eq_or_ne d i with rfl | hdi
      · rw [hs.left]
        exact h.bridged q c hd hc hlt
      · have hdc : d ≠ c := by
          rintro rfl
          exact hqi (hc.unique hd)
        rw [hs.other d hdi hdc]
        exact h.pairs q d hd hdn hqi
  · intro q d hq hd hdn
    obtain rfl := hc.unique hq
    have hdq : d ≠ q := (hq.lt.trans hd.lt).ne'
    rw [hs.left, hs.other d hdq hd.lt.ne']
    exact h.pairs c d hd hdn hne.symm

/-! ## Either way

After a change in one slot it is not known in which direction the trouble is; the comparison with the
slot above
or with those below decides. -/

/-- If it is in order below, the trouble is above. -/
theorem OrderedExcept.up (h : OrderedExcept key n i) (hi : ∀ c, Child i c → c < n → key i ≤ key c) :
    UpOrdered key n i := by
  refine ⟨fun q c hc hlt hne => ?_, h.bridged⟩
  rcases eq_or_ne q i with rfl | hqi
  · exact hi c hc hlt
  · exact h.pairs q c hc hlt hqi hne

/-- What is less than the element above `i` is less than those below. -/
theorem OrderedExcept.up_of_le (h : OrderedExcept key n i) (hp : Child p i) (hle : key i ≤ key p) :
    UpOrdered key n i := by
  apply h.up
  intro c hc hlt
  exact hle.trans (h.bridged p c hp hc hlt)

/-- If it is in order above, the trouble is below. -/
theorem OrderedExcept.down (h : OrderedExcept key n i) (hi : ∀ p, Child p i → i < n → key p ≤ key i) :
    DownOrdered key n i := by
  refine ⟨fun q c hc hlt hne => ?_, h.bridged⟩
  rcases eq_or_ne c i with rfl | hci
  · exact hi q hc hlt
  · exact h.pairs q c hc hlt hne hci

end BinHeap
