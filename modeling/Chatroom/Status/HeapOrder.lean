import Chatroom.Lib.BinHeap
import Chatroom.Status.MinHeap

/-!
# The order of the indexed heap

`HeapUp` and `HeapDown` repair a heap that is out of order around one slot, the one above it and the
other below it; one after the other they repair whatever has happened to the slot. `HeapUp` goes on
to the top whether it exchanges elements or not, and `HeapDown` also exchanges elements of equal
load. Neither does harm.

The arguments about parents and children are those of `BinHeap`, about any function from slots to
loads. A
heap enters through `loadAt`, and an exchange of two slots through `swap_swapped`; what is left to
show
here is that the loops of the source, with their tests, take the steps that the general lemmas are
about.
-/

namespace Chatroom.Status

open PosIndex BinHeap

variable {T β : Type*} [LinearOrder β]

/-- `greater_comp` compares loads. -/
def Elem.ByLoad (e : Elem T) (load : T → β) : Prop := ∀ a b, e.comp a b = true ↔ load b < load a

namespace MinHeap

variable [Inhabited β] {e : Elem T} {load : T → β} {h h' : MinHeap T} {i j cur : ℕ} {a b : T}

/-- The load of the element in a slot. -/
def loadAt (load : T → β) (h : MinHeap T) (k : ℕ) : β := ((h.vec[k]?).map load).getD default

/-- No parent has a greater load than its children. -/
def Ordered (load : T → β) (h : MinHeap T) : Prop := BinHeap.Ordered (h.loadAt load) h.vec.length

omit [LinearOrder β] in
theorem loadAt_eq (hi : h.vec[i]? = some a) : h.loadAt load i = load a := by
  rw [loadAt, hi]
  rfl

/-- A pair that `greater_comp` leaves alone is in order. -/
theorem not_comp (he : e.ByLoad load) (hi : h.vec[i]? = some a) (hj : h.vec[j]? = some b) :
    ¬ e.comp a b = true ↔ h.loadAt load i ≤ h.loadAt load j := by
  rw [he, not_lt, loadAt_eq hi, loadAt_eq hj]

omit [LinearOrder β] in
/-- An exchange of two slots exchanges their loads. -/
theorem swap_swapped (e : Elem T) (load : T → β) (hi : i < h.vec.length) (hj : j < h.vec.length) :
    ∃ h', h.swap e i j = .ok h' ∧ h'.vec.length = h.vec.length ∧
      Swapped i j (h.loadAt load) (h'.loadAt load) := by
  obtain ⟨a, ha, hsa⟩ := slot_eq_ok hi
  obtain ⟨b, hb, hsb⟩ := slot_eq_ok hj
  refine ⟨⟨(h.vec.set i b).set j a, swapKeys (e.getID b) (e.getID a) h.idx⟩, ?_, ?_, ?_, ?_, ?_⟩
  · rw [swap, hsa, hsb]
    rfl
  · simp
  · rw [loadAt_eq hb]
    apply loadAt_eq
    rcases eq_or_ne j i with rfl | hne
    · rw [List.getElem?_set_self (by simpa using hj), ← ha, hb]
    · rw [List.getElem?_set_ne hne, List.getElem?_set_self hi]
  · rw [loadAt_eq ha]
    apply loadAt_eq
    rw [List.getElem?_set_self (by simpa using hj)]
  · intro k hki hkj
    simp only [loadAt]
    rw [List.getElem?_set_ne hkj.symm, List.getElem?_set_ne hki.symm]

/-! ## Up

The invariant of the loop, `UpOrdered`: everything is in order, but for the pair of the slot and its
parent. A swap moves this pair one level up. -/

/-- `HeapUp` mends the pair above its slot. -/
theorem heapUpLoop_ordered (he : e.ByLoad load) : ∀ {n cur : ℕ} {h : MinHeap T}, cur ≤ n →
    cur < h.vec.length → UpOrdered (h.loadAt load) h.vec.length cur →
      ∃ h', heapUpLoop e n h cur = .ok h' ∧ h'.Ordered load
  | 0, cur, h, hcur, _, hup => by
    obtain rfl : cur = 0 := by omega
    exact ⟨h, rfl, hup.top⟩
  | n + 1, cur, h, hcur, hlt, hup => by
    rcases Nat.eq_zero_or_pos cur with rfl | hpos
    · exact ⟨h, heapUpLoop_top _ _, hup.top⟩
    · have hchild := child_parent hpos
      have hparent : (cur - 1) / 2 < h.vec.length := hchild.lt.trans hlt
      obtain ⟨p, c, hp, hc, hswapped, hkept⟩ := heapUpLoop_turn (e := e) n hpos hlt
      by_cases hcomp : e.comp p c = true
      · obtain ⟨h₁, hswap, hlen, hs⟩ := swap_swapped e load hparent hlt
        have hle : h.loadAt load cur ≤ h.loadAt load ((cur - 1) / 2) := by
          rw [loadAt_eq hp, loadAt_eq hc]
          exact ((he p c).mp hcomp).le
        have hup₁ := hup.swap hchild hlt hle hs
        rw [← hlen] at hup₁ hparent
        rw [hswapped hcomp h₁ hswap]
        exact heapUpLoop_ordered he (by omega) hparent hup₁
      · -- the pair is in order, and so is all the heap; the loop goes on nevertheless
        have hord : h.Ordered load := by
          apply hup.ordered
          intro q hq _
          rw [hchild.unique hq]
          exact (not_comp he hp hc).mp hcomp
        rw [hkept hcomp]
        exact heapUpLoop_ordered he (by omega) hparent (hord.up _)

/-- `HeapUp` as a whole: at most `cur` turns from slot `cur`. -/
theorem heapUp_ordered (he : e.ByLoad load) (hlt : cur < h.vec.length)
    (hup : UpOrdered (h.loadAt load) h.vec.length cur) :
    ∃ h', h.heapUp e cur = .ok h' ∧ h'.Ordered load :=
  heapUpLoop_ordered he (Nat.le_refl _) hlt hup

/-- `HeapUp` changes nothing where the way up is in order. -/
theorem heapUpLoop_of_path (he : e.ByLoad load) : ∀ {n cur : ℕ}, cur < h.vec.length →
    (∀ p c, Child p c → c ≤ cur → h.loadAt load p ≤ h.loadAt load c) →
      heapUpLoop e n h cur = .ok h
  | 0, _, _, _ => rfl
  | n + 1, cur, hlt, hpath => by
    rcases Nat.eq_zero_or_pos cur with rfl | hpos
    · exact heapUpLoop_top _ _
    · have hchild := child_parent hpos
      obtain ⟨p, c, hp, hc, -, hkept⟩ := heapUpLoop_turn (e := e) n hpos hlt
      rw [hkept ((not_comp he hp hc).mpr (hpath _ _ hchild (Nat.le_refl _)))]
      exact heapUpLoop_of_path he (hchild.lt.trans hlt)
        fun q d hd hle => hpath q d hd (hle.trans hchild.lt.le)

/-! ## Down

The invariant of the loop, `DownOrdered`: everything is in order, but for the pairs of the slot and
its
children. The lesser child takes the slot, and the pairs out of order are one level further down. -/

/-- The element stays where it is. -/
theorem stay_ordered {total : ℕ} (hlen : h.vec.length = total)
    (hdown : DownOrdered (h.loadAt load) total cur)
    (hle : ∀ c, Child cur c → c < total → h.loadAt load cur ≤ h.loadAt load c) :
    ∃ h', (.ok h : Except HeapError (MinHeap T)) = .ok h' ∧ h'.Ordered load := by
  refine ⟨h, rfl, ?_⟩
  rw [Ordered, hlen]
  exact hdown.ordered hle

/-- One turn with two children, `c` the lesser: the loop ends, or the child takes the slot and it goes
on below. -/
theorem descend_ordered {total n c : ℕ} (he : e.ByLoad load) (hlen : h.vec.length = total)
    (hdown : DownOrdered (h.loadAt load) total cur) (hc : Child cur c) (hlt : c < total)
    (hmin : ∀ d, Child cur d → d < total → h.loadAt load c ≤ h.loadAt load d)
    (ha : h.vec[c]? = some a) (hb : h.vec[cur]? = some b)
    (hloop : ∀ {h₁ : MinHeap T}, h₁.vec.length = total →
      DownOrdered (h₁.loadAt load) total c →
        ∃ h', heapDownLoop e total n h₁ c = .ok h' ∧ h'.Ordered load) :
    ∃ h', (if e.comp a b then .ok h
      else h.swap e c cur >>= fun h₁ => heapDownLoop e total n h₁ c) = .ok h' ∧
      h'.Ordered load := by
  split
  · next hstop =>
    have hle : h.loadAt load cur ≤ h.loadAt load c := by
      rw [loadAt_eq ha, loadAt_eq hb]
      exact ((he a b).mp hstop).le
    exact stay_ordered hlen hdown fun d hd hdlt => hle.trans (hmin d hd hdlt)
  · next hgo =>
    subst hlen
    obtain ⟨h₁, hswap, hlen₁, hs⟩ := swap_swapped e load hlt (hc.lt.trans hlt)
    have hs' : Swapped cur c (h.loadAt load) (h₁.loadAt load) :=
      ⟨hs.right, hs.left, fun k hk hkc => hs.other k hkc hk⟩
    obtain ⟨h', hrest, hord⟩ := hloop hlen₁
      (hdown.swap hc hlt hmin ((not_comp he ha hb).mp hgo) hs')
    exact ⟨h', by rw [hswap]; exact hrest, hord⟩

/-- One turn with a single child: it is the last element and has none below it. -/
theorem last_ordered {total : ℕ} (he : e.ByLoad load) (hlen : h.vec.length = total)
    (hdown : DownOrdered (h.loadAt load) total cur) (hone : cur * 2 + 1 < total)
    (hlast : ¬ cur * 2 + 2 < total) (ha : h.vec[cur]? = some a)
    (hb : h.vec[cur * 2 + 1]? = some b) :
    ∃ h', (if e.comp a b then h.swap e cur (cur * 2 + 1) else .ok h) = .ok h' ∧
      h'.Ordered load := by
  -- there is one slot below, so the lesser one need not be looked for
  have honly : ∀ d, Child cur d → d < total → d = cur * 2 + 1 := by
    rintro d (rfl | rfl) hd
    · rfl
    · exact absurd hd hlast
  split
  · next hgt =>
    subst hlen
    obtain ⟨h₁, hswap, hlen₁, hs⟩ := swap_swapped e load (i := cur) (by omega) hone
    have hle : h.loadAt load (cur * 2 + 1) ≤ h.loadAt load cur := by
      rw [loadAt_eq ha, loadAt_eq hb]
      exact ((he a b).mp hgt).le
    have hdown₁ : DownOrdered (h₁.loadAt load) h.vec.length (cur * 2 + 1) :=
      hdown.swap (.inl rfl) hone (fun d hd hlt => (congrArg _ (honly d hd hlt)).ge) hle hs
    refine ⟨h₁, hswap, ?_⟩
    rw [Ordered, hlen₁]
    apply hdown₁.ordered
    intro c hc hlt
    have := hc.lt
    unfold Child at hc
    omega
  · next hle =>
    apply stay_ordered hlen hdown
    intro d hd hlt
    rw [honly d hd hlt]
    exact (not_comp he ha hb).mp hle

/-- `HeapDown` mends the pairs below its slot. -/
theorem heapDownLoop_ordered (he : e.ByLoad load) {total : ℕ} : ∀ {n cur : ℕ} {h : MinHeap T},
    h.vec.length = total → total ≤ n + cur → DownOrdered (h.loadAt load) total cur →
      ∃ h', heapDownLoop e total n h cur = .ok h' ∧ h'.Ordered load
  | 0, cur, h, hlen, hbound, hdown => by
    apply stay_ordered hlen hdown
    intro c hc hlt
    have := hc.lt
    omega
  | n + 1, cur, h, hlen, hbound, hdown => by
    rw [heapDownLoop]
    split
    · next hone =>
      obtain ⟨v, hv, hsv⟩ := slot_eq_ok (h := h) (i := cur) (by omega)
      obtain ⟨v1, hv1, hsv1⟩ := slot_eq_ok (h := h) (i := cur * 2 + 1) (by omega)
      split
      · next htwo =>
        obtain ⟨v2, hv2, hsv2⟩ := slot_eq_ok (h := h) (i := cur * 2 + 2) (by omega)
        simp only [hsv, hsv1, hsv2, bind, Except.bind]
        split
        · next hcomp =>
          -- the right child has the lesser load
          have hright : h.loadAt load (cur * 2 + 2) ≤ h.loadAt load (cur * 2 + 1) := by
            rw [loadAt_eq hv1, loadAt_eq hv2]
            exact ((he v1 v2).mp hcomp).le
          refine descend_ordered he hlen hdown (.inr rfl) htwo ?_ hv2 hv fun hlen₁ hdown₁ =>
            heapDownLoop_ordered he hlen₁ (by omega) hdown₁
          rintro d (rfl | rfl) _
          · exact hright
          · exact le_refl _
        · next hcomp =>
          have hleft : h.loadAt load (cur * 2 + 1) ≤ h.loadAt load (cur * 2 + 2) :=
            (not_comp he hv1 hv2).mp hcomp
          refine descend_ordered he hlen hdown (.inl rfl) hone ?_ hv1 hv fun hlen₁ hdown₁ =>
            heapDownLoop_ordered he hlen₁ (by omega) hdown₁
          rintro d (rfl | rfl) _
          · exact le_refl _
          · exact hleft
      · next hlast =>
        simp only [hsv, hsv1, bind, Except.bind]
        exact last_ordered he hlen hdown hone hlast hv hv1
    · next hnone =>
      apply stay_ordered hlen hdown
      intro c hc hlt
      unfold Child at hc
      omega

/-- `HeapDown` as a whole. -/
theorem heapDown_ordered (he : e.ByLoad load)
    (hdown : DownOrdered (h.loadAt load) h.vec.length cur) :
    ∃ h', h.heapDown e cur = .ok h' ∧ h'.Ordered load :=
  heapDownLoop_ordered he rfl (Nat.le_add_right _ _) hdown

/-! ## Both

Whatever has happened to one slot, it is out of order upwards or downwards, not both. If it goes up,
the
heap is in order and `HeapDown` has nothing to do; if it does not, `HeapUp` changes nothing. -/

/-- **The undirected repair mends a heap that is out of order around its slot.** -/
theorem heapUpDown_ordered (he : e.ByLoad load) (hlt : cur < h.vec.length)
    (hexc : OrderedExcept (h.loadAt load) h.vec.length cur) :
    ∃ h', (h.heapUp e cur >>= fun h' => h'.heapDown e cur) = .ok h' ∧ h'.Ordered load := by
  by_cases hup : ∃ p, Child p cur ∧ h.loadAt load cur ≤ h.loadAt load p
  · obtain ⟨p, hp, hle⟩ := hup
    obtain ⟨h₁, hup₁, hord₁⟩ := heapUp_ordered he hlt (hexc.up_of_le hp hle)
    obtain ⟨h₂, hdown, hord₂⟩ := heapDown_ordered he (hord₁.down cur)
    exact ⟨h₂, by rw [hup₁]; exact hdown, hord₂⟩
  · -- nothing is to be done above
    have habove : ∀ p, Child p cur → h.loadAt load p ≤ h.loadAt load cur := by
      intro p hp
      by_contra hgt
      exact hup ⟨p, hp, (not_le.mp hgt).le⟩
    have hpath : ∀ p c, Child p c → c ≤ cur → h.loadAt load p ≤ h.loadAt load c := by
      intro p c hc hle
      rcases eq_or_ne c cur with rfl | hne
      · exact habove p hc
      · exact hexc.pairs p c hc (hle.trans_lt hlt) (hc.lt.trans_le hle).ne hne
    have hsame : h.heapUp e cur = .ok h := heapUpLoop_of_path he hlt hpath
    obtain ⟨h₂, hdown, hord₂⟩ := heapDown_ordered he (hexc.down fun p hp _ => habove p hp)
    exact ⟨h₂, by rw [hsame]; exact hdown, hord₂⟩

/-! ## The operations

Each operation puts the heap out of order around one slot at most: the last one after an insertion,
the one
that was changed, or the one that the last element has filled. -/

/-- What the operations keep: the index knows the slot of every element, so that no id occurs twice, and
the heap is ordered. -/
structure Sound (e : Elem T) (load : T → β) (h : MinHeap T) : Prop where
  indexed : h.Indexed e
  ordered : h.Ordered load

omit [LinearOrder β] in
/-- The element in slot `i` has another load, or another element has come into the slot. -/
theorem loadAt_set_of_ne {load' : T → β} {k : ℕ} {val : T}
    (hsame : ∀ k b, k ≠ i → h.vec[k]? = some b → load' b = load b) (hne : k ≠ i)
    (hlt : k < h.vec.length) :
    loadAt load' ⟨h.vec.set i val, h.idx⟩ k = h.loadAt load k := by
  obtain ⟨b, hb⟩ : ∃ b, h.vec[k]? = some b := ⟨_, List.getElem?_eq_getElem hlt⟩
  rw [loadAt_eq hb, ← hsame k b hne hb]
  apply loadAt_eq
  rw [List.getElem?_set_ne hne.symm]
  exact hb

/-- **An update leaves the heap ordered if its hint is 0 or tells the truth.** -/
theorem insertOrUpdate_ordered {load' : T → β} (he : e.ByLoad load') (hx : h.Indexed e)
    (hord : h.Ordered load) {old val : T} (hi : h.vec[i]? = some old)
    (hid : e.getID val = e.getID old)
    (hsame : ∀ k b, k ≠ i → h.vec[k]? = some b → load' b = load b) {hint : Int}
    (hless : hint < 0 → load' val ≤ load old) (hgreater : hint > 0 → load old ≤ load' val) :
    ∃ h', h.insertOrUpdate e (e.getID val) val hint = .ok h' ∧ h'.Ordered load' := by
  have hlt := (List.getElem?_eq_some_iff.mp hi).1
  have hidx : h.idx (e.getID val) = some i := by
    rw [hid]
    exact hx i old hi
  have hlen : (h.vec.set i val).length = h.vec.length := List.length_set
  have hother : ∀ k, k ≠ i → k < h.vec.length →
      loadAt load' ⟨h.vec.set i val, h.idx⟩ k = h.loadAt load k :=
    fun k hne hk => loadAt_set_of_ne hsame hne hk
  -- with the new load in its slot the heap is out of order around this slot only
  have hexc := BinHeap.Ordered.except hord (Nat.le_refl _) hother
  have hold : h.loadAt load i = load old := loadAt_eq hi
  have hval : loadAt load' ⟨h.vec.set i val, h.idx⟩ i = load' val :=
    loadAt_eq (List.getElem?_set_self hlt)
  rw [insertOrUpdate, hidx]
  dsimp only
  rw [if_pos hlt]
  rw [← hlen] at hexc hlt
  split
  · next hneg =>
    refine heapUp_ordered he hlt (hexc.up fun c hc hcn => ?_)
    rw [hlen] at hcn
    rw [hval, hother c hc.lt.ne' hcn]
    refine (hless hneg).trans ?_
    rw [← hold]
    exact hord i c hc hcn
  · split
    · next hpos =>
      refine heapDown_ordered he (hexc.down fun p hp hin => ?_)
      rw [hlen] at hin
      rw [hval, hother p hp.lt.ne (hp.lt.trans hin)]
      refine le_trans ?_ (hgreater hpos)
      rw [← hold]
      exact hord p i hp hin
    · exact heapUpDown_ordered he hlt hexc

/-- A new element comes last and is moved up. -/
theorem insertOrUpdate_fresh_ordered (he : e.ByLoad load) (hord : h.Ordered load) {id : UInt32}
    (hnew : h.idx id = none) (val : T) (hint : Int) :
    ∃ h', h.insertOrUpdate e id val hint = .ok h' ∧ h'.Ordered load := by
  have hlen : (h.vec ++ [val]).length = h.vec.length + 1 := by simp
  have hup : UpOrdered
      (loadAt load ⟨h.vec ++ [val], Function.update h.idx id (some h.vec.length)⟩)
      (h.vec ++ [val]).length h.vec.length := by
    rw [hlen]
    apply BinHeap.Ordered.append hord
    intro k hk
    simp only [loadAt]
    rw [List.getElem?_append_left hk]
  obtain ⟨h', hok, hord'⟩ := heapUp_ordered he (by rw [hlen]; exact Nat.lt_succ_self _) hup
  refine ⟨h', ?_, hord'⟩
  simpa [insertOrUpdate, hnew] using hok

/-- The last element has taken the slot of one that is gone. -/
theorem takeOut_except (e : Elem T) (hord : h.Ordered load) (i : ℕ) (gone : UInt32) (back : T) :
    OrderedExcept ((h.takeOut e i gone back).loadAt load) (h.takeOut e i gone back).vec.length i := by
  have hlen : (h.takeOut e i gone back).vec.length = h.vec.length - 1 := backfill_length ..
  apply BinHeap.Ordered.except hord (by omega)
  intro k hne hlt
  obtain ⟨b, hb⟩ : ∃ b, (h.takeOut e i gone back).vec[k]? = some b :=
    ⟨_, List.getElem?_eq_getElem hlt⟩
  rw [loadAt_eq hb]
  obtain ⟨-, ⟨heq, -⟩ | ⟨-, hk⟩⟩ := getElem?_backfill hb
  · exact absurd heq hne
  · exact (loadAt_eq hk).symm

theorem ordered_nil (hnil : h.vec = []) : h.Ordered load := by
  intro p c _ hc
  rw [hnil] at hc
  exact absurd hc (Nat.not_lt_zero c)

/-- The last element comes to the top and is moved down. -/
theorem remove_ordered (he : e.ByLoad load) (hord : h.Ordered load) (hne : h.vec ≠ []) :
    ∃ h', h.remove e = .ok h' ∧ h'.Ordered load := by
  obtain ⟨front, rest, hvec⟩ := List.exists_cons_of_ne_nil hne
  obtain ⟨back, hback⟩ := List.getLast?_isSome.mpr hne |> Option.isSome_iff_exists.mp
  have hfront : h.vec.head? = some front := by rw [hvec]; rfl
  simp only [remove, hfront, hback]
  split
  · next hnil => exact ⟨_, rfl, ordered_nil hnil⟩
  · refine heapDown_ordered he ((takeOut_except e hord _ _ _).down fun p hp => ?_)
    exact absurd hp.pos (Nat.lt_irrefl 0)

/-- The last element comes to any slot and is moved either way. -/
theorem anyRemove_ordered (he : e.ByLoad load) (hx : h.Indexed e) (hord : h.Ordered load)
    (hi : h.vec[i]? = some a) : ∃ h', h.anyRemove e (e.getID a) = .ok h' ∧ h'.Ordered load := by
  have hlt := (List.getElem?_eq_some_iff.mp hi).1
  have hne : h.vec ≠ [] := by
    intro hnil
    simp [hnil] at hlt
  obtain ⟨back, hback⟩ := List.getLast?_isSome.mpr hne |> Option.isSome_iff_exists.mp
  have hexc := takeOut_except e hord i (e.getID a) back
  simp only [anyRemove, hx i a hi, hback]
  rw [if_pos hlt]
  split
  · next hin => exact heapUpDown_ordered he hin hexc
  · next hout =>
    -- the last slot is gone, and with it all that could be out of order
    refine ⟨_, rfl, fun p c hc hcn => ?_⟩
    exact hexc.pairs p c hc hcn (by have := hc.lt; omega) (by omega)

/-- **The element on top has the least load.** -/
theorem get_minimal (hord : h.Ordered load) (hget : h.get = .ok a) :
    a ∈ h.vec ∧ ∀ b ∈ h.vec, load a ≤ load b := by
  unfold get at hget
  split at hget
  · cases hget
  · next top rest hvec =>
    cases hget
    refine ⟨by rw [hvec]; simp, fun b hb => ?_⟩
    obtain ⟨k, hk⟩ := List.mem_iff_getElem?.mp hb
    have hle := hord.top_le (List.getElem?_eq_some_iff.mp hk).1
    rwa [loadAt_eq (by rw [hvec]; rfl), loadAt_eq hk] at hle

/-! ## Index and order together

The lemmas about slots and those about order each give a heap that an operation ends in. Since the
operations are functions it is the same heap. -/

/-- The insertion of an id without an entry. -/
theorem insertOrUpdate_fresh_sound (he : e.ByLoad load) (hs : h.Sound e load) {val : T}
    (hfresh : h.idx (e.getID val) = none) (hint : Int) :
    ∃ h', h.insertOrUpdate e (e.getID val) val hint = .ok h' ∧ h'.vec.Perm (h.vec ++ [val]) ∧
      h'.Sound e load := by
  obtain ⟨h', hok, hperm, hx, -⟩ := insertOrUpdate_fresh hs.indexed rfl hfresh hint
  obtain ⟨h'', hok', hord⟩ := insertOrUpdate_fresh_ordered he hs.ordered hfresh val hint
  cases hok.symm.trans hok'
  exact ⟨h', hok, hperm, hx, hord⟩

/-- The load of the element `a` has changed in place. -/
theorem insertOrUpdate_sound {load' : T → β} (he : e.ByLoad load') (hx : h.Indexed e)
    (hord : h.Ordered load) (ha : a ∈ h.vec) (hsame : ∀ b ∈ h.vec, b ≠ a → load' b = load b)
    {hint : Int} (hless : hint < 0 → load' a ≤ load a) (hgreater : hint > 0 → load a ≤ load' a) :
    ∃ h', h.insertOrUpdate e (e.getID a) a hint = .ok h' ∧ h'.vec.Perm h.vec ∧
      h'.Sound e load' := by
  obtain ⟨i, hi⟩ := List.mem_iff_getElem?.mp ha
  have hother : ∀ k b, k ≠ i → h.vec[k]? = some b → load' b = load b := by
    intro k b hne hk
    refine hsame b (List.mem_of_getElem? hk) ?_
    rintro rfl
    exact hne (hx.slot_unique hk hi rfl)
  obtain ⟨h', hok, hperm, hx', -⟩ := insertOrUpdate_present hx hi rfl hint
  obtain ⟨h'', hok', hord'⟩ := insertOrUpdate_ordered he hx hord hi rfl hother hless hgreater
  cases hok.symm.trans hok'
  rw [set_getElem?_self hi] at hperm
  exact ⟨h', hok, hperm, hx', hord'⟩

/-- The removal of the element on top. -/
theorem remove_sound (he : e.ByLoad load) (hs : h.Sound e load) (ha : h.vec.head? = some a) :
    ∃ h', h.remove e = .ok h' ∧ TakenOut e h a False h' ∧ h'.Ordered load := by
  have hne : h.vec ≠ [] := by
    intro hnil
    simp [hnil] at ha
  obtain ⟨h', hok, ht⟩ := remove_takenOut hs.indexed ha
  obtain ⟨h'', hok', hord⟩ := remove_ordered he hs.ordered hne
  cases hok.symm.trans hok'
  exact ⟨h', hok, ht, hord⟩

/-- The removal of any element. -/
theorem anyRemove_sound (he : e.ByLoad load) (hs : h.Sound e load) (ha : a ∈ h.vec) :
    ∃ h', h.anyRemove e (e.getID a) = .ok h' ∧ h.vec.Perm (a :: h'.vec) ∧ h'.Sound e load := by
  obtain ⟨i, hi⟩ := List.mem_iff_getElem?.mp ha
  obtain ⟨h', hok, ht⟩ := anyRemove_takenOut hs.indexed hi
  obtain ⟨h'', hok', hord⟩ := anyRemove_ordered he hs.indexed hs.ordered hi
  cases hok.symm.trans hok'
  exact ⟨h', hok, ht.perm, ht.indexed, hord⟩

theorem get_of_ne_nil (hne : h.vec ≠ []) : ∃ a, h.get = .ok a ∧ h.vec.head? = some a := by
  obtain ⟨a, rest, hvec⟩ := List.exists_cons_of_ne_nil hne
  exact ⟨a, by rw [get, hvec], by rw [hvec]; rfl⟩

/-- `idx_` has no entry for an id. That no element has the id is not enough: `AnyRemove` leaves the entry
of an element behind that it takes out of the last slot. -/
def Fresh (h : MinHeap T) (id : UInt32) : Prop := h.idx id = none

/-- **An id is inserted if and only if it has no entry.** If an entry was left behind that no element has,
the slot of the entry is overwritten, or it lies behind the end of the vector. -/
theorem insertOrUpdate_fresh_iff (he : e.ByLoad load) (hs : h.Sound e load) (val : T) (hint : Int) :
    h.Fresh (e.getID val) ↔ ∃ h', h.insertOrUpdate e (e.getID val) val hint = .ok h' ∧
      h'.vec.Perm (h.vec ++ [val]) ∧ h'.Sound e load := by
  constructor
  · intro hfresh
    exact insertOrUpdate_fresh_sound he hs hfresh hint
  · rintro ⟨h', hok, hperm, -⟩
    refine Option.eq_none_iff_forall_ne_some.mpr fun i hidx => ?_
    have hkept := insertOrUpdate_keepsLength hidx val hint h' hok
    have hgrown := hperm.length_eq
    rw [List.length_append, List.length_singleton] at hgrown
    omega

/-- One of the operations is performed on a heap whose elements `e` reads and whose loads are `load`.
Before an update the load of one element is changed, so it is read anew. -/
inductive Operated : (Elem T × (T → β)) × MinHeap T → (Elem T × (T → β)) × MinHeap T → Prop
  | insert {e : Elem T} {load : T → β} {h h' : MinHeap T} {val : T} {hint : Int} :
      h.Fresh (e.getID val) → h.insertOrUpdate e (e.getID val) val hint = .ok h' →
        Operated ((e, load), h) ((e, load), h')
  | update {e e' : Elem T} {load load' : T → β} {h h' : MinHeap T} {a : T} :
      a ∈ h.vec → e'.ByLoad load' → (∀ b, e'.getID b = e.getID b) →
        (∀ b ∈ h.vec, b ≠ a → load' b = load b) → h.insertOrUpdate e' (e'.getID a) a 0 = .ok h' →
          Operated ((e, load), h) ((e', load'), h')
  | remove {e : Elem T} {load : T → β} {h h' : MinHeap T} :
      h.vec ≠ [] → h.remove e = .ok h' → Operated ((e, load), h) ((e, load), h')
  | anyRemove {e : Elem T} {load : T → β} {h h' : MinHeap T} {a : T} :
      a ∈ h.vec → h.anyRemove e (e.getID a) = .ok h' → Operated ((e, load), h) ((e, load), h')

/-- The same element is loaded anew, with the undirected repair. -/
theorem insertOrUpdate_zero_sound {e' : Elem T} {load' : T → β} (hs : h.Sound e load)
    (he' : e'.ByLoad load') (ha : a ∈ h.vec) (hid : ∀ b, e'.getID b = e.getID b)
    (hsame : ∀ b ∈ h.vec, b ≠ a → load' b = load b) :
    ∃ h', h.insertOrUpdate e' (e'.getID a) a 0 = .ok h' ∧ h'.vec.Perm h.vec ∧ h'.Sound e' load' := by
  have hx : h.Indexed e' := hs.indexed.congr fun b _ => hid b
  exact insertOrUpdate_sound he' hx hs.ordered ha hsame (fun hneg => absurd hneg (by decide))
    (fun hpos => absurd hpos (by decide))

/-- `Get`, and then `Remove`. -/
theorem remove_top_sound (he : e.ByLoad load) (hs : h.Sound e load) (hne : h.vec ≠ []) :
    ∃ a h', h.get = .ok a ∧ h.remove e = .ok h' ∧ h.vec.Perm (a :: h'.vec) ∧ h'.Sound e load := by
  obtain ⟨a, hget, hhead⟩ := get_of_ne_nil hne
  obtain ⟨h', hok, ht, hord⟩ := remove_sound he hs hhead
  exact ⟨a, h', hget, hok, ht.perm, ht.indexed, hord⟩

/-- **Each operation keeps the heap sound.** -/
theorem Operated.sound {s s' : (Elem T × (T → β)) × MinHeap T} (hop : Operated s s')
    (he : s.1.1.ByLoad s.1.2) (hs : s.2.Sound s.1.1 s.1.2) :
    s'.1.1.ByLoad s'.1.2 ∧ s'.2.Sound s'.1.1 s'.1.2 := by
  cases hop with
  | insert hfresh hok =>
    obtain ⟨h₁, hok₁, -, hsound⟩ := insertOrUpdate_fresh_sound he hs hfresh _
    rw [hok₁] at hok
    cases hok
    exact ⟨he, hsound⟩
  | update ha he' hid hsame hok =>
    obtain ⟨h₁, hok₁, -, hsound⟩ := insertOrUpdate_zero_sound hs he' ha hid hsame
    rw [hok₁] at hok
    cases hok
    exact ⟨he', hsound⟩
  | remove hne hok =>
    obtain ⟨a, h₁, -, hok₁, -, hsound⟩ := remove_top_sound he hs hne
    rw [hok₁] at hok
    cases hok
    exact ⟨he, hsound⟩
  | anyRemove ha hok =>
    obtain ⟨h₁, hok₁, -, hsound⟩ := anyRemove_sound he hs ha
    rw [hok₁] at hok
    cases hok
    exact ⟨he, hsound⟩

/-- Any number of operations later the heap is sound. -/
theorem Operated.run_sound {s s' : (Elem T × (T → β)) × MinHeap T}
    (hrun : Relation.ReflTransGen Operated s s') (he : s.1.1.ByLoad s.1.2)
    (hs : s.2.Sound s.1.1 s.1.2) : s'.1.1.ByLoad s'.1.2 ∧ s'.2.Sound s'.1.1 s'.1.2 := by
  induction hrun with
  | refl => exact ⟨he, hs⟩
  | tail _ hop ih => exact hop.sound ih.1 ih.2

/-- **Every operation on a sound heap leaves a sound heap with the elements to be expected**, if `idx_`
has no entry for an id that is inserted, and only then: one more after an insertion; the same after the
load of one has changed arbitrarily and its slot was repaired; all but the one on top, or all but any one
given, after a removal. What `Get` returns after any number of them has the least load. -/
theorem operations_sound (he : e.ByLoad load) (hs : h.Sound e load) :
    (∀ val hint, h.Fresh (e.getID val) ↔
      ∃ h', h.insertOrUpdate e (e.getID val) val hint = .ok h' ∧ h'.vec.Perm (h.vec ++ [val]) ∧
        h'.Sound e load) ∧
    (∀ (e' : Elem T) (load' : T → β), ∀ a ∈ h.vec, e'.ByLoad load' →
      (∀ b, e'.getID b = e.getID b) → (∀ b ∈ h.vec, b ≠ a → load' b = load b) →
      ∃ h', h.insertOrUpdate e' (e'.getID a) a 0 = .ok h' ∧ h'.vec.Perm h.vec ∧
        h'.Sound e' load') ∧
    (h.vec ≠ [] → ∃ a h', h.get = .ok a ∧ h.remove e = .ok h' ∧ h.vec.Perm (a :: h'.vec) ∧
      h'.Sound e load) ∧
    (∀ a ∈ h.vec, ∃ h', h.anyRemove e (e.getID a) = .ok h' ∧ h.vec.Perm (a :: h'.vec) ∧
      h'.Sound e load) ∧
    (∀ (e' : Elem T) (load' : T → β) (h' : MinHeap T),
      Relation.ReflTransGen Operated ((e, load), h) ((e', load'), h') → h'.Sound e' load' ∧
        (h'.vec ≠ [] → ∃ a, h'.get = .ok a ∧ a ∈ h'.vec ∧ ∀ b ∈ h'.vec, load' a ≤ load' b)) := by
  refine ⟨?_, ?_, ?_, ?_, ?_⟩
  · intro val hint
    exact insertOrUpdate_fresh_iff he hs val hint
  · intro e' load' a ha he' hid hsame
    exact insertOrUpdate_zero_sound hs he' ha hid hsame
  · intro hne
    exact remove_top_sound he hs hne
  · intro a ha
    exact anyRemove_sound he hs ha
  · intro e' load' h' hrun
    have hsound := (Operated.run_sound hrun he hs).2
    refine ⟨hsound, fun hne => ?_⟩
    obtain ⟨a, hget, -⟩ := get_of_ne_nil hne
    exact ⟨a, hget, get_minimal hsound.ordered hget⟩

/-- Numbers as their own ids and loads, 1 above 2. -/
def exampleElem : Elem ℕ := ⟨UInt32.ofNat, fun a b => decide (b < a)⟩

def exampleHeap : MinHeap ℕ :=
  ⟨[1, 2], fun x => if x = 1 then some 0 else if x = 2 then some 1 else none⟩

theorem exampleElem_byLoad : exampleElem.ByLoad (id : ℕ → ℕ) := fun _ _ => decide_eq_true_iff

/-- Both slots are indexed, and 1 is above 2. -/
theorem exampleHeap_sound : exampleHeap.Sound exampleElem (id : ℕ → ℕ) := by
  refine ⟨?_, ?_⟩
  · intro i a hi
    match i with
    | 0 | 1 => cases hi; rfl
    | i + 2 => cases hi
  · intro p c hc hlt
    obtain ⟨rfl, rfl⟩ : p = 0 ∧ c = 1 := by
      unfold Child at hc
      have hlt : c < 2 := hlt
      omega
    decide

/-- The load of 1 grows to 5. -/
def exampleElemGrown : Elem ℕ :=
  ⟨UInt32.ofNat, fun a b => decide ((if b = 1 then 5 else b) < if a = 1 then 5 else a)⟩

/-- Each of the operations on this heap; and after an insertion of 3 and a removal of 1 from its middle,
2 is on top. -/
theorem operations_sound_of_two :
    (∃ h', exampleHeap.insertOrUpdate exampleElem 3 3 0 = .ok h' ∧ h'.vec.Perm [1, 2, 3]) ∧
    (∃ h', exampleHeap.insertOrUpdate exampleElemGrown 1 1 0 = .ok h' ∧ h'.vec.Perm [1, 2] ∧
      h'.Ordered fun a => if a = 1 then 5 else a) ∧
    (∃ h', exampleHeap.remove exampleElem = .ok h' ∧ [1, 2].Perm (1 :: h'.vec)) ∧
    (∃ h', exampleHeap.anyRemove exampleElem 2 = .ok h' ∧ [1, 2].Perm (2 :: h'.vec)) ∧
    ∃ h₁ h₂, exampleHeap.insertOrUpdate exampleElem 3 3 0 = .ok h₁ ∧
      h₁.anyRemove exampleElem 1 = .ok h₂ ∧ h₂.get = .ok 2 ∧ ∀ b ∈ h₂.vec, 2 ≤ b := by
  obtain ⟨hinsert, hupdate, hremove, hanyRemove, hrun⟩ :=
    operations_sound exampleElem_byLoad exampleHeap_sound
  refine ⟨?_, ?_, ?_, ?_, ?_⟩
  · obtain ⟨h', hok, hperm, -⟩ := (hinsert 3 0).mp rfl
    exact ⟨h', hok, hperm⟩
  · obtain ⟨h', hok, hperm, hsound⟩ := hupdate exampleElemGrown (fun a => if a = 1 then 5 else a) 1
      List.mem_cons_self (fun _ _ => decide_eq_true_iff) (fun _ => rfl) (fun b _ hb => if_neg hb)
    exact ⟨h', hok, hperm, hsound.ordered⟩
  · obtain ⟨a, h', hget, hok, hperm, -⟩ := hremove (List.cons_ne_nil _ _)
    cases hget
    exact ⟨h', hok, hperm⟩
  · obtain ⟨h', hok, hperm, -⟩ := hanyRemove 2 (List.mem_cons_of_mem _ List.mem_cons_self)
    exact ⟨h', hok, hperm⟩
  · refine ⟨_, _, rfl, rfl, rfl, ?_⟩
    have hfresh : exampleHeap.Fresh (exampleElem.getID 3) := rfl
    have hfirst : exampleHeap.insertOrUpdate exampleElem (exampleElem.getID 3) 3 0 = .ok _ := rfl
    have hops : Relation.ReflTransGen Operated ((exampleElem, (id : ℕ → ℕ)), exampleHeap) _ :=
      .tail (.single (.insert hfresh hfirst)) (.anyRemove (a := 1) (by decide) rfl)
    obtain ⟨-, hget⟩ := hrun _ _ _ hops
    obtain ⟨a, hget, -, hmin⟩ := hget (by decide)
    cases hget
    exact hmin

/-- 2 is taken out of the last slot and 3 inserted: a sound heap, no element of which has the id 2. But
the insertion of 2 overwrites 3. -/
theorem insertOrUpdate_overwrites : ∃ h₁ h₂ h₃, exampleHeap.anyRemove exampleElem 2 = .ok h₁ ∧
    h₁.insertOrUpdate exampleElem 3 3 0 = .ok h₂ ∧ h₂.Sound exampleElem (id : ℕ → ℕ) ∧
    h₂.vec = [1, 3] ∧ h₂.insertOrUpdate exampleElem 2 2 0 = .ok h₃ ∧ h₃.vec = [1, 2] := by
  obtain ⟨h₁, hremove, -, hsound₁⟩ := anyRemove_sound exampleElem_byLoad exampleHeap_sound
    (a := 2) (List.mem_cons_of_mem _ List.mem_cons_self)
  have hfresh : h₁.idx (exampleElem.getID 3) = none := by
    cases hremove
    rfl
  obtain ⟨h₂, hinsert, -, hsound₂⟩ :=
    insertOrUpdate_fresh_sound exampleElem_byLoad hsound₁ hfresh 0
  cases hremove
  cases hinsert
  exact ⟨_, _, _, rfl, rfl, hsound₂, rfl, rfl, rfl⟩

end MinHeap

end Chatroom.Status
