import Chatroom.Lib.PosIndex

/-!
# The indexed heap (`MinHeapImpl`, `status/load_balancer.hpp`)

A binary heap in a vector `vec_`, with a map `idx_` from the id of an element to its slot, so that
an element can be moved or taken out wherever it stands. The operations are translated as they are
written, with every access to `vec_` checked: `outOfBounds` is where the C++ program would read or
write outside the vector.

The lemmas here are about slots and the index; the order of the elements plays no part in them, so
they hold for any comparison.
-/

namespace Chatroom.Status

open PosIndex

/-- The template parameters: an id for each element, and `greater_comp`. -/
structure Elem (T : Type*) where
  getID : T → UInt32
  comp : T → T → Bool

inductive HeapError where
  /-- `"MinHeap is empty"` -/
  | empty
  /-- `"Element not found"` -/
  | notFound
  | outOfBounds
  deriving DecidableEq, Repr

structure MinHeap (T : Type*) where
  vec : List T
  idx : UInt32 → Option ℕ

namespace MinHeap

variable {T : Type*} (e : Elem T)

/-- `vec_[i]` -/
def slot (h : MinHeap T) (i : ℕ) : Except HeapError T :=
  match h.vec[i]? with
  | some a => .ok a
  | none => .error .outOfBounds

/-- Swap `vec_[i]` and `vec_[j]`, then the entries of their ids. -/
def swap (h : MinHeap T) (i j : ℕ) : Except HeapError (MinHeap T) := do
  let a ← h.slot i
  let b ← h.slot j
  return { vec := (h.vec.set i b).set j a, idx := swapKeys (e.getID b) (e.getID a) h.idx }

/-- The loop of `HeapUp`: the bound is the number of iterations left, at most `cur` of them. -/
def heapUpLoop : ℕ → MinHeap T → ℕ → Except HeapError (MinHeap T)
  | 0, h, _ => .ok h
  | bound + 1, h, cur =>
    if cur > 0 then do
      let p ← h.slot ((cur - 1) / 2)
      let c ← h.slot cur
      let h ← (if e.comp p c then h.swap e ((cur - 1) / 2) cur else .ok h)
      heapUpLoop bound h ((cur - 1) / 2)
    else .ok h

def heapUp (h : MinHeap T) (cur : ℕ) : Except HeapError (MinHeap T) := heapUpLoop e cur h cur

/-- The loop of `HeapDown` over `total` slots. -/
def heapDownLoop (total : ℕ) : ℕ → MinHeap T → ℕ → Except HeapError (MinHeap T)
  | 0, h, _ => .ok h
  | bound + 1, h, cur =>
    if cur * 2 + 1 < total then
      if cur * 2 + 2 < total then do
        let v1 ← h.slot (cur * 2 + 1)
        let v2 ← h.slot (cur * 2 + 2)
        let v ← h.slot cur
        if e.comp v1 v2 then
          if e.comp v2 v then .ok h
          else do
            let h ← h.swap e (cur * 2 + 2) cur
            heapDownLoop total bound h (cur * 2 + 2)
        else
          if e.comp v1 v then .ok h
          else do
            let h ← h.swap e (cur * 2 + 1) cur
            heapDownLoop total bound h (cur * 2 + 1)
      else do
        let v ← h.slot cur
        let child ← h.slot (cur * 2 + 1)
        if e.comp v child then h.swap e cur (cur * 2 + 1) else .ok h
    else .ok h

def heapDown (h : MinHeap T) (cur : ℕ) : Except HeapError (MinHeap T) :=
  heapDownLoop e h.vec.length h.vec.length h cur

/-- `InsertOrUpdate(id, val, hint)` -/
def insertOrUpdate (h : MinHeap T) (id : UInt32) (val : T) (hint : Int) :
    Except HeapError (MinHeap T) :=
  match h.idx id with
  | some idx =>
    if idx < h.vec.length then
      let h := { h with vec := h.vec.set idx val }
      if hint < 0 then h.heapUp e idx
      else if hint > 0 then h.heapDown e idx
      else do
        let h ← h.heapUp e idx
        h.heapDown e idx
    else .error .outOfBounds
  | none =>
    let h : MinHeap T :=
      { vec := h.vec ++ [val], idx := Function.update h.idx id (some h.vec.length) }
    h.heapUp e (h.vec.length - 1)

def get (h : MinHeap T) : Except HeapError T :=
  match h.vec with
  | [] => .error .empty
  | a :: _ => .ok a

/-- What `Remove` and `AnyRemove` do to slot `i`, that of `gone`: its entry is erased, the last
element takes the slot and, if there were several, gets it as its entry. -/
def takeOut (h : MinHeap T) (i : ℕ) (gone : UInt32) (back : T) : MinHeap T :=
  { vec := backfill h.vec i back, idx := backfillKeys e.getID h.vec h.idx i gone back }

/-- `Remove()`: take out the top element. -/
def remove (h : MinHeap T) : Except HeapError (MinHeap T) :=
  match h.vec.head?, h.vec.getLast? with
  | some front, some back =>
    let h := h.takeOut e 0 (e.getID front) back
    if h.vec = [] then .ok h else h.heapDown e 0
  | _, _ => .error .empty

/-- `AnyRemove(by_id)` -/
def anyRemove (h : MinHeap T) (byId : UInt32) : Except HeapError (MinHeap T) :=
  match h.idx byId with
  | none => .error .notFound
  | some idx =>
    match h.vec.getLast? with
    | none => .error .empty
    | some back =>
      if idx < h.vec.length then
        let h := h.takeOut e idx byId back
        if idx < h.vec.length then do
          let h ← h.heapUp e idx
          h.heapDown e idx
        else .ok h
      else .error .outOfBounds

/-! ## The loops are not cut short

The loops of the source end when the index leaves the heap; here they are given a bound. The two
lemmas
say that the bounds with which `HeapUp` and `HeapDown` call them are large enough, so that a greater
one
would make no difference. -/

/-- `HeapUp` at `cur` goes through at most `cur` iterations: a further one changes nothing. -/
theorem heapUpLoop_bound : ∀ {n cur : ℕ} (h : MinHeap T), cur ≤ n →
    heapUpLoop e (n + 1) h cur = heapUpLoop e n h cur
  | 0, cur, h, hcur => by
    have hcur : cur = 0 := by omega
    subst hcur
    rfl
  | n + 1, cur, h, hcur => by
    have hparent : (cur - 1) / 2 ≤ n := by omega
    conv_lhs => rw [heapUpLoop]
    conv_rhs => rw [heapUpLoop]
    simp only [fun h' => heapUpLoop_bound h' hparent]

/-- Nor does it to `HeapDown` over `total` slots after as many. -/
theorem heapDownLoop_bound {total : ℕ} : ∀ {n cur : ℕ} (h : MinHeap T), total ≤ n + cur →
    heapDownLoop e total (n + 1) h cur = heapDownLoop e total n h cur
  | 0, cur, h, hcur => by
    conv_lhs => rw [heapDownLoop, if_neg (by omega)]
    rw [heapDownLoop]
  | n + 1, cur, h, hcur => by
    have h₁ : total ≤ n + (cur * 2 + 1) := by omega
    have h₂ : total ≤ n + (cur * 2 + 2) := by omega
    conv_lhs => rw [heapDownLoop]
    conv_rhs => rw [heapDownLoop]
    simp only [fun h' => heapDownLoop_bound h' h₁, fun h' => heapDownLoop_bound h' h₂]

/-! ## Slots and index

Whatever the comparison says, the loops do nothing but swap: the elements stay the same up to their
order, and `idx_` stays right. `Shuffled` says this of two heaps, and each loop has one lemma that
says
it ends without an error in such a heap. -/

/-- `idx_` knows the slot of every element. -/
def Indexed (h : MinHeap T) : Prop := Indexes e.getID h.vec h.idx

/-- `h'` holds the elements of `h` in some other order, with the same ids in its index. -/
structure Shuffled (h h' : MinHeap T) : Prop where
  perm : h'.vec.Perm h.vec
  indexed : h'.Indexed e
  support : ∀ x, (h'.idx x).isSome = (h.idx x).isSome

variable {e} {h h' h'' : MinHeap T}

theorem Shuffled.rfl (hi : h.Indexed e) : h.Shuffled e h := ⟨.refl _, hi, fun _ => .refl _⟩

theorem Shuffled.trans (h₁ : h.Shuffled e h') (h₂ : h'.Shuffled e h'') : h.Shuffled e h'' :=
  ⟨h₂.perm.trans h₁.perm, h₂.indexed, fun x => (h₂.support x).trans (h₁.support x)⟩

theorem Shuffled.length (hs : h.Shuffled e h') : h'.vec.length = h.vec.length :=
  hs.perm.length_eq

/-- An access inside the vector. -/
theorem slot_eq_ok {i : ℕ} (hi : i < h.vec.length) :
    ∃ a, h.vec[i]? = some a ∧ h.slot i = .ok a := by
  refine ⟨h.vec[i], List.getElem?_eq_getElem hi, ?_⟩
  rw [slot, List.getElem?_eq_getElem hi]

/-- A swap of two slots exchanges the entries of their ids with them. -/
theorem swap_shuffled (hx : h.Indexed e) {i j : ℕ} (hi : i < h.vec.length)
    (hj : j < h.vec.length) : ∃ h', h.swap e i j = .ok h' ∧ h.Shuffled e h' := by
  obtain ⟨a, ha, hsa⟩ := slot_eq_ok hi
  obtain ⟨b, hb, hsb⟩ := slot_eq_ok hj
  have hswap : h.swap e i j = .ok ⟨(h.vec.set i b).set j a, swapKeys (e.getID b) (e.getID a) h.idx⟩ := by
    rw [swap, hsa, hsb]; rfl
  exact ⟨_, hswap, PosIndex.swap_perm ha hb, Indexes.swap hx ha hb,
    fun _ => swapKeys_support (by rw [hx j b hb]; rfl) (by rw [hx i a ha]; rfl)⟩

theorem heapUpLoop_top (n : ℕ) (h : MinHeap T) : heapUpLoop e n h 0 = .ok h := by
  cases n with
  | zero => rfl
  | succ n => rfl

/-- A turn of `HeapUp` below the top: a pair in the wrong order is swapped, and the loop goes on at the
parent in any case. -/
theorem heapUpLoop_turn (n : ℕ) {cur : ℕ} (hpos : 0 < cur) (hcur : cur < h.vec.length) :
    ∃ p c, h.vec[(cur - 1) / 2]? = some p ∧ h.vec[cur]? = some c ∧
      (e.comp p c = true → ∀ h₁, h.swap e ((cur - 1) / 2) cur = .ok h₁ →
        heapUpLoop e (n + 1) h cur = heapUpLoop e n h₁ ((cur - 1) / 2)) ∧
      (¬ e.comp p c = true → heapUpLoop e (n + 1) h cur = heapUpLoop e n h ((cur - 1) / 2)) := by
  obtain ⟨p, hp, hsp⟩ := slot_eq_ok (show (cur - 1) / 2 < h.vec.length by omega)
  obtain ⟨c, hc, hsc⟩ := slot_eq_ok hcur
  refine ⟨p, c, hp, hc, fun hcomp h₁ hswap => ?_, fun hcomp => ?_⟩
  · rw [heapUpLoop, if_pos hpos, hsp, hsc]
    simp [bind, Except.bind, hcomp, hswap]
  · rw [heapUpLoop, if_pos hpos, hsp, hsc]
    simp [bind, Except.bind, hcomp]

/-- `HeapUp` from any slot, by induction on the number of turns left. -/
theorem heapUpLoop_shuffled : ∀ {n cur : ℕ} {h : MinHeap T}, h.Indexed e → cur < h.vec.length →
    ∃ h', heapUpLoop e n h cur = .ok h' ∧ h.Shuffled e h'
  | 0, _, h, hx, _ => ⟨h, rfl, .rfl hx⟩
  | n + 1, cur, h, hx, hcur => by
    rcases Nat.eq_zero_or_pos cur with rfl | hpos
    · exact ⟨h, heapUpLoop_top _ _, .rfl hx⟩
    · have hparent : (cur - 1) / 2 < h.vec.length := by omega
      obtain ⟨p, c, -, -, hswapped, hkept⟩ := heapUpLoop_turn (e := e) n hpos hcur
      by_cases hcomp : e.comp p c = true
      · obtain ⟨h₁, hswap, hs₁⟩ := swap_shuffled hx hparent hcur
        obtain ⟨h₂, hloop, hs₂⟩ := heapUpLoop_shuffled (n := n) hs₁.indexed
          (hs₁.length ▸ hparent)
        rw [hswapped hcomp h₁ hswap]
        exact ⟨h₂, hloop, hs₁.trans hs₂⟩
      · rw [hkept hcomp]
        exact heapUpLoop_shuffled hx hparent

theorem heapUp_shuffled (hx : h.Indexed e) {cur : ℕ} (hcur : cur < h.vec.length) :
    ∃ h', h.heapUp e cur = .ok h' ∧ h.Shuffled e h' :=
  heapUpLoop_shuffled hx hcur

/-- One descent of `HeapDown`: swap with a child, then go on from there. -/
theorem swap_then_shuffled {total n c cur : ℕ} (hx : h.Indexed e) (hc : c < h.vec.length)
    (hcur : cur < h.vec.length)
    (hloop : ∀ {h' : MinHeap T}, h'.Indexed e → h'.vec.length = h.vec.length →
      ∃ h'', heapDownLoop e total n h' c = .ok h'' ∧ h'.Shuffled e h'') :
    ∃ h'', (h.swap e c cur >>= fun h' => heapDownLoop e total n h' c) = .ok h'' ∧
      h.Shuffled e h'' := by
  obtain ⟨h₁, hswap, hs₁⟩ := swap_shuffled hx hc hcur
  obtain ⟨h₂, hdown, hs₂⟩ := hloop hs₁.indexed hs₁.length
  exact ⟨h₂, by rw [hswap]; exact hdown, hs₁.trans hs₂⟩

/-- `HeapDown` from any slot. It may be started behind the last slot, where it does nothing. -/
theorem heapDownLoop_shuffled {total : ℕ} : ∀ {n cur : ℕ} {h : MinHeap T}, h.Indexed e →
    h.vec.length = total → ∃ h', heapDownLoop e total n h cur = .ok h' ∧ h.Shuffled e h'
  | 0, _, h, hx, _ => ⟨h, rfl, .rfl hx⟩
  | n + 1, cur, h, hx, hlen => by
    rw [heapDownLoop]
    split
    · next h₁ =>
      obtain ⟨v, -, hv⟩ := slot_eq_ok (h := h) (i := cur) (by omega)
      obtain ⟨v1, -, hv1⟩ := slot_eq_ok (h := h) (i := cur * 2 + 1) (by omega)
      have hdown : ∀ c {h' : MinHeap T}, h'.Indexed e → h'.vec.length = h.vec.length →
          ∃ h'', heapDownLoop e total n h' c = .ok h'' ∧ h'.Shuffled e h'' :=
        fun c _ hx' hl' => heapDownLoop_shuffled hx' (hl'.trans hlen)
      -- two children, of which one may take the place of `cur`; or one child, and the loop ends
      split
      · next h₂ =>
        obtain ⟨v2, -, hv2⟩ := slot_eq_ok (h := h) (i := cur * 2 + 2) (by omega)
        simp only [hv, hv1, hv2, bind, Except.bind]
        split
        · split
          · exact ⟨h, rfl, .rfl hx⟩
          · exact swap_then_shuffled hx (by omega) (by omega) (hdown _)
        · split
          · exact ⟨h, rfl, .rfl hx⟩
          · exact swap_then_shuffled hx (by omega) (by omega) (hdown _)
      · simp only [hv, hv1, bind, Except.bind]
        split
        · exact swap_shuffled hx (by omega) (by omega)
        · exact ⟨h, rfl, .rfl hx⟩
    · exact ⟨h, rfl, .rfl hx⟩

theorem heapDown_shuffled (hx : h.Indexed e) (cur : ℕ) :
    ∃ h', h.heapDown e cur = .ok h' ∧ h.Shuffled e h' :=
  heapDownLoop_shuffled hx rfl

/-- The undirected repair of a slot. -/
theorem heapUpDown_shuffled (hx : h.Indexed e) {cur : ℕ} (hcur : cur < h.vec.length) :
    ∃ h', (h.heapUp e cur >>= fun h' => h'.heapDown e cur) = .ok h' ∧ h.Shuffled e h' := by
  obtain ⟨h₁, hup, hs₁⟩ := heapUp_shuffled hx hcur
  obtain ⟨h₂, hdown, hs₂⟩ := heapDown_shuffled hs₁.indexed cur
  exact ⟨h₂, by rw [hup]; exact hdown, hs₁.trans hs₂⟩

/-! ## The operations

What each operation does to the elements and to the set of ids that have an entry. The second matters
as much as the first: the next insertion looks at the entry and not at the elements. -/

/-- **Inserting an id that has no entry** adds one element and one entry. -/
theorem insertOrUpdate_fresh (hx : h.Indexed e) {id : UInt32} {val : T} (hid : e.getID val = id)
    (hnew : h.idx id = none) (hint : Int) :
    ∃ h', h.insertOrUpdate e id val hint = .ok h' ∧ h'.vec.Perm (h.vec ++ [val]) ∧
      h'.Indexed e ∧ ∀ x, (h'.idx x).isSome ↔ x = id ∨ (h.idx x).isSome := by
  subst hid
  -- no element has the id, or `idx_` would have an entry for it
  have hother : ∀ b ∈ h.vec, e.getID b ≠ e.getID val := by
    intro b hb heq
    have := hx.isSome hb
    rw [heq, hnew] at this
    cases this
  have hx₁ : Indexed e ⟨h.vec ++ [val], Function.update h.idx (e.getID val) (some h.vec.length)⟩ :=
    Indexes.append hx hother
  have hlast : h.vec.length < (h.vec ++ [val]).length := by simp
  obtain ⟨h', hup, hs⟩ := heapUp_shuffled hx₁ hlast
  refine ⟨h', ?_, hs.perm, hs.indexed, fun x => ?_⟩
  · simpa [insertOrUpdate, hnew] using hup
  · rw [hs.support]
    dsimp only
    rw [Function.update_apply]
    by_cases hxid : x = e.getID val <;> simp [hxid]

/-- **Updating an element** puts the new one in its place. -/
theorem insertOrUpdate_present (hx : h.Indexed e) {i : ℕ} {old val : T} (hi : h.vec[i]? = some old)
    (hid : e.getID val = e.getID old) (hint : Int) :
    ∃ h', h.insertOrUpdate e (e.getID val) val hint = .ok h' ∧ h'.vec.Perm (h.vec.set i val) ∧
      h'.Indexed e ∧ ∀ x, (h'.idx x).isSome = (h.idx x).isSome := by
  have hlt := (List.getElem?_eq_some_iff.mp hi).1
  have hidx : h.idx (e.getID val) = some i := by rw [hid]; exact hx i old hi
  have hx₁ : Indexed e ⟨h.vec.set i val, h.idx⟩ := Indexes.set hx hi hid
  have hlt₁ : i < (h.vec.set i val).length := by simpa using hlt
  -- the hint only decides in which directions the slot is repaired
  have hdone : ∀ {r : Except HeapError (MinHeap T)}, (∃ h', r = .ok h' ∧
      Shuffled e ⟨h.vec.set i val, h.idx⟩ h') →
      ∃ h', r = .ok h' ∧ h'.vec.Perm (h.vec.set i val) ∧ h'.Indexed e ∧
        ∀ x, (h'.idx x).isSome = (h.idx x).isSome := by
    rintro r ⟨h', hr, hs⟩
    exact ⟨h', hr, hs.perm, hs.indexed, hs.support⟩
  rw [insertOrUpdate, hidx]
  dsimp only
  rw [if_pos hlt]
  split
  · exact hdone (heapUp_shuffled hx₁ hlt₁)
  · split
    · exact hdone (heapDown_shuffled hx₁ i)
    · exact hdone (heapUpDown_shuffled hx₁ hlt₁)

/-- The element that fills the gap gets the slot as its entry. -/
theorem takeOut_indexed (hx : h.Indexed e) {i : ℕ} {a back : T} (hi : h.vec[i]? = some a)
    (hback : h.vec.getLast? = some back) : (h.takeOut e i (e.getID a) back).Indexed e :=
  Indexes.backfill hx hi hback

/-- What it means that `h'` is `h` without the element `a`; `stays` is the condition under which the
index has kept the entry of `a` nevertheless. -/
structure TakenOut (e : Elem T) (h : MinHeap T) (a : T) (stays : Prop) (h' : MinHeap T) : Prop where
  perm : h.vec.Perm (a :: h'.vec)
  indexed : h'.Indexed e
  support : ∀ x, (h'.idx x).isSome ↔ (h.idx x).isSome ∧ (x = e.getID a → stays)

/-- An element that fills its own gap gets its entry back: it stood last, and not alone. -/
theorem takeOut_takenOut (hx : h.Indexed e) {i : ℕ} {a back : T} (hi : h.vec[i]? = some a)
    (hback : h.vec.getLast? = some back) :
    TakenOut e h a (i + 1 = h.vec.length ∧ 1 < h.vec.length)
      (h.takeOut e i (e.getID a) back) :=
  ⟨backfill_perm hi hback, takeOut_indexed hx hi hback, hx.backfillKeys_support hi hback⟩

/-- A repair of the order after a removal takes nothing back. -/
theorem TakenOut.shuffled {a : T} {stays : Prop} (ht : TakenOut e h a stays h')
    (hs : h'.Shuffled e h'') : TakenOut e h a stays h'' :=
  ⟨ht.perm.trans (hs.perm.symm.cons a), hs.indexed, fun x => by rw [hs.support, ht.support]⟩

theorem TakenOut.mono {a : T} {stays stays' : Prop} (ht : TakenOut e h a stays h')
    (hiff : stays ↔ stays') : TakenOut e h a stays' h' :=
  ⟨ht.perm, ht.indexed, fun x => by rw [ht.support, hiff]⟩

/-- **`Remove` takes out the top element** and its entry. -/
theorem remove_takenOut (hx : h.Indexed e) {a : T} (ha : h.vec.head? = some a) :
    ∃ h', h.remove e = .ok h' ∧ TakenOut e h a False h' := by
  have hne : h.vec ≠ [] := by intro hnil; simp [hnil] at ha
  obtain ⟨back, hback⟩ := List.getLast?_isSome.mpr hne |> Option.isSome_iff_exists.mp
  have ht := takeOut_takenOut hx (i := 0) (by rw [← List.head?_eq_getElem?]; exact ha) hback
  have htop : (0 + 1 = h.vec.length ∧ 1 < h.vec.length) ↔ False :=
    iff_false_intro fun hlen => by omega
  have ht := ht.mono htop
  simp only [remove, ha, hback]
  split
  · exact ⟨_, rfl, ht⟩
  · obtain ⟨h', hdown, hs⟩ := heapDown_shuffled ht.indexed 0
    exact ⟨h', hdown, ht.shuffled hs⟩

/-- **`AnyRemove` takes out any element.** Its entry stays behind if it stood in the last slot of
several: the slot is vacated only after the entry has been written anew. -/
theorem anyRemove_takenOut (hx : h.Indexed e) {i : ℕ} {a : T} (hi : h.vec[i]? = some a) :
    ∃ h', h.anyRemove e (e.getID a) = .ok h' ∧
      TakenOut e h a (i + 1 = h.vec.length ∧ 1 < h.vec.length) h' := by
  have hlt := (List.getElem?_eq_some_iff.mp hi).1
  have hne : h.vec ≠ [] := by intro hnil; simp [hnil] at hlt
  obtain ⟨back, hback⟩ := List.getLast?_isSome.mpr hne |> Option.isSome_iff_exists.mp
  have ht := takeOut_takenOut hx hi hback
  simp only [anyRemove, hx i a hi, hback]
  rw [if_pos hlt]
  split
  · next hin =>
    obtain ⟨h', hupdown, hs⟩ := heapUpDown_shuffled ht.indexed hin
    exact ⟨h', hupdown, ht.shuffled hs⟩
  · exact ⟨_, rfl, ht⟩

/-! ## An entry without an element

An id that has an entry in `idx_` is never inserted, whether an element has it or not: the slot of the
entry is overwritten. -/

/-- If this ends without an error, the heap has as many elements as `h`. -/
def KeepsLength (h : MinHeap T) (r : Except HeapError (MinHeap T)) : Prop :=
  ∀ h', r = .ok h' → h'.vec.length = h.vec.length

theorem keepsLength_ok {h₁ : MinHeap T} (hlen : h₁.vec.length = h.vec.length) :
    h.KeepsLength (.ok h₁) := by
  intro h' heq
  cases heq
  exact hlen

/-- Reading a slot, inside the vector or not, changes no length. -/
theorem keepsLength_slot {h₁ : MinHeap T} {i : ℕ} {f : T → Except HeapError (MinHeap T)}
    (hf : ∀ a, h.KeepsLength (f a)) : h.KeepsLength (h₁.slot i >>= f) := by
  intro h' heq
  cases hslot : h₁.slot i with
  | error err =>
    rw [hslot] at heq
    cases heq
  | ok a =>
    rw [hslot] at heq
    exact hf a h' heq

/-- One thing after another. -/
theorem KeepsLength.bind {r : Except HeapError (MinHeap T)}
    {f : MinHeap T → Except HeapError (MinHeap T)} (hr : h.KeepsLength r)
    (hf : ∀ h₁ : MinHeap T, h₁.vec.length = h.vec.length → h.KeepsLength (f h₁)) :
    h.KeepsLength (r >>= f) := by
  intro h' heq
  cases r with
  | error err => cases heq
  | ok h₁ => exact hf h₁ (hr h₁ rfl) h' heq

theorem swap_keepsLength {h₁ : MinHeap T} (hlen : h₁.vec.length = h.vec.length) (i j : ℕ) :
    h.KeepsLength (h₁.swap e i j) := by
  unfold swap
  refine keepsLength_slot fun a => keepsLength_slot fun b => keepsLength_ok ?_
  rw [List.length_set, List.length_set, hlen]

/-- A turn swaps or does not, by induction on the number of turns left. -/
theorem heapUpLoop_keepsLength : ∀ (n cur : ℕ) {h₁ : MinHeap T}, h₁.vec.length = h.vec.length →
    h.KeepsLength (heapUpLoop e n h₁ cur)
  | 0, _, _, hlen => keepsLength_ok hlen
  | n + 1, cur, h₁, hlen => by
    rw [heapUpLoop]
    split
    · refine keepsLength_slot fun p => keepsLength_slot fun c => ?_
      have hturn : h.KeepsLength (if e.comp p c then h₁.swap e ((cur - 1) / 2) cur else .ok h₁) := by
        split
        · exact swap_keepsLength hlen _ _
        · exact keepsLength_ok hlen
      exact hturn.bind fun h₂ hlen₂ => heapUpLoop_keepsLength n _ hlen₂
    · exact keepsLength_ok hlen

theorem heapDownLoop_keepsLength {total : ℕ} : ∀ (n cur : ℕ) {h₁ : MinHeap T},
    h₁.vec.length = h.vec.length → h.KeepsLength (heapDownLoop e total n h₁ cur)
  | 0, _, _, hlen => keepsLength_ok hlen
  | n + 1, cur, h₁, hlen => by
    have hgo : ∀ c, h.KeepsLength (h₁.swap e c cur >>= fun h₂ => heapDownLoop e total n h₂ c) :=
      fun c => (swap_keepsLength hlen c cur).bind fun h₂ hlen₂ => heapDownLoop_keepsLength n c hlen₂
    rw [heapDownLoop]
    split
    · split
      · refine keepsLength_slot fun v1 => keepsLength_slot fun v2 => keepsLength_slot fun v => ?_
        split
        · split
          · exact keepsLength_ok hlen
          · exact hgo _
        · split
          · exact keepsLength_ok hlen
          · exact hgo _
      · refine keepsLength_slot fun v => keepsLength_slot fun child => ?_
        split
        · exact swap_keepsLength hlen _ _
        · exact keepsLength_ok hlen
    · exact keepsLength_ok hlen

/-- **An id with an entry is not inserted.** -/
theorem insertOrUpdate_keepsLength {id : UInt32} {i : ℕ} (hidx : h.idx id = some i) (val : T)
    (hint : Int) : h.KeepsLength (h.insertOrUpdate e id val hint) := by
  have hset : (h.vec.set i val).length = h.vec.length := List.length_set
  rw [insertOrUpdate, hidx]
  dsimp only
  split
  · split
    · exact heapUpLoop_keepsLength _ _ hset
    · split
      · exact heapDownLoop_keepsLength _ _ hset
      · refine KeepsLength.bind (heapUpLoop_keepsLength _ _ hset) fun h₁ hlen => ?_
        exact heapDownLoop_keepsLength _ _ hlen
  · intro h' heq
    cases heq

end MinHeap

end Chatroom.Status
