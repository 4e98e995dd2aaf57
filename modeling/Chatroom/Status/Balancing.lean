import Mathlib.Algebra.Group.Int.Defs
import Chatroom.Status.HeapOrder
import Chatroom.Status.LoadBalancer

/-!
# Reports of loads

A well-formed load balancer has its three structures in step and its heap ordered by load. A report
of a load keeps the order if the hint `static_cast<int>(load) - static_cast<int>(prev_load)` has the
sign of the change, and that it has only for changes that fit into a signed 32-bit number.
-/

namespace Chatroom.Status.LoadBalancer

open PosIndex MinHeap

/-- The loads read through the pointers. -/
def loadOf (mem : Ptr → ServerInfo) (p : Ptr) : ℕ := (mem p).load.toNat

/-- `greater_comp` of the balancer compares loads. -/
theorem byLoad (mem : Ptr → ServerInfo) : (srvInfoElem mem).ByLoad (loadOf mem) := by
  intro a b
  simp only [srvInfoElem, loadOf, gt_iff_lt, decide_eq_true_eq, UInt32.lt_iff_toNat_lt]

/-- The three structures are in step, and the heap is ordered by load. -/
structure Sound (s : LoadBalancer) : Prop where
  wf : s.WellFormed
  exact : s.Exact
  ordered : s.minHeap.Ordered (loadOf s.mem)

variable {s s' : LoadBalancer} {id : UInt32} {si : Ptr}

theorem WellFormed.heap (h : s.WellFormed) (hord : s.minHeap.Ordered (loadOf s.mem)) :
    s.minHeap.Sound s.elem (loadOf s.mem) :=
  ⟨h.indexed, hord⟩

theorem Sound.not_stale (h : s.Sound) (x : UInt32) : ¬ s.Stale x := h.wf.exact_iff.mp h.exact x

/-- A step that makes no entry stale. -/
theorem Sound.next (h : s.Sound) {new : UInt32 → Prop} (hnext : s.Next new s') (hnew : ∀ x, ¬ new x)
    (hord : s'.minHeap.Ordered (loadOf s'.mem)) : s'.Sound := by
  refine ⟨hnext.wf, hnext.wf.exact_iff.mpr fun x hx => ?_, hord⟩
  rcases (hnext.stale x).mp hx with hold | hn
  · exact h.not_stale x hold
  · exact hnew x hn

/-! ## Reports

A report writes the load through the pointer, in the heap as well, and then repairs the heap. So the
heap is
out of order around one slot with respect to the new loads, and ordered with respect to the old ones. -/

/-- What is known of a server after it has reported. -/
def reported (s : LoadBalancer) (si : Ptr) (addr : String) (load : UInt32) (now : UInt64) :
    Ptr → ServerInfo :=
  Function.update s.mem si { s.mem si with addr := addr, load := load, lastTs := now }

/-- The server has reported, and the rest is as it was. -/
structure Reported (s : LoadBalancer) (si : Ptr) (addr : String) (load : UInt32) (now : UInt64)
    (s' : LoadBalancer) : Prop where
  sound : s'.Sound
  hm : s'.hm = s.hm
  mem : s'.mem = s.reported si addr load now

/-- `refresh` as one operation on the heap, with the new loads. -/
theorem refresh_eq (s : LoadBalancer) (id : UInt32) (si : Ptr) (addr : String) (load : UInt32)
    (now : UInt64) :
    s.refresh id si addr load now =
      (s.minHeap.insertOrUpdate (srvInfoElem (s.reported si addr load now)) id si
        (loadHint load (s.mem si).load)).map
          fun heap => { s with mem := s.reported si addr load now, minHeap := heap } := by
  rw [refresh, reported]
  cases s.minHeap.insertOrUpdate _ id si _ <;> rfl

theorem loadOf_reported_self (s : LoadBalancer) (si : Ptr) (addr : String) (load : UInt32)
    (now : UInt64) :
    loadOf (s.reported si addr load now) si = load.toNat := by
  rw [loadOf, reported, Function.update_self]

theorem loadOf_reported_of_ne {addr : String} {load : UInt32} {now : UInt64} {p : Ptr}
    (hne : p ≠ si) : loadOf (s.reported si addr load now) p = loadOf s.mem p := by
  rw [loadOf, reported, Function.update_of_ne hne, loadOf]

/-- A repair in the right direction, or in both, puts the server where it belongs. -/
theorem reported_ordered (h : s.Sound) (hx : s.hm id = some si) (addr : String) (load : UInt32)
    (now : UInt64) {hint : Int} (hless : hint < 0 → load ≤ (s.mem si).load)
    (hgreater : hint > 0 → (s.mem si).load ≤ load) :
    ∃ heap, s.minHeap.insertOrUpdate (srvInfoElem (s.reported si addr load now)) id si hint =
      .ok heap ∧ heap.Ordered (loadOf (s.reported si addr load now)) := by
  obtain ⟨hmem, hid⟩ := (h.wf.agree id si).mp hx
  have hget : ∀ p, (srvInfoElem (s.reported si addr load now)).getID p = s.elem.getID p :=
    getID_update rfl
  have hindexed : s.minHeap.Indexed (srvInfoElem (s.reported si addr load now)) :=
    h.wf.indexed.congr fun p _ => hget p
  have hup : hint < 0 → loadOf (s.reported si addr load now) si ≤ loadOf s.mem si := by
    intro hneg
    rw [loadOf_reported_self]
    exact UInt32.le_iff_toNat_le.mp (hless hneg)
  have hdown : hint > 0 → loadOf s.mem si ≤ loadOf (s.reported si addr load now) si := by
    intro hpos
    rw [loadOf_reported_self]
    exact UInt32.le_iff_toNat_le.mp (hgreater hpos)
  obtain ⟨heap, hok, -, hsound⟩ := insertOrUpdate_sound (byLoad _) hindexed h.ordered hmem
    (fun p _ hne => loadOf_reported_of_ne hne) hup hdown
  have hkey : (srvInfoElem (s.reported si addr load now)).getID si = id := (hget si).trans hid
  rw [hkey] at hok
  exact ⟨heap, hok, hsound.ordered⟩

/-- A report whose hint does not lie. -/
theorem refresh_reported (h : s.Sound) (hx : s.hm id = some si) (addr : String) {load : UInt32}
    (now : UInt64) (hless : loadHint load (s.mem si).load < 0 → load ≤ (s.mem si).load)
    (hgreater : loadHint load (s.mem si).load > 0 → (s.mem si).load ≤ load) :
    ∃ s', s.refresh id si addr load now = .ok s' ∧ s.Reported si addr load now s' := by
  obtain ⟨heap, hok, hord⟩ := reported_ordered h hx addr load now hless hgreater
  obtain ⟨s', hrefresh, hnext, hhm⟩ := refresh_next h.wf hx addr load now
  have heq := refresh_eq s id si addr load now
  rw [hok, hrefresh] at heq
  cases heq
  exact ⟨_, hrefresh, h.next hnext (fun _ hf => hf) hord, rfl, rfl⟩

/-! ## The hint

`static_cast<int>` of a load above 2³¹ is negative, and the difference of two such numbers may lie
about the
change. It tells the truth exactly if the change fits into 32 bits with a sign (`HintTrue`); for other
changes
it has the wrong sign, and two servers are enough to see the harm. -/

/-- The change of a load as a signed 32-bit number tells its sign. With one load below 2³¹ and the other
not, this is so only by an overflow of the subtraction (`sameSide_iff`). -/
def HintTrue (load prevLoad : UInt32) : Prop :=
  -(2 ^ 31) ≤ (load.toNat : Int) - prevLoad.toNat ∧ (load.toNat : Int) - prevLoad.toNat < 2 ^ 31

instance (load prevLoad : UInt32) : Decidable (HintTrue load prevLoad) :=
  inferInstanceAs (Decidable (_ ∧ _))

/-- The subtraction of the two loads, each cast to `int`, overflows: undefined in C++. -/
def HintOverflows (load prevLoad : UInt32) : Prop :=
  ¬ (-(2 ^ 31) ≤ (load.toNat : Int).bmod (2 ^ 32) - (prevLoad.toNat : Int).bmod (2 ^ 32) ∧
    (load.toNat : Int).bmod (2 ^ 32) - (prevLoad.toNat : Int).bmod (2 ^ 32) < 2 ^ 31)

/-- Both loads are below 2³¹, or neither is. -/
def SameSide (load prevLoad : UInt32) : Prop := load < 0x80000000 ↔ prevLoad < 0x80000000

/-- A load cast to `int`. -/
theorem bmod_load (load : UInt32) : (load.toNat : Int).bmod (2 ^ 32) =
    if load.toNat < 2 ^ 31 then (load.toNat : Int) else load.toNat - 2 ^ 32 := by
  have hload := load.toNat_lt
  rw [Int.bmod_eq_iff (by decide)]
  split
  · refine ⟨?_, ?_, ⟨0, ?_⟩⟩ <;> omega
  · refine ⟨?_, ?_, ⟨-1, ?_⟩⟩ <;> omega

/-- The sign is told without an overflow exactly for loads on one side of 2³¹. -/
theorem sameSide_iff (load prevLoad : UInt32) :
    SameSide load prevLoad ↔ HintTrue load prevLoad ∧ ¬ HintOverflows load prevLoad := by
  have hload := load.toNat_lt
  have hprev := prevLoad.toNat_lt
  have hbound : ∀ a : UInt32, a < 0x80000000 ↔ a.toNat < 2 ^ 31 := fun _ => UInt32.lt_iff_toNat_lt
  unfold SameSide HintTrue HintOverflows
  rw [not_not, hbound, hbound, bmod_load, bmod_load]
  split <;> split <;> omega

/-- The difference of the casts, wrapped, is the wrapped difference. -/
theorem loadHint_eq (load prevLoad : UInt32) :
    loadHint load prevLoad = ((load.toNat : Int) - prevLoad.toNat).bmod (2 ^ 32) :=
  (Int.sub_bmod _ _ _).symm

/-- A change that fits is the hint. -/
theorem loadHint_of_true {load prevLoad : UInt32} (h : HintTrue load prevLoad) :
    loadHint load prevLoad = (load.toNat : Int) - prevLoad.toNat := by
  obtain ⟨hlow, hhigh⟩ := h
  rw [loadHint_eq, Int.bmod_eq_iff (by decide)]
  refine ⟨?_, ?_, ⟨0, ?_⟩⟩ <;> omega

/-- A hint that lies points up for a greater load, or down for a lesser one. -/
theorem loadHint_of_not_true {load prevLoad : UInt32} (h : ¬ HintTrue load prevLoad) :
    prevLoad < load ∧ loadHint load prevLoad < 0 ∨ load < prevLoad ∧ loadHint load prevLoad > 0 := by
  have hload := load.toNat_lt
  have hprev := prevLoad.toNat_lt
  rw [UInt32.lt_iff_toNat_lt, UInt32.lt_iff_toNat_lt, loadHint_eq]
  by_cases hhigh : (load.toNat : Int) - prevLoad.toNat < 2 ^ 31
  · have hlow : (load.toNat : Int) - prevLoad.toNat < -(2 ^ 31) := by
      by_contra hge
      exact h ⟨by omega, hhigh⟩
    have heq : ((load.toNat : Int) - prevLoad.toNat).bmod (2 ^ 32) =
        (load.toNat : Int) - prevLoad.toNat + 2 ^ 32 := by
      rw [Int.bmod_eq_iff (by decide)]
      refine ⟨?_, ?_, ⟨1, ?_⟩⟩ <;> omega
    rw [heq]
    right
    omega
  · have heq : ((load.toNat : Int) - prevLoad.toNat).bmod (2 ^ 32) =
        (load.toNat : Int) - prevLoad.toNat - 2 ^ 32 := by
      rw [Int.bmod_eq_iff (by decide)]
      refine ⟨?_, ?_, ⟨-1, ?_⟩⟩ <;> omega
    rw [heq]
    left
    omega

theorem HintTrue.less {load prevLoad : UInt32} (h : HintTrue load prevLoad)
    (hneg : loadHint load prevLoad < 0) : load ≤ prevLoad := by
  rw [loadHint_of_true h] at hneg
  rw [UInt32.le_iff_toNat_le]
  omega

theorem HintTrue.greater {load prevLoad : UInt32} (h : HintTrue load prevLoad)
    (hpos : loadHint load prevLoad > 0) : prevLoad ≤ load := by
  rw [loadHint_of_true h] at hpos
  rw [UInt32.le_iff_toNat_le]
  omega

/-- Two servers with the same load. -/
def pair (load : UInt32) : LoadBalancer where
  minHeap := ⟨[0, 1], fun x => if x = 0 then some 0 else if x = 1 then some 1 else none⟩
  hm := fun x => if x = 0 then some 0 else if x = 1 then some 1 else none
  mem := fun p => ⟨if p = 0 then 0 else 1, "", load, 0⟩
  next := 2

/-- With equal loads any order is right. -/
theorem pair_sound (load : UInt32) : (pair load).Sound := by
  have hwf : (pair load).WellFormed := by
    refine ⟨?_, ?_, ?_⟩
    · intro i p hi
      match i with
      | 0 | 1 => cases hi; rfl
      | i + 2 => cases hi
    · intro x p
      simp only [pair, List.mem_cons, List.not_mem_nil, or_false]
      constructor
      · intro hp
        split at hp
        · next hx => cases hp; exact ⟨.inl rfl, hx.symm⟩
        · split at hp
          · next hx => cases hp; exact ⟨.inr rfl, hx.symm⟩
          · cases hp
      · rintro ⟨rfl | rfl, rfl⟩ <;> rfl
    · intro p hp
      simp only [pair, List.mem_cons, List.not_mem_nil, or_false] at hp
      rcases hp with rfl | rfl
      · exact Nat.zero_lt_two
      · exact Nat.one_lt_two
  -- no entry is stale, and equal loads are in order
  refine ⟨hwf, hwf.exact_iff.mpr ?_, ?_⟩
  · rintro x ⟨hidx, hnone⟩
    simp only [pair] at hidx hnone
    rw [hnone] at hidx
    cases hidx
  · intro p c hc hlt
    have hload : ∀ k, k < 2 → loadAt (loadOf (pair load).mem) (pair load).minHeap k = load.toNat := by
      intro k hk
      match k with
      | 0 | 1 => rfl
      | k + 2 => omega
    rw [hload p (hc.lt.trans hlt), hload c hlt]

/-- The one on top reports a greater load, and is moved up. -/
theorem pair_up {load prevLoad : UInt32} {now : UInt64} (hneg : loadHint load prevLoad < 0) :
    (pair prevLoad).updateServerLoad 0 load now =
      .ok (true, { pair prevLoad with mem := (pair prevLoad).reported 0 "" load now }) := by
  have hup : (pair prevLoad).minHeap.insertOrUpdate
      (srvInfoElem ((pair prevLoad).reported 0 "" load now)) 0 0 (loadHint load prevLoad) =
        .ok (pair prevLoad).minHeap := by
    have hidx : (pair prevLoad).minHeap.idx 0 = some 0 := rfl
    have hlt : 0 < (pair prevLoad).minHeap.vec.length := Nat.zero_lt_two
    simp only [insertOrUpdate, hidx, if_pos hlt, if_pos hneg]
    rfl
  have hrefresh := refresh_eq (pair prevLoad) 0 0 "" load now
  rw [show ((pair prevLoad).mem 0).load = prevLoad from rfl, hup] at hrefresh
  show ((pair prevLoad).refresh 0 0 "" load now >>= fun s => pure (true, s)) = _
  rw [hrefresh]
  rfl

/-- The other one reports a lesser load, and is moved down. -/
theorem pair_down {load prevLoad : UInt32} {now : UInt64} (hpos : loadHint load prevLoad > 0) :
    (pair prevLoad).updateServerLoad 1 load now =
      .ok (true, { pair prevLoad with mem := (pair prevLoad).reported 1 "" load now }) := by
  have hdown : (pair prevLoad).minHeap.insertOrUpdate
      (srvInfoElem ((pair prevLoad).reported 1 "" load now)) 1 1 (loadHint load prevLoad) =
        .ok (pair prevLoad).minHeap := by
    have hidx : (pair prevLoad).minHeap.idx 1 = some 1 := rfl
    have hlt : 1 < (pair prevLoad).minHeap.vec.length := Nat.one_lt_two
    have hnot : ¬ loadHint load prevLoad < 0 := by omega
    simp only [insertOrUpdate, hidx, if_pos hlt, if_neg hnot, if_pos hpos]
    rfl
  have hrefresh := refresh_eq (pair prevLoad) 1 1 "" load now
  rw [show ((pair prevLoad).mem 1).load = prevLoad from rfl, hdown] at hrefresh
  show ((pair prevLoad).refresh 1 1 "" load now >>= fun s => pure (true, s)) = _
  rw [hrefresh]
  rfl

/-- Reports that change a load from `prevLoad` to `load` leave the heap in order, whatever the
servers. -/
def ReportsKept (load prevLoad : UInt32) : Prop :=
  ∀ (s : LoadBalancer) (id : UInt32) (si : Ptr) (addr : String) (now : UInt64),
    s.Sound → s.hm id = some si → (s.mem si).load = prevLoad →
      (∃ s', s.updateServerLoad id load now = .ok (true, s') ∧
        s.Reported si (s.mem si).addr load now s') ∧
      ∃ s', s.registerServerInfo id addr load now = .ok (true, s') ∧ s.Reported si addr load now s'

/-- Both calls repair in the direction of the change, or in both. -/
theorem reportsKept_of_hintTrue {load prevLoad : UInt32} (htrue : HintTrue load prevLoad) :
    ReportsKept load prevLoad := by
  rintro s id si addr now h hx rfl
  obtain ⟨s₁, hok₁, hrep₁⟩ := refresh_reported h hx (s.mem si).addr now htrue.less htrue.greater
  obtain ⟨s₂, hok₂, hrep₂⟩ := refresh_reported h hx addr now htrue.less htrue.greater
  refine ⟨⟨s₁, ?_, hrep₁⟩, s₂, ?_, hrep₂⟩
  · simp only [updateServerLoad, hx, hok₁]
    rfl
  · simp only [registerServerInfo, hx, hok₂]
    rfl

/-- If the hint lies, one of the two servers is moved the wrong way, or not moved at all. -/
theorem hintTrue_of_reportsKept {load prevLoad : UInt32} (hall : ReportsKept load prevLoad) :
    HintTrue load prevLoad := by
  by_contra hlies
  rcases loadHint_of_not_true hlies with ⟨hlt, hneg⟩ | ⟨hlt, hpos⟩
  · obtain ⟨⟨s', hok, hrep⟩, -⟩ := hall (pair prevLoad) 0 0 "" 0 (pair_sound _) rfl rfl
    rw [pair_up hneg] at hok
    cases hok
    have hle : load.toNat ≤ prevLoad.toNat := hrep.sound.ordered 0 1 (.inl rfl) Nat.one_lt_two
    exact absurd (UInt32.lt_iff_toNat_lt.mp hlt) (by omega)
  · obtain ⟨⟨s', hok, hrep⟩, -⟩ := hall (pair prevLoad) 1 1 "" 0 (pair_sound _) rfl rfl
    rw [pair_down hpos] at hok
    cases hok
    have hle : prevLoad.toNat ≤ load.toNat := hrep.sound.ordered 0 1 (.inl rfl) Nat.one_lt_two
    exact absurd (UInt32.lt_iff_toNat_lt.mp hlt) (by omega)

/-- **A report of a load leaves the heap in order, whatever the servers, exactly if the change of the
load fits into a signed 32-bit number.** Then the server has the new load and all others are as they
were. It does so without an overflow exactly if both loads lie on the same side of 2³¹. The repair in
both directions is always good. -/
theorem reportsKept_iff (load prevLoad : UInt32) :
    (ReportsKept load prevLoad ↔ HintTrue load prevLoad) ∧
      (ReportsKept load prevLoad ∧ ¬ HintOverflows load prevLoad ↔ SameSide load prevLoad) ∧
      ∀ (s : LoadBalancer) (id : UInt32) (si : Ptr) (addr : String) (now : UInt64), s.Sound →
        s.hm id = some si → (s.mem si).load = prevLoad →
          ∃ heap, s.minHeap.insertOrUpdate (srvInfoElem (s.reported si addr load now)) id si 0 =
            .ok heap ∧ heap.Ordered (loadOf (s.reported si addr load now)) := by
  have hkept : ReportsKept load prevLoad ↔ HintTrue load prevLoad :=
    ⟨hintTrue_of_reportsKept, reportsKept_of_hintTrue⟩
  refine ⟨hkept, ?_, ?_⟩
  · rw [hkept, sameSide_iff]
  intro s id si addr now h hx _
  exact reported_ordered h hx addr load now (fun hneg => absurd hneg (by decide))
    (fun hpos => absurd hpos (by decide))

/-- Two servers without load; the one on top reports 2³¹ and stays on top. -/
theorem not_reportsKept_high_load : ∃ s, (pair 0).updateServerLoad 0 0x80000000 0 = .ok (true, s) ∧
    s.minHeap.vec = [0, 1] ∧ (s.mem 0).load = 0x80000000 ∧ (s.mem 1).load = 0 ∧ ¬ s.Sound := by
  refine ⟨_, pair_up (by decide), rfl, rfl, rfl, fun hsound => ?_⟩
  have hle : 0x80000000 ≤ 0 := hsound.ordered 0 1 (.inl rfl) (by decide)
  omega

end Chatroom.Status.LoadBalancer
