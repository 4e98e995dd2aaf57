import Mathlib.Algebra.Group.Nat.Defs
import Chatroom.Status.MinHeap

/-!
# The load balancer (`status/load_balancer.cpp`)

`LoadBalancer` owns the `ServerInfo` of every registered server in the hash map `hm_` and keeps
pointers to them in the indexed heap, ordered by load. A pointer is the number of its allocation
here, `mem` is what lies there. Each operation runs under the balancer's mutex, so it is one step;
the readings of the clock that it makes are an argument.

The question is whether the three structures stay in step. `WellFormed` says what every operation
keeps; `Stale` is the one thing that can go wrong: an id with an entry in `idx_` but without a
server.
-/

namespace Chatroom.Status

open PosIndex

/-- A server not heard of for this many milliseconds counts as down. -/
def serverTimeout : UInt64 := 40 * 1000

structure ServerInfo where
  id : UInt32
  addr : String
  load : UInt32
  lastTs : UInt64
  deriving DecidableEq, Repr

/-- A `ServerInfo*`. -/
abbrev Ptr := ℕ

/-- Ids and the comparison `SrvInfoComp` read through the pointers. -/
def srvInfoElem (mem : Ptr → ServerInfo) : Elem Ptr where
  getID := fun p => (mem p).id
  comp := fun lhs rhs => (mem lhs).load > (mem rhs).load

structure LoadBalancer where
  minHeap : MinHeap Ptr
  hm : UInt32 → Option Ptr
  mem : Ptr → ServerInfo
  /-- The next allocation. -/
  next : Ptr

/-- The readings of the clock during an operation, in order. -/
abbrev Clock := ℕ → UInt64

/-- The readings after the first. -/
def Clock.later (clock : Clock) : Clock := fun n => clock (n + 1)

namespace LoadBalancer

def init : LoadBalancer where
  minHeap := ⟨[], fun _ => none⟩
  hm := fun _ => none
  mem := fun _ => ⟨0, "", 0, 0⟩
  next := 0

def elem (s : LoadBalancer) : Elem Ptr := srvInfoElem s.mem

/-- `static_cast<int>(load) - static_cast<int>(prev_load)`. C++ leaves the overflow of the subtraction
undefined (`HintOverflows`); it wraps here, as the compilers in use make it. -/
def loadHint (load prevLoad : UInt32) : Int :=
  ((load.toNat : Int).bmod (2 ^ 32) - (prevLoad.toNat : Int).bmod (2 ^ 32)).bmod (2 ^ 32)

/-- A registered server reports: its `ServerInfo` is overwritten in place, then moved in the heap. -/
def refresh (s : LoadBalancer) (id : UInt32) (si : Ptr) (addr : String) (load : UInt32)
    (now : UInt64) : Except HeapError LoadBalancer := do
  let prevLoad := (s.mem si).load
  let mem := Function.update s.mem si { s.mem si with addr := addr, load := load, lastTs := now }
  let minHeap ← s.minHeap.insertOrUpdate (srvInfoElem mem) id si (loadHint load prevLoad)
  return { s with mem := mem, minHeap := minHeap }

def updateServerLoad (s : LoadBalancer) (id : UInt32) (load : UInt32) (now : UInt64) :
    Except HeapError (Bool × LoadBalancer) :=
  match s.hm id with
  | none => .ok (false, s)
  | some si => do
    let s ← s.refresh id si (s.mem si).addr load now
    return (true, s)

def registerServerInfo (s : LoadBalancer) (id : UInt32) (addr : String) (load : UInt32)
    (now : UInt64) : Except HeapError (Bool × LoadBalancer) :=
  match s.hm id with
  | none => do
    let si := s.next
    let mem := Function.update s.mem si ⟨id, addr, load, now⟩
    let minHeap ← s.minHeap.insertOrUpdate (srvInfoElem mem) id si 0
    return (true, { minHeap := minHeap, hm := Function.update s.hm id (some si), mem := mem,
                    next := s.next + 1 })
  | some si => do
    let s ← s.refresh id si addr load now
    return (true, s)

/-- Take a server out of the heap by its id, then its key out of the hash map. -/
def takeServer (s : LoadBalancer) (id key : UInt32) : Except HeapError LoadBalancer := do
  let minHeap ← s.minHeap.anyRemove s.elem id
  return { s with minHeap := minHeap, hm := Function.update s.hm key none }

def removeServer (s : LoadBalancer) (id : UInt32) : Except HeapError (Bool × LoadBalancer) :=
  match s.hm id with
  | none => .ok (false, s)
  | some _ => do
    let s ← s.takeServer id id
    return (true, s)

/-- Not heard of for too long; the difference of the unsigned readings wraps. -/
def expired (s : LoadBalancer) (now : UInt64) (si : Ptr) : Bool :=
  now - (s.mem si).lastTs ≥ serverTimeout

/-- The loop of `GetMinimalLoadServerInfo`, for at most `bound` expired servers. -/
def getMinimalLoop : ℕ → Clock → Bool → LoadBalancer →
    Except HeapError ((Option ServerInfo × Bool) × LoadBalancer)
  | 0, _, updated, s => .ok ((none, updated), s)
  | bound + 1, clock, updated, s =>
    if s.minHeap.vec = [] then .ok ((none, updated), s)
    else do
      let si ← s.minHeap.get
      if s.expired (clock 0) si then
        let minHeap ← s.minHeap.remove s.elem
        getMinimalLoop bound clock.later true
          { s with minHeap := minHeap, hm := Function.update s.hm (s.mem si).id none }
      else .ok ((some (s.mem si), updated), s)

def getMinimalLoadServerInfo (s : LoadBalancer) (clock : Clock) :
    Except HeapError ((Option ServerInfo × Bool) × LoadBalancer) :=
  getMinimalLoop s.minHeap.vec.length clock false s

/-- The loop of `CheckTTL` over the keys of `hm_` still to be visited. -/
def checkTTLLoop : List UInt32 → Clock → UInt32 → LoadBalancer →
    Except HeapError (UInt32 × LoadBalancer)
  | [], _, removed, s => .ok (removed, s)
  | key :: order, clock, removed, s =>
    match s.hm key with
    | none => checkTTLLoop order clock removed s
    | some si =>
      if s.expired (clock 0) si then do
        let s ← s.takeServer (s.mem si).id key
        checkTTLLoop order clock.later (removed + 1) s
      else checkTTLLoop order clock.later removed s

/-- `CheckTTL()`, with the order in which the hash map happens to be iterated. -/
def checkTTL (s : LoadBalancer) (order : List UInt32) (clock : Clock) :
    Except HeapError (UInt32 × LoadBalancer) :=
  checkTTLLoop order clock 0 s

/-- `CopyServerInfoList(out)`, in the order of an iteration of the hash map. -/
def copyServerInfoList (s : LoadBalancer) (order : List UInt32) : List ServerInfo :=
  order.filterMap fun key => (s.hm key).map s.mem

/-! ## Runs

An operation that throws, or that reads behind the end of `vec_`, ends the run with an error; a run
that is `.ok`
had none. -/

inductive Op where
  | registerServerInfo (id : UInt32) (addr : String) (load : UInt32) (now : UInt64)
  | updateServerLoad (id : UInt32) (load : UInt32) (now : UInt64)
  | removeServer (id : UInt32)
  | getMinimalLoadServerInfo (clock : Clock)
  | checkTTL (order : List UInt32) (clock : Clock)

def step (s : LoadBalancer) : Op → Except HeapError LoadBalancer
  | .registerServerInfo id addr load now => Prod.snd <$> s.registerServerInfo id addr load now
  | .updateServerLoad id load now => Prod.snd <$> s.updateServerLoad id load now
  | .removeServer id => Prod.snd <$> s.removeServer id
  | .getMinimalLoadServerInfo clock => Prod.snd <$> s.getMinimalLoadServerInfo clock
  | .checkTTL order clock => Prod.snd <$> s.checkTTL order clock

def run (s : LoadBalancer) : List Op → Except HeapError LoadBalancer
  | [] => .ok s
  | op :: ops => do
    let s ← s.step op
    run s ops

/-! ## The three structures in step

The three are `hm_`, `vec_` and `idx_`. `agree` ties the first two together, `indexed` the last two;
what is not
tied is that `idx_` has no further entries. -/

/-- The heap index is exact. -/
structure Exact (s : LoadBalancer) : Prop where
  /-- An entry of `idx_` is the slot of the server of that id, and every slot has its entry. -/
  index : ∀ x i, s.minHeap.idx x = some i ↔ ∃ si, s.minHeap.vec[i]? = some si ∧ s.hm x = some si
  /-- No id occurs twice in `vec_`. -/
  nodup : (s.minHeap.vec.map s.elem.getID).Nodup
  /-- `hm_` has the ids of `vec_`. -/
  keys : ∀ x, (s.hm x).isSome ↔ x ∈ s.minHeap.vec.map s.elem.getID

/-- What every operation keeps. -/
structure WellFormed (s : LoadBalancer) : Prop where
  indexed : s.minHeap.Indexed s.elem
  agree : ∀ x si, s.hm x = some si ↔ si ∈ s.minHeap.vec ∧ (s.mem si).id = x
  allocated : ∀ si ∈ s.minHeap.vec, si < s.next

/-- An entry of `idx_` without a server. -/
def Stale (s : LoadBalancer) (x : UInt32) : Prop := (s.minHeap.idx x).isSome ∧ s.hm x = none

/-- A registered server stands in a slot of the heap. -/
theorem WellFormed.slot {s : LoadBalancer} (h : s.WellFormed) {x : UInt32} {si : Ptr}
    (hx : s.hm x = some si) : ∃ i : ℕ, s.minHeap.vec[i]? = some si ∧ s.elem.getID si = x := by
  obtain ⟨hmem, hid⟩ := (h.agree x si).mp hx
  obtain ⟨i, hi⟩ := List.mem_iff_getElem?.mp hmem
  exact ⟨i, hi, hid⟩

/-- The ids of the heap are those that are registered. -/
theorem WellFormed.keys {s : LoadBalancer} (h : s.WellFormed) (x : UInt32) :
    (s.hm x).isSome ↔ x ∈ s.minHeap.vec.map s.elem.getID := by
  rw [List.mem_map, Option.isSome_iff_exists]
  exact exists_congr fun si => h.agree x si

/-- **A well-formed state is exact if and only if no entry is stale.** -/
theorem WellFormed.exact_iff {s : LoadBalancer} (h : s.WellFormed) :
    s.Exact ↔ ∀ x, ¬ s.Stale x := by
  constructor
  · rintro hex x ⟨hidx, hnone⟩
    obtain ⟨i, hi⟩ := Option.isSome_iff_exists.mp hidx
    obtain ⟨si, -, hsi⟩ := (hex.index x i).mp hi
    rw [hnone] at hsi
    cases hsi
  · intro hns
    refine ⟨fun x i => ⟨fun hi => ?_, ?_⟩, h.indexed.nodup_keys, h.keys⟩
    · cases hx : s.hm x with
      | none => exact absurd ⟨by rw [hi]; rfl, hx⟩ (hns x)
      | some si =>
        obtain ⟨j, hj, hid⟩ := h.slot hx
        have hjx := h.indexed j si hj
        rw [hid, hi] at hjx
        exact ⟨si, by rw [Option.some.inj hjx]; exact hj, rfl⟩
    · rintro ⟨si, hi, hx⟩
      obtain ⟨-, hid⟩ := (h.agree x si).mp hx
      have hidx := h.indexed i si hi
      rwa [show s.elem.getID si = x from hid] at hidx

/-! ## What the operations do to it

One lemma for each operation, in the form of `Next`: it does not throw, it keeps the structures well
formed, and
it is known which entries become stale. The heap operations come with a specification of their own
(`MinHeap.TakenOut`). -/

/-- `s'` is well formed, and its stale entries are those of `s` and the `new` ones. -/
structure Next (s : LoadBalancer) (new : UInt32 → Prop) (s' : LoadBalancer) : Prop where
  wf : s'.WellFormed
  stale : ∀ x, s'.Stale x ↔ s.Stale x ∨ new x

/-- The ids read through the pointers do not change when a server reports. -/
theorem getID_update {mem : Ptr → ServerInfo} {si : Ptr} {info : ServerInfo}
    (hid : info.id = (mem si).id) (p : Ptr) :
    (srvInfoElem (Function.update mem si info)).getID p = (srvInfoElem mem).getID p := by
  show (Function.update mem si info p).id = (mem p).id
  rw [Function.update_apply]
  split
  · next hp => rw [hid, hp]
  · rfl

/-- A report: the heap is repaired, and nothing else changes. -/
theorem refresh_next {s : LoadBalancer} (h : s.WellFormed) {id : UInt32} {si : Ptr}
    (hx : s.hm id = some si) (addr : String) (load : UInt32) (now : UInt64) :
    ∃ s', s.refresh id si addr load now = .ok s' ∧ s.Next (fun _ => False) s' ∧ s'.hm = s.hm := by
  obtain ⟨i, hi, hid⟩ := h.slot hx
  let mem := Function.update s.mem si { s.mem si with addr := addr, load := load, lastTs := now }
  have hget : ∀ p, (srvInfoElem mem).getID p = s.elem.getID p := getID_update rfl
  have hindexed : s.minHeap.Indexed (srvInfoElem mem) := h.indexed.congr fun p _ => hget p
  obtain ⟨heap, hok, hperm, hindexed', hsupp⟩ := MinHeap.insertOrUpdate_present hindexed hi rfl
    (loadHint load (s.mem si).load)
  rw [hget, hid] at hok
  -- the heap holds the pointer already: `vec_[idx] = val` writes what is there
  rw [set_getElem?_self hi] at hperm
  refine ⟨{ s with mem := mem, minHeap := heap }, ?_, ⟨⟨hindexed', ?_, ?_⟩, ?_⟩, rfl⟩
  · show (s.minHeap.insertOrUpdate (srvInfoElem mem) id si _ >>= _) = _
    rw [hok]; rfl
  · intro x p
    rw [h.agree, hperm.mem_iff]
    have := hget p
    simp only [srvInfoElem, elem] at this
    rw [this]
  · intro p hp
    exact h.allocated p (hperm.mem_iff.mp hp)
  · intro x
    simp only [Stale, hsupp, or_false]

/-- The heap of a server to come: the ids of the servers there are unchanged. -/
theorem getID_alloc {s : LoadBalancer} (h : s.WellFormed) (info : ServerInfo) {p : Ptr}
    (hp : p ∈ s.minHeap.vec) :
    (srvInfoElem (Function.update s.mem s.next info)).getID p = s.elem.getID p := by
  have hne : p ≠ s.next := Nat.ne_of_lt (h.allocated p hp)
  show (Function.update s.mem s.next info p).id = (s.mem p).id
  rw [Function.update_of_ne hne]

/-- A registration, of a server that is there or of a new one. A stale entry under its id would be
taken for a slot. -/
theorem registerServerInfo_next {s : LoadBalancer} (h : s.WellFormed) {id : UInt32}
    (hns : ¬ s.Stale id) (addr : String) (load : UInt32) (now : UInt64) :
    ∃ s', s.registerServerInfo id addr load now = .ok (true, s') ∧
      s.Next (fun _ => False) s' ∧ (s'.hm id).isSome := by
  unfold registerServerInfo
  cases hx : s.hm id with
  | some si =>
    obtain ⟨s', hok, hnext, hhm⟩ := refresh_next h hx addr load now
    exact ⟨s', by simp only [hok]; rfl, hnext, by rw [hhm, hx]; rfl⟩
  | none =>
    -- without a stale entry `InsertOrUpdate` inserts
    have hidx : s.minHeap.idx id = none := by
      by_contra hsome
      exact hns ⟨Option.isSome_iff_ne_none.mpr hsome, hx⟩
    let mem := Function.update s.mem s.next ⟨id, addr, load, now⟩
    have hget : ∀ p ∈ s.minHeap.vec, (srvInfoElem mem).getID p = s.elem.getID p :=
      fun p hp => getID_alloc h _ hp
    have hnew : (srvInfoElem mem).getID s.next = id := by
      show (Function.update s.mem s.next _ s.next).id = id
      rw [Function.update_self]
    obtain ⟨heap, hok, hperm, hindexed, hsupp⟩ :=
      MinHeap.insertOrUpdate_fresh (h.indexed.congr hget) hnew hidx 0
    have hmem : ∀ p, p ∈ heap.vec ↔ p ∈ s.minHeap.vec ∨ p = s.next := by
      intro p; rw [hperm.mem_iff]; simp
    refine ⟨⟨heap, Function.update s.hm id (some s.next), mem, s.next + 1⟩, ?_,
      ⟨⟨hindexed, ?_, ?_⟩, ?_⟩, ?_⟩
    · show (s.minHeap.insertOrUpdate (srvInfoElem mem) id s.next 0 >>= _) = _
      rw [hok]; rfl
    · intro x p
      dsimp only
      rw [hmem, Function.update_apply]
      constructor
      · intro hp
        split at hp
        · next hxid =>
          cases hp
          exact ⟨.inr rfl, hnew.trans hxid.symm⟩
        · obtain ⟨hpv, hpid⟩ := (h.agree x p).mp hp
          exact ⟨.inl hpv, (hget p hpv).trans hpid⟩
      · rintro ⟨hpv | rfl, hpid⟩
        · have hhm : s.hm x = some p := (h.agree x p).mpr ⟨hpv, (hget p hpv).symm.trans hpid⟩
          rw [if_neg (by rintro rfl; rw [hx] at hhm; cases hhm), hhm]
        · rw [if_pos (hpid.symm.trans hnew)]
    · intro p hp
      rcases (hmem p).mp hp with hp | rfl
      · exact Nat.lt_succ_of_lt (h.allocated p hp)
      · exact Nat.lt_succ_self _
    · intro x
      simp only [Stale, hsupp, or_false, Function.update_apply]
      by_cases hxid : x = id
      · simp [hxid, hidx]
      · simp [hxid]
    · simp

/-- The heap has lost the server of `id`: what is left is well formed again once its key is gone. -/
theorem next_of_takenOut {s : LoadBalancer} (h : s.WellFormed) {id : UInt32} {si : Ptr}
    (hx : s.hm id = some si) {stays : Prop} {heap : MinHeap Ptr}
    (ht : MinHeap.TakenOut s.elem s.minHeap si stays heap) :
    s.Next (fun x => x = id ∧ stays)
      { s with minHeap := heap, hm := Function.update s.hm id none } := by
  obtain ⟨hmem, hid⟩ := (h.agree id si).mp hx
  have hid' : s.elem.getID si = id := hid
  -- no pointer occurs twice, so those left in the heap are all but `si`
  have hnodup : (si :: heap.vec).Nodup := ht.perm.nodup_iff.mp h.indexed.nodup
  have hrest : ∀ p, p ∈ heap.vec ↔ p ∈ s.minHeap.vec ∧ p ≠ si := by
    intro p
    rw [ht.perm.mem_iff, List.mem_cons]
    constructor
    · intro hp
      exact ⟨.inr hp, fun heq => (List.nodup_cons.mp hnodup).1 (heq ▸ hp)⟩
    · rintro ⟨rfl | hp, hne⟩
      · exact absurd rfl hne
      · exact hp
  refine ⟨⟨ht.indexed, fun x p => ?_, fun p hp => h.allocated p ((hrest p).mp hp).1⟩, fun x => ?_⟩
  · dsimp only
    rw [hrest, Function.update_apply]
    by_cases hxid : x = id
    · subst hxid
      rw [if_pos rfl]
      refine ⟨fun hp => (by cases hp), ?_⟩
      rintro ⟨⟨hp, hne⟩, hpid⟩
      exact absurd (h.indexed.key_inj hp hmem (hpid.trans hid'.symm)) hne
    · rw [if_neg hxid, h.agree]
      refine ⟨fun ⟨hp, hpid⟩ => ⟨⟨hp, ?_⟩, hpid⟩, fun ⟨⟨hp, _⟩, hpid⟩ => ⟨hp, hpid⟩⟩
      rintro rfl
      exact hxid (hpid.symm.trans hid')
  · have hidx : (s.minHeap.idx id).isSome := hid' ▸ h.indexed.isSome hmem
    simp only [Stale, ht.support, Function.update_apply, hid']
    by_cases hxid : x = id
    · simp [hxid, hidx, hx]
    · simp [hxid]

/-- The server stands in the last slot of several. -/
def LastOfSeveral (s : LoadBalancer) (si : Ptr) : Prop :=
  s.minHeap.vec.getLast? = some si ∧ 1 < s.minHeap.vec.length

theorem WellFormed.lastOfSeveral_iff {s : LoadBalancer} (h : s.WellFormed) {i : ℕ} {si : Ptr}
    (hi : s.minHeap.vec[i]? = some si) :
    s.LastOfSeveral si ↔ i + 1 = s.minHeap.vec.length ∧ 1 < s.minHeap.vec.length := by
  have hlt := (List.getElem?_eq_some_iff.mp hi).1
  unfold LastOfSeveral
  rw [List.getLast?_eq_getElem?]
  refine and_congr_left fun _ => ⟨fun hlast => ?_, fun hlast => ?_⟩
  · have := h.indexed.slot_unique hi hlast rfl; omega
  · rw [← hi]; congr 1; omega

/-- **Taking a server out leaves its entry stale exactly if it stood in the last of several
slots.** -/
theorem takeServer_next {s : LoadBalancer} (h : s.WellFormed) {id : UInt32} {si : Ptr}
    (hx : s.hm id = some si) :
    ∃ s', s.takeServer (s.mem si).id id = .ok s' ∧
      s.Next (fun x => x = id ∧ s.LastOfSeveral si) s' := by
  obtain ⟨i, hi, hid⟩ := h.slot hx
  obtain ⟨heap, hok, ht⟩ := MinHeap.anyRemove_takenOut h.indexed hi
  refine ⟨_, ?_, next_of_takenOut h hx (ht.mono (h.lastOfSeveral_iff hi).symm)⟩
  show (s.minHeap.anyRemove s.elem (s.elem.getID si) >>= _) = _
  rw [hok]; rfl

/-- The server on top of the heap, and the heap without it. -/
theorem WellFormed.exists_top {s : LoadBalancer} (h : s.WellFormed) (hne : s.minHeap.vec ≠ []) :
    ∃ si heap, s.minHeap.get = .ok si ∧ s.hm (s.mem si).id = some si ∧
      s.minHeap.remove s.elem = .ok heap ∧ MinHeap.TakenOut s.elem s.minHeap si False heap := by
  obtain ⟨si, rest, hvec⟩ := List.exists_cons_of_ne_nil hne
  obtain ⟨heap, hok, ht⟩ := MinHeap.remove_takenOut h.indexed (a := si) (by rw [hvec]; rfl)
  refine ⟨si, heap, ?_, (h.agree _ _).mpr ⟨?_, rfl⟩, hok, ht⟩
  · rw [MinHeap.get, hvec]
  · rw [hvec]
    exact List.mem_cons_self

/-- Servers are taken off the top, which leaves no stale entries. -/
theorem getMinimalLoop_next : ∀ (n : ℕ) (clock : Clock) (updated : Bool) {s : LoadBalancer},
    s.WellFormed → ∃ r s', getMinimalLoop n clock updated s = .ok (r, s') ∧
      s.Next (fun _ => False) s'
  | 0, _, updated, s, h => ⟨_, s, rfl, h, fun x => by simp⟩
  | n + 1, clock, updated, s, h => by
    rw [getMinimalLoop]
    split
    · exact ⟨_, s, rfl, h, fun x => by simp⟩
    · next hne =>
      obtain ⟨si, heap, hget, hx, hok, ht⟩ := h.exists_top hne
      simp only [hget, bind, Except.bind, hok]
      split
      · have hnext := next_of_takenOut h hx ht
        obtain ⟨r, s', hloop, hnext'⟩ := getMinimalLoop_next n clock.later true hnext.wf
        exact ⟨r, s', hloop, hnext'.wf, fun x => by rw [hnext'.stale, hnext.stale]; simp⟩
      · exact ⟨_, s, rfl, h, fun x => by simp⟩

/-- The bound of the loop is no limit: as many iterations as there are servers are enough. -/
theorem getMinimalLoop_bound : ∀ (n : ℕ) (clock : Clock) (updated : Bool) {s : LoadBalancer},
    s.WellFormed → s.minHeap.vec.length ≤ n →
      getMinimalLoop (n + 1) clock updated s = getMinimalLoop n clock updated s
  | 0, clock, updated, s, _, hlen => by
    have hnil : s.minHeap.vec = [] := List.eq_nil_of_length_eq_zero (by omega)
    rw [getMinimalLoop, getMinimalLoop, if_pos hnil]
  | n + 1, clock, updated, s, h, hlen => by
    rw [getMinimalLoop, getMinimalLoop]
    split
    · rfl
    · next hne =>
      obtain ⟨si, heap, hget, hx, hok, ht⟩ := h.exists_top hne
      have hless : heap.vec.length + 1 = s.minHeap.vec.length := ht.perm.length_eq.symm
      simp only [hget, bind, Except.bind, hok]
      split
      · exact getMinimalLoop_bound n clock.later true (next_of_takenOut h hx ht).wf
          (by dsimp only; omega)
      · rfl

/-- During a sweep: no server that is found expired stands in the last slot of several when it is
taken out. -/
def SweepSafe : List UInt32 → Clock → LoadBalancer → Prop
  | [], _, _ => True
  | key :: order, clock, s =>
    match s.hm key with
    | none => SweepSafe order clock s
    | some si =>
      if s.expired (clock 0) si then
        ¬ s.LastOfSeveral si ∧
          ∀ s', s.takeServer (s.mem si).id key = .ok s' → SweepSafe order clock.later s'
      else SweepSafe order clock.later s

/-- A sweep ends without an exception; it leaves a stale entry if there was one before or if it was
not safe. -/
theorem checkTTLLoop_next : ∀ (order : List UInt32) (clock : Clock) (removed : UInt32)
    {s : LoadBalancer}, s.WellFormed → ∃ r s', checkTTLLoop order clock removed s = .ok (r, s') ∧
      s'.WellFormed ∧ ((∃ x, s'.Stale x) ↔ (∃ x, s.Stale x) ∨ ¬ SweepSafe order clock s)
  | [], _, removed, s, h => ⟨removed, s, rfl, h, by simp [SweepSafe]⟩
  | key :: order, clock, removed, s, h => by
    rw [checkTTLLoop, SweepSafe]
    cases hx : s.hm key with
    | none => exact checkTTLLoop_next order clock removed h
    | some si =>
      dsimp only
      split
      · obtain ⟨s₁, hok, hnext⟩ := takeServer_next h hx
        obtain ⟨r, s', hloop, hwf, hstale⟩ := checkTTLLoop_next order clock.later
          (removed + 1) hnext.wf
        refine ⟨r, s', by rw [hok]; exact hloop, hwf, ?_⟩
        have hnew : (∃ x, s₁.Stale x) ↔ (∃ x, s.Stale x) ∨ s.LastOfSeveral si := by
          simp only [hnext.stale, exists_or, exists_eq_left]
        rw [hstale, hnew, hok]
        simp only [Except.ok.injEq, forall_eq']
        tauto
      · exact checkTTLLoop_next order clock.later removed h

/-! ## Whole runs

An operation is safe or not in the state in which it is called; that is the condition along a run. -/

/-- The step takes no server out of the last slot of several with `AnyRemove`. -/
def Safe (s : LoadBalancer) : Op → Prop
  | .removeServer id => ∀ si, s.hm id = some si → ¬ s.LastOfSeveral si
  | .checkTTL order clock => SweepSafe order clock s
  | _ => True

/-- From an exact state no operation throws or leaves `vec_`, and what it leaves is exact if and
only if the step was safe. -/
theorem step_exact_iff {s : LoadBalancer} (h : s.WellFormed) (hns : ∀ x, ¬ s.Stale x) (op : Op) :
    ∃ s', s.step op = .ok s' ∧ s'.WellFormed ∧ ((∀ x, ¬ s'.Stale x) ↔ s.Safe op) := by
  -- the operations that call no `AnyRemove` make no entry stale
  have hkeep : ∀ {s' : LoadBalancer}, s.Next (fun _ => False) s' →
      s'.WellFormed ∧ ((∀ x, ¬ s'.Stale x) ↔ True) := by
    intro s' hnext
    exact ⟨hnext.wf, by simpa [hnext.stale] using hns⟩
  cases op with
  | registerServerInfo id addr load now =>
    obtain ⟨s', hok, hnext, -⟩ := registerServerInfo_next h (hns id) addr load now
    exact ⟨s', by rw [step, hok]; rfl, hkeep hnext⟩
  | updateServerLoad id load now =>
    simp only [step, updateServerLoad]
    cases hx : s.hm id with
    | none => exact ⟨s, rfl, h, by simpa [Safe] using hns⟩
    | some si =>
      obtain ⟨s', hok, hnext, -⟩ := refresh_next h hx (s.mem si).addr load now
      exact ⟨s', by simp only [hok]; rfl, hkeep hnext⟩
  | removeServer id =>
    simp only [step, removeServer, Safe]
    cases hx : s.hm id with
    | none => exact ⟨s, rfl, h, by simpa using hns⟩
    | some si =>
      obtain ⟨s', hok, hnext⟩ := takeServer_next h hx
      rw [((h.agree id si).mp hx).2] at hok
      refine ⟨s', by simp only [hok]; rfl, hnext.wf, ?_⟩
      simp [hnext.stale, hns]
  | getMinimalLoadServerInfo clock =>
    obtain ⟨r, s', hok, hnext⟩ := getMinimalLoop_next s.minHeap.vec.length clock false h
    exact ⟨s', by rw [step, getMinimalLoadServerInfo, hok]; rfl, hkeep hnext⟩
  | checkTTL order clock =>
    obtain ⟨r, s', hok, hwf, hstale⟩ := checkTTLLoop_next order clock 0 h
    refine ⟨s', by rw [step, checkTTL, hok]; rfl, hwf, ?_⟩
    rw [← not_exists, hstale]
    simp [hns, Safe]

theorem init_wellFormed : init.WellFormed where
  indexed := by intro i a hi; simp [init] at hi
  agree := by simp [init]
  allocated := by simp [init]

/-- Every step of the run is safe in the state it is taken from. -/
def SafeRun : LoadBalancer → List Op → Prop
  | _, [] => True
  | s, op :: ops => s.Safe op ∧ ∀ s', s.step op = .ok s' → SafeRun s' ops

/-- A safe run ends, in a state without stale entries. -/
theorem run_of_safe : ∀ {ops : List Op} {s : LoadBalancer}, s.WellFormed → (∀ x, ¬ s.Stale x) →
    s.SafeRun ops → ∃ s', s.run ops = .ok s' ∧ s'.WellFormed ∧ ∀ x, ¬ s'.Stale x
  | [], s, h, hns, _ => ⟨s, rfl, h, hns⟩
  | op :: ops, s, h, hns, hsafe => by
    obtain ⟨s₁, hok, hwf, hiff⟩ := step_exact_iff h hns op
    obtain ⟨s', hrun, hend⟩ := run_of_safe hwf (hiff.mpr hsafe.1) (hsafe.2 s₁ hok)
    exact ⟨s', by rw [run, hok]; exact hrun, hend⟩

/-- Every begin of a safe run is safe. -/
theorem SafeRun.take : ∀ {pre ops : List Op} {s : LoadBalancer}, pre <+: ops →
    s.SafeRun ops → s.SafeRun pre
  | [], _, _, _, _ => trivial
  | op :: pre, [], _, hpre, _ => absurd hpre (by simp)
  | op :: pre, op' :: ops, s, hpre, hsafe => by
    obtain ⟨rfl, hpre'⟩ := List.cons_prefix_cons.mp hpre
    exact ⟨hsafe.1, fun s' hs' => (hsafe.2 s' hs').take hpre'⟩

/-- A run through exact states only is safe. -/
theorem safeRun_of_exact : ∀ {ops : List Op} {s : LoadBalancer}, s.WellFormed →
    (∀ x, ¬ s.Stale x) → (∀ pre, pre <+: ops → ∃ s', s.run pre = .ok s' ∧ s'.Exact) → s.SafeRun ops
  | [], _, _, _, _ => trivial
  | op :: ops, s, h, hns, hall => by
    obtain ⟨s₁, hok, hwf, hiff⟩ := step_exact_iff h hns op
    have hcons : ∀ pre, s.run (op :: pre) = s₁.run pre := fun pre => by rw [run, hok]; rfl
    have hns₁ : ∀ x, ¬ s₁.Stale x := by
      obtain ⟨s', hs', hex⟩ := hall [op] ⟨ops, rfl⟩
      rw [hcons, run, Except.ok.injEq] at hs'
      exact hwf.exact_iff.mp (hs' ▸ hex)
    refine ⟨hiff.mp hns₁, fun s' hs' => ?_⟩
    rw [hok, Except.ok.injEq] at hs'
    subst hs'
    refine safeRun_of_exact hwf hns₁ fun pre hpre => ?_
    rw [← hcons]
    exact hall (op :: pre) (List.cons_prefix_cons.mpr ⟨rfl, hpre⟩)

/-- **The index stays exact, and no operation throws or leaves `vec_`, exactly along the runs in
which `AnyRemove` never takes the last of several slots.** After such a run a server that registers,
again or for the first time, is in the heap. -/
theorem index_exact_iff (ops : List Op) :
    ((∀ pre, pre <+: ops → ∃ s, init.run pre = .ok s ∧ s.Exact) ↔ init.SafeRun ops) ∧
      (init.SafeRun ops → ∃ s, init.run ops = .ok s ∧ ∀ id addr load now, ∃ s',
        s.registerServerInfo id addr load now = .ok (true, s') ∧
          id ∈ s'.minHeap.vec.map s'.elem.getID) := by
  have hns : ∀ x, ¬ init.Stale x := by simp [Stale, init]
  refine ⟨⟨safeRun_of_exact init_wellFormed hns, fun hsafe pre hpre => ?_⟩, fun hsafe => ?_⟩
  · obtain ⟨s, hrun, hwf, hstale⟩ := run_of_safe init_wellFormed hns (hsafe.take hpre)
    exact ⟨s, hrun, hwf.exact_iff.mpr hstale⟩
  · obtain ⟨s, hrun, hwf, hstale⟩ := run_of_safe init_wellFormed hns hsafe
    refine ⟨s, hrun, fun id addr load now => ?_⟩
    obtain ⟨s', hok, hnext, hsome⟩ := registerServerInfo_next hwf (hstale id) addr load now
    exact ⟨s', hok, (hnext.wf.keys id).mp hsome⟩

/-- Two servers register and the second, in the last slot, is removed: its entry stays, and when it
registers again `vec_` is accessed behind its end. -/
theorem index_stale_after_removeServer :
    ∃ s, init.run [.registerServerInfo 1 "10.0.0.1" 10 0, .registerServerInfo 2 "10.0.0.2" 20 0,
        .removeServer 2] = .ok s ∧
      s.minHeap.vec.length = 1 ∧ s.minHeap.idx 2 = some 1 ∧ ¬ s.Exact ∧
      s.registerServerInfo 2 "10.0.0.2" 20 0 = .error .outOfBounds := by
  refine ⟨_, rfl, rfl, rfl, fun hex => ?_, rfl⟩
  obtain ⟨si, hsi, -⟩ := (hex.index 2 1).mp rfl
  cases hsi

end LoadBalancer

end Chatroom.Status
