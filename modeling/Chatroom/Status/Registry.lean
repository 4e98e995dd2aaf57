import Chatroom.Lib.Refinement
import Chatroom.Status.Expiry

/-!
# What the load balancer is for

A registry: a table of servers by their id, from which selections and sweeps drop servers that have been
silent too long. The registry knows no heap, no index and no pointers. `LoadBalancer` refines it as long
as the changes of loads fit into a signed number, the clock does not go back, and `AnyRemove` does not
take the last slot of several; its answers are then those the registry allows.
-/

namespace Chatroom.Status

open PosIndex Refinement

/-! ## The registry

Written without a look at the code: what a caller may expect of each call. Selections and sweeps may
leave open in which order they meet the servers, but not whom they drop: only one who is silent for 40
seconds at the reading of the clock made for it. -/

/-- How long a server has been silent, in milliseconds. -/
def ServerInfo.silent (si : ServerInfo) (now : UInt64) : ℕ := now.toNat - si.lastTs.toNat

def ServerInfo.Live (si : ServerInfo) (now : UInt64) : Prop := si.silent now < serverTimeout.toNat

instance (si : ServerInfo) (now : UInt64) : Decidable (si.Live now) :=
  inferInstanceAs (Decidable (_ < _))

/-- The servers by their ids. -/
abbrev Registry := UInt32 → Option ServerInfo

/-- What a call returns. -/
inductive Answer where
  | ret (ret : Bool)
  | info (si : Option ServerInfo) (updated : Bool)
  | removed (count : UInt32)
  deriving DecidableEq, Repr

namespace Registry

/-- A selection that reads the clock `n` times before the last. -/
structure Selects (R : Registry) (clock : Clock) (n : ℕ) (info : Option ServerInfo) (updated : Bool)
    (R' : Registry) : Prop where
  /-- Whoever is dropped was silent too long, at a reading before the last. -/
  dropped : ∀ x, R' x = R x ∨ R' x = none ∧ ∃ si k, R x = some si ∧ k < n ∧ ¬ si.Live (clock k)
  flag : updated = true ↔ ∃ x, R' x ≠ R x
  /-- Whoever is selected is kept, is live, and has the least load of those live. -/
  found : ∀ si, info = some si → R' si.id = some si ∧ si.Live (clock n) ∧
    ∀ x other, R x = some other → other.Live (clock n) → si.load ≤ other.load
  missed : info = none → ∀ x, R' x = none

/-- A sweep over the ids in an order, with the number of those dropped. -/
structure Sweeps (R : Registry) (order : List UInt32) (clock : Clock) (count : UInt32)
    (R' : Registry) : Prop where
  swept : ∀ (k : ℕ) x, order[k]? = some x → R' x = (R x).filter fun si => si.Live (clock k)
  rest : ∀ x, x ∉ order → R' x = R x
  counted : count = UInt32.ofNat (order.countP fun x => (R' x).isNone)

/-- The answers allowed to a call, and what it makes of the registry. -/
inductive Allows (R : Registry) : LoadBalancer.Op → Answer → Registry → Prop
  | register (id : UInt32) (addr : String) (load : UInt32) (now : UInt64) :
      Allows R (.registerServerInfo id addr load now) (.ret true)
        (Function.update R id (some ⟨id, addr, load, now⟩))
  | report {id : UInt32} {si : ServerInfo} (load : UInt32) (now : UInt64) : R id = some si →
      Allows R (.updateServerLoad id load now) (.ret true)
        (Function.update R id (some { si with load := load, lastTs := now }))
  | unknown {id : UInt32} (load : UInt32) (now : UInt64) : R id = none →
      Allows R (.updateServerLoad id load now) (.ret false) R
  | remove (id : UInt32) :
      Allows R (.removeServer id) (.ret (R id).isSome) (Function.update R id none)
  | select {clock : Clock} {n : ℕ} {info : Option ServerInfo} {updated : Bool} {R' : Registry} :
      R.Selects clock n info updated R' →
      Allows R (.getMinimalLoadServerInfo clock) (.info info updated) R'
  | sweep {order : List UInt32} {clock : Clock} {count : UInt32} {R' : Registry} :
      R.Sweeps order clock count R' → Allows R (.checkTTL order clock) (.removed count) R'

end Registry

namespace LoadBalancer

open MinHeap

/-- A call with its answer. -/
def answering {α : Type} (answer : α → Answer) (r : Except HeapError (α × LoadBalancer)) :
    Except HeapError (Answer × LoadBalancer) :=
  r.map fun (a, s) => (answer a, s)

def perform (s : LoadBalancer) : Op → Except HeapError (Answer × LoadBalancer)
  | .registerServerInfo id addr load now => answering .ret (s.registerServerInfo id addr load now)
  | .updateServerLoad id load now => answering .ret (s.updateServerLoad id load now)
  | .removeServer id => answering .ret (s.removeServer id)
  | .getMinimalLoadServerInfo clock =>
    answering (fun (si, updated) => .info si updated) (s.getMinimalLoadServerInfo clock)
  | .checkTTL order clock => answering .removed (s.checkTTL order clock)

variable {s s' : LoadBalancer} {id x : UInt32} {si p : Ptr} {info : ServerInfo} {clock : Clock}
  {removed : List Ptr}

/-! ## The servers of a load balancer

`view` forgets the heap and the pointers. `hm_` and `mem` determine it, and what the earlier modules
say
about them after a removal (`Kept`) or a report (`Reported`) is turned into equations between views. -/

def view (s : LoadBalancer) : Registry := fun x => (s.hm x).map s.mem

theorem view_of_hm (h : s.hm x = some p) : s.view x = some (s.mem p) := by
  rw [view, h]
  rfl

theorem view_eq_some (h : s.view x = some info) : ∃ p, s.hm x = some p ∧ s.mem p = info :=
  Option.map_eq_some_iff.mp h

theorem view_eq_none : s.view x = none ↔ s.hm x = none := Option.map_eq_none_iff

/-- One server has changed, or is new. -/
theorem view_update (hself : s'.view id = some info)
    (hrest : ∀ x, x ≠ id → s'.view x = s.view x) : s'.view = Function.update s.view id (some info) := by
  funext x
  by_cases hx : x = id
  · rw [hx, Function.update_self, hself]
  · rw [Function.update_of_ne hx, hrest x hx]

/-- A server that was not taken out is seen as before. -/
theorem Kept.view_of_notMem (h : s.Kept removed s') (hx : s.hm x = some p) (hp : p ∉ removed) :
    s'.view x = s.view x := by
  rw [view_of_hm hx, view_of_hm ((h.hm x p).mpr ⟨hx, hp⟩), h.mem]

/-- One that was taken out is not seen any more. -/
theorem Kept.view_of_mem (h : s.Kept removed s') (hx : s.hm x = some p) (hp : p ∈ removed) :
    s'.view x = none := by
  rw [view_eq_none, Option.eq_none_iff_forall_ne_some]
  intro q hq
  obtain ⟨hsame, hnot⟩ := (h.hm x q).mp hq
  rw [hx] at hsame
  cases hsame
  exact hnot hp

/-- And no server appears. -/
theorem Kept.view_of_none (h : s.Kept removed s') (hx : s.hm x = none) : s'.view x = none := by
  rw [view_eq_none, Option.eq_none_iff_forall_ne_some]
  intro q hq
  have hsame := ((h.hm x q).mp hq).1
  rw [hx] at hsame
  cases hsame

/-! ## The calls

For each call: it does not throw on a sound balancer that admits it, it leaves a sound one, and its
effect on the view is an update at one id. -/

/-- What a call needs. -/
def Admits (s : LoadBalancer) : Op → Prop
  | .registerServerInfo id _ load _ | .updateServerLoad id load _ =>
    ∀ si, s.hm id = some si → HintTrue load (s.mem si).load
  | .removeServer id => ∀ si, s.hm id = some si → ¬ s.LastOfSeveral si
  | .getMinimalLoadServerInfo clock => s.Forward clock
  | .checkTTL order clock => s.Iterates order ∧ s.Forward clock ∧ SweepSafe order clock s

/-- A report of a registered server. -/
theorem refresh_view (h : s.Sound) (hx : s.hm id = some si) (addr : String) {load : UInt32}
    (now : UInt64) (hhint : HintTrue load (s.mem si).load) :
    ∃ s', s.refresh id si addr load now = .ok s' ∧ s'.Sound ∧ s'.view = Function.update s.view id
      (some { s.mem si with addr := addr, load := load, lastTs := now }) := by
  obtain ⟨s', hok, hrep⟩ := refresh_reported h hx addr now hhint.less hhint.greater
  refine ⟨s', hok, hrep.sound, view_update ?_ fun x hne => ?_⟩
  · rw [view, hrep.hm, hx, hrep.mem]
    exact congrArg some (Function.update_self ..)
  · rw [view, view, hrep.hm, hrep.mem]
    cases hp : s.hm x with
    | none => rfl
    | some p =>
      have hother : p ≠ si := by
        rintro rfl
        exact hne (((h.wf.agree x p).mp hp).2.symm.trans ((h.wf.agree id p).mp hx).2)
      exact congrArg some (Function.update_of_ne hother ..)

/-- The order of the heap depends on the loads of the servers in it only. -/
theorem ordered_congr {heap : MinHeap Ptr} {mem mem' : Ptr → ServerInfo}
    (hsame : ∀ p ∈ heap.vec, mem' p = mem p) (hord : heap.Ordered (loadOf mem)) :
    heap.Ordered (loadOf mem') := by
  have hload : heap.loadAt (loadOf mem') = heap.loadAt (loadOf mem) := by
    funext k
    unfold loadAt
    cases hk : heap.vec[k]? with
    | none => rfl
    | some p =>
      show loadOf mem' p = loadOf mem p
      rw [loadOf, hsame p (List.mem_of_getElem? hk), loadOf]
  unfold Ordered
  rw [hload]
  exact hord

/-- A new server registers. -/
theorem registerServerInfo_new (h : s.Sound) (hx : s.hm id = none) (addr : String) (load : UInt32)
    (now : UInt64) : ∃ s', s.registerServerInfo id addr load now = .ok (true, s') ∧ s'.Sound ∧
      s'.view = Function.update s.view id (some ⟨id, addr, load, now⟩) := by
  have hidx : s.minHeap.idx id = none := by
    by_contra hsome
    exact h.not_stale id ⟨Option.isSome_iff_ne_none.mpr hsome, hx⟩
  -- the servers there are lie where they lay
  have hold : ∀ p ∈ s.minHeap.vec,
      Function.update s.mem s.next (⟨id, addr, load, now⟩ : ServerInfo) p = s.mem p :=
    fun p hp => Function.update_of_ne (Nat.ne_of_lt (h.wf.allocated p hp)) ..
  obtain ⟨heap, hheap, hord⟩ := insertOrUpdate_fresh_ordered (byLoad _) (ordered_congr hold h.ordered)
    hidx s.next 0
  obtain ⟨s', hok, hnext, -⟩ := registerServerInfo_next h.wf (h.not_stale id) addr load now
  have heq := hok
  simp only [registerServerInfo, hx, bind, Except.bind, hheap] at heq
  cases heq
  refine ⟨_, hok, h.next hnext (fun _ hf => hf) hord, view_update ?_ fun x hne => ?_⟩
  · show (Function.update s.hm id (some s.next) id).map _ = _
    rw [Function.update_self]
    exact congrArg some (Function.update_self ..)
  · show (Function.update s.hm id (some s.next) x).map _ = (s.hm x).map _
    rw [Function.update_of_ne hne]
    cases hp : s.hm x with
    | none => rfl
    | some p => exact congrArg some (hold p ((h.wf.agree x p).mp hp).1)

/-- `RemoveServer` of a registered server. -/
theorem removeServer_view (h : s.Sound) (hx : s.hm id = some si) (hlast : ¬ s.LastOfSeveral si) :
    ∃ s', s.takeServer id id = .ok s' ∧ s'.Sound ∧ s'.view = Function.update s.view id none := by
  have hid := ((h.wf.agree id si).mp hx).2
  obtain ⟨s', hok, hkept, hwf, hord⟩ := takeServer_kept h.wf h.ordered hx
  obtain ⟨s'', hok', hnext⟩ := takeServer_next h.wf hx
  cases hok.symm.trans hok'
  rw [hid] at hok
  refine ⟨s', hok, h.next hnext (fun _ hnew => hlast hnew.2) hord, ?_⟩
  funext x
  by_cases hxid : x = id
  · subst hxid
    rw [Function.update_self, hkept.view_of_mem hx List.mem_cons_self]
  · rw [Function.update_of_ne hxid]
    cases hp : s.hm x with
    | none => rw [hkept.view_of_none hp, view_eq_none.mpr hp]
    | some p =>
      refine hkept.view_of_notMem hp fun hmem => hxid ?_
      rw [List.mem_singleton] at hmem
      rw [← ((h.wf.agree x p).mp hp).2, hmem, hid]

/-! ## Selection and sweep

These two may take out any number of servers. Their loops have been described by the list of the
servers
that they take out (`Selected`, `Swept`), in the order of the readings of the clock; here the
descriptions
are read as facts about the view. -/

theorem not_live_iff {now : UInt64} : ¬ (s.mem p).Live now ↔ serverTimeout.toNat ≤ s.age now p :=
  Nat.not_lt

/-- A selection is one of the registry. Who is dropped was on top of the heap and silent too long; who
is returned is on top at the end. -/
theorem Selected.selects (h : s.Sound) (hclock : s.Forward clock)
    (hsel : s.Selected clock removed s') :
    s.view.Selects clock removed.length (s'.minHeap.vec.head?.map s.mem) (!removed.isEmpty)
      s'.view := by
  have hgone : ∀ p ∈ removed, ∃ x, s.hm x = some p := fun p hp =>
    ⟨_, (h.wf.agree _ p).mpr ⟨hsel.kept.perm.mem_iff.mpr (List.mem_append_left _ hp), rfl⟩⟩
  -- what becomes of each server, whether anything was removed, and the two answers
  refine ⟨fun x => ?_, ?_, fun info hinfo => ?_, fun hnone x => ?_⟩
  · cases hx : s.hm x with
    | none => exact .inl ((hsel.kept.view_of_none hx).trans (view_eq_none.mpr hx).symm)
    | some p =>
      by_cases hp : p ∈ removed
      · obtain ⟨k, hk⟩ := List.mem_iff_getElem?.mp hp
        exact .inr ⟨hsel.kept.view_of_mem hx hp, s.mem p, k, view_of_hm hx,
          (List.getElem?_eq_some_iff.mp hk).1, not_live_iff.mpr (hsel.old k p hk)⟩
      · exact .inl (hsel.kept.view_of_notMem hx hp)
  · cases removed with
    | nil =>
      refine iff_of_false (by decide) fun ⟨x, hx⟩ => hx ?_
      cases hp : s.hm x with
      | none => rw [hsel.kept.view_of_none hp, view_eq_none.mpr hp]
      | some p => exact hsel.kept.view_of_notMem hp List.not_mem_nil
    | cons p removed =>
      obtain ⟨x, hx⟩ := hgone p List.mem_cons_self
      refine iff_of_true rfl ⟨x, ?_⟩
      rw [hsel.kept.view_of_mem hx List.mem_cons_self, view_of_hm hx]
      intro hnone
      cases hnone
  · obtain ⟨si, hhead, rfl⟩ := Option.map_eq_some_iff.mp hinfo
    have hmem := hsel.kept.mem
    refine ⟨?_, hsel.live si hhead, fun x other hx hlive => ?_⟩
    · have hsi := (hsel.sound.wf.agree (s.mem si).id si).mpr ⟨List.mem_of_head? hhead, by rw [hmem]⟩
      rw [view_of_hm hsi, hmem]
    · obtain ⟨q, hq, rfl⟩ := view_eq_some hx
      exact hsel.minimal hclock hhead ((h.wf.agree x q).mp hq).1 hlive
  · have hnil := List.head?_eq_none_iff.mp (Option.map_eq_none_iff.mp hnone)
    rw [view_eq_none, ← Option.not_isSome_iff_eq_none, hsel.sound.wf.keys, hnil]
    exact List.not_mem_nil

/-- The ids dropped by a sweep are those of the servers taken out. -/
theorem Swept.countP_eq (h : s.Sound) {order : List UInt32} (horder : s.Iterates order)
    (hswept : s.Swept order clock removed s') :
    order.countP (fun x => (s'.view x).isNone) = removed.length := by
  have hids : (removed.map fun p => (s.mem p).id).Nodup := by
    have hall := (hswept.kept.perm.map s.elem.getID).nodup_iff.mp h.wf.indexed.nodup_keys
    rw [List.map_append] at hall
    exact (List.nodup_append.mp hall).1
  have hperm : (order.filter fun x => (s'.view x).isNone).Perm (removed.map fun p => (s.mem p).id) := by
    refine (List.perm_ext_iff_of_nodup (horder.nodup.filter _) hids).mpr fun x => ?_
    rw [List.mem_filter, horder.keys, Option.isNone_iff_eq_none, List.mem_map]
    constructor
    · rintro ⟨hsome, hnone⟩
      obtain ⟨p, hp⟩ := Option.isSome_iff_exists.mp hsome
      refine ⟨p, ?_, ((h.wf.agree x p).mp hp).2⟩
      by_contra hkept
      rw [hswept.kept.view_of_notMem hp hkept, view_of_hm hp] at hnone
      cases hnone
    · rintro ⟨p, hp, rfl⟩
      have hx : s.hm (s.mem p).id = some p := (h.wf.agree _ p).mpr
        ⟨hswept.kept.perm.mem_iff.mpr (List.mem_append_left _ hp), rfl⟩
      exact ⟨by rw [hx]; rfl, hswept.kept.view_of_mem hx hp⟩
  rw [List.countP_eq_length_filter, hperm.length_eq, List.length_map]

/-- A sweep is one of the registry: the server under the `k`th id is dropped exactly if it was silent
too long at the `k`th reading. -/
theorem Swept.sweeps (h : s.Sound) {order : List UInt32} (horder : s.Iterates order)
    (hswept : s.Swept order clock removed s') :
    s.view.Sweeps order clock (UInt32.ofNat removed.length) s'.view := by
  refine ⟨fun k x hk => ?_, fun x hx => ?_, by rw [hswept.countP_eq h horder]⟩
  · obtain ⟨p, hp⟩ := Option.isSome_iff_exists.mp ((horder.keys x).mp (List.mem_of_getElem? hk))
    rw [view_of_hm hp, Option.filter_some]
    split
    · next hlive =>
      rw [decide_eq_true_iff] at hlive
      rw [← view_of_hm hp]
      refine hswept.kept.view_of_notMem hp fun hgone => ?_
      obtain ⟨j, y, hj, hy, hold⟩ := (hswept.old p).mp hgone
      -- an id has one place in the order, so the reading is the same
      have hxy : y = x := ((h.wf.agree y p).mp hy).2.symm.trans ((h.wf.agree x p).mp hp).2
      have hjk : j = k := by
        have hlt := (List.getElem?_eq_some_iff.mp hj).1
        exact (List.getElem?_inj hlt horder.nodup).mp (hj.trans (hxy ▸ hk.symm))
      rw [hjk] at hold
      exact not_live_iff.mpr hold hlive
    · next hsilent =>
      rw [decide_eq_true_iff] at hsilent
      exact hswept.kept.view_of_mem hp ((hswept.old p).mpr ⟨k, x, hk, hp, not_live_iff.mp hsilent⟩)
  · have hnone : s.hm x = none := by
      rw [← Option.not_isSome_iff_eq_none, ← horder.keys]
      exact hx
    rw [hswept.kept.view_of_none hnone, view_eq_none.mpr hnone]

/-! ## Refinement

One lemma for each call, and the library takes it from there: what holds of each call holds of whole
sequences of them. -/

/-- The call is answered as the registry allows. -/
def Performs (s : LoadBalancer) (op : Op) : Prop :=
  ∃ a s', perform s op = .ok (a, s') ∧ s'.Sound ∧ Registry.Allows s.view op a s'.view

/-- A server that is in the table is refreshed, with its address, and a new one is added. -/
theorem performs_registerServerInfo {id : UInt32} {addr : String} {load : UInt32} {now : UInt64}
    (h : s.Sound) (hadmits : s.Admits (.registerServerInfo id addr load now)) :
    s.Performs (.registerServerInfo id addr load now) := by
  cases hx : s.hm id with
  | none =>
    obtain ⟨s', hok, hsound, hview⟩ := registerServerInfo_new h hx addr load now
    refine ⟨.ret true, s', by rw [perform, hok]; rfl, hsound, ?_⟩
    rw [hview]
    exact .register id addr load now
  | some si =>
    obtain ⟨s', hok, hsound, hview⟩ := refresh_view h hx addr now (hadmits si hx)
    refine ⟨.ret true, s', ?_, hsound, ?_⟩
    · rw [perform, registerServerInfo, hx]
      simp only [hok]
      rfl
    · rw [hview]
      dsimp only
      rw [((h.wf.agree id si).mp hx).2]
      exact .register id addr load now

/-- A report is accepted exactly from a server in the table. -/
theorem performs_updateServerLoad {id load : UInt32} {now : UInt64} (h : s.Sound)
    (hadmits : s.Admits (.updateServerLoad id load now)) :
    s.Performs (.updateServerLoad id load now) := by
  cases hx : s.hm id with
  | none =>
    refine ⟨.ret false, s, ?_, h, .unknown load now (view_eq_none.mpr hx)⟩
    rw [perform, updateServerLoad, hx]
    rfl
  | some si =>
    obtain ⟨s', hok, hsound, hview⟩ := refresh_view h hx (s.mem si).addr now (hadmits si hx)
    refine ⟨.ret true, s', ?_, hsound, ?_⟩
    · rw [perform, updateServerLoad, hx]
      simp only [hok]
      rfl
    · rw [hview]
      exact .report load now (view_of_hm hx)

theorem performs_removeServer {id : UInt32} (h : s.Sound) (hadmits : s.Admits (.removeServer id)) :
    s.Performs (.removeServer id) := by
  have hallows := Registry.Allows.remove (R := s.view) id
  cases hx : s.hm id with
  | none =>
    have hsame : s.view = Function.update s.view id none := by
      rw [← view_eq_none.mpr hx, Function.update_eq_self]
    rw [← hsame, view_eq_none.mpr hx] at hallows
    refine ⟨.ret false, s, ?_, h, hallows⟩
    rw [perform, removeServer, hx]
    rfl
  | some si =>
    obtain ⟨s', hok, hsound, hview⟩ := removeServer_view h hx (hadmits si hx)
    rw [← hview, view_of_hm hx] at hallows
    refine ⟨.ret true, s', ?_, hsound, hallows⟩
    rw [perform, removeServer, hx]
    simp only [hok]
    rfl

theorem performs_getMinimalLoadServerInfo {clock : Clock} (h : s.Sound)
    (hadmits : s.Admits (.getMinimalLoadServerInfo clock)) :
    s.Performs (.getMinimalLoadServerInfo clock) := by
  obtain ⟨removed, s', hloop, hsel⟩ := getMinimalLoop_selected s.minHeap.vec.length clock false h
    hadmits (Nat.le_refl _)
  refine ⟨.info _ _, s', ?_, hsel.sound, .select (hsel.selects h hadmits)⟩
  rw [perform, getMinimalLoadServerInfo, hloop]
  rfl

theorem performs_checkTTL {order : List UInt32} {clock : Clock} (h : s.Sound)
    (hadmits : s.Admits (.checkTTL order clock)) : s.Performs (.checkTTL order clock) := by
  obtain ⟨horder, hclock, hsafe⟩ := hadmits
  obtain ⟨removed, s', hloop, hswept⟩ := checkTTLLoop_swept order clock 0 h.wf h.ordered
    horder.nodup (fun x hx => (horder.keys x).mp hx) hclock
  obtain ⟨r, s'', hloop', hwf, hstale⟩ := checkTTLLoop_next order clock 0 h.wf
  cases hloop.symm.trans hloop'
  have hns : ∀ x, ¬ s'.Stale x := by
    intro x hx
    rcases hstale.mp ⟨x, hx⟩ with ⟨y, hy⟩ | hunsafe
    · exact h.not_stale y hy
    · exact hunsafe hsafe
  rw [UInt32.zero_add] at hloop
  refine ⟨.removed _, s', ?_, ⟨hwf, hwf.exact_iff.mpr hns, hswept.ordered⟩,
    .sweep (hswept.sweeps h horder)⟩
  rw [perform, checkTTL, hloop]
  rfl

/-- **Each call is one of the registry.** -/
theorem perform_refines : Refines perform Admits Sound view Registry.Allows := by
  intro s op h hadmits
  show s.Performs op
  cases op with
  | registerServerInfo => exact performs_registerServerInfo h hadmits
  | updateServerLoad => exact performs_updateServerLoad h hadmits
  | removeServer => exact performs_removeServer h hadmits
  | getMinimalLoadServerInfo => exact performs_getMinimalLoadServerInfo h hadmits
  | checkTTL => exact performs_checkTTL h hadmits

/-- An empty balancer is sound. -/
theorem init_sound : init.Sound := by
  refine ⟨init_wellFormed, init_wellFormed.exact_iff.mpr ?_, ordered_nil rfl⟩
  intro x hx
  cases hx.1

/-- **The load balancer is a registry.** In every run in which the changes of loads fit into a signed
number, the clock does not go back and no `AnyRemove` takes the last slot of several, no call throws or
leaves `vec_`, and the answers are those of a table of servers by id: a report is accepted exactly from
a server in the table; a selection yields a live server with the least load of those live, and none only
if the table is empty; selections and sweeps drop only servers that have been silent for 40 seconds. -/
theorem execute_refines (ops : List Op) (hok : OkRun perform Admits init ops) :
    ∃ log s, execute perform init ops = .ok (log, s) ∧ log.map Prod.fst = ops ∧ s.Sound ∧
      Runs Registry.Allows (fun _ => none) log s.view :=
  perform_refines.execute ops init_sound hok

/-- Two servers register, the second reports; a sweep drops the first, which registers again and is
selected. -/
def twoServers : List Op :=
  [.registerServerInfo 1 "10.0.0.1" 0 0, .registerServerInfo 2 "10.0.0.2" 5 15000,
    .updateServerLoad 2 6 30000, .checkTTL [2, 1] fun _ => 45000,
    .registerServerInfo 1 "10.0.0.1" 0 46000, .getMinimalLoadServerInfo fun _ => 47000]

/-- The keys of `hm_` with these two servers, in the order of the sweep. -/
theorem mem_order_two (x : UInt32) : x ∈ [2, 1] ↔
    (Function.update (Function.update (fun _ => (none : Option Ptr)) 1 (some 0)) 2 (some 1) x).isSome := by
  simp only [Function.update_apply, List.mem_cons, List.not_mem_nil, or_false]
  split_ifs <;> simp [*]

/-- Each call of the sequence is admitted by the state in which it is made. -/
theorem twoServers_okRun : OkRun perform Admits init twoServers := by
  refine .cons (fun si hx => (by cases hx)) rfl ?_
  refine .cons (fun si hx => (by cases hx)) rfl ?_
  refine .cons (fun si hx => (by cases hx; decide)) rfl ?_
  refine .cons ⟨⟨by decide, fun x => ?_⟩, ⟨fun _ => UInt64.le_refl _, fun si hsi => ?_⟩, ?_⟩ rfl ?_
  · exact mem_order_two x
  · have hslots : si ∈ [0, 1] := hsi
    simp only [List.mem_cons, List.not_mem_nil, or_false] at hslots
    rcases hslots with rfl | rfl <;> decide
  · -- server 2 is live; server 1 is taken from the top, not from the last slot
    refine ⟨fun hlast => ?_, fun _ _ => trivial⟩
    exact absurd (show some 1 = some 0 from hlast.1) (by decide)
  refine .cons (fun si hx => (by cases hx)) rfl ?_
  refine .cons ⟨fun _ => UInt64.le_refl _, fun si hsi => ?_⟩ rfl trivial
  have hslots : si ∈ [2, 1] := hsi
  simp only [List.mem_cons, List.not_mem_nil, or_false] at hslots
  rcases hslots with rfl | rfl <;> decide

theorem execute_refines_twoServers : ∃ log s,
    execute perform init twoServers = .ok (log, s) ∧ log.map Prod.fst = twoServers ∧ s.Sound ∧
      Runs Registry.Allows (fun _ => none) log s.view ∧
      log.map Prod.snd = [.ret true, .ret true, .ret true, .removed 1, .ret true,
        .info (some ⟨1, "10.0.0.1", 0, 46000⟩) false] := by
  obtain ⟨log, s, hok, hcalls, hsound, hruns⟩ := execute_refines twoServers twoServers_okRun
  have hanswers : (execute perform init twoServers).map (fun r => r.1.map Prod.snd) =
      .ok [.ret true, .ret true, .ret true, .removed 1, .ret true,
        .info (some ⟨1, "10.0.0.1", 0, 46000⟩) false] := rfl
  rw [hok] at hanswers
  exact ⟨log, s, hok, hcalls, hsound, hruns, Except.ok.inj hanswers⟩

end LoadBalancer

end Chatroom.Status
