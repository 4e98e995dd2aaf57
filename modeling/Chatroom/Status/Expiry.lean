import Chatroom.Status.Balancing

/-!
# Expired servers

`GetMinimalLoadServerInfo` takes expired servers off the top of the heap until a live one stands
there; `CheckTTL` walks the hash map and takes out each server it finds expired. The clock is read
once for every server looked at, and moves on between the readings.

For both, `Kept` says what is left of the servers when those of a list have been taken out; what was
on the list, and what is returned, is read off the loop.
-/

namespace Chatroom.Status.LoadBalancer

open PosIndex MinHeap

variable {s s₁ s' : LoadBalancer} {si p : Ptr} {clock : Clock} {removed : List Ptr}

/-- How long a server has not been heard of, in milliseconds. -/
def age (s : LoadBalancer) (now : UInt64) (si : Ptr) : ℕ := now.toNat - (s.mem si).lastTs.toNat

/-- With a clock that has not gone back, the unsigned difference is the time since the last report. -/
theorem expired_iff {now : UInt64} (hle : (s.mem si).lastTs ≤ now) :
    s.expired now si = true ↔ serverTimeout.toNat ≤ s.age now si := by
  rw [expired, decide_eq_true_iff, ge_iff_le, UInt64.le_iff_toNat_le, UInt64.toNat_sub_of_le _ _ hle,
    age]

/-- A server does not get younger. -/
theorem age_mono {now later : UInt64} (hle : now ≤ later) : s.age now si ≤ s.age later si := by
  rw [UInt64.le_iff_toNat_le] at hle
  unfold age
  omega

/-- The clock does not go back, and no server was heard of after its first reading. -/
structure Forward (s : LoadBalancer) (clock : Clock) : Prop where
  mono : ∀ n, clock n ≤ clock (n + 1)
  heard : ∀ si ∈ s.minHeap.vec, (s.mem si).lastTs ≤ clock 0

theorem Forward.le (h : s.Forward clock) (n : ℕ) : ∀ k, clock n ≤ clock (n + k)
  | 0 => UInt64.le_refl _
  | k + 1 => UInt64.le_trans (h.le n k) (h.mono (n + k))

/-- The readings that are left go on, and so do the servers. -/
theorem Forward.later (h : s.Forward clock) (hmem : s'.mem = s.mem)
    (hsub : ∀ p ∈ s'.minHeap.vec, p ∈ s.minHeap.vec) : s'.Forward clock.later := by
  refine ⟨fun n => h.mono (n + 1), fun p hp => ?_⟩
  rw [hmem]
  exact UInt64.le_trans (h.heard p (hsub p hp)) (h.mono 0)

/-! ## What is left of the servers

Both loops take servers out one at a time. `Kept` composes over such steps (`Kept.cons`), so a loop is
described by the list of the servers that it has taken out. -/

/-- The servers `removed` are gone from heap and hash map alike, and the rest is as it was. -/
structure Kept (s : LoadBalancer) (removed : List Ptr) (s' : LoadBalancer) : Prop where
  perm : s.minHeap.vec.Perm (removed ++ s'.minHeap.vec)
  hm : ∀ x p, s'.hm x = some p ↔ s.hm x = some p ∧ p ∉ removed
  mem : s'.mem = s.mem

theorem Kept.refl (s : LoadBalancer) : s.Kept [] s := ⟨.refl _, by simp, rfl⟩

theorem Kept.sub (h : s.Kept removed s') (p : Ptr) (hp : p ∈ s'.minHeap.vec) : p ∈ s.minHeap.vec :=
  h.perm.mem_iff.mpr (List.mem_append_right removed hp)

/-- One server, and then those of a list. -/
theorem Kept.cons (h : s.Kept [si] s₁) (h' : s₁.Kept removed s') : s.Kept (si :: removed) s' := by
  refine ⟨?_, fun x p => ?_, h'.mem.trans h.mem⟩
  · exact h.perm.trans (h'.perm.cons si)
  · rw [h'.hm, h.hm, List.mem_singleton, List.mem_cons, not_or, and_assoc]

/-- A server leaves the heap, then its key the hash map. -/
theorem kept_of_takenOut (h : s.WellFormed) (hmem : si ∈ s.minHeap.vec) {stays : Prop}
    {heap : MinHeap Ptr} (ht : MinHeap.TakenOut s.elem s.minHeap si stays heap) :
    s.Kept [si] { s with minHeap := heap, hm := Function.update s.hm (s.mem si).id none } := by
  have hx : s.hm (s.mem si).id = some si := (h.agree _ si).mpr ⟨hmem, rfl⟩
  refine ⟨ht.perm, fun x p => ?_, rfl⟩
  show Function.update s.hm (s.mem si).id none x = some p ↔ _
  rw [Function.update_apply, List.mem_singleton]
  constructor
  · intro hp
    split at hp
    · cases hp
    · next hne =>
      refine ⟨hp, ?_⟩
      rintro rfl
      exact hne ((h.agree x p).mp hp).2.symm
  · rintro ⟨hp, hne⟩
    rw [if_neg, hp]
    rintro rfl
    rw [hx, Option.some.injEq] at hp
    exact hne hp.symm

/-! ## Selection

By induction on the number of servers. In each turn the one on top is looked at: it is expired and
goes,
with a later reading for the next one; or it is live, and by the order of the heap it has the least
load of
all that are left. -/

/-- The loop has taken out the servers `removed`, each expired at its reading, and ends with a live
server on top or with an empty heap. -/
structure Selected (s : LoadBalancer) (clock : Clock) (removed : List Ptr) (s' : LoadBalancer) :
    Prop where
  kept : s.Kept removed s'
  sound : s'.Sound
  old : ∀ k p, removed[k]? = some p → serverTimeout.toNat ≤ s.age (clock k) p
  live : ∀ p, s'.minHeap.vec.head? = some p → s.age (clock removed.length) p < serverTimeout.toNat

theorem age_congr (hmem : s'.mem = s.mem) (now : UInt64) (p : Ptr) : s'.age now p = s.age now p := by
  unfold age
  rw [hmem]

/-- A server was taken out, and the loop goes on with the next reading. -/
theorem Selected.cons (h : s.Kept [si] s₁) (hold : serverTimeout.toNat ≤ s.age (clock 0) si)
    (h' : s₁.Selected clock.later removed s') : s.Selected clock (si :: removed) s' := by
  refine ⟨h.cons h'.kept, h'.sound, ?_, fun p hp => ?_⟩
  · intro k p hk
    match k with
    | 0 =>
      cases hk
      exact hold
    | k + 1 =>
      have hage := h'.old k p hk
      rwa [age_congr h.mem] at hage
  · have hage := h'.live p hp
    rwa [age_congr h.mem] at hage

/-- **The loop of a selection.** The bound on its turns is at least the number of servers, so it never
runs out. -/
theorem getMinimalLoop_selected : ∀ (n : ℕ) (clock : Clock) (updated : Bool) {s : LoadBalancer},
    s.Sound → s.Forward clock → s.minHeap.vec.length ≤ n → ∃ removed s',
      getMinimalLoop n clock updated s =
        .ok ((s'.minHeap.vec.head?.map s.mem, updated || !removed.isEmpty), s') ∧
      s.Selected clock removed s'
  | 0, clock, updated, s, h, _, hlen => by
    have hnil : s.minHeap.vec = [] := List.eq_nil_of_length_eq_zero (Nat.le_zero.mp hlen)
    refine ⟨[], s, ?_, .refl s, h, by simp, by simp [hnil]⟩
    simp [getMinimalLoop, hnil]
  | n + 1, clock, updated, s, h, hclock, hlen => by
    rw [getMinimalLoop]
    split
    · next hnil => exact ⟨[], s, by simp [hnil], .refl s, h, by simp, by simp [hnil]⟩
    · next hne =>
      obtain ⟨si, hget, hhead⟩ := get_of_ne_nil hne
      have hmem : si ∈ s.minHeap.vec := List.mem_of_head? hhead
      simp only [hget, bind, Except.bind]
      have hexp := expired_iff (hclock.heard si hmem)
      split
      · next hold =>
        -- too old: it is taken off, and the loop goes on with one server less
        obtain ⟨heap, hok, ht, hord⟩ := remove_sound (byLoad s.mem) (h.wf.heap h.ordered) hhead
        rw [show s.minHeap.remove s.elem = .ok heap from hok]
        have hkept := kept_of_takenOut h.wf hmem ht
        have hnext := next_of_takenOut h.wf ((h.wf.agree _ si).mpr ⟨hmem, rfl⟩) ht
        have hless : heap.vec.length + 1 = s.minHeap.vec.length := ht.perm.length_eq.symm
        obtain ⟨removed, s', hloop, hsel⟩ := getMinimalLoop_selected n clock.later true
          (h.next hnext (fun x hx => hx.2) hord) (hclock.later hkept.mem hkept.sub)
          (by dsimp only; omega)
        refine ⟨si :: removed, s', ?_, hsel.cons hkept (hexp.mp hold)⟩
        simpa using hloop
      · next hlive =>
        -- still heard of: it is the answer
        refine ⟨[], s, by simp [hhead], .refl s, h, by simp, fun p hp => ?_⟩
        rw [hhead] at hp
        cases hp
        exact not_le.mp (mt hexp.mpr hlive)

/-- More turns than servers make no difference. -/
theorem getMinimalLoop_of_le (clock : Clock) (updated : Bool) (h : s.WellFormed) :
    ∀ k, getMinimalLoop (s.minHeap.vec.length + k) clock updated s =
      getMinimalLoop s.minHeap.vec.length clock updated s
  | 0 => rfl
  | k + 1 => by
    rw [← Nat.add_assoc, getMinimalLoop_bound _ _ _ h (Nat.le_add_right _ k)]
    exact getMinimalLoop_of_le clock updated h k

/-- A server still live at the last reading was not taken out. -/
theorem Selected.not_removed (h : s.Selected clock removed s') (hclock : s.Forward clock)
    (hlive : s.age (clock removed.length) p < serverTimeout.toNat) : p ∉ removed := by
  intro hp
  obtain ⟨k, hk⟩ := List.mem_iff_getElem?.mp hp
  have hlt := (List.getElem?_eq_some_iff.mp hk).1
  have hlater := hclock.le k (removed.length - k)
  rw [Nat.add_sub_cancel' hlt.le] at hlater
  exact absurd ((h.old k p hk).trans (age_mono hlater)) (not_le.mpr hlive)

/-- The server on top has the least load of those live at the last reading. -/
theorem Selected.minimal (h : s.Selected clock removed s') (hclock : s.Forward clock)
    (hhead : s'.minHeap.vec.head? = some si) {q : Ptr} (hq : q ∈ s.minHeap.vec)
    (hlive : s.age (clock removed.length) q < serverTimeout.toNat) :
    (s.mem si).load ≤ (s.mem q).load := by
  have hrest : q ∈ s'.minHeap.vec := by
    rcases List.mem_append.mp (h.kept.perm.mem_iff.mp hq) with hgone | hrest
    · exact absurd hgone (h.not_removed hclock hlive)
    · exact hrest
  have hget : s'.minHeap.get = .ok si := by
    obtain ⟨rest, hvec⟩ := List.head?_eq_some_iff.mp hhead
    rw [MinHeap.get, hvec]
  have hle := (get_minimal h.sound.ordered hget).2 q hrest
  rw [h.kept.mem] at hle
  exact UInt32.le_iff_toNat_le.mpr hle

/-- **`GetMinimalLoadServerInfo` returns a live server of the least load, or there is none.** However
many iterations it is granted beyond the number of servers, it ends the same way. What it takes out
was expired when it was looked at, the rest is kept as it was, and the flag tells whether anything was
taken out. -/
theorem getMinimalLoadServerInfo_spec (h : s.Sound) (hclock : s.Forward clock) :
    ∃ removed info s',
      s.getMinimalLoadServerInfo clock = .ok ((info, !removed.isEmpty), s') ∧
      (∀ k, getMinimalLoop (s.minHeap.vec.length + k) clock false s =
        s.getMinimalLoadServerInfo clock) ∧
      s'.Sound ∧ s.Kept removed s' ∧
      (∀ k p, removed[k]? = some p → serverTimeout.toNat ≤ s.age (clock k) p) ∧
      (∀ found, info = some found → ∃ si ∈ s'.minHeap.vec, found = s.mem si ∧
        s.age (clock removed.length) si < serverTimeout.toNat ∧
        ∀ q ∈ s.minHeap.vec, s.age (clock removed.length) q < serverTimeout.toNat →
          found.load ≤ (s.mem q).load) ∧
      (info = none → s'.minHeap.vec = [] ∧ (∀ x, s'.hm x = none) ∧
        ∀ q ∈ s.minHeap.vec, ∃ k, removed[k]? = some q ∧ serverTimeout.toNat ≤ s.age (clock k) q) := by
  obtain ⟨removed, s', hloop, hsel⟩ := getMinimalLoop_selected s.minHeap.vec.length clock false h
    hclock (Nat.le_refl _)
  rw [Bool.false_or] at hloop
  refine ⟨removed, _, s', hloop, getMinimalLoop_of_le clock false h.wf, hsel.sound, hsel.kept,
    hsel.old, ?_, ?_⟩
  · intro found hfound
    obtain ⟨si, hhead, rfl⟩ := Option.map_eq_some_iff.mp hfound
    exact ⟨si, List.mem_of_head? hhead, rfl, hsel.live si hhead,
      fun q hq hlive => hsel.minimal hclock hhead hq hlive⟩
  · intro hnone
    have hnil : s'.minHeap.vec = [] := List.head?_eq_none_iff.mp (Option.map_eq_none_iff.mp hnone)
    refine ⟨hnil, fun x => ?_, fun q hq => ?_⟩
    · rw [← Option.not_isSome_iff_eq_none, hsel.sound.wf.keys, hnil]
      simp
    · -- everything is among the removed
      have hperm := hsel.kept.perm
      rw [hnil, List.append_nil] at hperm
      obtain ⟨k, hk⟩ := List.mem_iff_getElem?.mp (hperm.mem_iff.mp hq)
      exact ⟨k, hk, hsel.old k q hk⟩

/-- Two servers heard of at 0; the clock stands. -/
theorem pair_forward (load : UInt32) (now : UInt64) : (pair load).Forward fun _ => now :=
  ⟨fun _ => UInt64.le_refl _, fun _ _ => UInt64.zero_le⟩

/-- Two servers: nothing was heard of the first since 0, the second has reported at 30 s, with a greater
load. -/
def oneSilent : LoadBalancer := { pair 7 with mem := (pair 7).reported 1 "" 9 30000 }

/-- The report of the second server has left the heap in order. -/
theorem oneSilent_sound : oneSilent.Sound := by
  obtain ⟨⟨s', hok, hrep⟩, -⟩ := reportsKept_of_hintTrue (show HintTrue 9 7 by decide)
    (pair 7) 1 1 "" 30000 (pair_sound 7) rfl rfl
  rw [pair_down (by decide)] at hok
  cases hok
  exact hrep.sound

/-- At 45 s the first, which has the lesser load and is on top, is taken out, and the second is
selected. -/
theorem getMinimalLoadServerInfo_pair : ∃ s',
    oneSilent.getMinimalLoadServerInfo (fun _ => 45000) = .ok ((some ⟨1, "", 9, 30000⟩, true), s') ∧
      s'.Sound ∧ oneSilent.Kept [0] s' := by
  have hclock : oneSilent.Forward fun _ => 45000 := by
    refine ⟨fun _ => UInt64.le_refl _, fun si hsi => ?_⟩
    simp only [oneSilent, pair, List.mem_cons, List.not_mem_nil, or_false] at hsi
    rcases hsi with rfl | rfl <;> decide
  obtain ⟨removed, info, s', hok, -, hsound, hkept, -⟩ :=
    getMinimalLoadServerInfo_spec oneSilent_sound hclock
  -- the run itself
  have hrun : (oneSilent.getMinimalLoadServerInfo fun _ => 45000).map
      (fun r => (r.1, r.2.minHeap.vec)) = .ok ((some ⟨1, "", 9, 30000⟩, true), [1]) := by decide
  rw [hok] at hrun
  have hresult := Except.ok.inj hrun
  simp only [Prod.mk.injEq] at hresult
  obtain ⟨⟨rfl, -⟩, hvec⟩ := hresult
  have hremoved : removed = [0] := by
    have hperm := hkept.perm
    rw [hvec] at hperm
    exact List.perm_singleton.mp ((List.perm_append_right_iff [1]).mp hperm.symm)
  rw [hremoved] at hok hkept
  exact ⟨s', hok, hsound, hkept⟩

/-! ## The sweep

The sweep goes through the keys of the hash map, so its readings belong to places in the iteration and
not
to the removals. A server is taken out with `AnyRemove`, which keeps the order of the heap but may
leave an
entry in `idx_`; the sweep does not use it again. -/

/-- The keys of `hm_` in the order of an iteration. -/
structure Iterates (s : LoadBalancer) (order : List UInt32) : Prop where
  nodup : order.Nodup
  keys : ∀ x, x ∈ order ↔ (s.hm x).isSome

/-- A server is found expired by a sweep, at the reading for its place in the iteration. -/
def FoundExpired (s : LoadBalancer) (order : List UInt32) (clock : Clock) (p : Ptr) : Prop :=
  ∃ k x, order[k]? = some x ∧ s.hm x = some p ∧ serverTimeout.toNat ≤ s.age (clock k) p

/-- The first key has the first reading. -/
theorem foundExpired_cons {key : UInt32} {order : List UInt32} (hx : s.hm key = some si) :
    s.FoundExpired (key :: order) clock p ↔
      p = si ∧ serverTimeout.toNat ≤ s.age (clock 0) si ∨ s.FoundExpired order clock.later p := by
  constructor
  · rintro ⟨k, x, hk, hp, hold⟩
    match k with
    | 0 =>
      cases hk
      rw [hx] at hp
      cases hp
      exact .inl ⟨rfl, hold⟩
    | k + 1 => exact .inr ⟨k, x, hk, hp, hold⟩
  · rintro (⟨rfl, hold⟩ | ⟨k, x, hk, hp, hold⟩)
    · exact ⟨0, key, rfl, hx, hold⟩
    · exact ⟨k + 1, x, hk, hp, hold⟩

/-- A server with another key is looked at as before once `si` is gone. -/
theorem Kept.foundExpired (h : s.Kept [si] s') (hwf : s.WellFormed) {key : UInt32}
    (hx : s.hm key = some si) {order : List UInt32} (hnot : key ∉ order) :
    s'.FoundExpired order clock p ↔ s.FoundExpired order clock p := by
  refine exists_congr fun k => exists_congr fun x => and_congr_right fun hk => ?_
  rw [h.hm, age_congr h.mem, List.mem_singleton, and_assoc]
  refine and_congr_right fun hp => and_iff_right ?_
  rintro rfl
  have hsame : x = key := ((hwf.agree x p).mp hp).2.symm.trans ((hwf.agree key p).mp hx).2
  exact hnot (hsame ▸ List.mem_of_getElem? hk)

/-- The loop over the keys `order` has taken out the servers `removed`, those it found expired. -/
structure Swept (s : LoadBalancer) (order : List UInt32) (clock : Clock) (removed : List Ptr)
    (s' : LoadBalancer) : Prop where
  kept : s.Kept removed s'
  wf : s'.WellFormed
  ordered : s'.minHeap.Ordered (loadOf s'.mem)
  old : ∀ p, p ∈ removed ↔ s.FoundExpired order clock p

/-- `AnyRemove`, and the key is erased. -/
theorem takeServer_kept (h : s.WellFormed) (hord : s.minHeap.Ordered (loadOf s.mem)) {key : UInt32}
    (hx : s.hm key = some si) : ∃ s', s.takeServer (s.mem si).id key = .ok s' ∧ s.Kept [si] s' ∧
      s'.WellFormed ∧ s'.minHeap.Ordered (loadOf s'.mem) := by
  obtain ⟨hmem, hid⟩ := (h.agree key si).mp hx
  obtain ⟨i, hi⟩ := List.mem_iff_getElem?.mp hmem
  obtain ⟨heap, hok, ht⟩ := anyRemove_takenOut h.indexed hi
  obtain ⟨heap', hok', -, hsound⟩ := anyRemove_sound (byLoad s.mem) (h.heap hord) hmem
  have hsame : heap = heap' := Except.ok.inj (hok.symm.trans hok')
  subst hsame
  subst hid
  refine ⟨_, ?_, kept_of_takenOut h hmem ht, (next_of_takenOut h hx ht).wf, hsound.ordered⟩
  show (s.minHeap.anyRemove s.elem (s.elem.getID si) >>= _) = _
  rw [hok]
  rfl

/-- **The loop of a sweep**, by induction on the keys that are left. Each of them is still in the hash
map when its turn comes, since no key occurs twice. -/
theorem checkTTLLoop_swept : ∀ (order : List UInt32) (clock : Clock) (count : UInt32)
    {s : LoadBalancer}, s.WellFormed → s.minHeap.Ordered (loadOf s.mem) → order.Nodup →
    (∀ x ∈ order, (s.hm x).isSome) → s.Forward clock → ∃ removed s',
      checkTTLLoop order clock count s = .ok (count + UInt32.ofNat removed.length, s') ∧
      s.Swept order clock removed s'
  | [], clock, count, s, h, hord, _, _, _ =>
    ⟨[], s, by simp [checkTTLLoop], .refl s, h, hord, by simp [FoundExpired]⟩
  | key :: order, clock, count, s, h, hord, hnodup, hkeys, hclock => by
    obtain ⟨hnot, hnodup'⟩ := List.nodup_cons.mp hnodup
    obtain ⟨si, hx⟩ := Option.isSome_iff_exists.mp (hkeys key List.mem_cons_self)
    have hmem := ((h.agree key si).mp hx).1
    have hexp := expired_iff (hclock.heard si hmem)
    rw [checkTTLLoop, hx]
    dsimp only
    split
    · next hold =>
      obtain ⟨s₁, hok, hkept, hwf, hord'⟩ := takeServer_kept h hord hx
      -- the keys still to come are those of other servers
      have hkeys' : ∀ x ∈ order, (s₁.hm x).isSome := by
        intro x hxo
        obtain ⟨q, hq⟩ := Option.isSome_iff_exists.mp (hkeys x (List.mem_cons_of_mem _ hxo))
        refine Option.isSome_iff_exists.mpr ⟨q, (hkept.hm x q).mpr ⟨hq, ?_⟩⟩
        rw [List.mem_singleton]
        rintro rfl
        have hsame : x = key := ((h.agree x q).mp hq).2.symm.trans ((h.agree key q).mp hx).2
        exact hnot (hsame ▸ hxo)
      obtain ⟨removed, s', hloop, hswept⟩ := checkTTLLoop_swept order clock.later (count + 1) hwf
        hord' hnodup' hkeys' (hclock.later hkept.mem hkept.sub)
      refine ⟨si :: removed, s', ?_, hkept.cons hswept.kept, hswept.wf, hswept.ordered, fun p => ?_⟩
      · rw [hok]
        show checkTTLLoop order clock.later (count + 1) s₁ = _
        rw [hloop, List.length_cons, UInt32.ofNat_add, UInt32.add_assoc,
          UInt32.add_comm 1 (UInt32.ofNat _)]
        rfl
      · rw [foundExpired_cons hx, List.mem_cons, hswept.old, hkept.foundExpired h hx hnot]
        simp [hexp.mp hold]
    · next hlive =>
      obtain ⟨removed, s', hloop, hswept⟩ := checkTTLLoop_swept order clock.later count h hord
        hnodup' (fun x hxo => hkeys x (List.mem_cons_of_mem _ hxo))
        (hclock.later rfl fun _ hp => hp)
      refine ⟨removed, s', hloop, hswept.kept, hswept.wf, hswept.ordered, fun p => ?_⟩
      rw [foundExpired_cons hx, hswept.old]
      simp [mt hexp.mpr hlive]

/-- **A sweep takes out exactly the servers it finds expired.** It never throws, whatever the order of
the iteration; the rest stays as it was, in an ordered heap with its index; what is returned is the
number of servers taken out, as a 32-bit number. -/
theorem checkTTL_spec {order : List UInt32} (h : s.WellFormed)
    (hord : s.minHeap.Ordered (loadOf s.mem)) (horder : s.Iterates order)
    (hclock : s.Forward clock) :
    ∃ removed count s', s.checkTTL order clock = .ok (count, s') ∧ s.Kept removed s' ∧
      (∀ p, p ∈ removed ↔ s.FoundExpired order clock p) ∧ s'.WellFormed ∧
      s'.minHeap.Ordered (loadOf s'.mem) ∧ count = UInt32.ofNat removed.length ∧
      (removed.length < 2 ^ 32 → count.toNat = removed.length) := by
  obtain ⟨removed, s', hloop, hswept⟩ := checkTTLLoop_swept order clock 0 h hord
    horder.nodup (fun x hx => (horder.keys x).mp hx) hclock
  rw [UInt32.zero_add] at hloop
  exact ⟨removed, _, s', hloop, hswept.kept, hswept.old, hswept.wf, hswept.ordered, rfl,
    UInt32.toNat_ofNat_of_lt'⟩

theorem checkTTL_pair : ∃ removed count s',
    (pair 7).checkTTL [1, 0] (fun _ => 40000) = .ok (count, s') ∧ (pair 7).Kept removed s' ∧
      ∀ p, p ∈ removed ↔ (pair 7).FoundExpired [1, 0] (fun _ => 40000) p := by
  have horder : (pair 7).Iterates [1, 0] := by
    refine ⟨by decide, fun x => ?_⟩
    simp only [pair, List.mem_cons, List.not_mem_nil, or_false]
    split_ifs <;> simp [*]
  obtain ⟨removed, count, s', hok, hkept, hold, -⟩ := checkTTL_spec (pair_sound 7).wf
    (pair_sound 7).ordered horder (pair_forward 7 40000)
  exact ⟨removed, count, s', hok, hkept, hold⟩

end Chatroom.Status.LoadBalancer
