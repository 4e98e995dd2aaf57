import Chatroom.Status.Registry
import Chatroom.Status.Uploader

/-!
# The status server with its reporters (`StatusServiceImpl`, `StatusReporter`)

The handlers of the RPCs and the uploader share the load balancer. Seen from a backend: it reports its
load every 15 seconds, and registers itself when the answer is `NOT_FOUND` (`ReportImpl`). Once that has
gone through, the backend is in the table for 40 seconds, whatever other backends report, whichever
servers are selected and however often the uploader sweeps in the meantime. So a single report may be
lost; after two in a row the backend may be dropped, and is back with the next report that goes through.

The second half is about the end of the process. `err_count_` counts the uploads in a row that
returned
`false`, and the worker ends the process when it exceeds its limit; an exception of redis++ leaves the
thread and does so at once. Everything else that can throw in the process is a call of the balancer,
and
those do not throw in runs that it admits.
-/

namespace Chatroom.Status

open Trace Refinement

/-- Every reading of the clock lies in the 40 seconds from `t` on; reports come at `t` or later. -/
def LoadBalancer.Op.Within (t : UInt64) : LoadBalancer.Op → Prop
  | .registerServerInfo _ _ _ now | .updateServerLoad _ _ now => t ≤ now
  | .removeServer _ => False
  | .getMinimalLoadServerInfo clock | .checkTTL _ clock =>
    ∀ n, (clock n).toNat < t.toNat + serverTimeout.toNat

/-- If the call registers the server `id`, then with the address `addr`. -/
def LoadBalancer.Op.RegistersAs (id : UInt32) (addr : String) : LoadBalancer.Op → Prop
  | .registerServerInfo id' addr' _ _ => id' = id → addr' = addr
  | _ => True

namespace Registry

variable {R R' : Registry} {op : LoadBalancer.Op} {a : Answer} {x : UInt32} {si : ServerInfo}
  {t now : UInt64}

/-- Who was heard of at `t` or later has not been silent for 40 seconds in the 40 seconds from `t` on.
-/
theorem live_of_within (ht : t ≤ si.lastTs) (hnow : now.toNat < t.toNat + serverTimeout.toNat) :
    si.Live now := by
  have hle := UInt64.le_iff_toNat_le.mp ht
  have hpos : 0 < serverTimeout.toNat := by decide
  unfold ServerInfo.Live ServerInfo.silent
  omega

/-- A server heard of at `t` or later is kept by every call in the 40 seconds from `t` on. -/
theorem Allows.keeps (h : R.Allows op a R') (hx : R x = some si) (ht : t ≤ si.lastTs)
    (hwithin : op.Within t) : ∃ si', R' x = some si' ∧ t ≤ si'.lastTs := by
  cases h with
  | register id addr load now =>
    by_cases hid : x = id
    · exact ⟨⟨id, addr, load, now⟩, by rw [hid, Function.update_self], hwithin⟩
    · exact ⟨si, by rw [Function.update_of_ne hid, hx], ht⟩
  | @report id old load now hold =>
    by_cases hid : x = id
    · exact ⟨{ old with load := load, lastTs := now }, by rw [hid, Function.update_self], hwithin⟩
    · exact ⟨si, by rw [Function.update_of_ne hid, hx], ht⟩
  | unknown => exact ⟨si, hx, ht⟩
  | remove => exact hwithin.elim
  | select hsel =>
    rcases hsel.dropped x with hsame | ⟨-, si', k, hsi', -, hsilent⟩
    · exact ⟨si, by rw [hsame, hx], ht⟩
    · rw [hx] at hsi'
      cases hsi'
      exact absurd (live_of_within ht (hwithin k)) hsilent
  | @sweep order clock count R' hswept =>
    by_cases hmem : x ∈ order
    · obtain ⟨k, hk⟩ := List.mem_iff_getElem?.mp hmem
      refine ⟨si, ?_, ht⟩
      rw [hswept.swept k x hk, hx, Option.filter_some,
        if_pos (decide_eq_true (live_of_within ht (hwithin k)))]
    · exact ⟨si, by rw [hswept.rest x hmem, hx], ht⟩

/-- An address changes by a registration only. -/
theorem Allows.addr {addr : String} (h : R.Allows op a R') (hop : op.RegistersAs x addr)
    (hR : ∀ si, R x = some si → si.addr = addr) : ∀ si, R' x = some si → si.addr = addr := by
  intro si hsi
  cases h with
  | register id addr' load now =>
    by_cases hid : x = id
    · rw [hid, Function.update_self, Option.some.injEq] at hsi
      rw [← hsi]
      exact hop hid.symm
    · exact hR si (by rwa [Function.update_of_ne hid] at hsi)
  -- a report keeps the address that the server has registered with
  | @report id old load now hold =>
    by_cases hid : x = id
    · rw [hid, Function.update_self, Option.some.injEq] at hsi
      rw [← hsi]
      exact hR old (hid ▸ hold)
    · exact hR si (by rwa [Function.update_of_ne hid] at hsi)
  | unknown => exact hR si hsi
  | remove id =>
    by_cases hid : x = id
    · rw [hid, Function.update_self] at hsi
      cases hsi
    · exact hR si (by rwa [Function.update_of_ne hid] at hsi)
  -- these two only drop servers
  | select hsel =>
    rcases hsel.dropped x with hsame | ⟨hnone, -⟩
    · exact hR si (hsame ▸ hsi)
    · rw [hnone] at hsi
      cases hsi
  | @sweep order clock count R' hswept =>
    by_cases hmem : x ∈ order
    · obtain ⟨k, hk⟩ := List.mem_iff_getElem?.mp hmem
      rw [hswept.swept k x hk] at hsi
      exact hR si (Option.filter_eq_some_iff.mp hsi).1
    · exact hR si (hswept.rest x hmem ▸ hsi)

end Registry

namespace LoadBalancer

variable {s : LoadBalancer} {x : UInt32} {si : ServerInfo} {t : UInt64} {clock : Clock}

/-- As long as a server is in the table and live, there is one to select. -/
theorem exists_selected (h : s.Sound) (hx : s.view x = some si) (ht : t ≤ si.lastTs)
    (hclock : s.Forward clock) (hwithin : (Op.getMinimalLoadServerInfo clock).Within t) :
    ∃ info updated s', s.getMinimalLoadServerInfo clock = .ok ((some info, updated), s') ∧
      info.load ≤ si.load := by
  obtain ⟨removed, s', hloop, hsel⟩ := getMinimalLoop_selected s.minHeap.vec.length clock false h
    hclock (Nat.le_refl _)
  have hselects := hsel.selects h hclock
  cases hinfo : s'.minHeap.vec.head?.map s.mem with
  | none =>
    obtain ⟨si', hsi', -⟩ := (Registry.Allows.select hselects).keeps hx ht hwithin
    rw [hselects.missed hinfo x] at hsi'
    cases hsi'
  | some info =>
    rw [hinfo] at hloop
    exact ⟨info, _, s', hloop, (hselects.found info hinfo).2.2 x si hx
      (Registry.live_of_within ht (hwithin removed.length))⟩

/-- A copy of the list has every server of the table. -/
theorem mem_copyServerInfoList {order : List UInt32} (horder : s.Iterates order)
    (hx : s.view x = some si) : si ∈ s.copyServerInfoList order := by
  obtain ⟨p, hp, -⟩ := view_eq_some hx
  refine List.mem_filterMap.mpr ⟨x, (horder.keys x).mpr ?_, hx⟩
  rw [hp]
  rfl

/-- A server stands in the table under its own id. -/
theorem id_of_view (h : s.Sound) (hx : s.view x = some si) : si.id = x := by
  obtain ⟨p, hp, rfl⟩ := view_eq_some hx
  exact ((h.wf.agree x p).mp hp).2

end LoadBalancer

namespace TimedUploader

open LoadBalancer

variable {σ σ' σ₁ : State} {l : Label} {x : UInt32} {si : ServerInfo} {t : UInt64}

/-! ## What the steps do to the table

Every step of the service makes at most one call of the balancer. The result of the refinement, that
such a call does with the table what the registry allows, is therefore all that is needed of the
balancer
here: `tabled_of_step` takes it over to steps of the service, with what a call leaves alone (`Aside`). -/

/-- The call of the balancer that a step makes. -/
def Label.op : Label → Option Op
  | .reportServerLoad id load now => some (.updateServerLoad id load now)
  | .registerServer id addr load now => some (.registerServerInfo id addr load now)
  | .checkMinimalLoadServer clock => some (.getMinimalLoadServerInfo clock)
  | .checkTTL order clock => some (.checkTTL order clock)
  | .updateNow | .stop | .lock | .wake _ | .copyServerInfoList _ | .updateServerList _
  | .updateServerListThrows | .setFlag => none

/-- The balancer admits the call that the step makes. -/
def Admits (σ : State) (l : Label) : Prop := ∀ op, l.op = some op → σ.balancer.Admits op

/-- A step that ends neither an upload nor the process. -/
structure Aside (σ σ' : State) : Prop where
  crashed : σ'.crashed = σ.crashed
  errCount : σ'.errCount = σ.errCount
  worker : σ'.worker = σ.worker ∨ σ.worker = .unlocked ∧ σ'.worker = .swept

/-- What a step does to the balancer. -/
inductive Called (σ σ' : State) (l : Label) : Prop
  | calls {op : Op} {a : Answer} : l.op = some op → σ.balancer.perform op = .ok (a, σ'.balancer) →
      Aside σ σ' → Called σ σ' l
  | throws {op : Op} {e : HeapError} : l.op = some op → σ.balancer.perform op = .error e → Called σ σ' l
  | rests : l.op = none → σ'.balancer = σ.balancer → Called σ σ' l

/-- A handler that makes one call of the balancer and goes on with its answer. -/
theorem called_withBalancer {α : Type} {answer : α → Answer} {op : Op}
    {r : Except HeapError (α × LoadBalancer)} {k : α → State → State} (hop : l.op = some op)
    (hperform : σ.balancer.perform op = answering answer r)
    (hk : ∀ a s, (k a { σ with balancer := s }).balancer = s ∧
      Aside σ (k a { σ with balancer := s })) : Called σ (withBalancer σ r k) l := by
  cases r with
  | error e => exact .throws hop hperform
  | ok r =>
    obtain ⟨a, s⟩ := r
    obtain ⟨hbalancer, haside⟩ := hk a s
    refine .calls hop (a := answer a) ?_ haside
    show _ = Except.ok (answer a, (k a { σ with balancer := s }).balancer)
    rw [hperform, hbalancer]
    rfl

/-- Every step makes the one call of the balancer that its label names, or none. -/
theorem called_of_step (hs : step σ l = some σ') : Called σ σ' l := by
  unfold TimedUploader.step at hs
  split at hs
  · cases hs
  cases l with
  | reportServerLoad =>
    cases hs
    exact called_withBalancer rfl rfl fun a s => ⟨rfl, rfl, rfl, .inl rfl⟩
  | registerServer =>
    cases hs
    refine called_withBalancer rfl rfl fun a s => ?_
    dsimp only
    split <;> exact ⟨rfl, rfl, rfl, .inl rfl⟩
  | checkMinimalLoadServer clock =>
    cases hs
    have hperform : σ.balancer.perform (.getMinimalLoadServerInfo clock) =
        answering (fun selected => .info selected.1 selected.2)
          (σ.balancer.getMinimalLoadServerInfo clock) := rfl
    refine called_withBalancer rfl hperform fun a s => ?_
    dsimp only
    split <;> exact ⟨rfl, rfl, rfl, .inl rfl⟩
  | checkTTL order clock =>
    obtain ⟨hw, rfl⟩ := of_guard hs
    exact called_withBalancer rfl rfl fun a s => ⟨rfl, rfl, rfl, .inr ⟨hw, rfl⟩⟩
  -- the steps from here on do not touch the balancer
  | updateNow =>
    obtain ⟨-, rfl⟩ := of_guard hs
    exact .rests rfl rfl
  | stop =>
    cases hs
    exact .rests rfl rfl
  | lock | wake =>
    obtain ⟨-, rfl⟩ := of_guard hs
    refine .rests rfl ?_
    unfold enter
    split
    · split <;> rfl
    · rfl
  | copyServerInfoList =>
    obtain ⟨-, rfl⟩ := of_guard hs
    exact .rests rfl rfl
  | updateServerList | updateServerListThrows =>
    dsimp only at hs
    split at hs
    · cases hs
      exact .rests rfl rfl
    · cases hs
  | setFlag =>
    dsimp only at hs
    split at hs
    · split at hs
      · cases hs
        exact .rests rfl rfl
      · cases hs
        exact .rests rfl rfl
    · cases hs
      exact .rests rfl rfl
    · cases hs

/-- An admitted step does with the table what the registry allows. -/
inductive Tabled (σ σ' : State) (l : Label) : Prop
  | calls {op : Op} {a : Answer} : l.op = some op →
      σ.balancer.perform op = .ok (a, σ'.balancer) →
      σ.balancer.view.Allows op a σ'.balancer.view → Aside σ σ' → Tabled σ σ' l
  | rests : l.op = none → σ'.balancer = σ.balancer → Tabled σ σ' l

/-- **A step of the service is a step of the registry or leaves the table alone**, and keeps the
balancer sound. -/
theorem tabled_of_step (h : σ.balancer.Sound) (hadmits : Admits σ l) (hs : step σ l = some σ') :
    σ'.balancer.Sound ∧ Tabled σ σ' l := by
  cases called_of_step hs with
  | @calls op a hop hperform haside =>
    obtain ⟨a', s', hok, hsound, hallows⟩ := perform_refines σ.balancer op h (hadmits op hop)
    cases hperform.symm.trans hok
    exact ⟨hsound, .calls hop hperform hallows haside⟩
  | @throws op e hop hperform =>
    obtain ⟨a', s', hok, -⟩ := perform_refines σ.balancer op h (hadmits op hop)
    cases hperform.symm.trans hok
  | rests hop hbalancer =>
    rw [hbalancer]
    exact ⟨h, .rests hop hbalancer⟩

/-- The balancer stays sound along runs. -/
theorem sound_of_reach {ok : State → Label → Prop} (himp : ∀ σ l, ok σ l → Admits σ l)
    (h : σ.balancer.Sound) (h' : Reach step ok σ σ') : σ'.balancer.Sound := by
  induction h' with
  | refl => exact h
  | tail _ hok hs ih => exact (tabled_of_step ih (himp _ _ hok) hs).1

/-! ## A backend that reports stays

The invariant of the run: the backend is in the table, last heard of at `t` or later. The registry
drops
only servers that have been silent for 40 seconds at a reading of the clock, and all readings of these
runs come before that (`Allows.keeps`). -/

/-- The readings of the clock that a step makes lie in the 40 seconds from `t` on. -/
def Label.Within (t : UInt64) (l : Label) : Prop := ∀ op, l.op = some op → op.Within t

/-- The run lemma: a step keeps the backend in the table, and keeps the balancer sound for the next
one. -/
theorem kept_of_reach (h : σ.balancer.Sound) (hx : σ.balancer.view x = some si) (ht : t ≤ si.lastTs)
    (h' : Reach step (fun σ l => Admits σ l ∧ l.Within t) σ σ') :
    σ'.balancer.Sound ∧ ∃ si', σ'.balancer.view x = some si' ∧ t ≤ si'.lastTs := by
  induction h' with
  | refl => exact ⟨h, si, hx, ht⟩
  | tail _ hok hs ih =>
    obtain ⟨hsound, si', hsi', ht'⟩ := ih
    obtain ⟨hsound', htabled⟩ := tabled_of_step hsound hok.1 hs
    refine ⟨hsound', ?_⟩
    cases htabled with
    | calls hop _ hallows => exact hallows.keeps hsi' ht' (hok.2 _ hop)
    | rests _ hbalancer =>
      rw [hbalancer]
      exact ⟨si', hsi', ht'⟩

/-- A step that registers the server `id`, if any, uses the address `addr`. -/
def Label.RegistersAs (id : UInt32) (addr : String) (l : Label) : Prop :=
  ∀ op, l.op = some op → op.RegistersAs id addr

/-- A server that always registers with one address has that address in the table. -/
theorem addr_of_reach {addr : String}
    (h : Reach step (fun σ l => Admits σ l ∧ l.RegistersAs x addr) init σ) :
    σ.balancer.Sound ∧ ∀ si, σ.balancer.view x = some si → si.addr = addr := by
  induction h with
  | refl =>
    refine ⟨init_sound, fun si hsi => ?_⟩
    cases hsi
  | tail _ hok hs ih =>
    obtain ⟨hsound', htabled⟩ := tabled_of_step ih.1 hok.1 hs
    refine ⟨hsound', ?_⟩
    cases htabled with
    | calls hop _ hallows => exact hallows.addr (hok.2 _ hop) ih.2
    | rests _ hbalancer =>
      rw [hbalancer]
      exact ih.2

/-- `ReportImpl` of the backend `id` has gone through, with its last call at `t`: its report was
accepted, or it was unknown and has registered, with any steps of others between the two calls. -/
inductive ReportImpl (id : UInt32) (addr : String) (load : UInt32) (t : UInt64) (σ σ' : State) : Prop
  | known : Admits σ (.reportServerLoad id load t) →
      step σ (.reportServerLoad id load t) = some σ' →
      σ.balancer.updateServerLoad id load t = .ok (true, σ'.balancer) → ReportImpl id addr load t σ σ'
  | unknown {σ₁ σ₂ : State} {t₀ : UInt64} : Admits σ (.reportServerLoad id load t₀) →
      step σ (.reportServerLoad id load t₀) = some σ₁ →
      σ.balancer.updateServerLoad id load t₀ = .ok (false, σ₁.balancer) →
      Reach step Admits σ₁ σ₂ → Admits σ₂ (.registerServer id addr load t) →
      step σ₂ (.registerServer id addr load t) = some σ' → ReportImpl id addr load t σ σ'

/-- Right after `ReportImpl` the table has the load and the time that were reported. -/
theorem ReportImpl.registered {id : UInt32} {addr : String} {load : UInt32}
    (h : ReportImpl id addr load t σ σ') (hsound : σ.balancer.Sound) : σ'.balancer.Sound ∧
      ∃ si, σ'.balancer.view id = some si ∧ si.load = load ∧ si.lastTs = t := by
  cases h with
  | known hadmits hs hok =>
    obtain ⟨hsound', htabled⟩ := tabled_of_step hsound hadmits hs
    refine ⟨hsound', ?_⟩
    cases htabled with
    | rests hop => cases hop
    | @calls op a hop hperform hallows =>
      cases hop
      rw [perform, hok] at hperform
      generalize σ'.balancer.view = R' at hallows ⊢
      cases hperform
      cases hallows with
      | report => exact ⟨_, Function.update_self .., rfl, rfl⟩
  | unknown hadmits hs hok hreach hadmits' hs' =>
    have hsound₁ := (tabled_of_step hsound hadmits hs).1
    have hsound₂ := sound_of_reach (fun _ _ hok => hok) hsound₁ hreach
    obtain ⟨hsound', htabled⟩ := tabled_of_step hsound₂ hadmits' hs'
    refine ⟨hsound', ?_⟩
    cases htabled with
    | rests hop => cases hop
    | @calls op a hop hperform hallows =>
      cases hop
      generalize σ'.balancer.view = R' at hallows ⊢
      cases hallows with
      | register => exact ⟨_, Function.update_self .., rfl, rfl⟩

/-- **A backend that has reported stays for 40 seconds.** In every run of the status server that its
balancer admits, from the moment `ReportImpl` of a backend has gone through: as long as the clock has
not come 40 seconds further, the backend is in the table, whatever the other handlers and the uploader
do. Its next report is accepted, there is always a server to select, none of a greater load than its
own, and every list copied for an upload has it, under the address that the backend registers with. -/
theorem reportImpl_stays (h : Reach step Admits init σ) (id : UInt32) (addr : String) (load : UInt32)
    (t : UInt64) (hreport : ReportImpl id addr load t σ σ₁)
    (hlater : Reach step (fun σ l => Admits σ l ∧ l.Within t) σ₁ σ') :
    ∃ si, σ'.balancer.view id = some si ∧ t ≤ si.lastTs ∧
      (∀ load' now, HintTrue load' si.load →
        ∃ s, σ'.balancer.updateServerLoad id load' now = .ok (true, s)) ∧
      (∀ clock, σ'.balancer.Forward clock → (Op.getMinimalLoadServerInfo clock).Within t →
        ∃ info updated s, σ'.balancer.getMinimalLoadServerInfo clock = .ok ((some info, updated), s) ∧
          info.load ≤ si.load) ∧
      (∀ order, σ'.balancer.Iterates order →
        (toString id.toNat, si.addr) ∈ servList (σ'.balancer.copyServerInfoList order)) ∧
      (Reach step (fun σ l => Admits σ l ∧ l.RegistersAs id addr) init σ' → si.addr = addr) := by
  have hsound := sound_of_reach (fun _ _ hok => hok) init_sound h
  obtain ⟨hsound₁, si₁, hsi₁, -, rfl⟩ := hreport.registered hsound
  obtain ⟨hsound', si, hsi, ht⟩ := kept_of_reach hsound₁ hsi₁ (UInt64.le_refl _) hlater
  refine ⟨si, hsi, ht, fun load' now hhint => ?_, fun clock hclock hwithin => ?_,
    fun order horder => ?_, fun hsame => (addr_of_reach hsame).2 si hsi⟩
  · obtain ⟨p, hp, rfl⟩ := view_eq_some hsi
    obtain ⟨s, hok, -⟩ := refresh_view hsound' hp (σ'.balancer.mem p).addr now hhint
    refine ⟨s, ?_⟩
    rw [updateServerLoad, hp]
    simp only [hok]
    rfl
  · exact exists_selected hsound' hsi ht hclock hwithin
  · have hmem := List.mem_map_of_mem (f := fun item : ServerInfo => (toString item.id.toNat, item.addr))
      (mem_copyServerInfoList horder hsi)
    rwa [id_of_view hsound' hsi] at hmem

/-- A step that does not call the balancer asks nothing of it. -/
theorem admits_of_op (hnone : l.op = none) : Admits σ l := by
  intro op hop
  rw [hnone] at hop
  cases hop

/-- Server 1, which nobody had heard of, has registered. -/
def oneRegistered : State where
  balancer :=
    { minHeap := ⟨[0], Function.update (fun _ => none) 1 (some 0)⟩
      hm := Function.update (fun _ => none) 1 (some 0)
      mem := Function.update LoadBalancer.init.mem 0 ⟨1, "10.0.0.1", 3, 10⟩
      next := 1 }
  running := true
  pending := false
  errCount := 0
  worker := .locking
  callers := 1
  crashed := false
  requested := false
  uploads := []

/-- At the start nobody is registered, so any load is admitted. -/
theorem admits_init_report (id load : UInt32) (now : UInt64) :
    Admits init (.reportServerLoad id load now) := by
  intro op hop
  cases hop
  intro si hsi
  cases hsi

theorem admits_init_register (id : UInt32) (addr : String) (load : UInt32) (now : UInt64) :
    Admits init (.registerServer id addr load now) := by
  intro op hop
  cases hop
  intro si hsi
  cases hsi

/-- Its report is answered by `NOT_FOUND`, and it registers itself. -/
theorem reportImpl_oneRegistered : ReportImpl 1 "10.0.0.1" 3 10 init oneRegistered := by
  have hreport : step init (.reportServerLoad 1 3 0) = some init := rfl
  have hregister : step init (.registerServer 1 "10.0.0.1" 3 10) = some oneRegistered := rfl
  exact .unknown (admits_init_report 1 3 0) hreport rfl .refl
    (admits_init_register 1 "10.0.0.1" 3 10) hregister

/-- What the steps of the run below keep to. -/
def Busy (σ : State) (l : Label) : Prop := ∀ op, l.op = some op →
  σ.balancer.Admits op ∧ op.Within 10 ∧ op.RegistersAs 1 "10.0.0.1"

theorem Busy.of_op {op : Op} (hop : l.op = some op)
    (h : σ.balancer.Admits op ∧ op.Within 10 ∧ op.RegistersAs 1 "10.0.0.1") : Busy σ l := by
  intro op' hop'
  cases hop.symm.trans hop'
  exact h

theorem Busy.of_none (hnone : l.op = none) : Busy σ l := by
  intro op hop
  rw [hnone] at hop
  cases hop

/-- Within the 40 seconds server 2 registers and reports a greater load, a client asks for a server, and
the uploader sweeps. -/
theorem reach_busy : ∃ σ', Reach step Busy oneRegistered σ' ∧ σ'.worker = .swept ∧
    (σ'.balancer.view 2).isSome = true := by
  -- server 2 registers and reports while the worker is between two uploads; the goals are the
  -- conditions of the calls
  refine ⟨_, .head (l := .registerServer 2 "10.0.0.2" 1 5000) (.of_op rfl ⟨?_, ?_, ?_⟩) rfl
    (.head (l := .updateNow) (.of_none rfl) rfl
    (.head (l := .reportServerLoad 2 8 20000) (.of_op rfl ⟨?_, ?_, trivial⟩) rfl
    (.head (l := .checkMinimalLoadServer fun _ => 25000) (.of_op rfl ⟨?_, ?_, trivial⟩) rfl
    (.head (l := .lock) (.of_none rfl) rfl
    (.head (l := .checkTTL [2, 1] fun _ => 30000) (.of_op rfl ⟨?_, ?_, trivial⟩) rfl .refl))))), rfl,
    rfl⟩
  · intro si hsi
    cases hsi
  · exact show (10 : UInt64) ≤ 5000 by decide
  · intro hbad
    cases hbad
  · intro si hsi
    cases hsi
    decide
  · exact show (10 : UInt64) ≤ 20000 by decide
  · refine ⟨fun _ => UInt64.le_refl _, fun si hsi => ?_⟩
    have hslots : si ∈ [0, 1] := hsi
    simp only [List.mem_cons, List.not_mem_nil, or_false] at hslots
    rcases hslots with rfl | rfl <;> decide
  · exact fun _ => show 25000 < 10 + 40000 by decide
  · refine ⟨⟨by decide, fun x => ?_⟩, ⟨fun _ => UInt64.le_refl _, fun si hsi => ?_⟩, trivial⟩
    · exact mem_order_two x
    · have hslots : si ∈ [0, 1] := hsi
      simp only [List.mem_cons, List.not_mem_nil, or_false] at hslots
      rcases hslots with rfl | rfl <;> decide
  · exact fun _ => show 30000 < 10 + 40000 by decide

theorem reportImpl_stays_busy : ∃ σ₁ σ' si, ReportImpl 1 "10.0.0.1" 3 10 init σ₁ ∧
    Reach step (fun σ l => Admits σ l ∧ l.Within 10) σ₁ σ' ∧
    σ'.balancer.view 1 = some si ∧ 10 ≤ si.lastTs ∧ si.addr = "10.0.0.1" ∧
    σ'.worker = .swept ∧ (σ'.balancer.view 2).isSome = true := by
  obtain ⟨σ', hbusy, hworker, htwo⟩ := reach_busy
  have hlater : Reach step (fun σ l => Admits σ l ∧ l.Within 10) oneRegistered σ' :=
    hbusy.mono fun _ _ _ hok => ⟨fun op hop => (hok op hop).1, fun op hop => (hok op hop).2.1⟩
  have hsame : Reach step (fun σ l => Admits σ l ∧ l.RegistersAs 1 "10.0.0.1") init σ' := by
    refine .head (l := .registerServer 1 "10.0.0.1" 3 10)
      ⟨admits_init_register 1 "10.0.0.1" 3 10, fun op hop => ?_⟩ rfl
      (hbusy.mono fun _ _ _ hok => ⟨fun op hop => (hok op hop).1, fun op hop => (hok op hop).2.2⟩)
    cases hop
    exact fun _ => rfl
  obtain ⟨si, hsi, ht, -, -, -, haddr⟩ :=
    reportImpl_stays .refl 1 "10.0.0.1" 3 10 reportImpl_oneRegistered hlater
  exact ⟨oneRegistered, σ', si, reportImpl_oneRegistered, hlater, hsi, ht, haddr hsame, hworker, htwo⟩

/-! ## How the process ends

`Monitored` counts from outside what has become of the uploads. `Counted` compares this with
`err_count_`,
which is one turn behind: an upload that has returned `false` is counted only when the worker comes to
`setFlag`. This is why the process can still be alive after the fourth one. -/

/-- The number of uploads that have failed since the last that did not. -/
def Label.failed : Label → ℕ → ℕ
  | .updateServerList true, _ => 0
  | .updateServerList false, n => n + 1
  | _, n => n

/-- An exception of redis++ leaves the upload. -/
def Label.throws : Label → Bool
  | .updateServerListThrows => true
  | _ => false

/-- The server, how many uploads have returned `false` in a row, and whether one has thrown. -/
structure Monitored where
  server : State
  failed : ℕ
  threw : Bool

/-- The server at its start. -/
def Monitored.init : Monitored := ⟨TimedUploader.init, 0, false⟩

def Monitored.step (m : Monitored) (l : Label) : Option Monitored :=
  (TimedUploader.step m.server l).map fun σ => ⟨σ, l.failed m.failed, m.threw || l.throws⟩

/-- The uploads that `err_count_` has yet to count. -/
def Worker.uncounted : Worker → ℕ
  | .uploaded false => 1
  | _ => 0

/-- One upload is to be counted at most. -/
theorem eq_of_uncounted_ne_zero {w : Worker} (h : w.uncounted ≠ 0) :
    w = .uploaded false ∧ w.uncounted = 1 := by
  cases w with
  | uploaded ret =>
    cases ret with
    | false => exact ⟨rfl, rfl⟩
    | true => exact absurd rfl h
  | _ => exact absurd rfl h

/-- At the head of its loop the worker has no upload left to count. -/
theorem enter_cases (σ : State) : ∃ w, enter σ = { σ with worker := w } ∧
    w.uncounted = 0 ∧ w ≠ .uploaded true := by
  unfold enter
  split
  · split
    · exact ⟨.unlocked, rfl, rfl, by decide⟩
    · exact ⟨.waiting, rfl, rfl, by decide⟩
  · exact ⟨.stopped, rfl, rfl, by decide⟩

/-- `err_count_` counts the failed uploads in a row, one turn late, and the process has ended only by
the count or by an exception of redis++. -/
structure Counted (m : Monitored) : Prop where
  counts : m.server.crashed = false → m.server.worker ≠ .uploaded true →
    m.failed = m.server.errCount + m.server.worker.uncounted
  resets : m.server.crashed = false → m.server.worker = .uploaded true → m.failed = 0
  below : m.server.crashed = false → m.server.errCount ≤ errCountMax
  calm : m.server.crashed = false → m.threw = false
  ends : m.server.crashed = true →
    m.threw = true ∧ m.failed ≤ errCountMax ∨ m.threw = false ∧ m.failed = errCountMax + 1

variable {m m' : Monitored}

/-- A call of the balancer is not an upload. -/
theorem failed_of_op {op : Op} (hop : l.op = some op) (n : ℕ) : l.failed n = n := by
  cases l with
  | updateServerList => cases hop
  | _ => rfl

theorem throws_of_op {op : Op} (hop : l.op = some op) : l.throws = false := by
  cases l with
  | updateServerListThrows => cases hop
  | _ => rfl

/-- While the process runs, only the count is to be shown. -/
theorem Counted.of_alive (halive : m.server.crashed = false)
    (hcounts : m.server.worker ≠ .uploaded true →
      m.failed = m.server.errCount + m.server.worker.uncounted)
    (hresets : m.server.worker = .uploaded true → m.failed = 0)
    (hbelow : m.server.errCount ≤ errCountMax) (hcalm : m.threw = false) : Counted m := by
  refine ⟨fun _ => hcounts, fun _ => hresets, fun _ => hbelow, fun _ => hcalm, fun hdead => ?_⟩
  rw [halive] at hdead
  cases hdead

/-- A process that has ended is only to be told how. -/
theorem Counted.of_dead (hdead : m.server.crashed = true)
    (hends : m.threw = true ∧ m.failed ≤ errCountMax ∨
      m.threw = false ∧ m.failed = errCountMax + 1) : Counted m := by
  have habsurd : m.server.crashed ≠ false := by
    rw [hdead]
    decide
  exact ⟨fun h => absurd h habsurd, fun h => absurd h habsurd, fun h => absurd h habsurd,
    fun h => absurd h habsurd, fun _ => hends⟩

/-- Steps of the handlers, and the sweep, do not touch the count. -/
theorem Counted.aside (h : Counted m) (haside : Aside m.server σ') :
    Counted ⟨σ', m.failed, m.threw⟩ := by
  obtain ⟨hcrashed, herr, hworker⟩ := haside
  have huncounted : σ'.worker.uncounted = m.server.worker.uncounted ∧
      (σ'.worker = .uploaded true ↔ m.server.worker = .uploaded true) := by
    rcases hworker with hsame | ⟨hold, hnew⟩
    · rw [hsame]
      exact ⟨rfl, Iff.rfl⟩
    · rw [hold, hnew]
      exact ⟨rfl, by decide⟩
  refine ⟨fun halive hw => ?_, fun halive hw => ?_, fun halive => ?_, fun halive => ?_,
    fun hdead => ?_⟩
  · show m.failed = σ'.errCount + σ'.worker.uncounted
    rw [herr, huncounted.1]
    exact h.counts (hcrashed ▸ halive) (mt huncounted.2.mpr hw)
  · exact h.resets (hcrashed ▸ halive) (huncounted.2.mp hw)
  · show σ'.errCount ≤ _
    rw [herr]
    exact h.below (hcrashed ▸ halive)
  · exact h.calm (hcrashed ▸ halive)
  · exact h.ends (hcrashed ▸ hdead)

/-- The worker goes on between two uploads. -/
theorem Counted.goes (h : Counted m) (halive : m.server.crashed = false)
    (hw : m.server.worker.uncounted = 0 ∧ m.server.worker ≠ .uploaded true)
    (hw' : σ'.worker.uncounted = 0 ∧ σ'.worker ≠ .uploaded true)
    (hcrashed : σ'.crashed = m.server.crashed) (herr : σ'.errCount = m.server.errCount) :
    Counted ⟨σ', m.failed, m.threw⟩ := by
  have hcounts := h.counts halive hw.2
  rw [hw.1] at hcounts
  refine .of_alive (hcrashed.trans halive) (fun _ => ?_) (fun hbad => absurd hbad hw'.2) ?_
    (h.calm halive)
  · show m.failed = σ'.errCount + σ'.worker.uncounted
    rw [hw'.1, herr, hcounts]
  · show σ'.errCount ≤ _
    rw [herr]
    exact h.below halive

/-- The step of the invariant. Steps that call the balancer and steps between two uploads leave the
count alone; only the end of an upload and `setFlag` move it. -/
theorem Counted.step (h : Counted m) (hsound : m.server.balancer.Sound) (hadmits : Admits m.server l)
    (hs : m.step l = some m') : Counted m' := by
  obtain ⟨σ', hserver, rfl⟩ := Option.map_eq_some_iff.mp hs
  cases (tabled_of_step hsound hadmits hserver).2 with
  | calls hop _ _ haside =>
    rw [failed_of_op hop, throws_of_op hop, Bool.or_false]
    exact h.aside haside
  -- the remaining steps are those of the worker and of `UpdateNow`: the counter follows the phase of
  -- the worker
  | rests hop _ =>
    have hs' := hserver
    unfold TimedUploader.step at hs'
    split at hs'
    · cases hs'
    next halive =>
    have halive : m.server.crashed = false := Bool.eq_false_iff.mpr halive
    have hcalm := h.calm halive
    have hcalm' : (m.threw || false) = false := by rw [hcalm]; rfl
    cases l with
    | reportServerLoad | registerServer | checkMinimalLoadServer | checkTTL => cases hop
    | updateNow =>
      obtain ⟨-, rfl⟩ := of_guard hs'
      rw [show Label.updateNow.throws = false from rfl, Bool.or_false]
      exact h.aside ⟨rfl, rfl, .inl rfl⟩
    | stop =>
      cases hs'
      rw [show Label.stop.throws = false from rfl, Bool.or_false]
      exact h.aside ⟨rfl, rfl, .inl rfl⟩
    | lock =>
      obtain ⟨hw, rfl⟩ := of_guard hs'
      obtain ⟨w, heq, hnew⟩ := enter_cases m.server
      rw [heq, show Label.lock.throws = false from rfl, Bool.or_false]
      exact h.goes halive (by rw [hw]; decide) hnew rfl rfl
    | wake timeout =>
      obtain ⟨hw, rfl⟩ := of_guard hs'
      obtain ⟨w, heq, hnew⟩ := enter_cases { m.server with pending := m.server.pending || timeout }
      rw [heq, show (Label.wake timeout).throws = false from rfl, Bool.or_false]
      exact h.goes halive (by rw [hw]; decide) hnew rfl rfl
    | copyServerInfoList order =>
      obtain ⟨hw, rfl⟩ := of_guard hs'
      rw [show (Label.copyServerInfoList order).throws = false from rfl, Bool.or_false]
      exact h.goes halive (by rw [hw]; decide) ⟨rfl, by intro hbad; cases hbad⟩ rfl rfl
    | updateServerList ret =>
      dsimp only at hs'
      split at hs'
      · next list hw =>
        cases hs'
        have hcounts := h.counts halive (by rw [hw]; intro hbad; cases hbad)
        rw [hw] at hcounts
        cases ret with
        | true =>
          -- the counter is reset only in `setFlag`, so until then it may be ahead of the failures
          exact .of_alive halive (fun hbad => absurd rfl hbad) (fun _ => rfl) (h.below halive) hcalm'
        | false =>
          refine .of_alive halive (fun _ => ?_) (fun hbad => ?_) (h.below halive) hcalm'
          · show m.failed + 1 = _
            rw [hcounts]
            rfl
          · cases hbad
      · cases hs'
    | updateServerListThrows =>
      dsimp only at hs'
      split at hs'
      · next list hw =>
        cases hs'
        have hcounts := h.counts halive (by rw [hw]; intro hbad; cases hbad)
        rw [hw] at hcounts
        -- the exception ends the process before the failure is counted
        refine .of_dead rfl (.inl ⟨Bool.or_true _, ?_⟩)
        show m.failed ≤ errCountMax
        rw [hcounts]
        exact h.below halive
      · cases hs'
    | setFlag =>
      dsimp only at hs'
      split at hs'
      · next hw =>
        have hcounts := h.counts halive (by rw [hw]; decide)
        rw [hw] at hcounts
        have hbelow := h.below halive
        split at hs'
        · next hover =>
          cases hs'
          -- the fourth failure in a row is the one that aborts
          refine .of_dead rfl (.inr ⟨hcalm', ?_⟩)
          show m.failed = _
          rw [hcounts]
          exact Nat.le_antisymm (Nat.succ_le_succ hbelow) hover
        · next hfits =>
          cases hs'
          refine .of_alive halive (fun _ => hcounts) (fun hbad => ?_) (Nat.le_of_not_lt hfits) hcalm'
          cases hbad
      · next hw =>
        cases hs'
        refine .of_alive halive (fun _ => h.resets halive hw) (fun hbad => ?_) (Nat.zero_le _) hcalm'
        cases hbad
      · cases hs'

/-- The invariant along a run. -/
theorem counted_of_reach (h : Reach Monitored.step (fun m l => Admits m.server l) .init m) :
    m.server.balancer.Sound ∧ Counted m := by
  induction h with
  | refl =>
    refine ⟨init_sound, .of_alive rfl (fun _ => rfl) (fun hbad => ?_) (Nat.zero_le _) rfl⟩
    cases hbad
  | tail _ hok hs ih =>
    obtain ⟨σ', hserver, rfl⟩ := Option.map_eq_some_iff.mp hs
    exact ⟨(tabled_of_step ih.1 hok hserver).1, ih.2.step ih.1 hok hs⟩

/-- As long as the process goes on, a fourth failure in a row is one that is yet to be counted. -/
theorem Counted.failed_le (h : Counted m) (halive : m.server.crashed = false) :
    m.failed ≤ 3 ∨ m.failed ≤ 4 ∧ m.server.worker = .uploaded false := by
  by_cases hw : m.server.worker = .uploaded true
  · rw [h.resets halive hw]
    exact .inl (Nat.zero_le _)
  · have hbelow : m.server.errCount ≤ 3 := h.below halive
    rw [h.counts halive hw]
    by_cases hzero : m.server.worker.uncounted = 0
    · exact .inl (by omega)
    · obtain ⟨hworker, hone⟩ := eq_of_uncounted_ne_zero hzero
      exact .inr ⟨by omega, hworker⟩

/-- **The status server ends in an upload, and by nothing else**, in every run that its balancer
admits: no handler of an RPC and no sweep throws. It has ended exactly if an exception of redis++ has
left `UpdateServerList`, which may be the first upload already, or the worker has counted the fourth
upload in a row that returned `false`. -/
theorem ends_in_upload (m : Monitored)
    (h : Reach Monitored.step (fun m l => Admits m.server l) .init m) :
    m.server.balancer.Sound ∧ m.failed ≤ 4 ∧
      (m.server.crashed = true → m.threw = true ∧ m.failed ≤ 3 ∨ m.threw = false ∧ m.failed = 4) ∧
      (m.threw = true → m.server.crashed = true) ∧
      (m.failed = 4 → m.server.crashed = true ∨ m.server.worker = .uploaded false) := by
  obtain ⟨hsound, hcounted⟩ := counted_of_reach h
  -- a process that has ended has no step any more, so both cases are about the last state
  cases hcrashed : m.server.crashed with
  | true =>
    have hends := hcounted.ends hcrashed
    refine ⟨hsound, ?_, fun _ => hends, fun _ => rfl, fun _ => .inl rfl⟩
    rcases hends with ⟨-, hless⟩ | ⟨-, hfour⟩
    · exact Nat.le_succ_of_le hless
    · exact Nat.le_of_eq hfour
  | false =>
    have hcalm := hcounted.calm hcrashed
    have hfailed := hcounted.failed_le hcrashed
    refine ⟨hsound, by omega, fun hbad => ?_, fun hthrew => ?_, fun hfour => ?_⟩
    · cases hbad
    · rw [hcalm] at hthrew
      cases hthrew
    · rcases hfailed with hless | ⟨-, hworker⟩
      · omega
      · exact .inr hworker

/-- About to upload the empty list, after `n` uploads that failed. -/
def beforeUpload (n : ℕ) : Monitored :=
  ⟨{ init with worker := .unlocked, pending := true, errCount := n }, n, false⟩

def afterUpload (n : ℕ) : Monitored :=
  ⟨{ init with worker := .uploaded false, pending := true, errCount := n }, n + 1, false⟩

/-- The worker has the empty list in its hands. -/
theorem reach_copied (n : ℕ) : ∃ m, m.server.worker = .copied [] ∧ m.server.crashed = false ∧
    Reach Monitored.step (fun m l => Admits m.server l) (beforeUpload n) m ∧
    m.step (.updateServerList false) = some (afterUpload n) := by
  have hsweep : Admits (beforeUpload n).server (.checkTTL [] fun _ => 0) := by
    intro op hop
    cases hop
    refine ⟨⟨List.nodup_nil, fun x => iff_of_false List.not_mem_nil fun hbad => ?_⟩,
      ⟨fun _ => UInt64.le_refl _, fun si hsi => ?_⟩, trivial⟩
    · cases hbad
    · cases hsi
  have hswept : Reach Monitored.step (fun m l => Admits m.server l) (beforeUpload n) _ :=
    Reach.refl.tail hsweep rfl
  have hcopied := hswept.tail (l := .copyServerInfoList []) (admits_of_op rfl) rfl
  exact ⟨_, rfl, rfl, hcopied, rfl⟩

theorem reach_afterUpload (n : ℕ) :
    Reach Monitored.step (fun m l => Admits m.server l) (beforeUpload n) (afterUpload n) := by
  obtain ⟨m, -, -, hcopied, hs⟩ := reach_copied n
  exact hcopied.tail (admits_of_op rfl) hs

/-- The first three failures are counted, and the worker tries again. -/
theorem reach_beforeUpload {n : ℕ} (hn : n < 3) :
    Reach Monitored.step (fun m l => Admits m.server l) (afterUpload n) (beforeUpload (n + 1)) := by
  have hcount : Monitored.step (afterUpload n) .setFlag =
      some ⟨{ init with worker := .locking, pending := true, errCount := n + 1 }, n + 1, false⟩ := by
    show Option.map _ (if errCountMax < n + 1 then _ else _) = _
    rw [if_neg (show ¬ errCountMax < n + 1 from Nat.not_lt.mpr hn)]
    rfl
  have hcounted : Reach Monitored.step (fun m l => Admits m.server l) (afterUpload n) _ :=
    Reach.refl.tail (admits_of_op rfl) hcount
  exact hcounted.tail (l := .lock) (admits_of_op rfl) rfl

theorem reach_firstUpload :
    Reach Monitored.step (fun m l => Admits m.server l) .init (beforeUpload 0) := by
  have hlocked : Reach Monitored.step (fun m l => Admits m.server l) .init _ :=
    Reach.refl.tail (l := .lock) (admits_of_op rfl) rfl
  exact hlocked.tail (l := .wake true) (admits_of_op rfl) rfl

/-- Four uploads that return `false` end the process, and so does a single one that throws. -/
theorem ends_in_upload_both :
    (∃ m, Reach Monitored.step (fun m l => Admits m.server l) .init m ∧
      m.server.crashed = true ∧ m.threw = false ∧ m.failed = 4 ∧ m.server.balancer.Sound) ∧
    ∃ m, Reach Monitored.step (fun m l => Admits m.server l) .init m ∧
      m.server.crashed = true ∧ m.threw = true ∧ m.failed ≤ 3 ∧ m.server.balancer.Sound := by
  constructor
  · have hturn : ∀ n, n < 3 →
        Reach Monitored.step (fun m l => Admits m.server l) (beforeUpload n) (beforeUpload (n + 1)) :=
      fun n hn => (reach_afterUpload n).trans (reach_beforeUpload hn)
    have hlast := (((reach_firstUpload.trans (hturn 0 (by decide))).trans
      (hturn 1 (by decide))).trans (hturn 2 (by decide))).trans (reach_afterUpload 3)
    have hends := hlast.tail (l := .setFlag) (admits_of_op rfl) rfl
    obtain ⟨hsound, -, hcauses, -, -⟩ := ends_in_upload _ hends
    rcases hcauses rfl with ⟨hbad, -⟩ | ⟨hcalm, hfour⟩
    · cases hbad
    · exact ⟨_, hends, rfl, hcalm, hfour, hsound⟩
  · obtain ⟨m, hw, halive, hcopied, -⟩ := reach_copied 0
    have hthrows : m.step .updateServerListThrows =
        some ⟨{ m.server with crashed := true }, m.failed, m.threw || true⟩ := by
      simp [Monitored.step, TimedUploader.step, halive, hw, Label.failed, Label.throws]
    have hends := (reach_firstUpload.trans hcopied).tail (admits_of_op rfl) hthrows
    obtain ⟨hsound, -, hcauses, -, -⟩ := ends_in_upload _ hends
    rcases hcauses rfl with ⟨hthrew, hless⟩ | ⟨hbad, -⟩
    · exact ⟨_, hends, rfl, hthrew, hless, hsound⟩
    · rw [Bool.or_true] at hbad
      cases hbad

end TimedUploader

end Chatroom.Status
