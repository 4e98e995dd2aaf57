import Mathlib.Tactic.ByContra
import Chatroom.Common.Timer

/-!
# A task and the thread of its timer

`Cancel` promises that the callback is not run any more. The calls come from one thread, and the
handlers of the waits run on the thread of the timers; a handler is dequeued with its error code,
tests the code and `active_`, runs `cb_`, tests `auto_reset_` and activates the task again, and the
calls may come between any two of these. Here each of them is a step of its own, and the waits have
numbers, in the order in which they are armed, so that the waits armed before a `Cancel` are those
with the lesser numbers.

Of asio it is assumed, as before, that setting or cancelling a timer completes the waits on it with
an error, unless it has expired and their handlers are queued.

The promise does not hold: `active_` is one flag for all waits, and an `Activate` sets it for those
of before, too; and a `Cancel` that comes behind a test is not seen by the one who has tested.

The condition `Apart` says when the calls may come. That it is enough is an invariant (`Inv.step`);
that
it is needed is shown by playing on: after a call at another time the thread of the timers can break
the
promise by itself (`apart_of_kept`). So the runs whose calls keep to `Apart` are exactly those in
which
the promise is safe at every moment.
-/

namespace Chatroom.TimerThreads

open Trace
open TimedTask (ErrorCode Call)

/-- Where the thread of the timers is. -/
inductive Phase where
  | idle
  | dequeued (w : ℕ) (ec : ErrorCode)
  /-- The test has come out well, and `cb_` is to be run. -/
  | tested (w : ℕ)
  /-- `cb_` has returned. -/
  | ran
  /-- `auto_reset_` was set, and the task is to be activated. -/
  | rearming
  deriving DecidableEq, Repr

structure State where
  /-- The waits on the timer, and the queued handlers of those that have completed. -/
  waiting : List ℕ
  ready : List (ℕ × ErrorCode)
  autoReset : Bool
  active : Bool
  phase : Phase
  /-- The number of the next wait. -/
  next : ℕ
  /-- History: the waits with lesser numbers were armed before the last `Cancel`. -/
  cancelMark : ℕ
  /-- History: the wait of each start of `cb_`, with the mark at that time. -/
  starts : List (ℕ × ℕ)
  /-- History: the last call from outside. -/
  lastCall : Option Call
  deriving DecidableEq, Repr

def setTimer (autoReset : Bool) : State where
  waiting := []
  ready := []
  autoReset := autoReset
  active := false
  phase := .idle
  next := 0
  cancelMark := 0
  starts := []
  lastCall := none

/-- All waits on the timer complete with `ec`. -/
def State.complete (ec : ErrorCode) (x : State) : State :=
  { x with waiting := [], ready := x.ready ++ x.waiting.map fun w => (w, ec) }

def activate (x : State) : State :=
  let x := x.complete .operationAborted
  { x with active := true, waiting := x.waiting ++ [x.next], next := x.next + 1 }

def cancel (x : State) : State :=
  let x := { x with autoReset := false, active := false }
  { x.complete .operationAborted with cancelMark := x.next }

inductive Label where
  | call (c : Call)
  | expire
  | dequeue
  | test
  | runCb
  | testReset
  | reActivate
  deriving DecidableEq, Repr

def step (x : State) : Label → Option State
  | .call .activate => some { activate x with lastCall := some .activate }
  | .call .cancel => some { cancel x with lastCall := some .cancel }
  | .expire => if x.waiting = [] then none else some (x.complete .success)
  | .dequeue =>
    match x.phase, x.ready with
    | .idle, (w, ec) :: rest => some { x with phase := .dequeued w ec, ready := rest }
    | _, _ => none
  | .test =>
    match x.phase with
    | .dequeued w ec =>
      if ec = .success ∧ x.active = true then some { x with phase := .tested w }
      else some { x with phase := .idle }
    | _ => none
  | .runCb =>
    match x.phase with
    | .tested w => some { x with phase := .ran, starts := x.starts ++ [(w, x.cancelMark)] }
    | _ => none
  | .testReset =>
    match x.phase with
    | .ran => some { x with phase := if x.autoReset then .rearming else .idle }
    | _ => none
  | .reActivate =>
    match x.phase with
    | .rearming => some { activate x with phase := .idle }
    | _ => none

/-- What `Cancel` promises. -/
structure Promise (x : State) : Prop where
  /-- `cb_` was started for no wait that was armed before a `Cancel` that had returned. -/
  starts : ∀ start ∈ x.starts, start.2 ≤ start.1
  /-- No wait is armed after a `Cancel` until the next `Activate` from outside. -/
  disarmed : x.lastCall = some .cancel → x.waiting = []

/-- The handlers that have not tested yet. -/
def untested (x : State) : List (ℕ × ErrorCode) :=
  match x.phase with
  | .dequeued w ec => (w, ec) :: x.ready
  | _ => x.ready

/-- No handler that is still to test is one of a wait that had expired before it was cancelled. -/
def NoneStale (x : State) : Prop := ∀ p ∈ untested x, p.2 = .success → x.cancelMark ≤ p.1

instance (x : State) : Decidable (NoneStale x) :=
  inferInstanceAs (Decidable (∀ p ∈ untested x, p.2 = .success → x.cancelMark ≤ p.1))

/-- The thread has tested a flag and is about to act on it. -/
def Phase.acting : Phase → Bool
  | .tested _ | .rearming => true
  | _ => false

/-- No `Cancel` comes between the test of `active_` and the start of `cb_`, or between the test of
`auto_reset_` and the `Activate` that follows; no `Activate` comes from outside while a handler of a
wait that had expired before it was cancelled is still to test. -/
def Apart (x : State) : Label → Prop
  | .call .cancel => x.phase.acting = false
  | .call .activate => NoneStale x
  | _ => True

instance (x : State) (l : Label) : Decidable (Apart x l) := by
  unfold Apart; split <;> infer_instance

/-- A step of the thread of the timers. -/
def Timed (_ : State) : Label → Prop
  | .call _ => False
  | _ => True

/-- The promise holds and will hold, whatever the thread of the timers does. -/
def Kept (x : State) : Prop := ∀ y, Reach step Timed x y → Promise y

variable {x x' : State} {l : Label} {w : ℕ} {ec : ErrorCode}

/-! ## The invariant

Waits are numbered, so "armed before the `Cancel`" is a comparison with `cancelMark`. The promise
itself
is a part of the invariant; the other parts say why the next start of `cb_` will be for a wait that is
not before the mark: those that are armed are not, a handler that may pass the test of `active_` is
not,
and one that has passed it is not. -/

structure Inv (x : State) : Prop where
  promise : Promise x
  mark : x.cancelMark ≤ x.next
  waiting : ∀ w ∈ x.waiting, x.cancelMark ≤ w ∧ w < x.next
  handlers : ∀ p ∈ untested x, p.1 < x.next
  /-- The flag stands only for waits of its own. -/
  active : x.active = true → NoneStale x
  tested : ∀ w, x.phase = .tested w → x.cancelMark ≤ w ∧ w < x.next
  /-- `auto_reset_` is never set again. -/
  reset : x.autoReset = true ∨ x.phase = .rearming → x.cancelMark = 0 ∧ x.lastCall ≠ some .cancel

/-- A task that has just been made has no wait and no handler. -/
theorem setTimer_inv (autoReset : Bool) : Inv (setTimer autoReset) := by
  refine ⟨⟨?_, fun _ => rfl⟩, Nat.le_refl _, ?_, ?_, ?_, ?_, ?_⟩ <;>
    simp [setTimer, untested]

/-- The waits that complete join the handlers. -/
theorem mem_untested_complete {p : ℕ × ErrorCode} :
    p ∈ untested (x.complete ec) ↔ p ∈ untested x ∨ p.1 ∈ x.waiting ∧ p.2 = ec := by
  have hnew : p ∈ x.waiting.map (fun w => (w, ec)) ↔ p.1 ∈ x.waiting ∧ p.2 = ec := by
    rw [List.mem_map]
    constructor
    · rintro ⟨w, hw, rfl⟩
      exact ⟨hw, rfl⟩
    · rintro ⟨hw, rfl⟩
      exact ⟨p.1, hw, rfl⟩
  unfold untested State.complete
  dsimp only
  split
  · rw [List.mem_cons, List.mem_append, hnew, List.mem_cons, or_assoc]
  · rw [List.mem_append, hnew]

/-- A wait that is given up joins the handlers with an error, so it is none that is stale. -/
theorem noneStale_complete_aborted :
    NoneStale (x.complete .operationAborted) ↔ NoneStale x := by
  unfold NoneStale
  simp only [mem_untested_complete]
  constructor
  · intro h p hp hsuccess
    exact h p (.inl hp) hsuccess
  · rintro h p (hp | ⟨-, hec⟩) hsuccess
    · exact h p hp hsuccess
    · rw [hsuccess] at hec
      cases hec

theorem Inv.handlers_complete (h : Inv x) (ec : ErrorCode) :
    ∀ p ∈ untested (x.complete ec), p.1 < x.next := by
  intro p hp
  rcases mem_untested_complete.mp hp with hold | ⟨hnew, -⟩
  · exact h.handlers p hold
  · exact (h.waiting p.1 hnew).2

/-- A task is activated while no handler is stale. -/
theorem Inv.activated (h : Inv x) (hstale : NoneStale x) {phase : Phase} {lastCall : Option Call}
    (hphase : phase = x.phase ∨ x.phase = .rearming ∧ phase = .idle)
    (hlast : lastCall ≠ some .cancel) :
    Inv { activate x with phase := phase, lastCall := lastCall } := by
  have hmark := h.mark
  have huntested : untested { activate x with phase := phase, lastCall := lastCall } =
      untested (x.complete .operationAborted) := by
    rcases hphase with rfl | ⟨hrearming, rfl⟩
    · rfl
    · simp only [untested, activate, State.complete, hrearming]
  refine ⟨⟨h.promise.starts, fun hc => absurd hc hlast⟩, Nat.le_succ_of_le hmark, ?_, ?_, ?_, ?_, ?_⟩
  · intro w hw
    rw [List.mem_singleton.mp hw]
    exact ⟨hmark, Nat.lt_succ_self _⟩
  · intro p hp
    rw [huntested] at hp
    exact Nat.lt_succ_of_lt (h.handlers_complete _ p hp)
  · intro _ p hp
    rw [huntested] at hp
    exact noneStale_complete_aborted.mpr hstale p hp
  · intro w hw
    rcases hphase with rfl | ⟨-, rfl⟩
    · exact ⟨(h.tested w hw).1, Nat.lt_succ_of_lt (h.tested w hw).2⟩
    · cases hw
  · intro hreset
    refine ⟨(h.reset ?_).1, hlast⟩
    rcases hphase with rfl | ⟨-, rfl⟩
    · exact hreset
    · exact hreset.imp_right fun hidle => (by cases hidle)

/-- `Cancel` moves the mark behind all waits; whoever would still run has to pass a test of `active_`,
which it has reset. -/
theorem Inv.cancelled (h : Inv x) (hok : x.phase.acting = false) :
    Inv { cancel x with lastCall := some .cancel } := by
  refine ⟨⟨h.promise.starts, fun _ => rfl⟩, Nat.le_refl _, ?_, h.handlers_complete _, ?_, ?_, ?_⟩
  · intro w hw
    cases hw
  · intro hactive
    cases hactive
  · intro w hw
    rw [show x.phase = .tested w from hw] at hok
    cases hok
  · rintro (hreset | hrearming)
    · cases hreset
    · rw [show x.phase = .rearming from hrearming] at hok
      cases hok

/-- The handler of a wait that expires is not stale: the wait is behind the mark. -/
theorem Inv.expired (h : Inv x) : Inv (x.complete .success) := by
  refine ⟨⟨h.promise.starts, fun _ => rfl⟩, h.mark, ?_, h.handlers_complete _, ?_, h.tested, h.reset⟩
  · intro w hw
    cases hw
  · intro hactive p hp hsuccess
    rcases mem_untested_complete.mp hp with hold | ⟨hnew, -⟩
    · exact h.active hactive p hold hsuccess
    · exact (h.waiting p.1 hnew).1

/-- The thread of the timers moves on; handlers may become fewer, not more. -/
theorem Inv.move (h : Inv x) {phase : Phase} {ready : List (ℕ × ErrorCode)}
    (hsub : ∀ p ∈ untested { x with phase := phase, ready := ready }, p ∈ untested x)
    (htested : ∀ w, phase = .tested w → x.cancelMark ≤ w ∧ w < x.next)
    (hrearming : phase = .rearming → x.autoReset = true) :
    Inv { x with phase := phase, ready := ready } := by
  refine ⟨⟨h.promise.starts, h.promise.disarmed⟩, h.mark, h.waiting,
    fun p hp => h.handlers p (hsub p hp), ?_, htested, ?_⟩
  · intro hactive p hp
    exact h.active hactive p (hsub p hp)
  · rintro (hreset | hphase)
    · exact h.reset (.inl hreset)
    · exact h.reset (.inl (hrearming hphase))

theorem Inv.dequeue (h : Inv x) (hs : step x .dequeue = some x') : Inv x' := by
  simp only [step] at hs
  split at hs
  · next w ec rest hphase hready =>
    cases hs
    refine h.move (fun p hp => ?_) (fun v hv => by cases hv) (fun hr => by cases hr)
    rwa [untested, hphase, hready]
  · cases hs

/-- A handler that passes the test is not stale, since the flag is set. -/
theorem Inv.test (h : Inv x) (hs : step x .test = some x') : Inv x' := by
  simp only [step] at hs
  split at hs
  · next w ec hphase =>
    have huntested : untested x = (w, ec) :: x.ready := by rw [untested, hphase]
    have hin : (w, ec) ∈ untested x := by
      rw [huntested]
      exact List.mem_cons_self
    split at hs
    · next hcond =>
      cases hs
      refine h.move (fun p hp => ?_) (fun v hv => ?_) (fun hr => by cases hr)
      · rw [huntested]
        exact List.mem_cons_of_mem _ hp
      · -- the flag is set, so the wait is not stale
        cases hv
        exact ⟨h.active hcond.2 _ hin hcond.1, h.handlers _ hin⟩
    · cases hs
      refine h.move (fun p hp => ?_) (fun v hv => by cases hv) (fun hr => by cases hr)
      rw [huntested]
      exact List.mem_cons_of_mem _ hp
  · cases hs

/-- The start of `cb_` is recorded with the mark of that moment. -/
theorem Inv.runCb (h : Inv x) (hs : step x .runCb = some x') : Inv x' := by
  simp only [step] at hs
  split at hs
  · next w hphase =>
    cases hs
    have hran : Inv { x with phase := .ran, ready := x.ready } := by
      refine h.move (fun p hp => ?_) (fun v hv => by cases hv) (fun hr => by cases hr)
      rwa [untested, hphase]
    refine ⟨⟨fun start hmem => ?_, h.promise.disarmed⟩, hran.mark, hran.waiting, hran.handlers,
      hran.active, hran.tested, hran.reset⟩
    rcases List.mem_append.mp hmem with hold | hnew
    · exact h.promise.starts start hold
    · rw [List.mem_singleton.mp hnew]
      exact (h.tested w hphase).1
  · cases hs

theorem Inv.testReset (h : Inv x) (hs : step x .testReset = some x') : Inv x' := by
  simp only [step] at hs
  split at hs
  · next hphase =>
    cases hs
    show Inv { x with phase := if x.autoReset then .rearming else .idle, ready := x.ready }
    refine h.move (fun p hp => ?_) (fun v hv => ?_) (fun hr => ?_)
    · rw [untested, hphase]
      unfold untested at hp
      split at hp
      · next v ec hv =>
        dsimp only at hv
        split at hv <;> cases hv
      · exact hp
    · split at hv <;> cases hv
    · split at hr
      · next hreset => exact hreset
      · cases hr
  · cases hs

/-- A task that resets itself was never cancelled, so nothing can be stale. -/
theorem Inv.reActivate (h : Inv x) (hs : step x .reActivate = some x') : Inv x' := by
  simp only [step] at hs
  split at hs
  · next hphase =>
    cases hs
    obtain ⟨hmark, hlast⟩ := h.reset (.inr hphase)
    refine h.activated (fun p _ _ => ?_) (.inr ⟨hphase, rfl⟩) hlast
    rw [hmark]
    exact Nat.zero_le _
  · cases hs

/-- **What one step does to the invariant.** -/
theorem Inv.step (h : Inv x) (hok : Apart x l) (hs : step x l = some x') : Inv x' := by
  cases l with
  | call c =>
    cases c with
    | activate =>
      cases hs
      exact h.activated hok (.inl rfl) (by decide)
    | cancel =>
      cases hs
      exact h.cancelled hok
  | expire =>
    simp only [TimerThreads.step] at hs
    split at hs
    · cases hs
    · cases hs
      exact h.expired
  | dequeue => exact h.dequeue hs
  | test => exact h.test hs
  | runCb => exact h.runCb hs
  | testReset => exact h.testReset hs
  | reActivate => exact h.reActivate hs

/-- Steps of the thread of the timers are always apart, so the invariant is enough for the future as
well. -/
theorem Inv.kept (h : Inv x) : Kept x := by
  intro y hreach
  have hinv : Inv y := by
    refine hreach.invariant h fun y l y' hinv htimed hs => hinv.step ?_ hs
    cases l with
    | call c => cases htimed
    | _ => trivial
  exact hinv.promise

/-! ## The promise broken

A `Cancel` or an `Activate` at the wrong time need not break the promise at once, but the thread of
the timers can then do so without any further call.

Three ways to break it, one for each test that comes too early: the callback is about to run, the task
is about to be activated, or a stale handler is about to find the flag set. For the last one the
handlers
in front of the stale one have to come to their ends first (`Queued.drain`), with the flag still set. -/

theorem reach_timed (htimed : Timed x l) (hs : step x l = some x') : Reach step Timed x x' :=
  Reach.refl.tail htimed hs

/-- Safe from here on is safe from later on. -/
theorem Kept.reach (h : Kept x) {y : State} (hreach : Reach step Timed x y) : Kept y :=
  fun z hz => h z (hreach.trans hz)

/-- A handler that has tested runs `cb_`. -/
theorem not_kept_of_tested (hphase : x.phase = .tested w) (hlt : w < x.cancelMark) : ¬ Kept x := by
  intro hkept
  have hrun : step x .runCb =
      some { x with phase := .ran, starts := x.starts ++ [(w, x.cancelMark)] } := by
    simp only [step, hphase]
  have hpromise := hkept _ (reach_timed (l := .runCb) trivial hrun)
  have hle := hpromise.starts (w, x.cancelMark) (List.mem_append_right _ List.mem_cons_self)
  exact absurd hlt (Nat.not_lt.mpr hle)

/-- A handler that has found `auto_reset_` set arms a wait. -/
theorem not_kept_of_rearming (hphase : x.phase = .rearming) (hlast : x.lastCall = some .cancel) :
    ¬ Kept x := by
  intro hkept
  have hrun : step x .reActivate = some { activate x with phase := .idle } := by
    simp only [step, hphase]
  have hpromise := hkept _ (reach_timed (l := .reActivate) trivial hrun)
  have hnil : [x.next] = [] := hpromise.disarmed hlast
  cases hnil

/-- A handler of a wait that is stale finds the flag set. -/
theorem not_kept_of_dequeued (hactive : x.active = true) (hphase : x.phase = .dequeued w .success)
    (hlt : w < x.cancelMark) : ¬ Kept x := by
  intro hkept
  have hrun : step x .test = some { x with phase := .tested w } := by
    simp only [step, hphase, hactive, and_self, if_true]
  have hkept' := hkept.reach (reach_timed (l := .test) trivial hrun)
  refine absurd hkept' (not_kept_of_tested rfl ?_)
  exact hlt

/-- The flag is set, the mark stands at `mark`, and the handlers `ready` are first in the queue. -/
structure Queued (mark : ℕ) (ready : List (ℕ × ErrorCode)) (x : State) : Prop where
  active : x.active = true
  mark : x.cancelMark = mark
  ready : ready <+: x.ready

section Drain

variable {mark : ℕ} {ready : List (ℕ × ErrorCode)}

/-- The handler activates the task again: this aborts the wait, and its handler is queued last. -/
theorem Queued.rearming (h : Queued mark ready x) (hphase : x.phase = .rearming) :
    ∃ y, Reach step Timed x y ∧ y.phase = .idle ∧ Queued mark ready y := by
  have hrun : step x .reActivate = some { activate x with phase := .idle } := by
    simp only [step, hphase]
  refine ⟨_, reach_timed (l := .reActivate) trivial hrun, rfl, rfl, h.mark, ?_⟩
  exact h.ready.trans (List.prefix_append _ _)

/-- Behind the callback the handler ends or activates the task. -/
theorem Queued.ran (h : Queued mark ready x) (hphase : x.phase = .ran) :
    ∃ y, Reach step Timed x y ∧ y.phase = .idle ∧ Queued mark ready y := by
  cases hreset : x.autoReset with
  | true =>
    have hrun : step x .testReset = some { x with phase := .rearming } := by
      simp only [step, hphase, hreset, if_true]
    have hq : Queued mark ready { x with phase := .rearming } := ⟨h.active, h.mark, h.ready⟩
    obtain ⟨y, hrest, hy⟩ := hq.rearming rfl
    exact ⟨y, (reach_timed (l := .testReset) trivial hrun).trans hrest, hy⟩
  | false =>
    have hrun : step x .testReset = some { x with phase := .idle } := by
      simp only [step, hphase, hreset, Bool.false_eq_true, if_false]
    exact ⟨_, reach_timed (l := .testReset) trivial hrun, rfl, h.active, h.mark, h.ready⟩

/-- The callback returns and calls nothing of the task. -/
theorem Queued.tested (h : Queued mark ready x) (hphase : x.phase = .tested w) :
    ∃ y, Reach step Timed x y ∧ y.phase = .idle ∧ Queued mark ready y := by
  have hrun : step x .runCb =
      some { x with phase := .ran, starts := x.starts ++ [(w, x.cancelMark)] } := by
    simp only [step, hphase]
  have hq : Queued mark ready { x with phase := .ran, starts := x.starts ++ [(w, x.cancelMark)] } :=
    ⟨h.active, h.mark, h.ready⟩
  obtain ⟨y, hrest, hy⟩ := hq.ran rfl
  exact ⟨y, (reach_timed (l := .runCb) trivial hrun).trans hrest, hy⟩

/-- A handler with an error ends at once, and one without runs the callback. -/
theorem Queued.dequeued (h : Queued mark ready x) (hphase : x.phase = .dequeued w ec) :
    ∃ y, Reach step Timed x y ∧ y.phase = .idle ∧ Queued mark ready y := by
  by_cases hec : ec = .success
  · have hrun : step x .test = some { x with phase := .tested w } := by
      simp only [step, hphase, hec, h.active, and_self, if_true]
    have hq : Queued mark ready { x with phase := .tested w } := ⟨h.active, h.mark, h.ready⟩
    obtain ⟨y, hrest, hy⟩ := hq.tested rfl
    exact ⟨y, (reach_timed (l := .test) trivial hrun).trans hrest, hy⟩
  · have hrun : step x .test = some { x with phase := .idle } := by
      simp only [step, hphase, hec, false_and, if_false]
    exact ⟨_, reach_timed (l := .test) trivial hrun, rfl, h.active, h.mark, h.ready⟩

/-- The handler that is running comes to its end, and the flag stays set. -/
theorem Queued.drain (h : Queued mark ready x) :
    ∃ y, Reach step Timed x y ∧ y.phase = .idle ∧ Queued mark ready y := by
  cases hphase : x.phase with
  | idle => exact ⟨x, .refl, hphase, h⟩
  | dequeued w ec => exact h.dequeued hphase
  | tested w => exact h.tested hphase
  | ran => exact h.ran hphase
  | rearming => exact h.rearming hphase

/-- One handler after the other, until it is the turn of the stale one. -/
theorem Queued.not_kept (hlt : w < mark) : ∀ {pre : List (ℕ × ErrorCode)} {x : State},
    Queued mark (pre ++ [(w, .success)]) x → ¬ Kept x
  | pre, x, h, hkept => by
    obtain ⟨y, hreach, hidle, hy⟩ := h.drain
    obtain ⟨rest, hready⟩ := hy.ready
    cases pre with
    | nil =>
      have hrun : step y .dequeue = some { y with phase := .dequeued w .success, ready := rest } := by
        simp only [step, hidle, ← hready, List.nil_append, List.singleton_append]
      have hkept' := (hkept.reach hreach).reach (reach_timed (l := .dequeue) trivial hrun)
      refine absurd hkept' (not_kept_of_dequeued hy.active rfl ?_)
      exact hy.mark ▸ hlt
    | cons p pre =>
      have hrun : step y .dequeue = some { y with
          phase := .dequeued p.1 p.2, ready := pre ++ [(w, .success)] ++ rest } := by
        simp only [step, hidle, ← hready, List.cons_append]
      have hq : Queued mark (pre ++ [(w, .success)]) { y with
          phase := .dequeued p.1 p.2, ready := pre ++ [(w, .success)] ++ rest } :=
        ⟨hy.active, hy.mark, List.prefix_append _ _⟩
      exact hq.not_kept hlt ((hkept.reach hreach).reach (reach_timed (l := .dequeue) trivial hrun))
termination_by pre => pre.length

end Drain

/-- The flag is set, and a stale handler is somewhere in the queue. -/
theorem not_kept_of_stale (hactive : x.active = true) (hstale : ¬ NoneStale x) : ¬ Kept x := by
  simp only [NoneStale, not_forall, Nat.not_le] at hstale
  obtain ⟨⟨w, ec⟩, hmem, hsuccess, hlt⟩ := hstale
  cases hsuccess
  have hqueued : (w, ErrorCode.success) ∈ x.ready → ¬ Kept x := by
    intro hready
    obtain ⟨pre, post, heq⟩ := List.append_of_mem hready
    have hq : Queued x.cancelMark (pre ++ [(w, .success)]) x := by
      refine ⟨hactive, rfl, post, ?_⟩
      rw [heq, List.append_assoc]
      rfl
    exact hq.not_kept hlt
  cases hphase : x.phase with
  | dequeued v ec =>
    rw [untested, hphase] at hmem
    rcases List.mem_cons.mp hmem with heq | hready
    · cases heq
      exact not_kept_of_dequeued hactive hphase hlt
    · exact hqueued hready
  | _ =>
    rw [untested, hphase] at hmem
    exact hqueued hmem

/-- **A call at the wrong time endangers the promise.** -/
theorem apart_of_kept (h : Inv x) (hs : step x l = some x') (hkept : Kept x') : Apart x l := by
  cases l with
  | call c =>
    cases c with
    | cancel =>
      cases hs
      cases hphase : x.phase with
      | tested w =>
        exact absurd hkept (not_kept_of_tested hphase (h.tested w hphase).2)
      | rearming => exact absurd hkept (not_kept_of_rearming hphase rfl)
      | _ => simp only [Apart, hphase, Phase.acting]
    | activate =>
      cases hs
      by_contra hstale
      refine not_kept_of_stale rfl (fun hnone => hstale ?_) hkept
      exact noneStale_complete_aborted.mp hnone
  | _ => trivial

/-- **The promise of `Cancel` is kept, whatever the thread of the timers does, exactly along the runs
whose calls come apart from its tests.** -/
theorem promise_iff (autoReset : Bool) (ls : List Label)
    (hrun : (run step anyStep (setTimer autoReset) ls).isSome) :
    (∀ pre, pre <+: ls → ∀ x, run step anyStep (setTimer autoReset) pre = some x → Kept x) ↔
      (run step Apart (setTimer autoReset) ls).isSome := by
  have hstep : ∀ x l x', (Kept x → Inv x) → Kept x → step x l = some x' →
      (Kept x' → Inv x') ∧ (Kept x' ↔ Apart x l) := by
    intro x l x' hknown hkept hs
    have hinv := hknown hkept
    refine ⟨fun hkept' => hinv.step (apart_of_kept hinv hs hkept') hs, apart_of_kept hinv hs, ?_⟩
    intro hok
    exact (hinv.step hok hs).kept
  exact run_isSome_iff hstep (fun _ => setTimer_inv autoReset) (setTimer_inv autoReset).kept hrun

/-- The task fires, is cancelled when the callback has returned, and is activated anew. -/
theorem promise_cancel_after_callback : ∃ x, run step anyStep (setTimer true) [.call .activate,
    .expire, .dequeue, .test, .runCb, .call .cancel, .testReset, .call .activate] = some x ∧
      x.waiting = [1] ∧ Kept x :=
  ⟨_, rfl, rfl, (promise_iff true [.call .activate, .expire, .dequeue, .test, .runCb, .call .cancel,
    .testReset, .call .activate] (by decide)).mpr (by decide) _ (List.prefix_refl _) _ rfl⟩

/-- The timer has expired when the task is cancelled and activated anew, as `UpdateNow` does it: the
callback is run for the wait of before. And a `Cancel` behind the test of `auto_reset_` leaves a wait
armed. -/
theorem not_promise_cancel :
    (∃ x, run step anyStep (setTimer true) [.call .activate, .expire, .call .cancel,
        .call .activate, .dequeue, .test, .runCb] = some x ∧
      x.starts = [(0, 1)] ∧ ¬ Promise x) ∧
    ∃ x, run step anyStep (setTimer true) [.call .activate, .expire, .dequeue, .test, .runCb,
        .testReset, .call .cancel, .reActivate] = some x ∧
      x.lastCall = some .cancel ∧ x.waiting = [1] ∧ ¬ Promise x := by
  refine ⟨⟨_, rfl, rfl, fun h => ?_⟩, _, rfl, rfl, rfl, fun h => ?_⟩
  · have hle := h.starts (0, 1) List.mem_cons_self
    omega
  · cases h.disarmed rfl

/-! ## The handler as one step

`TimedTask` takes a handler as one step. Its runs are those of this model in which nothing comes
between the steps of a handler. -/

/-- What the timer is set to: `dur_`, as soon as a wait was armed. -/
def setTo (dur : ℕ) : ℕ → ℕ
  | 0 => 0
  | _ + 1 => dur

/-- The same task without the numbers of its waits. -/
def toTask (dur : ℕ) (x : State) : TimedTask.State where
  timer := ⟨setTo dur x.next, x.waiting.length, x.ready.map Prod.snd⟩
  dur := dur
  autoReset := x.autoReset
  active := x.active
  fired := x.starts.length
  lastCall := x.lastCall

theorem toTask_complete (dur : ℕ) (ec : ErrorCode) (x : State) :
    toTask dur (x.complete ec) =
      { toTask dur x with timer := (toTask dur x).timer.complete ec } := by
  simp [toTask, State.complete, TimedTask.Timer.complete, Function.comp_def, List.map_const']

/-- Numbered waits are activated like waits that are only counted. -/
theorem toTask_activate (dur : ℕ) (x : State) :
    toTask dur (activate x) = TimedTask.activate (toTask dur x) := by
  simp [toTask, activate, State.complete, TimedTask.activate, TimedTask.Timer.asyncWait,
    TimedTask.Timer.expiresAfter, TimedTask.Timer.cancel, TimedTask.Timer.complete, setTo,
    Function.comp_def, List.map_const']

/-- And cancelled like them. -/
theorem toTask_cancel (dur : ℕ) (x : State) :
    toTask dur (cancel x) = TimedTask.cancel (toTask dur x) := by
  simp [toTask, cancel, State.complete, TimedTask.cancel, TimedTask.Timer.cancel,
    TimedTask.Timer.complete, Function.comp_def, List.map_const']

/-- A handler whose steps follow one another. -/
theorem exists_run_of_handler {dur : ℕ} {rest : List (ℕ × ErrorCode)} (hidle : x.phase = .idle)
    (hready : x.ready = (w, ec) :: rest) :
    ∃ ls y, run step anyStep x ls = some y ∧ y.phase = .idle ∧
      toTask dur y = TimedTask.handler ec (toTask dur { x with ready := rest }) := by
  by_cases hrun : ec = .success ∧ x.active = true
  · obtain ⟨rfl, hactive⟩ := hrun
    -- the task when `cb_` has returned
    let fired : State := { x with
      ready := rest, phase := .idle, starts := x.starts ++ [(w, x.cancelMark)] }
    have hfired : toTask dur fired = { toTask dur { x with ready := rest } with
        fired := x.starts.length + 1 } := by
      simp [fired, toTask]
    by_cases hreset : x.autoReset = true
    · refine ⟨[.dequeue, .test, .runCb, .testReset, .reActivate], activate fired, ?_, rfl, ?_⟩
      · simp only [run, anyStep, if_true, step, hidle, hready, hactive, hreset, and_self,
          Option.bind_some]
        simp only [activate, State.complete, fired, hactive, hreset]
        rfl
      · rw [TimedTask.handler_periodic hactive hreset, toTask_activate, hfired]
        rfl
    · refine ⟨[.dequeue, .test, .runCb, .testReset], fired, ?_, rfl, ?_⟩
      · simp only [run, anyStep, if_true, step, hidle, hready, hactive, if_neg hreset, and_self,
          Option.bind_some, fired]
      · rw [TimedTask.handler_single hactive (Bool.not_eq_true _ ▸ hreset), hfired]
        rfl
  · refine ⟨[.dequeue, .test], { x with ready := rest }, ?_, hidle, ?_⟩
    · simp only [run, anyStep, if_true, step, hidle, hready, if_neg hrun, Option.bind_some]
    · rw [TimedTask.handler_of_not hrun]

/-- **Each step of `TimedTask` is a run of this model** from one state in which no handler runs to
another. -/
theorem exists_run_of_task_step {dur : ℕ} {l : TimedTask.Label} {z : TimedTask.State}
    (hidle : x.phase = .idle) (hs : TimedTask.step (toTask dur x) l = some z) :
    ∃ ls y, run step anyStep x ls = some y ∧ y.phase = .idle ∧ toTask dur y = z := by
  cases l with
  | call c =>
    cases c with
    | activate =>
      cases hs
      refine ⟨[.call .activate], { activate x with lastCall := some .activate }, rfl, hidle, ?_⟩
      rw [← toTask_activate]
      rfl
    | cancel =>
      cases hs
      refine ⟨[.call .cancel], { cancel x with lastCall := some .cancel }, rfl, hidle, ?_⟩
      rw [← toTask_cancel]
      rfl
  | expire =>
    simp only [TimedTask.step] at hs
    split at hs
    · next hpos =>
      cases hs
      have hne : x.waiting ≠ [] := List.length_pos_iff.mp hpos
      refine ⟨[.expire], x.complete .success, ?_, hidle, toTask_complete dur .success x⟩
      simp only [run, anyStep, if_true, step, if_neg hne, Option.bind_some]
    · cases hs
  | handler =>
    simp only [TimedTask.step] at hs
    split at hs
    · cases hs
    · next ec rest hready =>
      cases hs
      -- the handler of the task is several steps here
      obtain ⟨⟨w, ec'⟩, rest', hx, rfl, rfl⟩ := List.map_eq_cons_iff.mp hready
      exact exists_run_of_handler hidle hx

end Chatroom.TimerThreads
