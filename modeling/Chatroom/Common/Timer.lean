import Mathlib.Data.Nat.Notation
import Chatroom.Lib.Trace

/-!
# Periodic tasks (`TimedTask`)

A task has a timer of asio, a callback and two flags. `Activate` sets the timer and waits; the
handler of the wait runs the callback and, if `auto_reset_` is set, activates the task again.
`Cancel` clears both flags.

Of asio it is assumed that setting or cancelling a timer completes the waits on it with
`operation_aborted`, that its expiry completes them with success, and that the handlers of completed
waits run one after another. An expiry and the handler it leads to are two steps, so that calls may
come in between; each handler is one step.

`Activate` does not set `auto_reset_` again. A task that has been cancelled and activated anew, as
`UpdateNow` does it, runs its callback once more and then no more. So the tasks that stay periodic are
those that are never activated after a `Cancel` (`NoRestart`).
-/

namespace Chatroom.TimedTask

open Trace

inductive ErrorCode where
  | success
  | operationAborted
  deriving DecidableEq, Repr

/-- A timer: the time it was last set to, the number of waits on it, and the handlers of the waits
that have completed and are still to run. -/
structure Timer where
  after : ℕ
  waiting : ℕ
  ready : List ErrorCode
  deriving DecidableEq, Repr

namespace Timer

/-- All waits complete with `ec`. -/
def complete (ec : ErrorCode) (t : Timer) : Timer :=
  { t with waiting := 0, ready := t.ready ++ List.replicate t.waiting ec }

def cancel (t : Timer) : Timer := t.complete .operationAborted

def expiresAfter (dur : ℕ) (t : Timer) : Timer := { t.cancel with after := dur }

def asyncWait (t : Timer) : Timer := { t with waiting := t.waiting + 1 }

end Timer

/-- What is called from outside. -/
inductive Call where
  | activate
  | cancel
  deriving DecidableEq, Repr

structure State where
  timer : Timer
  dur : ℕ
  autoReset : Bool
  active : Bool
  /-- History: how often the callback has run, and the last call from outside. -/
  fired : ℕ
  lastCall : Option Call
  deriving DecidableEq, Repr

/-- `SetTimer` on a new task. -/
def setTimer (dur : ℕ) (autoReset : Bool) : State where
  timer := ⟨0, 0, []⟩
  dur := dur
  autoReset := autoReset
  active := false
  fired := 0
  lastCall := none

def activate (x : State) : State :=
  { x with timer := (x.timer.expiresAfter x.dur).asyncWait, active := true }

def cancel (x : State) : State :=
  { x with autoReset := false, active := false, timer := x.timer.cancel }

/-- The handler of a wait. -/
def handler (ec : ErrorCode) (x : State) : State :=
  if ec = .success ∧ x.active = true then
    let x := { x with fired := x.fired + 1 }
    if x.autoReset then activate x else x
  else x

inductive Label where
  | call (c : Call)
  | expire
  | handler
  deriving DecidableEq, Repr

def step (x : State) : Label → Option State
  | .call .activate => some { activate x with lastCall := some .activate }
  | .call .cancel => some { cancel x with lastCall := some .cancel }
  | .expire => if 0 < x.timer.waiting then some { x with timer := x.timer.complete .success } else none
  | .handler =>
    match x.timer.ready with
    | [] => none
    | ec :: rest => some (handler ec { x with timer := { x.timer with ready := rest } })

/-- What `UpdateNow` of `OnlineStatusUploader` and of `StatusReporter` does to its task. -/
def updateNow : List Label := [.call .cancel, .call .activate]

/-- A wait is on the timer, or it has expired and its handler is still to run. -/
def Armed (x : State) : Prop := 0 < x.timer.waiting ∨ .success ∈ x.timer.ready

instance (x : State) : Decidable (Armed x) := inferInstanceAs (Decidable (_ ∨ _))

variable {x x' : State} {l : Label} {ec : ErrorCode}

/-- An `Activate` puts a wait on the timer. -/
theorem armed_activate (x : State) : Armed (activate x) :=
  .inl (Nat.succ_pos _)

/-- An expiry leaves a handler to run. -/
theorem armed_complete (h : 0 < x.timer.waiting) :
    Armed { x with timer := x.timer.complete .success } := by
  refine .inr (List.mem_append_right _ ?_)
  exact List.mem_replicate.mpr ⟨by omega, rfl⟩

/-! ## What a handler does

Three cases, by the error code and the two flags. -/

theorem handler_of_not (h : ¬ (ec = .success ∧ x.active = true)) : handler ec x = x :=
  if_neg h

/-- The callback runs, and the task is activated again. -/
theorem handler_periodic (ha : x.active = true) (hr : x.autoReset = true) :
    handler .success x = activate { x with fired := x.fired + 1 } := by
  simp [handler, ha, hr]

/-- The callback runs, and that is all. -/
theorem handler_single (ha : x.active = true) (hr : x.autoReset = false) :
    handler .success x = { x with fired := x.fired + 1 } := by
  simp [handler, ha, hr]

/-! ## Periodic as long as `auto_reset_` stands

The condition is on the handlers, so it speaks about the state in which an expiry is handled and not
about how the
task came to be in it. -/

/-- An expiry that is handled on an active task finds `auto_reset_` set. -/
def HandlesPeriodic (x : State) : Label → Prop
  | .handler => x.timer.ready.head? = some .success → x.active = true → x.autoReset = true
  | _ => True

instance (x : State) : ∀ l, Decidable (HandlesPeriodic x l)
  | .handler => inferInstanceAs (Decidable (_ → _ → _))
  | .call _ => .isTrue trivial
  | .expire => .isTrue trivial

/-- A task is active, and a wait armed, from an `Activate` to the next `Cancel`. -/
def StaysArmed (x : State) : Prop := x.lastCall = some .activate → x.active = true ∧ Armed x

/-- `x` is the task without the wait that the handler is for. -/
theorem staysArmed_handler
    (h : x.lastCall = some .activate → x.active = true ∧ (ec = .success ∨ Armed x))
    (hok : ec = .success → x.active = true → x.autoReset = true) : StaysArmed (handler ec x) := by
  by_cases hrun : ec = .success ∧ x.active = true
  · obtain ⟨rfl, hactive⟩ := hrun
    rw [handler_periodic hactive (hok rfl hactive)]
    intro _
    exact ⟨rfl, armed_activate _⟩
  · rw [handler_of_not hrun]
    intro hlast
    obtain ⟨hactive, hsuccess | harmed⟩ := h hlast
    · exact absurd ⟨hsuccess, hactive⟩ hrun
    · exact ⟨hactive, harmed⟩

/-- The step of the invariant: only a handler can leave a task without a wait, and it activates the
task again if it finds `auto_reset_` set. -/
theorem StaysArmed.step (h : StaysArmed x) (hok : HandlesPeriodic x l) (hs : step x l = some x') :
    StaysArmed x' := by
  cases l with
  | call c =>
    cases c with
    | activate =>
      cases hs
      intro _
      exact ⟨rfl, armed_activate x⟩
    | cancel =>
      cases hs
      intro hlast
      cases hlast
  | expire =>
    simp only [step] at hs
    split at hs
    · next hwaiting =>
      cases hs
      intro hlast
      exact ⟨(h hlast).1, armed_complete hwaiting⟩
    · cases hs
  | handler =>
    simp only [step] at hs
    split at hs
    · cases hs
    · next ec rest hready =>
      cases hs
      -- the wait of the handler is gone; it is another one that is armed, or the handler activates
      -- the task
      refine staysArmed_handler (fun hlast => ?_) fun hec => hok (by rw [hready, hec]; rfl)
      obtain ⟨hactive, hwaiting | hmem⟩ := h hlast
      · exact ⟨hactive, .inr (.inl hwaiting)⟩
      · rw [hready, List.mem_cons] at hmem
        exact ⟨hactive, hmem.imp Eq.symm .inr⟩

/-- A wait is armed whenever the last call was `Activate`, in every run in which no expiry is handled on
a task that was cancelled before it was activated. -/
theorem armed_of_handlesPeriodic {dur : ℕ}
    (h : Reach step HandlesPeriodic (setTimer dur true) x) (hlast : x.lastCall = some .activate) :
    Armed x := by
  have hinv : StaysArmed x := by
    refine h.invariant ?_ fun _ _ _ hinv hok hs => hinv.step hok hs
    intro hnone
    cases hnone
  exact (hinv hlast).2

/-! ## Which calls keep a task periodic

The same in terms of the calls alone. One direction is the invariant, since without a `Cancel` the
flag stands;
for the other a run is built: the calls first, then the handlers of all aborted waits, then the
expiry. -/

/-- The call that a step is, if it comes from outside. -/
def Label.outside : Label → Option Call
  | .call c => some c
  | .expire | .handler => none

/-- The calls from outside in a list of steps. -/
def calls (ls : List Label) : List Call := ls.filterMap Label.outside

/-- `Activate` is never called after a `Cancel`. -/
def NoRestart (cs : List Call) : Prop := ∀ pre, pre ++ [.activate] <+: cs → .cancel ∉ pre

theorem handler_flags (ec : ErrorCode) (x : State) :
    (handler ec x).autoReset = x.autoReset ∧ (handler ec x).lastCall = x.lastCall := by
  unfold handler
  split
  · dsimp only
    split <;> exact ⟨rfl, rfl⟩
  · exact ⟨rfl, rfl⟩

/-- `auto_reset_` is cleared by `Cancel` only, and never set. -/
theorem autoReset_of_step (hs : step x l = some x') (hl : l ≠ .call .cancel) :
    x'.autoReset = x.autoReset := by
  cases l with
  | call c =>
    cases c with
    | activate =>
      cases hs
      rfl
    | cancel => exact absurd rfl hl
  | expire =>
    obtain ⟨-, rfl⟩ := of_guard hs
    rfl
  | handler =>
    simp only [step] at hs
    split at hs
    · cases hs
    · cases hs
      exact (handler_flags _ _).1

/-- Expiries and handlers are no calls. -/
theorem lastCall_of_step (hs : step x l = some x') :
    x'.lastCall = l.outside.elim x.lastCall some := by
  cases l with
  | call c =>
    cases c with
    | activate | cancel =>
      cases hs
      rfl
  | expire =>
    obtain ⟨-, rfl⟩ := of_guard hs
    rfl
  | handler =>
    simp only [step] at hs
    split at hs
    · cases hs
    · cases hs
      exact (handler_flags _ _).2

/-- The last call is the last of the calls made. -/
theorem lastCall_of_run : ∀ {ls : List Label} {x x' : State}, run step anyStep x ls = some x' →
    x'.lastCall = (calls ls).foldl (fun _ c => some c) x.lastCall
  | [], x, x', h => by
    cases h
    rfl
  | l :: ls, x, x', h => by
    rw [run, if_pos (by trivial)] at h
    obtain ⟨x₁, h₁, h₂⟩ := Option.bind_eq_some_iff.mp h
    rw [lastCall_of_run h₂, lastCall_of_step h₁]
    cases l with
    | call c => rfl
    | expire => rfl
    | handler => rfl

/-- Without a `Cancel` the task stays armed. -/
theorem staysArmed_of_run : ∀ {ls : List Label} {x x' : State}, .cancel ∉ calls ls →
    x.autoReset = true → StaysArmed x → run step anyStep x ls = some x' → StaysArmed x'
  | [], x, x', _, _, h, hrun => by
    cases hrun
    exact h
  | l :: ls, x, x', hcalls, hr, h, hrun => by
    rw [run, if_pos (by trivial)] at hrun
    obtain ⟨x₁, h₁, h₂⟩ := Option.bind_eq_some_iff.mp hrun
    have hl : l ≠ .call .cancel := by
      rintro rfl
      exact hcalls List.mem_cons_self
    have hrest : .cancel ∉ calls ls := by
      intro hmem
      obtain ⟨l', hl', hc⟩ := List.mem_filterMap.mp hmem
      exact hcalls (List.mem_filterMap.mpr ⟨l', List.mem_cons_of_mem _ hl', hc⟩)
    have hok : HandlesPeriodic x l := by
      cases l with
      | handler => exact fun _ _ => hr
      | call | expire => trivial
    exact staysArmed_of_run hrest ((autoReset_of_step h₁ hl).trans hr) (h.step hok h₁) h₂

/-- No handler of an expiry is to run. -/
def NoneExpired (x : State) : Prop := ∀ ec ∈ x.timer.ready, ec = .operationAborted

/-- The waits that a call completes are aborted. -/
theorem NoneExpired.cancel (h : NoneExpired x) :
    ∀ ec ∈ x.timer.cancel.ready, ec = .operationAborted := by
  intro ec hec
  rcases List.mem_append.mp hec with hold | hnew
  · exact h ec hold
  · exact (List.mem_replicate.mp hnew).2

/-- Calls alone, before any expiry. -/
theorem run_calls : ∀ (cs : List Call) {x : State}, NoneExpired x → ∃ x',
    run step anyStep x (cs.map .call) = some x' ∧ NoneExpired x' ∧
      (x.autoReset = false ∨ .cancel ∈ cs → x'.autoReset = false)
  | [], x, h => by
    refine ⟨x, rfl, h, fun hr => ?_⟩
    rcases hr with hr | hr
    · exact hr
    · cases hr
  | c :: cs, x, h => by
    have hfirst : ∃ x₁, step x (.call c) = some x₁ ∧ NoneExpired x₁ ∧
        (x.autoReset = false ∨ c = .cancel → x₁.autoReset = false) := by
      cases c with
      | activate =>
        refine ⟨_, rfl, h.cancel, fun hr => ?_⟩
        rcases hr with hr | hr
        · exact hr
        · cases hr
      | cancel => exact ⟨_, rfl, h.cancel, fun _ => rfl⟩
    obtain ⟨x₁, h₁, hnone₁, hr₁⟩ := hfirst
    obtain ⟨x', hrest, hnone', hr'⟩ := run_calls cs hnone₁
    refine ⟨x', run_cons trivial h₁ hrest, hnone', fun hr => hr' ?_⟩
    rcases hr with hr | hr
    · exact .inl (hr₁ (.inl hr))
    · rcases List.mem_cons.mp hr with heq | hmem
      · exact .inl (hr₁ (.inr heq.symm))
      · exact .inr hmem

/-- The handlers of the aborted waits do nothing. -/
theorem run_aborted : ∀ {ready : List ErrorCode} {x : State}, x.timer.ready = ready →
    NoneExpired x → run step anyStep x (List.replicate ready.length .handler) =
      some { x with timer := { x.timer with ready := [] } }
  | [], x, hready, _ => by
    show some x = _
    rw [← hready]
  | ec :: ready, x, hready, h => by
    have hec : ec = .operationAborted := h ec (by rw [hready]; exact List.mem_cons_self)
    have hs : step x .handler = some { x with timer := { x.timer with ready := ready } } := by
      simp only [step, hready]
      rw [handler_of_not]
      rw [hec]
      exact fun hbad => absurd hbad.1 (by decide)
    have hrest : NoneExpired { x with timer := { x.timer with ready := ready } } :=
      fun ec' hec' => h ec' (by rw [hready]; exact List.mem_cons_of_mem _ hec')
    exact run_cons trivial hs (run_aborted rfl hrest)

/-- A task that was cancelled before it was activated: the next expiry is the last. -/
theorem not_armed_of_restart (dur : ℕ) {pre : List Call} (hpre : .cancel ∈ pre) : ∃ ls x,
    calls ls = pre ++ [.activate] ∧ run step anyStep (setTimer dur true) ls = some x ∧
      x.lastCall = some .activate ∧ ¬ Armed x := by
  have hnone : NoneExpired (setTimer dur true) := by
    intro ec hec
    cases hec
  obtain ⟨x₁, hrun₁, hnone₁, hr₁⟩ := run_calls pre hnone
  -- activated, with one wait; the handlers of the aborted ones run, then the wait expires
  have hactivate : step x₁ (.call .activate) =
      some { activate x₁ with lastCall := some .activate } := rfl
  have hflush := run_aborted (x := { activate x₁ with lastCall := some .activate }) rfl hnone₁.cancel
  have hexpire : run step anyStep
      { activate x₁ with timer := ⟨x₁.dur, 1, []⟩, lastCall := some .activate } [.expire, .handler] =
        some { activate x₁ with
          timer := ⟨x₁.dur, 0, []⟩
          fired := x₁.fired + 1
          lastCall := some .activate } := by
    refine run_cons trivial rfl (run_cons trivial ?_ rfl)
    show some (handler .success _) = _
    refine congrArg some (handler_single rfl ?_)
    exact hr₁ (.inr hpre)
  refine ⟨_, _, ?_, run_append hrun₁ (run_cons trivial hactivate (run_append hflush hexpire)), rfl, ?_⟩
  · simp [calls, Label.outside, List.filterMap_append, List.filterMap_map, Function.comp_def]
  · rintro (hwaiting | hready)
    · exact absurd hwaiting (Nat.lt_irrefl 0)
    · cases hready

/-- **A periodic task stays armed exactly if it is not activated after a `Cancel`.** In every run in
which no expiry is handled on a task that was cancelled before it was activated, a wait is armed
whenever the last call was `Activate`. And a sequence of calls leaves no other runs, however expiries
and handlers come between, exactly if no `Activate` comes after a `Cancel`. -/
theorem armed_iff_noRestart (dur : ℕ) :
    (∀ x, Reach step HandlesPeriodic (setTimer dur true) x → x.lastCall = some .activate → Armed x) ∧
      ∀ cs, (∀ ls x, calls ls <+: cs → run step anyStep (setTimer dur true) ls = some x →
        x.lastCall = some .activate → Armed x) ↔ NoRestart cs := by
  refine ⟨fun x => armed_of_handlesPeriodic, fun cs => ⟨fun hall pre hpre hmem => ?_, ?_⟩⟩
  · obtain ⟨ls, x, hcalls, hrun, hlast, hnot⟩ := not_armed_of_restart dur hmem
    exact hnot (hall ls x (hcalls ▸ hpre) hrun hlast)
  · intro hcs ls x hls hrun hlast
    have hfold := lastCall_of_run hrun
    rcases List.eq_nil_or_concat (calls ls) with hnil | ⟨pre, c, hconcat⟩
    · rw [hnil, hlast] at hfold
      cases hfold
    · rw [hconcat, List.concat_eq_append, List.foldl_append, hlast] at hfold
      cases hfold
      rw [hconcat, List.concat_eq_append] at hls
      have hno : .cancel ∉ calls ls := by
        rw [hconcat, List.concat_eq_append]
        intro hmem
        rcases List.mem_append.mp hmem with hold | hnew
        · exact hcs pre hls hold
        · cases List.mem_singleton.mp hnew
      exact (staysArmed_of_run hno rfl (fun hbad => by cases hbad) hrun hlast).2

/-- The upload timer of a backend, never reset: armed after two expiries. -/
theorem armed_two_expiries : ∃ x, Reach step HandlesPeriodic (setTimer 10000 true) x ∧
    x.fired = 2 ∧ x.lastCall = some .activate ∧ Armed x := by
  have hrun : run step HandlesPeriodic (setTimer 10000 true)
      [.call .activate, .expire, .handler, .expire, .handler] = some _ := rfl
  exact ⟨_, reach_of_run hrun, rfl, rfl, (armed_iff_noRestart 10000).1 _ (reach_of_run hrun) rfl⟩

/-- One `UpdateNow` ends the periodic upload: the wait it starts runs the callback, and nothing is
armed any more. -/
theorem not_armed_updateNow : ∃ x, Reach step anyStep (setTimer 10000 true) x ∧
    x.lastCall = some .activate ∧ ¬ Armed x ∧ ∀ l, step x l ≠ none → ∃ c, l = .call c := by
  have hrun : run step anyStep (setTimer 10000 true)
      (.call .activate :: updateNow ++ [.handler, .expire, .handler]) = some _ := rfl
  refine ⟨_, reach_of_run hrun, rfl, by decide, ?_⟩
  intro l hl
  cases l with
  | call c => exact ⟨c, rfl⟩
  | expire => exact absurd rfl hl
  | handler => exact absurd rfl hl

/-! ## After a `Cancel`

`auto_reset_` is never set again. From then on each wait runs the callback at most once. -/

/-- The waits that may still run the callback. -/
def pendingWaits (x : State) : ℕ := x.timer.waiting + x.timer.ready.count .success

/-- A `Cancel` leaves the handlers of waits that have expired already. -/
theorem pendingWaits_cancel (x : State) :
    pendingWaits (cancel x) = x.timer.ready.count .success := by
  simp [pendingWaits, cancel, Timer.cancel, Timer.complete, List.count_replicate]

theorem pendingWaits_activate (x : State) :
    pendingWaits (activate x) = x.timer.ready.count .success + 1 := by
  simp [pendingWaits, activate, Timer.asyncWait, Timer.expiresAfter, Timer.cancel, Timer.complete,
    List.count_replicate, Nat.add_comm]

theorem pendingWaits_expire (x : State) :
    pendingWaits { x with timer := x.timer.complete .success } = pendingWaits x := by
  simp [pendingWaits, Timer.complete, Nat.add_comm]

/-- The callback runs on account of the wait that has expired. -/
theorem handler_cancelled (ec : ErrorCode) (hr : x.autoReset = false) :
    (handler ec x).autoReset = false ∧ (handler ec x).fired + pendingWaits (handler ec x) ≤
      x.fired + pendingWaits x + [ec].count .success := by
  by_cases hrun : ec = .success ∧ x.active = true
  · obtain ⟨rfl, hactive⟩ := hrun
    rw [handler_single hactive hr]
    refine ⟨hr, ?_⟩
    show x.fired + 1 + pendingWaits x ≤ x.fired + pendingWaits x + 1
    omega
  · rw [handler_of_not hrun]
    exact ⟨hr, Nat.le_add_right _ _⟩

/-- The calls of `Activate` from outside in a list of steps. -/
def activations (ls : List Label) : ℕ := ls.count (.call .activate)

/-- The step of the bound: each callback takes a wait away, and only `Activate` brings one. -/
theorem step_cancelled (hr : x.autoReset = false) (hs : step x l = some x') :
    x'.autoReset = false ∧ x'.fired + pendingWaits x' ≤
      x.fired + pendingWaits x + activations [l] := by
  cases l with
  | call c =>
    cases c with
    | activate =>
      cases hs
      refine ⟨hr, ?_⟩
      show x.fired + pendingWaits (activate x) ≤ x.fired + pendingWaits x + 1
      rw [pendingWaits_activate, pendingWaits]
      omega
    | cancel =>
      cases hs
      refine ⟨rfl, ?_⟩
      show x.fired + pendingWaits (cancel x) ≤ x.fired + pendingWaits x + 0
      rw [pendingWaits_cancel, pendingWaits]
      omega
  | expire =>
    simp only [step] at hs
    split at hs
    · cases hs
      exact ⟨hr, by rw [pendingWaits_expire]; exact Nat.le_add_right _ _⟩
    · cases hs
  | handler =>
    simp only [step] at hs
    split at hs
    · cases hs
    · next ec rest hready =>
      cases hs
      -- the handler is that of one of the waits
      have hwaits : pendingWaits x =
          pendingWaits { x with timer := { x.timer with ready := rest } } + [ec].count .success := by
        simp only [pendingWaits, hready, List.count_cons, List.count_nil]
        omega
      obtain ⟨hr', hle⟩ := handler_cancelled ec
        (x := { x with timer := { x.timer with ready := rest } }) hr
      refine ⟨hr', Nat.le_trans hle ?_⟩
      rw [hwaits, Nat.add_assoc]
      exact Nat.le_add_right _ _

/-- **After a `Cancel`, every callback is paid for by a wait that was there or by a later call of
`Activate`**, however the steps are ordered. -/
theorem fired_le_of_cancelled {ls : List Label} (hr : x.autoReset = false)
    (h : run step anyStep x ls = some x') :
    x'.fired ≤ x.fired + pendingWaits x + activations ls := by
  have hbound : x'.fired + pendingWaits x' ≤ x.fired + pendingWaits x + activations ls := by
    induction ls generalizing x with
    | nil =>
      cases h
      exact Nat.le_refl _
    | cons l ls ih =>
      rw [run, if_pos (by trivial)] at h
      obtain ⟨x₁, h₁, h₂⟩ := Option.bind_eq_some_iff.mp h
      obtain ⟨hr₁, hle⟩ := step_cancelled hr h₁
      have hrest := ih hr₁ h₂
      have hcount : activations ([l] ++ ls) = activations [l] + activations ls := List.count_append
      rw [List.singleton_append] at hcount
      omega
  omega

end Chatroom.TimedTask
