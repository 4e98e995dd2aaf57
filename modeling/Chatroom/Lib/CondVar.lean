import Chatroom.Lib.Trace

/-!
# A thread that waits on a condition variable

The thread is awake in some phase of its program, or blocked in the wait, or notified and not yet back
from it. A notification takes it out of the wait; one that comes while the thread is not blocked is
lost. `rests_or_owed` is the rule that none is missed: the thread blocks only when it may rest, and
whoever ends its rest owes it a notification.
-/

namespace CondVar

open Trace

/-- Where a thread with phases `φ` is with respect to a condition variable. -/
inductive Waiter (φ : Type*) where
  | awake (phase : φ)
  | blocked
  | notified
  deriving DecidableEq, Repr

variable {φ : Type*} {w : Waiter φ} {p : φ}

/-- A notification reaches the thread only in the wait. -/
def Waiter.notify : Waiter φ → Waiter φ
  | .awake p => .awake p
  | .blocked => .notified
  | .notified => .notified

/-- Nobody is blocked after a notification. -/
theorem Waiter.notify_ne_blocked : w.notify ≠ .blocked := by
  cases w <;> intro h <;> cases h

/-- A notification does not disturb a thread that is awake. -/
theorem Waiter.notify_eq_awake : w.notify = .awake p ↔ w = .awake p := by
  cases w with
  | awake => exact Iff.rfl
  | blocked | notified =>
    constructor
    · intro h
      cases h
    · intro h
      cases h

section Rule

variable {σ ℓ : Type*} {step : σ → ℓ → Option σ} {ok : σ → ℓ → Prop} {s₀ s : σ}
  {waiter : σ → Waiter φ} {rests owed : σ → Prop}

/-- **No wake-up is lost**, if the thread blocks only where it may rest or is owed a notification, and
every step that leaves it blocked leaves it so. -/
theorem rests_or_owed (h : Reach step ok s₀ s) (h0 : waiter s₀ ≠ .blocked)
    (hblock : ∀ s l s', Reach step ok s₀ s → ok s l → step s l = some s' → waiter s ≠ .blocked →
      waiter s' = .blocked → rests s' ∨ owed s')
    (hkeep : ∀ s l s', ok s l → step s l = some s' → waiter s = .blocked → waiter s' = .blocked →
      rests s ∨ owed s → rests s' ∨ owed s') :
    waiter s = .blocked → rests s ∨ owed s := by
  induction h with
  | refl => exact fun hb => absurd hb h0
  | @tail s s' l hr hok hs ih =>
    intro hb'
    by_cases hb : waiter s = .blocked
    · exact hkeep s l s' hok hs hb hb' (ih hb)
    · exact hblock s l s' hr hok hs hb hb'

end Rule

end CondVar
