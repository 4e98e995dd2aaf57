import Mathlib.Logic.Basic

/-!
# Refinement of a specification by a machine that answers

A machine takes calls one after another and answers each, or fails. A specification says which answers
are allowed to a call, and what the call makes of an abstract state. The machine refines it, under a
condition on its calls, if there is a view of its states under which each call is allowed. Then whole
runs are: the machine never fails, and the specification has a run with the same calls and answers.

The answers are part of the log, so a specification may restrict them, and may leave open which of
several answers
a call gets.
-/

namespace Refinement

variable {σ ρ ι α ε : Type}

/-- Runs of a specification, with their calls and answers. -/
inductive Runs (spec : ρ → ι → α → ρ → Prop) : ρ → List (ι × α) → ρ → Prop
  | nil (r : ρ) : Runs spec r [] r
  | cons {r r' r'' : ρ} {i : ι} {a : α} {log : List (ι × α)} :
      spec r i a r' → Runs spec r' log r'' → Runs spec r ((i, a) :: log) r''

/-- The machine takes the calls of a list. -/
def execute (call : σ → ι → Except ε (α × σ)) : σ → List ι → Except ε (List (ι × α) × σ)
  | s, [] => .ok ([], s)
  | s, i :: is => do
    let (a, s') ← call s i
    let (log, s'') ← execute call s' is
    return ((i, a) :: log, s'')

/-- Each call of a list meets `ok` in the state it is taken in. -/
def OkRun (call : σ → ι → Except ε (α × σ)) (ok : σ → ι → Prop) : σ → List ι → Prop
  | _, [] => True
  | s, i :: is => ok s i ∧ ∀ a s', call s i = .ok (a, s') → OkRun call ok s' is

/-- The machine keeps `inv`, and answers a call that meets `ok` as the specification allows. -/
def Refines (call : σ → ι → Except ε (α × σ)) (ok : σ → ι → Prop) (inv : σ → Prop) (view : σ → ρ)
    (spec : ρ → ι → α → ρ → Prop) : Prop :=
  ∀ s i, inv s → ok s i →
    ∃ a s', call s i = .ok (a, s') ∧ inv s' ∧ spec (view s) i a (view s')

variable {call : σ → ι → Except ε (α × σ)} {ok : σ → ι → Prop} {inv : σ → Prop} {view : σ → ρ}
  {spec : ρ → ι → α → ρ → Prop}

/-- A run whose first call is known. -/
theorem OkRun.cons {s s' : σ} {i : ι} {a : α} {is : List ι} (hok : ok s i)
    (hcall : call s i = .ok (a, s')) (h : OkRun call ok s' is) : OkRun call ok s (i :: is) := by
  refine ⟨hok, fun b t hb => ?_⟩
  cases hcall.symm.trans hb
  exact h

/-- **The refinement rule**: from single calls to whole runs. -/
theorem Refines.execute (h : Refines call ok inv view spec) : ∀ (is : List ι) {s : σ}, inv s →
    OkRun call ok s is → ∃ log s', Refinement.execute call s is = .ok (log, s') ∧
      log.map Prod.fst = is ∧ inv s' ∧ Runs spec (view s) log (view s')
  | [], s, hinv, _ => ⟨[], s, rfl, rfl, hinv, .nil _⟩
  | i :: is, s, hinv, hok => by
    obtain ⟨a, s₁, hcall, hinv₁, hspec⟩ := h s i hinv hok.1
    obtain ⟨log, s', hrest, hcalls, hinv', hruns⟩ := h.execute is hinv₁ (hok.2 a s₁ hcall)
    refine ⟨(i, a) :: log, s', ?_, ?_, hinv', .cons hspec hruns⟩
    · show (call s i >>= _) = _
      rw [hcall]
      show (Refinement.execute call s₁ is >>= _) = _
      rw [hrest]
      rfl
    · rw [List.map_cons, hcalls]

end Refinement
