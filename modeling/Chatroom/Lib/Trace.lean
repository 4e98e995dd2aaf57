import Mathlib.Data.List.Basic
import Mathlib.Logic.Relation

/-!
# Runs of a partial machine

A machine is a partial function `step : σ → ℓ → Option σ`: the label says which of the enabled
steps is taken (which thread moves, what the environment does), and `none` says the step is not
enabled. `Reach` is the set of states its runs end in, with a condition `ok` on every step taken.
Since every prefix of a run is a run, a statement about all reachable states is a statement about
all states of all runs.

Two views of a run are used: `Reach`, for what holds in all states, and `run`, for statements about
the whole list
of labels and for executing a concrete one.
-/

namespace Trace

variable {σ ℓ : Type*} {step : σ → ℓ → Option σ} {ok : σ → ℓ → Prop} {s₀ : σ}

/-- `Reach step ok s₀ s`: some run from `s₀` ends in `s`, and every step of it met `ok` in the
state it was taken from. -/
inductive Reach (step : σ → ℓ → Option σ) (ok : σ → ℓ → Prop) (s₀ : σ) : σ → Prop
  | refl : Reach step ok s₀ s₀
  | tail {s s' : σ} {l : ℓ} :
      Reach step ok s₀ s → ok s l → step s l = some s' → Reach step ok s₀ s'

/-- A step with a guard was enabled, and where it leads. -/
theorem of_guard {p : Prop} [Decidable p] {s s' : σ} (h : (if p then some s else none) = some s') :
    p ∧ s = s' := by
  obtain ⟨hp, hs⟩ := Option.ite_none_right_eq_some.mp h
  exact ⟨hp, Option.some.inj hs⟩

/-- The condition every step meets: the machine runs unrestricted. -/
def anyStep (_ : σ) (_ : ℓ) : Prop := True

/-- **The invariant rule**: what holds at the start and is kept by every admitted step holds in
every state reached. -/
theorem Reach.invariant {inv : σ → Prop} (h0 : inv s₀)
    (hstep : ∀ s l s', inv s → ok s l → step s l = some s' → inv s') :
    ∀ {s}, Reach step ok s₀ s → inv s := by
  intro s h
  induction h with
  | refl => exact h0
  | tail _ hok hs ih => exact hstep _ _ _ ih hok hs

/-- The rule for a second invariant that leans on one already known of every reachable state. -/
theorem Reach.invariant_of {inv known : σ → Prop} (hknown : ∀ {s}, Reach step ok s₀ s → known s)
    (h0 : inv s₀)
    (hstep : ∀ s l s', known s → inv s → ok s l → step s l = some s' → inv s') :
    ∀ {s}, Reach step ok s₀ s → inv s := by
  intro s h
  induction h with
  | refl => exact h0
  | tail hr hok hs ih => exact hstep _ _ _ (hknown hr) ih hok hs

/-- One run after another. -/
theorem Reach.trans {s s' : σ} (h : Reach step ok s₀ s) (h' : Reach step ok s s') :
    Reach step ok s₀ s' := by
  induction h' with
  | refl => exact h
  | tail _ hok hs ih => exact ih.tail hok hs

/-- A run whose first step is known. -/
theorem Reach.head {s s' : σ} {l : ℓ} (hok : ok s₀ l) (hs : step s₀ l = some s)
    (h : Reach step ok s s') : Reach step ok s₀ s' :=
  (Reach.refl.tail hok hs).trans h

/-- A condition may be replaced by one that follows from it in the states reached. -/
theorem Reach.mono {ok' : σ → ℓ → Prop} {s : σ} (h : Reach step ok s₀ s)
    (himp : ∀ s l, Reach step ok s₀ s → ok s l → ok' s l) : Reach step ok' s₀ s := by
  induction h with
  | refl => exact .refl
  | tail hr hok hs ih => exact ih.tail (himp _ _ hr hok) hs

/-! ## Executing a list of labels

The rules below are inductions over the list of labels: what each step does is given as a hypothesis,
and what
comes of it for a whole run is the conclusion. -/

instance (s : σ) (l : ℓ) : Decidable (anyStep s l) := .isTrue trivial

/-- Take the steps of a list of labels one after another, each of which has to meet `ok`. -/
def run (step : σ → ℓ → Option σ) (ok : σ → ℓ → Prop) [∀ s l, Decidable (ok s l)] (s : σ) :
    List ℓ → Option σ
  | [] => some s
  | l :: ls => if ok s l then (step s l).bind fun s' => run step ok s' ls else none

/-- The state at the end of a run is reachable. -/
theorem reach_of_run [∀ s l, Decidable (ok s l)] : ∀ {ls : List ℓ} {s s' : σ},
    run step ok s ls = some s' → Reach step ok s s'
  | [], s, s', h => by cases h; exact .refl
  | l :: ls, s, s', h => by
    rw [run] at h
    split at h
    · next hok =>
      obtain ⟨s₁, h₁, h₂⟩ := Option.bind_eq_some_iff.mp h
      exact (Reach.refl.tail hok h₁).trans (reach_of_run h₂)
    · cases h

/-- A run that can be executed and whose last state passes a test. -/
theorem exists_reach_of_run [∀ s l, Decidable (ok s l)] {p : σ → Bool} {ls : List ℓ}
    (h : (run step ok s₀ ls).any p = true) : ∃ s, Reach step ok s₀ s ∧ p s = true := by
  cases hrun : run step ok s₀ ls with
  | none =>
    rw [hrun] at h
    cases h
  | some s =>
    rw [hrun] at h
    exact ⟨s, reach_of_run hrun, h⟩

/-- One more step at the begin. -/
theorem run_cons [∀ s l, Decidable (ok s l)] {l : ℓ} {ls : List ℓ} {s s' s'' : σ} (hok : ok s l)
    (hs : step s l = some s') (h : run step ok s' ls = some s'') :
    run step ok s (l :: ls) = some s'' := by
  rw [run, if_pos hok, hs]
  exact h

/-- One run after another. -/
theorem run_append [∀ s l, Decidable (ok s l)] : ∀ {ls ls' : List ℓ} {s s' s'' : σ},
    run step ok s ls = some s' → run step ok s' ls' = some s'' → run step ok s (ls ++ ls') = some s''
  | [], ls', s, s', s'', h, h' => by
    cases h
    exact h'
  | l :: ls, ls', s, s', s'', h, h' => by
    rw [run] at h
    split at h
    · next hok =>
      obtain ⟨s₁, h₁, h₂⟩ := Option.bind_eq_some_iff.mp h
      exact run_cons hok h₁ (run_append h₂ h')
    · cases h

/-- A run keeps to a condition that its steps imply, given what it keeps. -/
theorem run_mono {ok' : σ → ℓ → Prop} [∀ s l, Decidable (ok s l)] [∀ s l, Decidable (ok' s l)]
    {inv : σ → Prop}
    (hstep : ∀ s l s', inv s → ok s l → step s l = some s' → inv s' ∧ ok' s l) :
    ∀ {ls : List ℓ} {s s' : σ}, inv s → run step ok s ls = some s' → run step ok' s ls = some s'
  | [], s, s', _, h => h
  | l :: ls, s, s', hinv, h => by
    rw [run] at h
    split at h
    · next hok =>
      obtain ⟨s₁, h₁, h₂⟩ := Option.bind_eq_some_iff.mp h
      obtain ⟨hinv₁, hok'⟩ := hstep s l s₁ hinv hok h₁
      exact run_cons hok' h₁ (run_mono hstep hinv₁ h₂)
    · cases h

/-- **The condition that is exactly needed**: if a step from a good state leads to a good state if and
only if it meets `ok`, then the runs through good states only are those whose steps meet `ok`. -/
theorem run_isSome_iff [∀ s l, Decidable (ok s l)] {known good : σ → Prop}
    (hstep : ∀ s l s', known s → good s → step s l = some s' → known s' ∧ (good s' ↔ ok s l)) :
    ∀ {ls : List ℓ} {s : σ}, known s → good s → (run step anyStep s ls).isSome →
      ((∀ pre, pre <+: ls → ∀ s', run step anyStep s pre = some s' → good s') ↔
        (run step ok s ls).isSome)
  | [], s, _, hgood, _ => by
    refine ⟨fun _ => rfl, fun _ pre hpre s' hs' => ?_⟩
    rw [List.prefix_nil.mp hpre] at hs'
    cases hs'
    exact hgood
  | l :: ls, s, hknown, hgood, hrun => by
    have hcons : ∀ pre, run step anyStep s (l :: pre) =
        (step s l).bind fun s' => run step anyStep s' pre := fun pre => if_pos trivial
    rw [hcons] at hrun
    cases hs : step s l with
    | none =>
      rw [hs] at hrun
      cases hrun
    | some s₁ =>
      rw [hs] at hrun
      obtain ⟨hknown₁, hiff⟩ := hstep s l s₁ hknown hgood hs
      rw [run, hs]
      constructor
      · intro hall
        -- the state after the first step is one of those that the assumption is about
        have hgood₁ : good s₁ := hall [l] ⟨ls, rfl⟩ s₁ (by rw [hcons, hs]; rfl)
        rw [if_pos (hiff.mp hgood₁)]
        refine (run_isSome_iff hstep hknown₁ hgood₁ hrun).mp fun pre hpre s' hs' => ?_
        exact hall (l :: pre) (List.cons_prefix_cons.mpr ⟨rfl, hpre⟩) s' (by rw [hcons, hs]; exact hs')
      · intro hsome
        split at hsome
        · next hok =>
          -- the step met the condition, so the next state is good and the rest of the run is by
          -- induction
          have hrest := (run_isSome_iff hstep hknown₁ (hiff.mpr hok) hrun).mpr hsome
          intro pre hpre s' hs'
          cases pre with
          | nil =>
            cases hs'
            exact hgood
          | cons l' pre =>
            obtain ⟨rfl, hpre'⟩ := List.cons_prefix_cons.mp hpre
            rw [hcons, hs] at hs'
            exact hrest pre hpre' s' hs'
        · cases hsome

/-- **Two runs side by side**: if what `view` shows of a state settles whether a step can be taken and
what `view` shows of the next one, then it settles all runs. -/
theorem run_view_eq {β : Type*} {view : σ → β}
    (hstep : ∀ s s' l, view s = view s' → (step s l).map view = (step s' l).map view) :
    ∀ (ls : List ℓ) {s s' : σ}, view s = view s' →
      (run step anyStep s ls).map view = (run step anyStep s' ls).map view
  | [], s, s', h => congrArg some h
  | l :: ls, s, s', h => by
    have hl := hstep s s' l h
    show ((step s l).bind fun s₁ => run step anyStep s₁ ls).map view =
      ((step s' l).bind fun s₁ => run step anyStep s₁ ls).map view
    cases hs : step s l with
    | none =>
      rw [hs, Option.map_none] at hl
      rw [Option.map_eq_none_iff.mp hl.symm]
    | some s₁ =>
      rw [hs, Option.map_some] at hl
      obtain ⟨s₁', hs', hview⟩ := Option.map_eq_some_iff.mp hl.symm
      rw [hs']
      exact run_view_eq hstep ls hview.symm

end Trace
