import Mathlib.Data.List.Basic

/-!
# Histories

A list that only grows at its end, such as the events a machine has recorded. `Justified` says that
every entry is justified by those before it; it is extended entry by entry. `lastSome?` is the last
entry of a kind.
-/

namespace History

variable {α β : Type*} {J J' : List α → α → Prop} {l : List α} {e : α}

/-- Every entry is justified by the entries before it. -/
def Justified (J : List α → α → Prop) (l : List α) : Prop :=
  ∀ before e after, l = before ++ e :: after → J before e

/-- Nothing has happened. -/
theorem justified_nil : Justified J [] := by
  intro before e after h
  cases before <;> cases h

/-- A history is extended by an entry that it justifies. -/
theorem Justified.concat (h : Justified J l) (he : J l e) : Justified J (l ++ [e]) := by
  intro before e' after heq
  rcases List.eq_nil_or_concat after with rfl | ⟨after', e'', rfl⟩
  · obtain ⟨hl, hlast⟩ := List.append_inj' heq rfl
    subst hl
    cases hlast
    exact he
  · rw [List.concat_eq_append, ← List.cons_append, ← List.append_assoc] at heq
    obtain ⟨hl, -⟩ := List.append_inj' heq rfl
    exact h before e' after' hl

/-- A weaker reason is a reason. -/
theorem Justified.mono (h : Justified J l) (himp : ∀ before e, J before e → J' before e) :
    Justified J' l :=
  fun before e after heq => himp before e (h before e after heq)

/-- An entry is justified by a part of the history. -/
theorem Justified.of_mem (h : Justified J l) (he : e ∈ l) : ∃ before, before ⊆ l ∧ J before e := by
  obtain ⟨before, after, hl⟩ := List.append_of_mem he
  refine ⟨before, ?_, h before e after hl⟩
  rw [hl]
  exact List.subset_append_left _ _

/-- The last entry that `f` says something about. -/
def lastSome? (f : α → Option β) (l : List α) : Option β := l.reverse.findSome? f

/-- The entry that comes last is looked at first. -/
theorem lastSome?_concat (f : α → Option β) (l : List α) (e : α) :
    lastSome? f (l ++ [e]) = (f e).or (lastSome? f l) := by
  rw [lastSome?, List.reverse_append, List.reverse_singleton, List.singleton_append,
    List.findSome?_cons]
  cases f e <;> rfl

end History
