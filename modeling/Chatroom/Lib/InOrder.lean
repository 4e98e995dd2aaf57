import Mathlib.Data.List.Forall2

/-!
# What comes out in the order it went in

`List.SublistForall₂ R out inp` says that the list `out` goes back to a part of the list `inp`: in the
same order, each entry of `inp` used at most once, and each entry of `out` related by `R` to the one it
goes back to. Histories grow at their end, so the rules here are for lists that are extended there.
-/

namespace List

variable {α β γ : Type*} {R R' : α → β → Prop} {out : List α} {inp inp' : List β}

/-- There may have been more to come from. -/
theorem SublistForall₂.mono_right (h : SublistForall₂ R out inp) (hsub : inp <+ inp') :
    SublistForall₂ R out inp' := by
  obtain ⟨l, hl, hsub'⟩ := sublistForall₂_iff.mp h
  exact sublistForall₂_iff.mpr ⟨l, hl, hsub'.trans hsub⟩

/-- A weaker relation. -/
theorem SublistForall₂.imp (h : SublistForall₂ R out inp) (himp : ∀ a b, R a b → R' a b) :
    SublistForall₂ R' out inp := by
  obtain ⟨l, hl, hsub⟩ := sublistForall₂_iff.mp h
  exact sublistForall₂_iff.mpr ⟨l, hl.imp himp, hsub⟩

/-- Something more has come out, of what has gone in last. -/
theorem SublistForall₂.concat (h : SublistForall₂ R out inp) {a : α} {b : β} (hab : R a b) :
    SublistForall₂ R (out ++ [a]) (inp ++ [b]) := by
  obtain ⟨l, hl, hsub⟩ := sublistForall₂_iff.mp h
  exact sublistForall₂_iff.mpr
    ⟨l ++ [b], rel_append hl (Forall₂.cons hab Forall₂.nil), hsub.append (Sublist.refl [b])⟩

/-- Something more has gone in. -/
theorem SublistForall₂.concat_right (h : SublistForall₂ R out inp) (b : β) :
    SublistForall₂ R out (inp ++ [b]) :=
  h.mono_right (sublist_append_left inp [b])

end List
