import Mathlib.Logic.Function.Basic
import Mathlib.Logic.Relation
import Mathlib.Data.List.Count

/-!
# Threads and locks

Threads that each have a list of acts left to do. A step of a thread takes its first act away and
may put new ones in front of the rest; the other threads keep theirs. The lemmas say which acts are
pending after such a step, and how many of a kind.

The second part is the rule of ordered locks: if every thread waits only for locks that rank above
all those it holds, then no threads wait for each other in a circle.
-/

namespace Threads

variable {ι α : Type*} [DecidableEq ι] {code : ι → List α} {t t' : ι} {a b : α} {new rest : List α}

/-- Thread `t` has done its first act and goes on with `new`, then with `rest`. -/
def advance (code : ι → List α) (t : ι) (new rest : List α) : ι → List α :=
  Function.update code t (new ++ rest)

@[simp] theorem advance_self : advance code t new rest t = new ++ rest := by
  rw [advance, Function.update_self]

theorem advance_of_ne (h : t' ≠ t) : advance code t new rest t' = code t' := by
  rw [advance, Function.update_of_ne h]

/-- A thread may be looked at through a function of its acts. -/
theorem map_advance {β : Type*} (f : α → β) :
    (fun t' => (advance code t new rest t').map f) =
      advance (fun t' => (code t').map f) t (new.map f) (rest.map f) := by
  have hupdate := Function.comp_update (List.map f) code t (new ++ rest)
  rwa [List.map_append] at hupdate

omit [DecidableEq ι] in
/-- The act to be done is pending. -/
theorem head_mem (hcode : code t = a :: rest) : a ∈ code t := by
  rw [hcode]
  exact List.mem_cons_self

omit [DecidableEq ι] in
/-- What comes behind it is pending too. -/
theorem mem_of_rest (hcode : code t = a :: rest) (hb : b ∈ rest) : b ∈ code t := by
  rw [hcode]
  exact List.mem_cons_of_mem _ hb

/-- An act pending after the step is new, or was pending before. -/
theorem mem_advance (hcode : code t = a :: rest) (hb : b ∈ advance code t new rest t') :
    (t' = t ∧ b ∈ new) ∨ b ∈ code t' := by
  by_cases ht : t' = t
  · subst ht
    rw [advance_self, List.mem_append] at hb
    rcases hb with hb | hb
    · exact .inl ⟨rfl, hb⟩
    · exact .inr (mem_of_rest hcode hb)
  · rw [advance_of_ne ht] at hb
    exact .inr hb

/-- An act other than the one done stays pending. -/
theorem mem_advance_of_mem (hcode : code t = a :: rest) (hb : b ∈ code t') (hne : b ≠ a) :
    b ∈ advance code t new rest t' := by
  by_cases ht : t' = t
  · subst ht
    rw [hcode] at hb
    rw [advance_self, List.mem_append]
    rcases List.mem_cons.mp hb with rfl | hb
    · exact absurd rfl hne
    · exact .inr hb
  · rwa [advance_of_ne ht]

/-- The new acts of the thread that moved are pending. -/
theorem mem_advance_new (hb : b ∈ new) : b ∈ advance code t new rest t := by
  rw [advance_self]
  exact List.mem_append_left _ hb

/-- Acts none of which is of a kind, where the others all have a property. -/
theorem forall_of_any {p : α → Bool} {P : α → Prop} (hP : ∀ b, p b = false → P b)
    (h : new.any p = false) : ∀ b ∈ new, P b := by
  intro b hb
  exact hP b (by simpa using List.any_eq_false.mp h b hb)

/-- A bound on the number of pending acts of a kind is kept if none comes for none. -/
theorem countP_advance_le {p : α → Bool} {n : ℕ} (hcode : code t = a :: rest)
    (h : (code t').countP p ≤ n) (hnew : new.countP p ≤ [a].countP p) :
    (advance code t new rest t').countP p ≤ n := by
  by_cases ht : t' = t
  · subst ht
    rw [hcode, ← List.singleton_append, List.countP_append] at h
    rw [advance_self, List.countP_append]
    omega
  · rwa [advance_of_ne ht]

/-- The pending acts of a kind stay the same if the act done is not one and brings none. -/
theorem filter_advance_of_not {p : α → Bool} (hcode : code t = a :: rest) (ha : p a = false)
    (hnew : new.filter p = []) : (advance code t new rest t').filter p = (code t').filter p := by
  by_cases ht : t' = t
  · subst ht
    rw [advance_self, List.filter_append, hnew, hcode, List.filter_cons_of_neg (by simp [ha])]
    rfl
  · rw [advance_of_ne ht]

/-! A thread that has nothing left to do begins something new. -/

/-- An act pending afterwards is one of those begun, or was pending before. -/
theorem mem_update {acts : List α} (hb : b ∈ Function.update code t acts t') :
    (t' = t ∧ b ∈ acts) ∨ b ∈ code t' := by
  by_cases ht : t' = t
  · subst ht
    rw [Function.update_self] at hb
    exact .inl ⟨rfl, hb⟩
  · rw [Function.update_of_ne ht] at hb
    exact .inr hb

theorem filter_update_of_nil {p : α → Bool} {acts : List α} (hcode : code t = [])
    (hacts : acts.filter p = []) :
    (Function.update code t acts t').filter p = (code t').filter p := by
  by_cases ht : t' = t
  · subst ht
    rw [Function.update_self, hacts, hcode]
    rfl
  · rw [Function.update_of_ne ht]

/-! ## Ordered locks

Threads and locks are of any type, and so are the two relations: who waits for what, and who holds
what. The
hypothesis is about one thread at a time, so an invariant of the threads provides it. -/

variable {μ : Type*} {waits holds : ι → μ → Prop} {rank : μ → ℕ}

/-- `t` waits for a lock that `t'` holds. -/
def WaitsFor (waits holds : ι → μ → Prop) (t t' : ι) : Prop := ∃ m, waits t m ∧ holds t' m

omit [DecidableEq ι] in
/-- Along a chain of waiting threads the ranks go up. -/
theorem rank_le_of_chain (h : ∀ t m m', waits t m → holds t m' → rank m' < rank m)
    (hchain : Relation.TransGen (WaitsFor waits holds) t t') :
    ∃ m, waits t m ∧ ∃ m', holds t' m' ∧ rank m ≤ rank m' := by
  induction hchain with
  | single hw =>
    obtain ⟨m, hwait, hhold⟩ := hw
    exact ⟨m, hwait, m, hhold, Nat.le_refl _⟩
  | tail _ hw ih =>
    obtain ⟨m, hwait, m', hhold, hle⟩ := ih
    obtain ⟨n, hwait', hhold'⟩ := hw
    have hlt := h _ n m' hwait' hhold
    exact ⟨m, hwait, n, hhold', by omega⟩

omit [DecidableEq ι] in
/-- **Ordered locks do not deadlock.** -/
theorem no_cycle_of_rank (h : ∀ t m m', waits t m → holds t m' → rank m' < rank m) (t : ι) :
    ¬ Relation.TransGen (WaitsFor waits holds) t t := by
  intro hcycle
  obtain ⟨m, hwait, m', hhold, hle⟩ := rank_le_of_chain h hcycle
  have hlt := h t m m' hwait hhold
  omega

end Threads
