import Chatroom.Server.Backend.Exec

/-!
# The closing of a session

A session is closed by one thread, and what this thread has left to do for it is the act of the
stage it is at. `CloseOk` is an equation between the acts pending and those the stage calls for, so
that one equation says who closes, how far it is, and that nobody closes twice. It holds in every run.
-/

namespace Chatroom.Backend

open Trace Threads

variable {cfg : Config} {σ σ' : State} {t : Tid} {a : Act} {new rest : List Act} {l : Label}

/-- A change of one session keeps of all what it keeps of that one. -/
theorem keep_of_update {α : Type*} {g : SessionState → α} {s₀ : SessId} {x₀ : SessionState}
    (hσ : σ'.sessions = Function.update σ.sessions s₀ x₀) (hg : g x₀ = g (σ.sessions s₀))
    (s : SessId) : g (σ'.sessions s) = g (σ.sessions s) := by
  rcases eq_or_ne s s₀ with rfl | hne
  · rw [hσ, Function.update_self, hg]
  · rw [hσ, Function.update_of_ne hne]

/-- The acts of the `Close` that closes `s`. -/
def Act.closes (s : SessId) : Act → Bool
  | .closeTable s' => s' = s
  | .closeReturn s' => s' = s
  | .eraseSess s' _ => s' = s
  | .eraseTemp s' byClose => byClose && s' = s
  | _ => false

/-- What the `Close` of a session has to do next. -/
def closeNext (s : SessId) (x : SessionState) : List Act :=
  match x.stage with
  | .notClosed => []
  | .closing => [.closeTable s]
  | .toTemp => [.eraseTemp s true]
  | .toSess => [.eraseSess s x.userId]
  | .removed => [.closeReturn s]
  | .returned => []

structure CloseOk (σ : State) : Prop where
  pending : ∀ s t, (σ.code t).filter (Act.closes s) =
    if (σ.sessions s).closer = some t then closeNext s (σ.sessions s) else []
  up : ∀ s, (σ.sessions s).down = false → (σ.sessions s).stage = .notClosed
  toSess : ∀ s, (σ.sessions s).stage = .toSess → (σ.sessions s).verified = true

/-! ## Acts

For one session an act is nothing to do with its closing, the begin of it, or its next stage. Each
case gives
the equation of `CloseOk` at the new stage. -/

/-- What an act of `t` does to the closing of `s`, where `x` becomes `x'`: nothing, the begin, or the
next stage. -/
inductive CloseChange (t : Tid) (s : SessId) (a : Act) (new : List Act) (x x' : SessionState) : Prop
  | same : a.closes s = false → new.filter (Act.closes s) = [] → x'.down = x.down →
      x'.closer = x.closer → x'.stage = x.stage →
      (x.verified = true → x'.verified = true ∧ x'.userId = x.userId) →
      CloseChange t s a new x x'
  | begin : a = .close s → new.filter (Act.closes s) = closeNext s x' → x.down = false →
      x'.down = true → x'.closer = some t → x'.stage = .closing →
      CloseChange t s a new x x'
  | next : a.closes s = true → new.filter (Act.closes s) = closeNext s x' → x'.down = x.down →
      x'.closer = x.closer → (x'.stage = .toSess → x'.verified = true) → x'.stage ≠ .notClosed →
      CloseChange t s a new x x'

/-- Acts that only bring others are no acts of a `Close`, and bring none. -/
theorem Expands.closes (h : Expands cfg σ a new) (s : SessId) :
    a.closes s = false ∧ new.filter (Act.closes s) = [] := by
  cases h with
  | dispatch hd => cases hd <;> exact ⟨rfl, rfl⟩
  | _ => exact ⟨rfl, rfl⟩

/-- A change of the session `s₀` says nothing about another one. -/
theorem CloseChange.of_ne {s s₀ : SessId} {x₀ : SessionState}
    (hσ : σ'.sessions = Function.update σ.sessions s₀ x₀) (hne : s ≠ s₀)
    (ha : a.closes s = false) (hnew : new.filter (Act.closes s) = []) :
    CloseChange t s a new (σ.sessions s) (σ'.sessions s) := by
  rw [hσ, Function.update_of_ne hne]
  exact .same ha hnew rfl rfl rfl fun h => ⟨h, rfl⟩

/-- A change of a session that leaves what concerns its closing alone. -/
theorem CloseChange.of_update {s s₀ : SessId} {x₀ : SessionState}
    (hσ : σ'.sessions = Function.update σ.sessions s₀ x₀)
    (ha : a.closes s = false) (hnew : new.filter (Act.closes s) = [])
    (hdown : x₀.down = (σ.sessions s₀).down) (hcloser : x₀.closer = (σ.sessions s₀).closer)
    (hstage : x₀.stage = (σ.sessions s₀).stage)
    (hv : (σ.sessions s₀).verified = true →
      x₀.verified = true ∧ x₀.userId = (σ.sessions s₀).userId) :
    CloseChange t s a new (σ.sessions s) (σ'.sessions s) := by
  rcases eq_or_ne s s₀ with rfl | hne
  · rw [hσ, Function.update_self]
    exact .same ha hnew hdown hcloser hstage hv
  · exact .of_ne hσ hne ha hnew

/-- **What an act does to the closing of a session.** -/
theorem Exec.closeChange (h : Exec cfg t σ a σ' new) (s : SessId) :
    CloseChange t s a new (σ.sessions s) (σ'.sessions s) := by
  cases h with
  | expand he =>
    obtain ⟨ha, hnew⟩ := he.closes s
    exact .same ha hnew rfl rfl rfl fun h => ⟨h, rfl⟩
  | crash hc =>
    cases hc <;> exact .same rfl rfl rfl rfl rfl fun h => ⟨h, rfl⟩
  | @close s₀ hup =>
    rcases eq_or_ne s s₀ with rfl | hne
    · refine .begin rfl ?_ hup ?_ ?_ ?_ <;> simp [postMessage, closeNext, Act.closes]
    · exact .of_ne rfl hne rfl (by simp [postMessage, Act.closes, hne.symm])
  | @closeToSess s₀ hv =>
    rcases eq_or_ne s s₀ with rfl | hne
    · refine .next ?_ ?_ ?_ ?_ ?_ ?_ <;> simp [closeRemoveSession, closeNext, Act.closes, hv]
    · refine .of_ne rfl hne ?_ ?_ <;> simp [closeRemoveSession, Act.closes, hne.symm]
  | @closeToTemp s₀ =>
    rcases eq_or_ne s s₀ with rfl | hne
    · refine .next ?_ ?_ ?_ ?_ ?_ ?_ <;> simp [closeRemoveTempSession, closeNext, Act.closes]
    · refine .of_ne rfl hne ?_ ?_ <;> simp [closeRemoveTempSession, Act.closes, hne.symm]
  | @closeReturn s₀ =>
    rcases eq_or_ne s s₀ with rfl | hne
    · refine .next ?_ ?_ ?_ ?_ ?_ ?_ <;> simp [closeNext, Act.closes]
    · refine .of_ne rfl hne ?_ rfl
      simp [Act.closes, hne.symm]
  | @eraseSess s₀ | @eraseTempClose s₀ =>
    rcases eq_or_ne s s₀ with rfl | hne
    · refine .next ?_ ?_ ?_ ?_ ?_ ?_ <;>
        simp [State.record, State.modify, closeNext, Act.closes]
    · refine .of_ne rfl hne ?_ ?_ <;> simp [Act.closes, hne.symm]
  | setVerified hv =>
    -- the uid is set, but of a session not verified before
    refine .of_update rfl rfl rfl rfl rfl rfl fun h => ?_
    rw [hv] at h
    cases h
  | popSend | asyncWrite | start =>
    exact .of_update rfl rfl rfl rfl rfl rfl fun h => ⟨h, rfl⟩
  | pushSend hnew =>
    refine .of_update rfl rfl ?_ rfl rfl rfl fun h => ⟨h, rfl⟩
    rcases hnew with rfl | rfl <;> rfl
  | _ => exact .same rfl rfl rfl rfl rfl fun h => ⟨h, rfl⟩

/-- What an act of `Close` pending says about the stage. -/
theorem CloseOk.next (h : CloseOk σ) {s : SessId} (ha : a ∈ σ.code t) (hs : a.closes s = true) :
    (σ.sessions s).closer = some t ∧ closeNext s (σ.sessions s) = [a] := by
  have hmem : a ∈ (σ.code t).filter (Act.closes s) := List.mem_filter.mpr ⟨ha, hs⟩
  rw [h.pending s t] at hmem
  split at hmem
  · next hcloser =>
    refine ⟨hcloser, ?_⟩
    unfold closeNext at hmem ⊢
    split at hmem <;> simp_all
  · cases hmem

theorem CloseOk.run (h : CloseOk σ) (hcode : σ.code t = a :: rest) (hex : Exec cfg t σ a σ' new) :
    CloseOk { σ' with code := advance σ.code t new rest } := by
  refine ⟨fun s t' => ?_, fun s hup => ?_, fun s hs => ?_⟩
  · have hpending := h.pending s
    cases hex.closeChange s with
    | same ha hnew _ hcloser hstage hv =>
      -- the act to come names the uid only once the session is verified, and then it is fixed
      have hnext : closeNext s (σ'.sessions s) = closeNext s (σ.sessions s) := by
        unfold closeNext
        rw [hstage]
        split <;> try rfl
        next hs => rw [(hv (h.toSess s hs)).2]
      dsimp only
      rw [filter_advance_of_not hcode ha hnew, hpending, hcloser, hnext]
    | begin ha hnew hup _ hcloser hstage =>
      subst ha
      -- nobody has anything to do for a session that is up
      have hnil : ∀ t₁, (σ.code t₁).filter (Act.closes s) = [] := by
        intro t₁
        rw [hpending]
        simp [closeNext, h.up s hup]
      by_cases ht : t' = t
      · subst ht
        have hrest := hnil t'
        rw [hcode, List.filter_cons_of_neg (by simp [Act.closes])] at hrest
        simp [hnew, hrest, hcloser]
      · simp [advance_of_ne ht, hnil, hcloser, Ne.symm ht]
    | next ha hnew _ hcloser _ _ =>
      -- the act done was the only one pending, so the new one is
      obtain ⟨howner, hone⟩ := h.next (head_mem hcode) ha
      have hrest : rest.filter (Act.closes s) = [] := by
        have hall := hpending t
        rw [hcode, List.filter_cons_of_pos ha, if_pos howner, hone] at hall
        exact (List.cons.inj hall).2
      by_cases ht : t' = t
      · subst ht
        simp [hnew, hrest, hcloser, howner]
      · have hother := hpending t'
        rw [howner, if_neg (by simpa using Ne.symm ht)] at hother
        simp [advance_of_ne ht, hother, hcloser, howner, Ne.symm ht]
  · cases hex.closeChange s with
    | same _ _ hdown _ hstage _ => exact hstage.trans (h.up s (hdown ▸ hup))
    | begin _ _ _ hdown _ _ => simp_all
    | next ha _ hdown _ _ _ =>
      have hone := (h.next (head_mem hcode) ha).2
      simp [closeNext, h.up s (hdown ▸ hup)] at hone
  · cases hex.closeChange s with
    | same _ _ _ _ hstage hv => exact (hv (h.toSess s (hstage ▸ hs))).1
    | begin _ _ _ _ _ hstage => simp_all
    | next _ _ _ _ hv _ => exact hv hs

/-! ## Steps -/

/-- Only these fields of the sessions matter. -/
theorem CloseOk.congr (h : CloseOk σ)
    (hcode : ∀ s t, (σ'.code t).filter (Act.closes s) = (σ.code t).filter (Act.closes s))
    (hx : ∀ s, (σ'.sessions s).closer = (σ.sessions s).closer ∧
      (σ'.sessions s).stage = (σ.sessions s).stage ∧ (σ'.sessions s).userId = (σ.sessions s).userId ∧
      (σ'.sessions s).verified = (σ.sessions s).verified ∧
      (σ'.sessions s).down = (σ.sessions s).down) : CloseOk σ' := by
  refine ⟨fun s t => ?_, fun s => ?_, fun s => ?_⟩
  · obtain ⟨hcloser, hstage, huid, -, -⟩ := hx s
    rw [hcode, h.pending, hcloser]
    unfold closeNext
    rw [hstage, huid]
  · obtain ⟨-, hstage, -, -, hdown⟩ := hx s
    rw [hdown, hstage]
    exact h.up s
  · obtain ⟨-, hstage, -, hv, -⟩ := hx s
    rw [hv, hstage]
    exact h.toSess s

/-- No entry point begins in the middle of a `Close`. -/
theorem Entry.acts_closes (e : Entry) (s : SessId) :
    (e.acts σ).filter (Act.closes s) = [] := by
  cases e with
  | writeDone s ok =>
    simp only [Entry.acts]
    split
    · split <;> rfl
    · rfl
  | _ => rfl

/-- What the call of an entry point leaves as it is. -/
theorem Entry.begin_sessions (e : Entry) (s : SessId) :
    ∃ c w, (e.begin σ).sessions s = { σ.sessions s with created := c, writes := w } ∧
      w ≤ (σ.sessions s).writes ∧ ((σ.sessions s).created = true → c = true) := by
  cases e with
  | accept s₀ =>
    rcases eq_or_ne s s₀ with rfl | hne
    · exact ⟨true, (σ.sessions s).writes, by simp [begin], Nat.le_refl _, fun _ => rfl⟩
    · exact ⟨(σ.sessions s).created, (σ.sessions s).writes, by simp [begin, State.modify_of_ne hne],
        Nat.le_refl _, id⟩
  | writeDone s₀ ok =>
    rcases eq_or_ne s s₀ with rfl | hne
    · exact ⟨(σ.sessions s).created, (σ.sessions s).writes - 1, by simp [begin],
        Nat.sub_le _ _, id⟩
    · exact ⟨(σ.sessions s).created, (σ.sessions s).writes, by simp [begin, State.modify_of_ne hne],
        Nat.le_refl _, id⟩
  | _ => exact ⟨(σ.sessions s).created, (σ.sessions s).writes, rfl, Nat.le_refl _, id⟩

theorem CloseOk.step (h : CloseOk σ) (hs : Stepped cfg σ l σ') : CloseOk σ' := by
  cases hs with
  | run hcode hex => exact h.run hcode hex
  | wait _ hcode _ =>
    exact h.congr (fun s t => filter_update_of_nil hcode rfl) fun s => ⟨rfl, rfl, rfl, rfl, rfl⟩
  | take _ hcode _ =>
    exact h.congr (fun s t => filter_update_of_nil hcode rfl) fun s => ⟨rfl, rfl, rfl, rfl, rfl⟩
  | leave => exact h.congr (fun _ _ => rfl) fun s => ⟨rfl, rfl, rfl, rfl, rfl⟩
  | @call t e _ hcode _ =>
    refine h.congr (fun s t => filter_update_of_nil hcode (e.acts_closes s)) fun s => ?_
    obtain ⟨c, w, hx, -, -⟩ := e.begin_sessions (σ := σ) s
    simp [hx]
  | redis => exact h.congr (fun _ _ => rfl) fun s => ⟨rfl, rfl, rfl, rfl, rfl⟩

theorem closeOk_init : CloseOk init := by
  refine ⟨fun s t => ?_, fun _ _ => rfl, fun _ hs => by cases hs⟩
  show List.filter _ (if t = worker then _ else _) = _
  split <;> rfl

/-! ## Stages

With `CloseOk` the stage of a session is known from the act, so the change of the stage can be listed
by act.
The modules about tables and uids go by these cases. -/

/-- What an act does to the stage of `s`, with what `CloseOk` knows of the stage before. -/
inductive StageChange (s : SessId) (x x' : SessionState) : Act → Prop
  | same {b : Act} : b.closes s = false → x'.stage = x.stage → StageChange s x x' b
  | closing : x.stage = .notClosed → x'.stage = .closing → StageChange s x x' (.close s)
  | toSess : x.stage = .closing → x.verified = true → x'.stage = .toSess →
      StageChange s x x' (.closeTable s)
  | toTemp : x.stage = .closing → x.verified = false → x'.stage = .toTemp →
      StageChange s x x' (.closeTable s)
  | erasedSess : x.stage = .toSess → x.verified = true → x'.stage = .removed →
      StageChange s x x' (.eraseSess s x.userId)
  | erasedTemp : x.stage = .toTemp → x'.stage = .removed → StageChange s x x' (.eraseTemp s true)
  | returned : x.stage = .removed → x'.stage = .returned → StageChange s x x' (.closeReturn s)

/-- The stage is the one whose act is next. -/
theorem CloseOk.stage_of_closes (h : CloseOk σ) {s : SessId} (ha : a ∈ σ.code t)
    (hs : a.closes s = true) :
    a = .closeTable s ∧ (σ.sessions s).stage = .closing ∨
      a = .eraseTemp s true ∧ (σ.sessions s).stage = .toTemp ∨
      a = .eraseSess s (σ.sessions s).userId ∧ (σ.sessions s).stage = .toSess ∨
      a = .closeReturn s ∧ (σ.sessions s).stage = .removed := by
  have hone := (h.next ha hs).2
  unfold closeNext at hone
  split at hone <;> simp_all

/-- **What an act does to the stage of a session.** -/
theorem CloseOk.stageChange (h : CloseOk σ) (ha : a ∈ σ.code t) (hex : Exec cfg t σ a σ' new)
    (s : SessId) : StageChange s (σ.sessions s) (σ'.sessions s) a := by
  cases hex.closeChange s with
  | same ha _ _ _ hstage _ => exact .same ha hstage
  | begin hclose _ hup _ _ hstage => exact hclose ▸ .closing (h.up s hup) hstage
  | next hcloses _ _ _ _ _ =>
    rcases h.stage_of_closes ha hcloses with ⟨rfl, hs⟩ | ⟨rfl, hs⟩ | ⟨rfl, hs⟩ | ⟨rfl, hs⟩
    · cases hex with
      | closeToSess hv => exact .toSess hs hv (by simp)
      | closeToTemp hv => exact .toTemp hs hv (by simp)
      | expand he => cases he
      | crash hc => cases hc
    · cases hex with
      | eraseTempClose => exact .erasedTemp hs (by simp [State.record, State.modify])
      | expand he => cases he
      | crash hc => cases hc
    · cases hex with
      | eraseSess => exact .erasedSess hs (h.toSess s hs) (by simp [State.record, State.modify])
      | expand he => cases he
      | crash hc => cases hc
    · cases hex with
      | closeReturn => exact .returned hs (by simp)
      | expand he => cases he
      | crash hc => cases hc

end Chatroom.Backend
