import Chatroom.Server.Backend.Tables

/-!
# The uploads of a backend

What the acts of a backend do to the entries `status:<uid>` in Redis and to the users to be removed
from there. `UpdateUserStatus` writes an entry; the closing of a verified session puts its user into
`removal_sess_`; an upload takes the set and deletes the entries later. `in_progress_` keeps the
uploads of a backend apart: at most one of them is between its begin and its end.
-/

namespace Chatroom.Backend

open Trace Threads

variable {cfg : Config} {σ σ' : State} {t : Tid} {a : Act} {new rest : List Act} {l : Label}

/-- The step of a thread is the execution of its first act. -/
theorem exec_of_step (h : step cfg σ (.run t) = some σ') :
    ∃ a rest σ₁ new, σ.code t = a :: rest ∧ exec cfg t σ a = some (σ₁, new) ∧
      σ' = { σ₁ with code := advance σ.code t new rest } := by
  unfold step at h
  split at h
  · dsimp only at h
    split at h
    · cases h
    · next a rest hcode =>
      obtain ⟨⟨σ₁, new⟩, hexec, rfl⟩ := Option.map_eq_some_iff.mp h
      exact ⟨a, rest, σ₁, new, hcode, hexec, rfl⟩
  · cases h

/-- After a fault there are no steps. -/
theorem fault_of_step (h : step cfg σ l = some σ') : σ.fault = none := by
  unfold step at h
  split at h
  · next hfault => exact hfault
  · cases h

/-! ## Steps that are no acts

A thread gets something to do when an entry point is called, and the worker when it takes an event.
Both give
acts of a few kinds only, so that an act of another kind, as those of an upload are, comes from an
act. -/

/-- The acts that entry points begin with, and the worker when it waits. -/
def Act.begins : Act → Bool
  | .lock _ | .unlock _ | .addTemp _ | .start _ | .frameRead _ _ | .close _ | .popSend _ | .ctrlMsg _
  | .mqMsg _ _ | .stopFind _ | .uploadImpl | .stopRunning => true
  | _ => false

/-- What the entry points begin with is listed. -/
theorem Entry.all_begins (e : Entry) : (e.acts σ).all Act.begins = true := by
  cases e with
  | writeDone s ok =>
    simp only [Entry.acts]
    split
    · split <;> rfl
    · rfl
  | _ => rfl

/-- A step that is no act leaves a thread what it has to do, or gives one that has nothing left the
begin of something. -/
theorem code_of_not_run (h : step cfg σ l = some σ') (hl : ∀ t, l ≠ .run t) (t : Tid) :
    σ'.code t = σ.code t ∨ σ.code t = [] ∧
      ((t = worker ∧ ∃ s msg, σ'.code t = [.processor s msg]) ∨ (σ'.code t).all Act.begins = true) := by
  have hself : ∀ acts, Function.update σ.code t acts t = acts := fun _ => Function.update_self ..
  have hother : ∀ t₀ acts, t ≠ t₀ → Function.update σ.code t₀ acts t = σ.code t :=
    fun _ _ hne => Function.update_of_ne hne ..
  cases step_cases h with
  | run => exact absurd rfl (hl _)
  | wait _ hcode _ =>
    by_cases ht : t = worker
    · subst ht
      exact .inr ⟨hcode, .inr (by dsimp only; rw [hself]; rfl)⟩
    · exact .inl (hother _ _ ht)
  | take _ hcode _ =>
    by_cases ht : t = worker
    · subst ht
      exact .inr ⟨hcode, .inl ⟨rfl, _, _, hself _⟩⟩
    · exact .inl (hother _ _ ht)
  | leave => exact .inl rfl
  | @call t₀ e _ hcode _ =>
    by_cases ht : t = t₀
    · subst ht
      exact .inr ⟨hcode, .inr (by dsimp only; rw [hself]; exact e.all_begins)⟩
    · exact .inl (hother _ _ ht)
  | redis => exact .inl rfl

/-- An act that nothing begins with was pending before. -/
theorem mem_of_not_run (h : step cfg σ l = some σ') (hl : ∀ t, l ≠ .run t) {b : Act}
    (hb : b.begins = false) (hproc : ∀ s msg, b ≠ .processor s msg) (hmem : b ∈ σ'.code t) :
    b ∈ σ.code t := by
  rcases code_of_not_run h hl t with hsame | ⟨-, ⟨-, s, msg, hcode⟩ | hbegins⟩
  · rwa [hsame] at hmem
  · rw [hcode, List.mem_singleton] at hmem
    exact absurd hmem (hproc s msg)
  · rw [List.all_eq_true.mp hbegins b hmem] at hb
    cases hb

/-- The acts of a kind that nothing begins with are the same as before. -/
theorem filter_of_not_run (h : step cfg σ l = some σ') (hl : ∀ t, l ≠ .run t) {p : Act → Bool}
    (hp : ∀ b, p b = true → b.begins = false) (hproc : ∀ s msg, p (.processor s msg) = false)
    (t : Tid) : (σ'.code t).filter p = (σ.code t).filter p := by
  rcases code_of_not_run h hl t with hsame | ⟨hnil, ⟨-, s, msg, hcode⟩ | hbegins⟩
  · rw [hsame]
  · rw [hcode, hnil, List.filter_cons_of_neg (by simp [hproc])]
  · rw [hnil, List.filter_nil, List.filter_eq_nil_iff]
    intro b hmem hb
    have hnot := hp b hb
    rw [List.all_eq_true.mp hbegins b hmem] at hnot
    cases hnot

/-! ## What the acts do to the entries

`Online` has one case for each act that touches Redis or the sets of the uploader, and one for all
others. -/

/-- The acts that change an entry in Redis or `removal_sess_`. -/
def Act.online : Act → Bool
  | .updateUserStatus _ | .removeOnline _ | .uploadSwap | .uploadExec _ => true
  | _ => false

/-- The acts of an upload in progress. -/
def Act.uploads : Act → Bool
  | .uploadSwap | .uploadExec _ => true
  | _ => false

theorem Act.uploads_of_online (h : a.online = false) : a.uploads = false := by
  cases a with
  | uploadSwap => cases h
  | uploadExec us => cases h
  | _ => rfl

/-- No entry point begins in the middle of an upload. -/
theorem Act.begins_of_uploads (h : a.uploads = true) : a.begins = false := by
  cases a with
  | uploadSwap | uploadExec us => rfl
  | _ => cases h

/-- What an act does to Redis, to `removal_sess_` and to `in_progress_`. -/
inductive Online (cfg : Config) (σ σ' : State) (new : List Act) : Act → Prop
  | updated {uid} :
      σ'.redis = { σ.redis with
        location := Function.update σ.redis.location uid (some cfg.serverId) } →
      σ'.onlineRemoval = σ.onlineRemoval → σ'.inProgress = σ.inProgress → new = [] →
      Online cfg σ σ' new (.updateUserStatus uid)
  | removed {uid} : σ'.redis = σ.redis → σ'.onlineRemoval = σ.onlineRemoval.insert uid →
      σ'.inProgress = σ.inProgress → new = [] → Online cfg σ σ' new (.removeOnline uid)
  | begun : σ.inProgress = false → σ'.redis = σ.redis → σ'.onlineRemoval = σ.onlineRemoval →
      σ'.inProgress = true → new = [.lock .uploader, .uploadSwap] → Online cfg σ σ' new .uploadImpl
  | swapped : σ'.redis = σ.redis → σ'.onlineRemoval = [] → σ'.inProgress = σ.inProgress →
      new = [.unlock .uploader, .uploadExec σ.onlineRemoval] → Online cfg σ σ' new .uploadSwap
  | deleted {us} :
      σ'.redis = { σ.redis with
        location := fun uid => if uid ∈ us then none else σ.redis.location uid } →
      σ'.onlineRemoval = σ.onlineRemoval → σ'.inProgress = false → new = [] →
      Online cfg σ σ' new (.uploadExec us)
  | other {a : Act} : a.online = false → σ'.redis = σ.redis → σ'.onlineRemoval = σ.onlineRemoval →
      σ'.inProgress = σ.inProgress → new.any Act.uploads = false → Online cfg σ σ' new a

/-- Acts that only bring others bring none of an upload. -/
theorem Expands.uploads (h : Expands cfg σ a new) : new.any Act.uploads = false := by
  cases h with
  | dispatch hd => cases hd <;> rfl
  | _ => rfl

/-- **What an act does to what is online.** -/
theorem exec_online (h : exec cfg t σ a = some (σ', new)) : Online cfg σ σ' new a := by
  cases exec_cases h with
  | expand he =>
    cases ha : a.online with
    | false => exact .other ha rfl rfl rfl he.uploads
    | true => cases he <;> cases ha
  | crash hc => cases hc <;> exact .other rfl rfl rfl rfl rfl
  | pushSend hnew => rcases hnew with rfl | rfl <;> exact .other rfl rfl rfl rfl rfl
  | updateUserStatus =>
    cases h
    exact .updated rfl rfl rfl rfl
  | removeOnline =>
    cases h
    exact .removed rfl rfl rfl rfl
  | uploadImpl =>
    simp only [exec] at h
    split at h
    · simp at h
    · next hidle =>
      cases h
      exact .begun (by simpa using hidle) rfl rfl rfl rfl
  | uploadSwap =>
    cases h
    exact .swapped rfl rfl rfl rfl
  | uploadExec =>
    cases h
    exact .deleted rfl rfl rfl rfl
  | _ => exact .other rfl rfl rfl rfl rfl

/-- The steps of a backend other than acts leave Redis alone. -/
theorem redis_of_not_run (h : step cfg σ l = some σ') (hl : ∀ t, l ≠ .run t)
    (hr : ∀ r, l ≠ .redis r) : σ'.redis = σ.redis := by
  cases step_cases h with
  | run => exact absurd rfl (hl _)
  | redis => exact absurd rfl (hr _)
  | @call _ e => cases e <;> rfl
  | _ => rfl

/-- A backend never writes a token. -/
theorem token_of_step (h : step cfg σ l = some σ') (hr : ∀ r, l ≠ .redis r) :
    σ'.redis.token = σ.redis.token := by
  by_cases hl : ∃ t, l = .run t
  · obtain ⟨t, rfl⟩ := hl
    obtain ⟨a, rest, σ₁, new, -, hex, rfl⟩ := exec_of_step h
    show σ₁.redis.token = σ.redis.token
    cases exec_online hex with
    | updated hredis | removed hredis | begun _ hredis | swapped hredis | deleted hredis
    | other _ hredis => rw [hredis]
  · rw [redis_of_not_run h (fun t ht => hl ⟨t, ht⟩) hr]

/-! ## One upload at a time

`compare_exchange_strong` on `in_progress_` admits one upload, and the last act of the upload resets
it. So
the acts of uploads that are pending, over all threads, are at most one. -/

/-- Only one thread has acts of an upload left to do, only one act, and only while `in_progress_` is
set. -/
def UploadOk (σ : State) : Prop :=
  ∃ t, ∀ t', (σ.code t').countP Act.uploads ≤ if σ.inProgress = true ∧ t' = t then 1 else 0

theorem UploadOk.advance (h : UploadOk σ) (hcode : σ.code t = a :: rest)
    (hprogress : σ'.inProgress = σ.inProgress)
    (hnew : new.countP Act.uploads ≤ [a].countP Act.uploads) :
    UploadOk { σ' with code := advance σ.code t new rest } := by
  obtain ⟨u, hu⟩ := h
  refine ⟨u, fun t' => ?_⟩
  dsimp only
  rw [hprogress]
  exact countP_advance_le hcode (hu t') hnew

theorem countP_uploads_of_any (h : new.any Act.uploads = false) : new.countP Act.uploads = 0 := by
  rw [List.countP_eq_zero]
  exact List.any_eq_false.mp h

/-- Nothing else of an upload is pending beside an act of one. -/
theorem UploadOk.alone (h : UploadOk σ) (hcode : σ.code t = a :: rest) (ha : a.uploads = true) :
    (∀ b ∈ rest, b.uploads = false) ∧ ∀ t' ≠ t, ∀ b ∈ σ.code t', b.uploads = false := by
  obtain ⟨u, hu⟩ := h
  have ht := hu t
  rw [hcode, List.countP_cons_of_pos ha] at ht
  split at ht
  · next hbusy =>
    constructor
    · intro b hb
      have hzero : rest.countP Act.uploads = 0 := by omega
      simpa using List.countP_eq_zero.mp hzero b hb
    · intro t' hne b hb
      have ht' := hu t'
      rw [if_neg (fun hb' => hne (hb'.2.trans hbusy.2.symm)), Nat.le_zero] at ht'
      simpa using List.countP_eq_zero.mp ht' b hb
  · omega

/-- No thread had an upload to do, so the one that begins is alone. -/
theorem UploadOk.begin (h : UploadOk σ) (hidle : σ.inProgress = false)
    (hprogress : σ'.inProgress = true) (hcode : σ.code t = .uploadImpl :: rest) :
    UploadOk { σ' with code := Threads.advance σ.code t [.lock .uploader, .uploadSwap] rest } := by
  obtain ⟨u, hu⟩ := h
  simp only [hidle, Bool.false_eq_true, false_and, if_false] at hu
  refine ⟨t, fun t' => ?_⟩
  dsimp only
  rw [hprogress]
  by_cases ht : t' = t
  · subst ht
    have hrest := hu t'
    rw [hcode, List.countP_cons_of_neg (by simp [Act.uploads])] at hrest
    rw [if_pos ⟨rfl, rfl⟩, advance_self, List.countP_append]
    exact Nat.add_le_add (Nat.le_refl 1) hrest
  · rw [advance_of_ne ht]
    exact Nat.le_trans (hu t') (Nat.zero_le _)

/-- The act done was the only one left. -/
theorem UploadOk.finish (h : UploadOk σ) (hcode : σ.code t = a :: rest) (ha : a.uploads = true) :
    UploadOk { σ' with code := Threads.advance σ.code t [] rest } := by
  obtain ⟨hrest, hothers⟩ := h.alone hcode ha
  refine ⟨t, fun t' => ?_⟩
  have hnone : (Threads.advance σ.code t [] rest t').countP Act.uploads = 0 := by
    rw [List.countP_eq_zero]
    intro b hb
    by_cases ht : t' = t
    · subst ht
      rw [advance_self, List.nil_append] at hb
      simpa using hrest b hb
    · rw [advance_of_ne ht] at hb
      simpa using hothers t' ht b hb
  dsimp only
  rw [hnone]
  exact Nat.zero_le _

/-- An act is done, by cases on what it does to the entries. -/
theorem UploadOk.run (h : UploadOk σ) (hcode : σ.code t = a :: rest)
    (hex : exec cfg t σ a = some (σ', new)) :
    UploadOk { σ' with code := Threads.advance σ.code t new rest } := by
  cases exec_online hex with
  | updated _ _ hprogress hnew | removed _ _ hprogress hnew =>
    subst hnew
    exact h.advance hcode hprogress (Nat.zero_le _)
  | other _ _ _ hprogress hnew =>
    refine h.advance hcode hprogress ?_
    rw [countP_uploads_of_any hnew]
    exact Nat.zero_le _
  | swapped _ _ hprogress hnew =>
    subst hnew
    exact h.advance hcode hprogress (Nat.le_refl _)
  | begun hidle _ _ hprogress hnew =>
    subst hnew
    exact h.begin hidle hprogress hcode
  | deleted _ _ _ hnew =>
    subst hnew
    exact h.finish hcode rfl

/-- A step that is no act changes nothing of this. -/
theorem online_of_not_run (h : step cfg σ l = some σ') (hl : ∀ t, l ≠ .run t) :
    σ'.onlineRemoval = σ.onlineRemoval ∧ σ'.inProgress = σ.inProgress ∧
      ∀ t, (σ'.code t).filter Act.uploads = (σ.code t).filter Act.uploads := by
  refine ⟨?_, ?_, fun t => ?_⟩
  · cases step_cases h with
    | run => exact absurd rfl (hl _)
    | @call _ e => cases e <;> rfl
    | _ => rfl
  · cases step_cases h with
    | run => exact absurd rfl (hl _)
    | @call _ e => cases e <;> rfl
    | _ => rfl
  · exact filter_of_not_run h hl (fun b hb => Act.begins_of_uploads hb) (fun _ _ => rfl) t

theorem UploadOk.step (h : UploadOk σ) (hs : Backend.step cfg σ l = some σ') : UploadOk σ' := by
  by_cases hl : ∃ t, l = .run t
  · obtain ⟨t, rfl⟩ := hl
    obtain ⟨a, rest, σ₁, new, hcode, hex, rfl⟩ := exec_of_step hs
    exact h.run hcode hex
  · obtain ⟨-, hprogress, hcode⟩ := online_of_not_run hs fun t ht => hl ⟨t, ht⟩
    obtain ⟨u, hu⟩ := h
    refine ⟨u, fun t' => ?_⟩
    rw [hprogress, List.countP_eq_length_filter, hcode, ← List.countP_eq_length_filter]
    exact hu t'

theorem uploadOk_of_reach {ok : State → Label → Prop} (h : Reach (step cfg) ok init σ) :
    UploadOk σ := by
  refine h.invariant ⟨worker, fun t => ?_⟩ fun _ _ _ hinv _ hs => hinv.step hs
  have hnone : (init.code t).countP Act.uploads = 0 := by
    rw [List.countP_eq_zero]
    intro a ha
    rw [eq_lock_of_mem_init ha]
    decide
  rw [hnone]
  exact Nat.zero_le _

/-! ## The users an upload has taken

Between the swap and the pipeline the users are in neither set: they are with the upload. `Erasing` is
what
the invariants about Redis say of them. -/

variable {uid : Uid}

/-- An upload that has taken the user has its pipeline to execute. -/
def Erasing (σ : State) (uid : Uid) : Prop := ∃ t us, .uploadExec us ∈ σ.code t ∧ uid ∈ us

/-- An act that is no pipeline and brings none. -/
theorem erasing_advance (hcode : σ.code t = a :: rest) (ha : a.uploads = false)
    (hnew : ∀ us, .uploadExec us ∉ new) :
    Erasing { σ' with code := advance σ.code t new rest } uid ↔ Erasing σ uid := by
  constructor
  · rintro ⟨t', us, hmem, huid⟩
    rcases mem_advance hcode hmem with ⟨-, hin⟩ | hold
    · exact absurd hin (hnew us)
    · exact ⟨t', us, hold, huid⟩
  · rintro ⟨t', us, hmem, huid⟩
    have hne : .uploadExec us ≠ a := by
      rintro rfl
      cases ha
    exact ⟨t', us, mem_advance_of_mem hcode hmem hne, huid⟩

/-- An act of an upload was the only one: what is pending of uploads then is new. -/
theorem erasing_of_alone (hup : UploadOk σ) (hcode : σ.code t = a :: rest)
    (ha : a.uploads = true) :
    Erasing { σ' with code := advance σ.code t new rest } uid ↔
      ∃ us, .uploadExec us ∈ new ∧ uid ∈ us := by
  obtain ⟨hrest, hothers⟩ := hup.alone hcode ha
  constructor
  · rintro ⟨t', us, hmem, huid⟩
    by_cases ht : t' = t
    · subst ht
      dsimp only at hmem
      rw [advance_self, List.mem_append] at hmem
      rcases hmem with hin | hold
      · exact ⟨us, hin, huid⟩
      · cases hrest _ hold
    · dsimp only at hmem
      rw [advance_of_ne ht] at hmem
      cases hothers t' ht _ hmem
  · rintro ⟨us, hmem, huid⟩
    exact ⟨t, us, mem_advance_new hmem, huid⟩

/-- While an upload is about to take the sets, none has anything taken. -/
theorem UploadOk.not_erasing (h : UploadOk σ) (hcode : σ.code t = .uploadSwap :: rest) :
    ¬ Erasing σ uid := by
  rintro ⟨t', us, hmem, -⟩
  obtain ⟨hrest, hothers⟩ := h.alone hcode rfl
  by_cases ht : t' = t
  · subst ht
    rw [hcode] at hmem
    rcases List.mem_cons.mp hmem with heq | hold
    · cases heq
    · cases hrest _ hold
  · cases hothers t' ht _ hmem

theorem not_mem_of_any (h : new.any Act.uploads = false) (us : List Uid) : .uploadExec us ∉ new := by
  intro hmem
  exact List.any_eq_false.mp h _ hmem rfl

/-- Only acts move users in or out of the upload. -/
theorem erasing_of_not_run (h : step cfg σ l = some σ') (hl : ∀ t, l ≠ .run t) :
    Erasing σ' uid ↔ Erasing σ uid := by
  have hmem : ∀ t us, .uploadExec us ∈ σ'.code t ↔ .uploadExec us ∈ σ.code t := by
    intro t us
    have heq := congrArg (Act.uploadExec us ∈ ·) ((online_of_not_run h hl).2.2 t)
    simpa [List.mem_filter, Act.uploads] using heq
  simp only [Erasing, hmem]

end Chatroom.Backend
