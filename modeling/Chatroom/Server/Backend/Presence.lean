import Chatroom.Server.Backend.Notices

/-!
# Where a user is on a backend

From the `VERIFY` to the deletion of the entry, a user who has come to a backend is at one place after
another: the session is about to be verified, is verified, its close is being processed, the uid is in
`removal_sess_`, an upload has it. Every step leaves the user at that place or moves the user on by one.
A user comes in only by an accepted token, and the entry in Redis is deleted only for users at the last
place.
-/

namespace Chatroom.Backend

open Trace Threads

variable {cfg : Config} {σ σ' : State} {t : Tid} {a : Act} {new rest : List Act} {l : Label}
  {s : SessId} {uid : Uid}

inductive Place where
  /-- The token was accepted for a `VERIFY` of session `s`. -/
  | verifying (s : SessId)
  /-- Session `s` is verified, and the notice of its close is not taken. -/
  | session (s : SessId)
  /-- The notice is taken, and `RemoveSession` to come. -/
  | leaving
  /-- In `removal_sess_`. -/
  | removal
  /-- Taken by an upload that has its pipeline to execute. -/
  | erasing
  deriving DecidableEq, Repr

def At (σ : State) (uid : Uid) : Place → Prop
  | .verifying s => .setVerified s uid ∈ σ.code worker
  | .session s =>
    (σ.sessions s).verified = true ∧ (σ.sessions s).userId = uid ∧ .taken s none ∉ σ.log
  | .leaving =>
    (∃ s, .processor s none ∈ σ.code worker ∧ (σ.sessions s).verified = true ∧
      (σ.sessions s).userId = uid) ∨ .removeOnline uid ∈ σ.code worker
  | .removal => uid ∈ σ.onlineRemoval
  | .erasing => Erasing σ uid

/-- What is known of every run. -/
structure Orderly (σ : State) : Prop where
  worker : WorkerOk σ
  upload : UploadOk σ
  notice : NoticeOk σ
  leaves : LeavesOk σ

/-- All four hold in every run. -/
theorem orderly_of_reach {ok : State → Label → Prop} (h : Reach (step cfg) ok init σ) : Orderly σ :=
  ⟨(sound_of_reach h).worker, uploadOk_of_reach h, noticeOk_of_reach h, leavesOk_of_reach h⟩

/-! ## Acts

Two relations say which acts move a user: `Arrives` to a place and `Departs` from one. They are
matched with the
acts pending on both sides of a step. -/

/-- The acts that bring a user to a place. -/
inductive Arrives (σ : State) (uid : Uid) : Act → Place → Prop
  | accepted {s : SessId} {msg token text} : σ.redis.token token = some text → stoull text = .ok uid →
      Arrives σ uid (.verifyUser s msg token uid) (.verifying s)
  | verified {s : SessId} : Arrives σ uid (.setVerified s uid) (.session s)
  | removed : Arrives σ uid (.removeOnline uid) .removal
  | swapped : uid ∈ σ.onlineRemoval → Arrives σ uid .uploadSwap .erasing

/-- The acts that take a user from a place. -/
inductive Departs (σ : State) (uid : Uid) : Act → Place → Prop
  | verified {s : SessId} : Departs σ uid (.setVerified s uid) (.verifying s)
  | removed : Departs σ uid (.removeOnline uid) .leaving
  | swapped : uid ∈ σ.onlineRemoval → Departs σ uid .uploadSwap .removal
  | deleted {us} : uid ∈ us → Departs σ uid (.uploadExec us) .erasing

/-- The acts that have to do with the coming and going of a user. -/
def Act.brings : Act → Bool
  | .processor _ _ | .setVerified _ _ | .removeOnline _ => true
  | _ => false

/-- Which of them an act brings about. None brings about `processor`: only the loop of the worker
begins the processing of an event. -/
inductive Feeds (σ : State) : Act → Act → Prop
  | accepted {s : SessId} {uid : Uid} {msg token text} : σ.redis.token token = some text →
      stoull text = .ok uid → Feeds σ (.verifyUser s msg token uid) (.setVerified s uid)
  | closed {s : SessId} : (σ.sessions s).verified = true →
      Feeds σ (.processor s none) (.removeOnline (σ.sessions s).userId)

/-- Among the acts that an act brings, those about the coming and going are listed. -/
theorem Exec.feeds (h : Exec cfg t σ a σ' new) {b : Act} (hmem : b ∈ new) (hb : b.brings = true) :
    Feeds σ a b := by
  have hnone : new.any Act.brings = false → False := by
    intro hany
    exact List.any_eq_false.mp hany b hmem hb
  cases h with
  | verifyOk htoken huid =>
    cases List.mem_singleton.mp hmem
    exact .accepted htoken huid
  | expand he =>
    cases he with
    | processorClosed hv =>
      simp only [List.mem_cons, List.not_mem_nil, or_false] at hmem
      rcases hmem with rfl | rfl | rfl | rfl
      · cases hb
      · exact .closed hv
      · cases hb
      · cases hb
    | dispatch hd => cases hd <;> exact (hnone rfl).elim
    | _ => exact (hnone rfl).elim
  | pushSend hnew => rcases hnew with rfl | rfl <;> exact (hnone rfl).elim
  | _ => exact (hnone rfl).elim

/-- The worker does not verify a session while it has the begin of a processing before it. -/
theorem WorkerOk.not_processor (h : WorkerOk σ) (hcode : σ.code t = .setVerified s uid :: rest)
    {s' : SessId} {msg : Option MsgNode} : .processor s' msg ∉ σ.code worker := by
  intro hmem
  obtain rfl := h.eq_worker (head_mem hcode) rfl
  have honce := h.once
  rw [hcode] at hmem honce
  rw [List.countP_cons_of_pos rfl] at honce
  rcases List.mem_cons.mp hmem with heq | hrest
  · cases heq
  · have hpos : 0 < rest.countP Act.spine := List.countP_pos_iff.mpr ⟨_, hrest, rfl⟩
    omega

/-- Into `removal_sess_` one comes by `RemoveSession`. -/
theorem removal_run (hex : exec cfg t σ a = some (σ', new)) (hmem : uid ∈ σ'.onlineRemoval) :
    uid ∈ σ.onlineRemoval ∨ Arrives σ uid a .removal := by
  cases exec_online hex with
  | removed _ hremoval =>
    rw [hremoval, List.mem_insert_iff] at hmem
    rcases hmem with rfl | hold
    · exact .inr .removed
    · exact .inl hold
  | swapped _ hremoval =>
    rw [hremoval] at hmem
    cases hmem
  | updated _ hremoval | begun _ _ hremoval | deleted _ hremoval | other _ _ hremoval =>
    rw [hremoval] at hmem
    exact .inl hmem

/-- To an upload one comes by its swap. -/
theorem erasing_run (hup : UploadOk σ) (hcode : σ.code t = a :: rest)
    (hex : exec cfg t σ a = some (σ', new))
    (h : Erasing { σ' with code := advance σ.code t new rest } uid) :
    Erasing σ uid ∨ Arrives σ uid a .erasing := by
  cases exec_online hex with
  | swapped _ _ _ hnew =>
    subst hnew
    rw [erasing_of_alone hup hcode rfl] at h
    obtain ⟨us, hmem, huid⟩ := h
    simp only [List.mem_cons, reduceCtorEq, Act.uploadExec.injEq, List.not_mem_nil, or_false,
      false_or] at hmem
    exact .inr (.swapped (hmem ▸ huid))
  | deleted _ _ _ hnew =>
    subst hnew
    rw [erasing_of_alone hup hcode rfl] at h
    obtain ⟨us, hmem, -⟩ := h
    cases hmem
  | updated _ _ _ hnew | removed _ _ _ hnew =>
    subst hnew
    exact .inl ((erasing_advance hcode rfl fun _ => List.not_mem_nil).mp h)
  | begun _ _ _ _ hnew =>
    subst hnew
    exact .inl ((erasing_advance hcode rfl (by simp)).mp h)
  | other hoff _ _ _ hnew =>
    exact .inl ((erasing_advance hcode (Act.uploads_of_online hoff) (not_mem_of_any hnew)).mp h)

/-- **Nobody is at a place who was not there and was not brought there.** -/
theorem at_run (hord : Orderly σ) (hcode : σ.code t = a :: rest)
    (hex : exec cfg t σ a = some (σ', new)) {p : Place}
    (hp : At { σ' with code := advance σ.code t new rest } uid p) :
    At σ uid p ∨ Arrives σ uid a p := by
  have hexec := exec_cases hex
  cases p with
  | verifying s =>
    rcases mem_advance hcode hp with ⟨-, hnew⟩ | hold
    · cases hexec.feeds hnew rfl with
      | accepted htoken huid => exact .inr (.accepted htoken huid)
    · exact .inl hold
  | session s =>
    obtain ⟨hv, huid, hlog⟩ := hp
    rcases hexec.verified s with ⟨hv', hu'⟩ | ⟨u, rfl, -, -, hu'⟩
    · exact .inl ⟨hv'.symm.trans hv, hu'.symm.trans huid, fun hmem => hlog (hexec.log_subset hmem)⟩
    · obtain rfl : u = uid := hu'.symm.trans huid
      exact .inr .verified
  -- two acts make this place, and the first of them leads to the second
  | leaving =>
    rcases hp with ⟨s, hmem, hv, huid⟩ | hmem
    · rcases mem_advance hcode hmem with ⟨-, hnew⟩ | hold
      · cases hexec.feeds hnew rfl
      · rcases hexec.verified s with ⟨hv', hu'⟩ | ⟨u, rfl, -⟩
        · exact .inl (.inl ⟨s, hold, hv'.symm.trans hv, hu'.symm.trans huid⟩)
        · exact absurd hold (hord.worker.not_processor hcode)
    · rcases mem_advance hcode hmem with ⟨rfl, hnew⟩ | hold
      · cases hexec.feeds hnew rfl with
        | closed hv => exact .inl (.inl ⟨_, head_mem hcode, hv, rfl⟩)
      · exact .inl (.inr hold)
  | removal => exact removal_run hex hp
  | erasing => exact erasing_run hord.upload hcode hex hp

/-- **Whoever is taken from a place was there, and is not any more.** -/
theorem departs_run (hord : Orderly σ) (hcode : σ.code t = a :: rest)
    (hex : exec cfg t σ a = some (σ', new)) {p : Place} (hp : Departs σ uid a p) :
    At σ uid p ∧ ¬ At { σ' with code := advance σ.code t new rest } uid p := by
  cases hp with
  | @verified s =>
    obtain rfl := hord.worker.eq_worker (head_mem hcode) rfl
    refine ⟨head_mem hcode, fun hmem => ?_⟩
    -- it was the only act of its kind, and brings no other
    change .setVerified s uid ∈ advance σ.code worker new rest worker at hmem
    rw [advance_self, List.mem_append] at hmem
    rcases hmem with hnew | hold
    · cases (exec_cases hex).feeds hnew rfl
    · have hnone := hord.worker.verifies_rest hcode rfl _ hold
      cases hnone
  | removed =>
    obtain ⟨rfl, hrest⟩ := hord.leaves.alone hcode rfl
    refine ⟨.inr (head_mem hcode), ?_⟩
    have hnone : ∀ b ∈ advance σ.code worker new rest worker, b.leaves = false := by
      cases hex
      exact hrest
    rintro (⟨s, hmem, -⟩ | hmem)
    · cases hnone _ hmem
    · cases hnone _ hmem
  | swapped huid =>
    refine ⟨huid, fun hmem => ?_⟩
    cases hex
    cases hmem
  | @deleted us huid =>
    refine ⟨⟨t, us, head_mem hcode, huid⟩, fun hmem => ?_⟩
    cases hex
    obtain ⟨us', hnew, -⟩ := (erasing_of_alone hord.upload hcode rfl).mp hmem
    cases hnew

/-- The entry of a user stays, unless the user is among those an upload deletes. -/
theorem location_run (hex : exec cfg t σ a = some (σ', new))
    (hkeep : ∀ us, a = .uploadExec us → uid ∉ us) (hnone : σ'.redis.location uid = none) :
    σ.redis.location uid = none := by
  cases exec_online hex with
  | @updated u hredis =>
    rw [hredis] at hnone
    rcases eq_or_ne uid u with rfl | hne
    · simp at hnone
    · simpa [Function.update_of_ne hne] using hnone
  | deleted hredis =>
    rw [hredis] at hnone
    simpa [hkeep _ rfl] using hnone
  | removed hredis | begun _ hredis | swapped hredis | other _ hredis => rwa [hredis] at hnone

/-! ## Steps

A step moves a user by at most one place. This is what makes a user with a place have an entry in
Redis, or be
about to lose it: the argument over runs is in the modules about the cluster. -/

/-- What a step does to a user: nothing; it moves the user on; it lets the user in for a token; it
deletes the entry. -/
inductive Moves (σ σ' : State) (uid : Uid) : Label → Prop
  | stays {l : Label} : (∀ p, At σ' uid p → At σ uid p) →
      (σ'.redis.location uid = none → σ.redis.location uid = none) → Moves σ σ' uid l
  | goes {l : Label} {p q : Place} : At σ uid p → ¬ At σ' uid p →
      (∀ r, At σ' uid r → r = q ∨ At σ uid r) →
      (σ'.redis.location uid = none → σ.redis.location uid = none) → Moves σ σ' uid l
  | accepts {t s msg token text rest} : σ.code t = .verifyUser s msg token uid :: rest →
      σ.redis.token token = some text → stoull text = .ok uid →
      (∀ r, At σ' uid r → r = .verifying s ∨ At σ uid r) →
      (σ'.redis.location uid = none → σ.redis.location uid = none) → Moves σ σ' uid (.run t)
  | ends {l : Label} {p : Place} : At σ uid p → ¬ At σ' uid p → (∀ r, At σ' uid r → At σ uid r) →
      Moves σ σ' uid l

/-- A user arrives at one place only. -/
theorem Arrives.unique {p q : Place} (hp : Arrives σ uid a p) (hq : Arrives σ uid a q) : p = q := by
  cases hp <;> cases hq <;> rfl

/-- The acts, with the places they lead from and to. -/
theorem moves_run (hord : Orderly σ) (hs : step cfg σ (.run t) = some σ') :
    Moves σ σ' uid (.run t) := by
  obtain ⟨a, rest, σ₁, new, hcode, hex, rfl⟩ := exec_of_step hs
  -- the pipeline of an upload is the only act that deletes entries
  by_cases hdel : ∃ us, a = .uploadExec us ∧ uid ∈ us
  · obtain ⟨us, rfl, huid⟩ := hdel
    obtain ⟨hat, hgone⟩ := departs_run hord hcode hex (.deleted huid)
    refine .ends hat hgone fun r hr => ?_
    rcases at_run hord hcode hex hr with hold | harr
    · exact hold
    · cases harr
  · have hloc : σ₁.redis.location uid = none → σ.redis.location uid = none :=
      location_run hex fun us ha huid => hdel ⟨us, ha, huid⟩
    by_cases harr : ∃ q, Arrives σ uid a q
    · obtain ⟨q, hq⟩ := harr
      -- an act brings the user to one place; where it takes the user from is known from the act
      have hr : ∀ r, At { σ₁ with code := advance σ.code t new rest } uid r → r = q ∨ At σ uid r := by
        intro r hr
        rcases at_run hord hcode hex hr with hold | harr
        · exact .inr hold
        · exact .inl (harr.unique hq)
      cases hq with
      | accepted htoken huid => exact .accepts hcode htoken huid hr hloc
      | verified =>
        obtain ⟨hat, hgone⟩ := departs_run hord hcode hex .verified
        exact .goes hat hgone hr hloc
      | removed =>
        obtain ⟨hat, hgone⟩ := departs_run hord hcode hex .removed
        exact .goes hat hgone hr hloc
      | swapped huid =>
        obtain ⟨hat, hgone⟩ := departs_run hord hcode hex (.swapped huid)
        exact .goes hat hgone hr hloc
    · refine .stays (fun p hp => ?_) hloc
      rcases at_run hord hcode hex hp with hold | hp
      · exact hold
      · exact absurd ⟨p, hp⟩ harr

/-- The worker begins to process what it took from the queue. -/
theorem processor_of_not_run (h : step cfg σ l = some σ') (hl : ∀ t, l ≠ .run t)
    {msg : Option MsgNode} (hmem : .processor s msg ∈ σ'.code worker) :
    .processor s msg ∈ σ.code worker ∨ (s, msg) ∈ σ.queue ∧ .taken s msg ∈ σ'.log := by
  cases step_cases h with
  | run => exact absurd rfl (hl _)
  | wait => simp at hmem
  | take _ _ hq =>
    simp only [Function.update_self, List.mem_singleton, Act.processor.injEq] at hmem
    obtain ⟨rfl, rfl⟩ := hmem
    refine .inr ⟨?_, List.mem_append_right _ List.mem_cons_self⟩
    rw [hq]
    exact List.mem_cons_self
  | leave => exact .inl hmem
  | call ht =>
    dsimp only at hmem
    rw [Function.update_of_ne (Ne.symm ht)] at hmem
    exact .inl hmem
  | redis => exact .inl hmem

/-- The history grows in these steps too. -/
theorem log_of_not_run (h : step cfg σ l = some σ') (hl : ∀ t, l ≠ .run t) : σ.log ⊆ σ'.log := by
  cases step_cases h with
  | run => exact absurd rfl (hl _)
  | take => exact List.subset_append_left _ _
  | @call _ e => cases e <;> exact List.Subset.refl _
  | _ => exact List.Subset.refl _

/-- A step that is no act brings a user at most from the session to the processing of its close. -/
theorem at_of_not_run (hord : Orderly σ) (h : step cfg σ l = some σ') (hl : ∀ t, l ≠ .run t)
    {p : Place} (hp : At σ' uid p) : At σ uid p ∨ p = .leaving ∧
      ∃ s, At σ uid (.session s) ∧ ¬ At σ' uid (.session s) := by
  cases p with
  | verifying s =>
    exact .inl (mem_of_not_run h hl rfl (by simp) hp)
  | session s =>
    obtain ⟨hv, huid, hlog⟩ := hp
    obtain ⟨-, -, hv', hu'⟩ := sessions_of_not_run h hl s
    exact .inl ⟨hv'.symm.trans hv, hu'.symm.trans huid, fun hmem => hlog (log_of_not_run h hl hmem)⟩
  | leaving =>
    rcases hp with ⟨s, hmem, hv, huid⟩ | hmem
    · obtain ⟨-, -, hv', hu'⟩ := sessions_of_not_run h hl s
      rcases processor_of_not_run h hl hmem with hold | ⟨hq, htaken⟩
      · exact .inl (.inl ⟨s, hold, hv'.symm.trans hv, hu'.symm.trans huid⟩)
      · refine .inr ⟨rfl, s, ⟨hv'.symm.trans hv, hu'.symm.trans huid, hord.notice.not_taken hq⟩, ?_⟩
        rintro ⟨-, -, hlog⟩
        exact hlog htaken
    · exact .inl (.inr (mem_of_not_run h hl rfl (by simp) hmem))
  | removal =>
    have hmem : uid ∈ σ'.onlineRemoval := hp
    rw [(online_of_not_run h hl).1] at hmem
    exact .inl hmem
  | erasing => exact .inl ((erasing_of_not_run h hl).mp hp)

/-- **What a step does to a user.** -/
theorem moves_step (hord : Orderly σ) (h : step cfg σ l = some σ') (hr : ∀ r, l ≠ .redis r) :
    Moves σ σ' uid l := by
  by_cases hl : ∃ t, l = .run t
  · obtain ⟨t, rfl⟩ := hl
    exact moves_run hord h
  · have hl : ∀ t, l ≠ .run t := fun t ht => hl ⟨t, ht⟩
    have hloc : σ'.redis.location uid = none → σ.redis.location uid = none := by
      rw [redis_of_not_run h hl hr]
      exact id
    by_cases hleft : ∃ s, At σ uid (.session s) ∧ ¬ At σ' uid (.session s)
    · obtain ⟨s, hat, hgone⟩ := hleft
      refine .goes (q := .leaving) hat hgone (fun r hp => ?_) hloc
      rcases at_of_not_run hord h hl hp with hold | ⟨heq, -⟩
      · exact .inr hold
      · exact .inl heq
    · refine .stays (fun p hp => ?_) hloc
      rcases at_of_not_run hord h hl hp with hold | ⟨-, hs⟩
      · exact hold
      · exact absurd hs hleft

end Chatroom.Backend
