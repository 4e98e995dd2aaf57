import Mathlib.Data.Finset.Insert
import Chatroom.Lib.ExpiringHash
import Chatroom.Lib.Trace
import Chatroom.Utils.StdString

/-!
# Where a user is online

The key `status:<uid>` tells where a user is. The gateway creates it at the login, with the value
`unset` and a time of expiry for the whole key. The backend that the user connects to writes its own
id, with a time of expiry for each of the two fields, and its uploader extends the times of the
fields as long as the user is active. When the user leaves, the uploader deletes the key.

Of Redis it is assumed that `PEXPIRE` sets the time of the key, which `HSETEX` and `HEXPIRE` do not
change. So the time set at the login stays, however long the user is active: sixty seconds after the
login the user cannot be found. Times are in milliseconds.
-/

namespace Chatroom.OnlineStatus

open Trace ExpiringHash

abbrev Uid := UInt64
abbrev ServerId := UInt32

inductive StatusField where
  | serverId
  | status
  deriving DecidableEq, Repr

instance : Fintype StatusField := ⟨{.serverId, .status}, fun f => by cases f <;> decide⟩

/-- The key `status:<uid>`. -/
abbrev Entry := Hash StatusField (List UInt8)

/-- `std::to_string` of a server id. -/
def sidText (sid : ServerId) : List UInt8 := toDecimal sid.toNat

def unset : List UInt8 := "unset".toUTF8.data.toList
def verifyed : List UInt8 := "verifyed".toUTF8.data.toList
def online : List UInt8 := "online".toUTF8.data.toList

/-- The script of `UserLoginAttempt`, with its answer. -/
def userLoginAttempt (now : ℕ) (h : Entry) : Entry × List UInt8 :=
  match h.hget now .serverId with
  | some oldServer => (h, oldServer)
  | none => (((h.hset now .serverId unset).hset now .status verifyed).pexpire now 60000, [])

def updateUserStatus (now : ℕ) (sid : ServerId) (h : Entry) : Entry :=
  (h.hsetex now 30000 .serverId (sidText sid)).hsetex now 30000 .status online

/-- `HEXPIRE status:<uid> 30 FIELDS 2 server_id status`. -/
def refresh (now : ℕ) (h : Entry) : Entry :=
  (h.hexpire now 30000 .serverId).hexpire now 30000 .status

/-- The sets of an `OnlineStatusUploader`. -/
structure Uploader where
  sess : List Uid
  removalSess : List Uid
  deriving DecidableEq, Repr

structure State where
  now : ℕ
  entry : Uid → Entry
  uploader : ServerId → Uploader
  /-- History: when the entry of a user was last written or refreshed by a backend. -/
  refreshed : Uid → ℕ

def init : State where
  now := 0
  entry := fun _ => .empty
  uploader := fun _ => ⟨[], []⟩
  refreshed := fun _ => 0

def getUserLocation (σ : State) (uid : Uid) : Option (List UInt8) := (σ.entry uid).hget σ.now .serverId

inductive Label where
  | tick (d : ℕ)
  | userLoginAttempt (uid : Uid)
  | updateUserStatus (sid : ServerId) (uid : Uid)
  | addSession (sid : ServerId) (uid : Uid)
  | removeSession (sid : ServerId) (uid : Uid)
  | uploadImpl (sid : ServerId)
  deriving DecidableEq, Repr

/-- The gateway's script. -/
def State.login (σ : State) (uid : Uid) : State :=
  { σ with entry := Function.update σ.entry uid (OnlineStatus.userLoginAttempt σ.now (σ.entry uid)).1 }

/-- A backend has verified the user. -/
def State.arrive (σ : State) (sid : ServerId) (uid : Uid) : State :=
  { σ with
    entry := Function.update σ.entry uid (OnlineStatus.updateUserStatus σ.now sid (σ.entry uid))
    refreshed := Function.update σ.refreshed uid σ.now }

/-- The pipeline of `UploadImpl`: first the refreshes, then the deletions. -/
def State.upload (σ : State) (sid : ServerId) : State :=
  let up := σ.uploader sid
  { σ with
    uploader := Function.update σ.uploader sid ⟨[], []⟩
    entry := fun uid =>
      if uid ∈ up.removalSess then .empty
      else if uid ∈ up.sess then refresh σ.now (σ.entry uid)
      else σ.entry uid
    refreshed := fun uid => if uid ∈ up.sess then σ.now else σ.refreshed uid }

def step (σ : State) : Label → Option State
  | .tick d => some { σ with now := σ.now + d }
  | .userLoginAttempt uid => some (σ.login uid)
  | .updateUserStatus sid uid => some (σ.arrive sid uid)
  | .addSession sid uid =>
    let up := σ.uploader sid
    some { σ with
      uploader := Function.update σ.uploader sid ⟨up.sess.insert uid, up.removalSess⟩ }
  | .removeSession sid uid =>
    let up := σ.uploader sid
    some { σ with
      uploader := Function.update σ.uploader sid ⟨up.sess.erase uid, up.removalSess.insert uid⟩ }
  | .uploadImpl sid => some (σ.upload sid)

/-- The steps that leave the entry of `uid` to the refreshes: it is not created or written again, and
the user does not leave. -/
def Leaves (uid : Uid) (σ : State) : Label → Prop
  | .userLoginAttempt u => u = uid → getUserLocation σ uid ≠ none
  | .updateUserStatus _ u => u ≠ uid
  | .removeSession _ u => u ≠ uid
  | _ => True

/-- Moreover, less than thirty seconds pass without a refresh. -/
def Refreshes (uid : Uid) (σ : State) : Label → Prop
  | .tick d => σ.now + d < σ.refreshed uid + 30000
  | l => Leaves uid σ l

instance (uid : Uid) (σ : State) : ∀ l, Decidable (Leaves uid σ l)
  | .userLoginAttempt _ => inferInstanceAs (Decidable (_ → _))
  | .updateUserStatus _ _ => inferInstanceAs (Decidable (_ ≠ _))
  | .removeSession _ _ => inferInstanceAs (Decidable (_ ≠ _))
  | .tick _ | .addSession _ _ | .uploadImpl _ => .isTrue trivial

instance (uid : Uid) (σ : State) : ∀ l, Decidable (Refreshes uid σ l)
  | .tick _ => inferInstanceAs (Decidable (_ < _))
  | .userLoginAttempt u => inferInstanceAs (Decidable (Leaves uid σ (.userLoginAttempt u)))
  | .updateUserStatus b u => inferInstanceAs (Decidable (Leaves uid σ (.updateUserStatus b u)))
  | .removeSession b u => inferInstanceAs (Decidable (Leaves uid σ (.removeSession b u)))
  | .addSession b u => inferInstanceAs (Decidable (Leaves uid σ (.addSession b u)))
  | .uploadImpl b => inferInstanceAs (Decidable (Leaves uid σ (.uploadImpl b)))

variable {σ σ' : State} {l : Label} {uid : Uid} {sid : ServerId} {now t : ℕ} {h : Entry}

/-! ## The entry of a user

What a step does to the entry of a user who stays: nothing, or a refresh. That the user stays is said
of
the sets of all uploaders, since an upload deletes whatever is in `removal_sess_`, however old. -/

theorem entry_login_self : (σ.login uid).entry uid = (userLoginAttempt σ.now (σ.entry uid)).1 :=
  Function.update_self ..

/-- No removal of the user is to come. -/
def Stays (uid : Uid) (σ : State) : Prop := ∀ b, uid ∉ (σ.uploader b).removalSess

/-- The sets of one uploader change, and the user is not among its removals. -/
theorem Stays.update (h : Stays uid σ) {up : Uploader} (hup : uid ∉ up.removalSess) (b' : ServerId) :
    uid ∉ (Function.update σ.uploader sid up b').removalSess := by
  rcases eq_or_ne b' sid with rfl | hne
  · rwa [Function.update_self]
  · rw [Function.update_of_ne hne]
    exact h b'

/-- **What becomes of the entry of a user who stays**: nothing, or it is refreshed. -/
theorem entry_of_leaves (hstays : Stays uid σ) (hok : Leaves uid σ l) (hs : step σ l = some σ') :
    Stays uid σ' ∧ σ.now ≤ σ'.now ∧
      (σ'.entry uid = σ.entry uid ∧ σ'.refreshed uid = σ.refreshed uid ∨
        σ'.entry uid = refresh σ.now (σ.entry uid) ∧ σ'.refreshed uid = σ.now ∧ σ'.now = σ.now) := by
  -- only an upload touches the entry, and the user is in no set of removals
  cases l with
  | tick d =>
    cases hs
    exact ⟨hstays, Nat.le_add_right _ _, .inl ⟨rfl, rfl⟩⟩
  | userLoginAttempt u =>
    cases hs
    refine ⟨hstays, Nat.le_refl _, .inl ⟨?_, rfl⟩⟩
    rcases eq_or_ne u uid with rfl | hne
    · rw [entry_login_self, userLoginAttempt]
      cases hloc : (σ.entry u).hget σ.now .serverId with
      | none => exact absurd hloc (hok rfl)
      | some old => rfl
    · exact Function.update_of_ne hne.symm ..
  | updateUserStatus b u =>
    cases hs
    refine ⟨hstays, Nat.le_refl _, .inl ⟨?_, ?_⟩⟩
    · exact Function.update_of_ne hok.symm ..
    · exact Function.update_of_ne hok.symm ..
  | addSession b u =>
    cases hs
    exact ⟨hstays.update (hstays b), Nat.le_refl _, .inl ⟨rfl, rfl⟩⟩
  | removeSession b u =>
    cases hs
    refine ⟨hstays.update ?_, Nat.le_refl _, .inl ⟨rfl, rfl⟩⟩
    rw [List.mem_insert_iff]
    rintro (rfl | hmem)
    · exact hok rfl
    · exact hstays b hmem
  | uploadImpl b =>
    cases hs
    refine ⟨hstays.update List.not_mem_nil, Nat.le_refl _, ?_⟩
    dsimp only [State.upload]
    rw [if_neg (hstays b)]
    by_cases hmem : uid ∈ (σ.uploader b).sess
    · rw [if_pos hmem, if_pos hmem]
      exact .inr ⟨rfl, rfl, rfl⟩
    · rw [if_neg hmem, if_neg hmem]
      exact .inl ⟨rfl, rfl⟩

/-! ## What is seen of an entry

`GetUserLocation` after each of the operations, at the same time. These equations are all that the
model
of the cluster uses of this one. -/

/-- The script answers with the old id, and a user who could not be found is `unset` from then on. -/
theorem hget_userLoginAttempt (now : ℕ) (h : Entry) :
    (userLoginAttempt now h).1.hget now .serverId = some ((h.hget now .serverId).getD unset) ∧
      (userLoginAttempt now h).2 = (h.hget now .serverId).getD [] := by
  unfold userLoginAttempt
  cases hloc : h.hget now .serverId with
  | none =>
    refine ⟨?_, rfl⟩
    show Hash.hget _ _ _ = some unset
    rw [Hash.hget, Hash.live_pexpire (by decide), ← Hash.hget, Hash.hset,
      Hash.hget_modify_of_ne (by decide), Hash.hget_hset_self]
  | some old => exact ⟨hloc, rfl⟩

/-- A backend that has written its id is found. -/
theorem hget_updateUserStatus (now : ℕ) (sid : ServerId) (h : Entry) :
    (updateUserStatus now sid h).hget now .serverId = some (sidText sid) := by
  rw [updateUserStatus, Hash.hsetex, Hash.hget_modify_of_ne (by decide),
    Hash.hget_hsetex_self (by decide)]

/-- A refresh changes nothing that is seen. -/
theorem hget_refresh (now : ℕ) (h : Entry) :
    (refresh now h).hget now .serverId = h.hget now .serverId := by
  rw [refresh, Hash.hget_hexpire (by decide), Hash.hget_hexpire (by decide)]

/-- The login of a user who can be found changes nothing. -/
theorem getUserLocation_login : getUserLocation (σ.login uid) =
    Function.update (getUserLocation σ) uid (some ((getUserLocation σ uid).getD unset)) := by
  funext u
  dsimp only [getUserLocation, State.login]
  rcases eq_or_ne u uid with rfl | hne
  · rw [Function.update_self, Function.update_self]
    exact (hget_userLoginAttempt σ.now (σ.entry u)).1
  · rw [Function.update_of_ne hne, Function.update_of_ne hne, getUserLocation]

/-- The arrival of a user at a backend. -/
theorem getUserLocation_arrive : getUserLocation (σ.arrive sid uid) =
    Function.update (getUserLocation σ) uid (some (sidText sid)) := by
  funext u
  dsimp only [getUserLocation, State.arrive]
  rcases eq_or_ne u uid with rfl | hne
  · rw [Function.update_self, Function.update_self]
    exact hget_updateUserStatus σ.now sid (σ.entry u)
  · rw [Function.update_of_ne hne, Function.update_of_ne hne, getUserLocation]

/-- Of an upload only the deletions are seen. -/
theorem getUserLocation_upload : getUserLocation (σ.upload sid) =
    fun u => if u ∈ (σ.uploader sid).removalSess then none else getUserLocation σ u := by
  funext u
  unfold getUserLocation
  dsimp only [State.upload]
  split
  · rfl
  · split
    · exact hget_refresh σ.now (σ.entry u)
    · rfl

/-- As the time goes on, an entry can only be lost. -/
theorem getUserLocation_tick {d : ℕ} :
    getUserLocation { σ with now := σ.now + d } uid = getUserLocation σ uid ∨
      getUserLocation { σ with now := σ.now + d } uid = none := by
  unfold getUserLocation
  dsimp only
  cases hlive : (σ.entry uid).live (σ.now + d) .serverId with
  | none => exact .inr (by rw [Hash.hget, hlive]; rfl)
  | some x =>
    left
    rw [Hash.hget, Hash.hget, hlive, Hash.live_mono (Nat.le_add_right _ _) hlive]

/-! ## The time set at the login

`PEXPIRE` at the login is the only command that sets the time of the key, and it does so only for a
key
that it has just made. Writing and refreshing fields keep it. -/

/-- A refresh keeps the time of the key, or there was no key. -/
theorem expiresAt_refresh (now : ℕ) (h : Entry) :
    (refresh now h).expiresAt = h.expiresAt ∨ refresh now h = .empty := by
  unfold refresh
  rcases h.expiresAt_hexpire now 30000 .serverId with hsame | hgone
  · rcases (h.hexpire now 30000 .serverId).expiresAt_hexpire now 30000 .status with hsame' | hgone'
    · exact .inl (hsame'.trans hsame)
    · exact .inr hgone'
  · rw [hgone]
    exact .inr (Hash.hexpire_empty ..)

/-- What has expired is not refreshed back to life. -/
theorem refresh_of_expired (hkey : alive now h.expiresAt = false) : refresh now h = .empty := by
  rw [refresh, Hash.hexpire_of_purge (Hash.purge_of_expired hkey), Hash.hexpire_empty]

/-- From the login on the key has this time of expiry, or it is gone. -/
structure LoggedIn (uid : Uid) (t : ℕ) (σ : State) : Prop where
  stays : Stays uid σ
  key : (σ.entry uid).expiresAt = some t ∨ σ.entry uid = .empty

/-- As long as the entry is left to the refreshes, the time set at the login stays. -/
theorem LoggedIn.step (hin : LoggedIn uid t σ) (hok : Leaves uid σ l) (hs : step σ l = some σ') :
    LoggedIn uid t σ' := by
  obtain ⟨hstays, -, ⟨hsame, -⟩ | ⟨hrefreshed, -, -⟩⟩ := entry_of_leaves hin.stays hok hs
  · exact ⟨hstays, hsame ▸ hin.key⟩
  · refine ⟨hstays, ?_⟩
    rw [hrefreshed]
    rcases hin.key with hkey | hgone
    · exact (expiresAt_refresh σ.now (σ.entry uid)).imp (·.trans hkey) id
    · rw [hgone]
      exact .inr (by rw [refresh, Hash.hexpire_empty, Hash.hexpire_empty])

/-- The login creates the entry. -/
theorem loggedIn_login (hstays : Stays uid σ) (hnone : getUserLocation σ uid = none) :
    LoggedIn uid (σ.now + 60000) (σ.login uid) := by
  refine ⟨hstays, .inl ?_⟩
  have hnone' : (σ.entry uid).hget σ.now .serverId = none := hnone
  rw [entry_login_self, userLoginAttempt, hnone']
  refine Hash.expiresAt_pexpire (f := .status) (x := ⟨verifyed, none⟩) ?_
  rw [Hash.hset, Hash.live_modify_self]
  rfl

/-! ## From the arrival on

After the arrival the field with the id lasts 30 seconds from the last refresh, and refreshes come
sooner
than that. So the field never expires by itself, and what ends is the key. -/

/-- The backend's id is in an entry that lasts until the key expires at `t`, or the key has expired. -/
structure Arrived (uid : Uid) (sid : ServerId) (t : ℕ) (σ : State) : Prop where
  stays : Stays uid σ
  recent : σ.now < σ.refreshed uid + 30000
  key : ((σ.entry uid).expiresAt = some t ∧ ∃ e, (σ.entry uid).fields .serverId =
      some ⟨sidText sid, some e⟩ ∧ σ.refreshed uid + 30000 ≤ e) ∨
    t ≤ σ.now ∧ σ.entry uid = .empty

/-- The id can be read while neither the time of the key nor that of the field has come. -/
theorem live_of_key {e : ℕ} (hkey : h.expiresAt = some t) (hnow : now < t)
    (hfield : h.fields .serverId = some ⟨sidText sid, some e⟩) (he : now < e) :
    h.live now .serverId = some ⟨sidText sid, some e⟩ := by
  rw [Hash.live_eq_some_iff, hkey]
  exact ⟨by simpa [alive] using hnow, hfield, by simpa [alive] using he⟩

/-- A refresh in time. -/
theorem refresh_key {e : ℕ} (hkey : h.expiresAt = some t) (hnow : now < t)
    (hfield : h.fields .serverId = some ⟨sidText sid, some e⟩) (he : now < e) :
    (refresh now h).expiresAt = some t ∧
      (refresh now h).fields .serverId = some ⟨sidText sid, some (now + 30000)⟩ := by
  have hlive := live_of_key hkey hnow hfield he
  have hlive' : (h.hexpire now 30000 .serverId).live now .serverId =
      some ⟨sidText sid, some (now + 30000)⟩ := by
    rw [Hash.hexpire, Hash.live_modify_self, hlive]
    simp [alive]
  refine ⟨?_, ?_⟩
  · rw [refresh, Hash.hexpire, Hash.expiresAt_modify hlive', Hash.hexpire,
      Hash.expiresAt_modify hlive, hkey]
  · rw [refresh, Hash.hexpire, Hash.fields_modify_of_ne (by decide), hlive']

/-- Runs with refreshes leave the entry alone otherwise. -/
theorem Refreshes.leaves (hok : Refreshes uid σ l) : Leaves uid σ l := by
  cases l with
  | tick => trivial
  | _ => exact hok

/-- The step lemma: a refresh comes in time, or the key has expired already. -/
theorem Arrived.step (harr : Arrived uid sid t σ) (hok : Refreshes uid σ l)
    (hs : step σ l = some σ') : Arrived uid sid t σ' := by
  obtain ⟨hstays, hle, ⟨hsame, hrefreshed⟩ | ⟨hentry, hrefreshed, hnow⟩⟩ :=
    entry_of_leaves harr.stays hok.leaves hs
  · refine ⟨hstays, ?_, ?_⟩
    · rw [hrefreshed]
      cases l with
      | tick d =>
        cases hs
        exact hok
      | _ =>
        cases hs
        exact harr.recent
    · rw [hsame, hrefreshed]
      exact harr.key.imp id fun hgone => ⟨Nat.le_trans hgone.1 hle, hgone.2⟩
  · refine ⟨hstays, by omega, ?_⟩
    rw [hentry, hrefreshed, hnow]
    rcases harr.key with ⟨hkey, e, hfield, hlater⟩ | ⟨hlate, hgone⟩
    · -- before the key expires the field is extended, after that there is nothing to extend
      by_cases hin : σ.now < t
      · have he : σ.now < e := by have := harr.recent; omega
        obtain ⟨hkey', hfield'⟩ := refresh_key hkey hin hfield he
        exact .inl ⟨hkey', _, hfield', Nat.le_refl _⟩
      · refine .inr ⟨Nat.le_of_not_lt hin, refresh_of_expired ?_⟩
        rw [hkey]
        simpa [alive] using hin
    · refine .inr ⟨hlate, ?_⟩
      rw [hgone, refresh, Hash.hexpire_empty, Hash.hexpire_empty]

/-- The user is found exactly until the key expires. -/
theorem Arrived.location (harr : Arrived uid sid t σ) :
    getUserLocation σ uid = some (sidText sid) ↔ σ.now < t := by
  unfold getUserLocation
  rcases harr.key with ⟨hkey, e, hfield, hlater⟩ | ⟨hlate, hgone⟩
  · have he : σ.now < e := by have := harr.recent; omega
    constructor
    · intro hloc
      by_contra hlate
      have hdead : alive σ.now (σ.entry uid).expiresAt = false := by
        rw [hkey]
        simpa [alive] using hlate
      rw [Hash.hget, Hash.live_of_expired hdead] at hloc
      cases hloc
    · intro hnow
      rw [Hash.hget, live_of_key hkey hnow hfield he]
      rfl
  · rw [hgone, Hash.hget_empty]
    constructor
    · intro hloc
      cases hloc
    · intro hnow
      exact absurd hlate (Nat.not_le.mpr hnow)

/-- The backend writes its id to an entry that is still there. -/
theorem LoggedIn.arrive (hin : LoggedIn uid t σ) (hexists : getUserLocation σ uid ≠ none) :
    Arrived uid sid t (σ.arrive sid uid) := by
  obtain ⟨v, hv⟩ := Option.ne_none_iff_exists'.mp hexists
  obtain ⟨x, hlive, -⟩ := Option.map_eq_some_iff.mp hv
  have hkey : (σ.entry uid).expiresAt = some t := by
    rcases hin.key with hkey | hgone
    · exact hkey
    · rw [hgone] at hlive
      cases hlive
  have hentry : (σ.arrive sid uid).entry uid = updateUserStatus σ.now sid (σ.entry uid) :=
    Function.update_self ..
  have hrefreshed : (σ.arrive sid uid).refreshed uid = σ.now := Function.update_self ..
  have hwritten : ((σ.entry uid).hsetex σ.now 30000 .serverId (sidText sid)).live σ.now .serverId =
      some ⟨sidText sid, some (σ.now + 30000)⟩ := by
    rw [Hash.hsetex, Hash.live_modify_self]
    simp [alive]
  refine ⟨hin.stays, ?_, .inl ⟨?_, σ.now + 30000, ?_, ?_⟩⟩
  · rw [hrefreshed]
    exact Nat.lt_add_of_pos_right (by decide)
  · rw [hentry, updateUserStatus, Hash.hsetex, Hash.expiresAt_modify hwritten, Hash.hsetex,
      Hash.expiresAt_modify hlive, hkey]
  · rw [hentry, updateUserStatus, Hash.hsetex, Hash.fields_modify_of_ne (by decide), hwritten]
  · rw [hrefreshed]

/-- **A user who is online can be found for sixty seconds from the login, and no longer**, however
often the backend refreshes the entry; provided that no backend has an older removal of the user to
upload when the entry is created. -/
theorem getUserLocation_iff {σ₀ σ₁ : State} (hnone : getUserLocation σ₀ uid = none)
    (hstays : Stays uid σ₀) (hlogin : Reach step (Leaves uid) (σ₀.login uid) σ₁)
    (hexists : getUserLocation σ₁ uid ≠ none)
    (hactive : Reach step (Refreshes uid) (σ₁.arrive sid uid) σ) :
    getUserLocation σ uid = some (sidText sid) ↔ σ.now < σ₀.now + 60000 := by
  have hin : LoggedIn uid (σ₀.now + 60000) σ₁ :=
    hlogin.invariant (loggedIn_login hstays hnone) fun _ _ _ hinv hok hs => hinv.step hok hs
  have harr : Arrived uid sid (σ₀.now + 60000) σ :=
    hactive.invariant (hin.arrive hexists) fun _ _ _ hinv hok hs => hinv.step hok hs
  exact harr.location

/-- An older removal deletes the new entry: the user has left backend 1, whose upload comes late, and is
on backend 2 by then. -/
example : (run step anyStep init [.removeSession 1 7, .userLoginAttempt 7, .updateUserStatus 2 7,
    .uploadImpl 1]).any (fun σ => getUserLocation σ 7 = none) = true := by
  decide +kernel

/-- User 7 has logged in and comes to backend 1 a second later. -/
def arrived : State := { init.login 7 with now := 1000 }.arrive 1 7

theorem reach_arrived : Reach step (Leaves 7) (init.login 7) { init.login 7 with now := 1000 } := by
  have hrun : run step (Leaves 7) (init.login 7) [.tick 1000] = some _ := rfl
  exact reach_of_run hrun

/-- The user is active, and the backend refreshes the entry every ten seconds. -/
def refreshing (n : ℕ) : List Label :=
  (List.replicate n [.addSession 1 7, .tick 10000, .uploadImpl 1]).flatten

theorem getUserLocation_active : ∃ σ, Reach step (Refreshes 7) arrived σ ∧ σ.now = 51000 ∧
    getUserLocation σ 7 = some (sidText 1) := by
  have hrun : (run step (Refreshes 7) arrived (refreshing 5)).any (fun σ => σ.now = 51000) = true := by
    decide +kernel
  obtain ⟨σ, hreach, htest⟩ := exists_reach_of_run hrun
  have hnow : σ.now = 51000 := by simpa using htest
  have hiff : getUserLocation σ 7 = some (sidText 1) ↔ σ.now < init.now + 60000 :=
    getUserLocation_iff rfl (fun _ => List.not_mem_nil) reach_arrived (by decide +kernel) hreach
  refine ⟨σ, hreach, hnow, hiff.mpr ?_⟩
  rw [hnow]
  decide

/-- At sixty seconds the key is gone, although the entry was refreshed nine seconds before. -/
theorem getUserLocation_lost : ∃ σ, Reach step (Refreshes 7) arrived σ ∧ σ.now = 60000 ∧
    σ.refreshed 7 = 51000 ∧ getUserLocation σ 7 = none := by
  have hrun : (run step (Refreshes 7) arrived (refreshing 5 ++ [.tick 9000])).any (fun σ =>
      σ.now = 60000 ∧ σ.refreshed 7 = 51000 ∧ getUserLocation σ 7 = none) = true := by
    decide +kernel
  obtain ⟨σ, hreach, htest⟩ := exists_reach_of_run hrun
  exact ⟨σ, hreach, by simpa using htest⟩

end Chatroom.OnlineStatus
