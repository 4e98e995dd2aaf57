import Chatroom.Http.Logins

/-!
# The accounts and their requests

What is in the table comes from registrations, in the form that the logins need: `Security::Verify`
never throws on it, so no name and no password ends the gateway. Whoever has registered gets in with the
password, and only with it, as long as no name is inserted twice; and no two registrations get one uid,
as long as the clock is not set back.
-/

namespace Chatroom.Gateway

open Trace History
open Cluster (ReqId)
open Security (Bytes)

variable {cfg : Config} {σ σ' : State} {l : Label} {r r' : ReqId} {req : HttpRequest} {st : Stage}
  {rows : List Account} {workerId : UInt16} {acc : Account} {username passcode : List UInt8}

/-! ## The table

Rows are only added, and each row added is that of a registration: its hash is what `HashPassword` has
made of
the password in the request. -/

/-- A step leaves the table or inserts a row. -/
theorem Stepped.rows_cases (h : Stepped cfg σ l σ') : σ'.rows = σ.rows ∨
    ∃ r req username passcode uid codeHash x, l = .reply r (.inserted x) ∧ x.stored = true ∧
      σ.requests r = some (req, .insert username passcode uid codeHash) ∧
      σ'.rows = σ.rows ++ [⟨uid, username, codeHash⟩] ∧
      .registered r username passcode ⟨uid, username, codeHash⟩ ∈ σ'.log := by
  cases h with
  | request | unread | cluster => exact .inl rfl
  | reply hreq _ hh =>
    cases hh with
    | inserted hx =>
      refine .inr ⟨_, _, _, _, _, _, _, rfl, hx, hreq, rfl, log_goes _ _ _ _ ?_⟩
      exact mem_record rfl
    | _ => exact .inl rfl

/-- Every passcode has the form of what `HashPassword` makes. -/
def Hashed (rows : List Account) : Prop := ∀ acc ∈ rows, Security.OfForm acc.passcode

/-- What is inserted has been made by `HashPassword`. -/
theorem Hashed.step (h : Hashed σ.rows) (hhist : HistoryOk cfg σ) (hs : Stepped cfg σ l σ') :
    Hashed σ'.rows := by
  rcases hs.rows_cases with hsame | ⟨r, req, username, passcode, uid, codeHash, _, -, -, hreq, hrows, -⟩
  · rwa [hsame]
  · intro acc hacc
    rw [hrows, List.mem_append, List.mem_singleton] at hacc
    rcases hacc with hold | rfl
    · exact h acc hold
    · obtain ⟨-, salt, key, rfl⟩ := (hhist.requests r req _ hreq).stage
      exact Security.ofForm_hashPassword salt key (by decide) (by decide)

/-- A body on which the JSON parser throws, an error of Redis, a failure of `RAND_bytes`. -/
def Label.fatal (cfg : Config) : Label → Bool
  | .request _ req => req.method = .post ∧ (req.target = "/login" ∨ req.target = "/register") ∧
      cfg.parse req.body = .throws
  | .reply _ x => x.fatal
  | .cluster _ => false

def Stage.inserts : Stage → Option (List UInt8)
  | .insert username _ _ _ => some username
  | _ => none

/-- An `INSERT` is carried out only where the name is not in the table, as with a `UNIQUE` column or
without two registrations of the name at once. -/
def InsertsNew (cfg : Config) (σ : State) : Label → Prop
  | .reply r (.inserted x) => x.stored = true → ∀ p ∈ σ.requests r, ∀ username ∈ p.2.inserts,
      matching cfg σ.rows username = []
  | _ => True

instance : Decidable (InsertsNew cfg σ l) := by
  unfold InsertsNew
  split <;> infer_instance

/-- The collation decides, not the text. -/
theorem matching_congr {username' : List UInt8} (h : cfg.collate username' = cfg.collate username) :
    matching cfg rows username' = matching cfg rows username := by
  rw [matching, matching, h]

/-- A new row is listed last, under its own name. -/
theorem matching_concat (cfg : Config) (rows : List Account) (acc : Account) (username : List UInt8) :
    matching cfg (rows ++ [acc]) username = matching cfg rows username ++
      if cfg.collate acc.username = cfg.collate username then [acc] else [] := by
  rw [matching, matching, List.filter_append, List.filter_singleton]
  by_cases hname : cfg.collate acc.username = cfg.collate username
  · rw [if_pos hname, decide_eq_true hname]
    rfl
  · rw [if_neg hname, decide_eq_false hname]
    rfl

/-- An account is registered by the step that inserts it. -/
theorem Stepped.registered_cases (h : Stepped cfg σ l σ')
    (he : .registered r username passcode acc ∈ σ'.log) :
    .registered r username passcode acc ∈ σ.log ∨ ∃ req x, l = .reply r (.inserted x) ∧
      x.stored = true ∧ σ.requests r = some (req, .insert acc.username passcode acc.uid acc.passcode) ∧
      σ'.rows = σ.rows ++ [acc] := by
  -- other events than this one change nothing
  have hrecord : ∀ {σ₁ : State} {e' : Event} {r' req st},
      .registered r username passcode acc ∈ ((σ₁.record e').goes r' req st).log →
      σ₁.log = σ.log → e' ≠ .registered r username passcode acc →
      .registered r username passcode acc ∈ σ.log := by
    intro σ₁ e' r' req st hmem hlog hne
    rcases mem_record_goes hmem with hold | heq | ⟨resp, heq⟩
    · exact hlog ▸ hold
    · exact absurd heq.symm hne
    · cases heq
  cases h with
  | cluster | unread => exact .inl he
  | request => exact .inl (hrecord he rfl (by simp))
  | reply hreq _ hh =>
    cases hh with
    | threw | lost | aborted => exact .inl he
    | refused | routed | stamped | drawn | counted | salted =>
      rcases mem_goes he with hold | ⟨resp, heq⟩
      · exact .inl hold
      · cases heq
    | inserted hx =>
      rcases mem_record_goes he with hold | heq | ⟨resp, heq⟩
      · exact .inl hold
      · cases heq
        exact .inr ⟨_, _, rfl, hx, hreq, rfl⟩
      · cases heq
    | _ => exact .inl (hrecord he rfl (by simp))

/-- **The row of a registration is the only one with its name**, from then on: it was new when the row
was inserted, and nobody inserts it again. -/
theorem matching_of_registered
    (h : Reach (Gateway.step cfg) (InsertsNew cfg) (init rows workerId) σ) :
    ∀ {r username passcode acc}, .registered r username passcode acc ∈ σ.log →
      matching cfg σ.rows acc.username = [acc] := by
  induction h with
  | refl =>
    intro r username passcode acc hreg
    cases hreg
  | @tail σ σ' l _ hok hs ih =>
    intro r username passcode acc hreg
    have hstep := step_cases hs
    rcases hstep.registered_cases hreg with hold | ⟨req, x, rfl, hx, hreq, hrows⟩
    · have honly := ih hold
      rcases hstep.rows_cases with hsame | ⟨r', req', username', passcode', uid, codeHash, x, rfl, hx,
        hreq', hrows, -⟩
      · rwa [hsame]
      · have hnew := hok hx _ hreq' username' rfl
        have hne : ¬ cfg.collate username' = cfg.collate acc.username := by
          intro hsame
          rw [matching_congr hsame, honly] at hnew
          cases hnew
        rw [hrows, matching_concat, if_neg hne, honly]
        rfl
    · rw [hrows, matching_concat, hok hx _ hreq acc.username rfl, if_pos rfl]
      rfl

/-- A password gives the key of the one that the account was registered with. -/
def SameKey (cfg : Config) (salt : Bytes 16) (passcode code : List UInt8) : Prop :=
  cfg.kdf.derive code salt.val Security.defaultIter.toNat 64 =
    cfg.kdf.derive passcode salt.val Security.defaultIter.toNat 64

instance (cfg : Config) (salt : Bytes 16) (passcode code : List UInt8) :
    Decidable (SameKey cfg salt passcode code) :=
  inferInstanceAs (Decidable (_ = _))

/-- The round trip of `Security`, for the account that a registration inserts. -/
theorem verify_newAccount (uid : UInt64) (salt : Bytes 16) (key : Bytes 64) (code : List UInt8) :
    Security.verify cfg.kdf code (newAccount cfg username passcode uid salt key).passcode =
      .ok (decide (SameKey cfg salt passcode code)) := by
  show Security.verify cfg.kdf code (Security.hashPassword ..) = _
  rw [Security.hashPassword_eq salt key (by decide), Security.verify_text,
    Security.hashed_verify salt passcode code (by decide) (by decide)]
  rfl

/-- `VerifyUserInfo` where only one row has the name, and its hash can be read. -/
theorem verifyUserInfo_single {code : List UInt8} {same : Bool}
    (hmatching : matching cfg rows username = [acc])
    (hverify : Security.verify cfg.kdf code acc.passcode = .ok same) (first : ℕ) :
    verifyUserInfo cfg rows username code .answer first = if first = 0 then
      some (.ok (if same then (.success, some acc) else (.verifyFailed, none))) else none := by
  unfold verifyUserInfo
  dsimp only
  rw [hmatching, if_neg (List.cons_ne_nil acc [])]
  cases first with
  | zero =>
    show some (Security.verify cfg.kdf code acc.passcode >>= _) = _
    rw [hverify]
    rfl
  | succ n => rfl

/-- **Who has registered gets in with the password, and only with it**: at any later time, and whatever
else goes on, a login with the name of the account, once the database answers, goes on with its uid if
the password gives the same key, and is refused otherwise. -/
theorem registered_logs_in (cfg : Config) (rows : List Account) (workerId : UInt16) (σ : State)
    (h : Reach (Gateway.step cfg) (InsertsNew cfg) (init rows workerId) σ) (r₀ : ReqId)
    (username passcode : List UInt8) (acc : Account)
    (hreg : .registered r₀ username passcode acc ∈ σ.log) :
    ∃ salt : Bytes 16, ∀ r req username' code, σ.requests r = some (req, .verify username' code) →
      cfg.collate username' = cfg.collate username →
      (σ.terminated = false → (Gateway.step cfg σ (.reply r (.db .answer 0))).isSome) ∧
      ∀ first σ', Gateway.step cfg σ (.reply r (.db .answer first)) = some σ' →
        σ'.requests r = some (req, if SameKey cfg salt passcode code then .route acc.uid username'
          else .done (forbiddenRequest req "Incorrect login username or password")) := by
  -- the history says how the row was made; its salt is the one to be compared with
  obtain ⟨before, -, -, -, salt, key, hacc⟩ := (historyOk_of_reach h).log.of_mem hreg
  refine ⟨salt, fun r req username' code hreq hname => ?_⟩
  have hnamed : cfg.collate username' = cfg.collate acc.username := by
    rw [hname, hacc]
    rfl
  have hmatching : matching cfg σ.rows username' = [acc] :=
    (matching_congr hnamed).trans (matching_of_registered h hreg)
  have hverify : Security.verify cfg.kdf code acc.passcode =
      .ok (decide (SameKey cfg salt passcode code)) := by
    rw [hacc]
    exact verify_newAccount ..
  have hinfo := verifyUserInfo_single hmatching hverify
  refine ⟨fun hlive => ?_, fun first σ' hs => ?_⟩
  · simp only [Gateway.step, hlive, hreq, Option.bind_some, handle, hinfo]
    rfl
  · simp only [Gateway.step] at hs
    split at hs
    · rw [hreq, Option.bind_some] at hs
      obtain ⟨res, hres, rfl⟩ := Option.map_eq_some_iff.mp hs
      rw [hinfo] at hres
      split at hres
      · cases hres
        by_cases hkey : SameKey cfg salt passcode code
        · rw [decide_eq_true hkey, if_pos hkey]
          exact Function.update_self ..
        · rw [decide_eq_false hkey, if_neg hkey]
          exact Function.update_self ..
      · cases hres
    · cases hs

def exampleRegister : HttpRequest := ⟨.post, "/register", 11, true, loginText⟩

/-- What a registration gets. -/
def registering : List Reply :=
  [.clock [5], .db .answer 0, .salt (Security.zeroes 16) (Security.zeroes 64), .inserted .done]

/-- A user registers, and logs in with the same password. -/
theorem registered_logs_in_example : ∃ σ salt, Reach (Gateway.step exampleConfig)
    (InsertsNew exampleConfig) (init [] 0) σ ∧
    σ.requests 1 = some (exampleLogin, .verify [117] [112]) ∧
    (Gateway.step exampleConfig σ (.reply 1 (.db .answer 0))).isSome ∧
    ∀ first σ', Gateway.step exampleConfig σ (.reply 1 (.db .answer first)) = some σ' →
      σ'.requests 1 = some (exampleLogin, if SameKey exampleConfig salt [112] [112]
        then .route 20971520 [117]
        else .done (forbiddenRequest exampleLogin "Incorrect login username or password")) := by
  have hrun : (run (Gateway.step exampleConfig) (InsertsNew exampleConfig) (init [] 0)
      (.request 0 exampleRegister :: registering.map (.reply 0) ++ [.request 1 exampleLogin])).any (fun σ =>
        .registered 0 [117] [112] (newAccount exampleConfig [117] [112] 20971520 (Security.zeroes 16)
          (Security.zeroes 64)) ∈ σ.log ∧ σ.terminated = false ∧
        σ.requests 1 = some (exampleLogin, .verify [117] [112])) = true := by
    decide +kernel
  obtain ⟨σ, hreach, htest⟩ := exists_reach_of_run hrun
  obtain ⟨hreg, hlive, hreq⟩ := of_decide_eq_true htest
  obtain ⟨salt, hall⟩ := registered_logs_in exampleConfig [] 0 σ hreach 0 [117] [112] _ hreg
  obtain ⟨hsome, hnext⟩ := hall 1 exampleLogin [117] [112] hreq rfl
  exact ⟨σ, salt, hreach, hreq, hsome hlive, hnext⟩

/-! ## The uids

The uids are numbers of the generator: 42 bits of time, 10 of the worker, 12 of a sequence. With a
clock that
does not go back they increase. The start of the clock is a parameter, so that the rows of an earlier
run of the
gateway are below it. -/

def Event.generatedUid : Event → Option (ReqId × UInt64)
  | .generated r uid => some (r, uid)
  | _ => none

/-- The uids that the generator has given out, each with the request that got it. -/
def State.generated (σ : State) : List (ReqId × UInt64) := σ.log.filterMap Event.generatedUid

/-- An answer gives out no uid. -/
theorem generated_goes : (σ.goes r req st).generated = σ.generated := by
  unfold State.generated
  rw [goes_log, List.filterMap_append]
  cases st <;> exact List.append_nil _

theorem generated_record {e : Event} (h : e.generatedUid = none) : (σ.record e).generated = σ.generated := by
  show (σ.log ++ [e]).filterMap _ = _
  rw [List.filterMap_append, List.filterMap_cons_none h]
  exact List.append_nil _

/-- Only `Generate` gives out uids. -/
theorem Stepped.generated_cases (h : Stepped cfg σ l σ') :
    (σ'.generated = σ.generated ∧ σ'.gen = σ.gen) ∨ ∃ r readings uid,
      l = .reply r (.clock readings) ∧ σ.gen.generate readings = some ((uid, σ'.gen), []) ∧
      σ'.generated = σ.generated ++ [(r, uid)] := by
  cases h with
  | request => exact .inl ⟨generated_goes.trans (generated_record rfl), rfl⟩
  | cluster | unread => exact .inl ⟨rfl, rfl⟩
  | reply _ _ hh =>
    cases hh with
    | threw | lost | aborted => exact .inl ⟨rfl, rfl⟩
    | refused | routed | stamped | drawn | counted | salted => exact .inl ⟨generated_goes, rfl⟩
    | generated hgen =>
      refine .inr ⟨_, _, _, rfl, hgen, generated_goes.trans ?_⟩
      exact List.filterMap_append
    | attempt | token | kick | inserted =>
      exact .inl ⟨generated_goes.trans ((generated_record rfl).trans rfl), rfl⟩
    | verified | info => exact .inl ⟨generated_goes.trans (generated_record rfl), rfl⟩

/-- The clock is not set back behind the last uid or behind `start`, and not past the 42 bits. -/
def ClockForward (start : ℕ) (σ : State) : Label → Prop
  | .reply _ (.clock readings) =>
      ∀ t ∈ readings, σ.gen.lastTs ≤ t ∧ start ≤ t.toNat ∧ t.toNat < 2 ^ 42
  | _ => True

instance {start : ℕ} : Decidable (ClockForward start σ l) := by
  unfold ClockForward
  split
  · exact List.decidableBAll _ _
  · exact .isTrue trivial

/-- The number of the last uid of a generator. -/
def top (g : UIDGenerator) : ℕ := g.lastTs.toNat * 2 ^ 22 + g.workerId.toNat * 2 ^ 12 + g.seq.toNat

/-- A call with such a clock gives a number above the last one, and above all of the time before
`start`. -/
theorem top_of_generate {g g' : UIDGenerator} {readings : List UInt64} {uid : UInt64} {start : ℕ}
    (hg : g.Valid) (hclock : ∀ t ∈ readings, g.lastTs ≤ t ∧ start ≤ t.toNat ∧ t.toNat < 2 ^ 42)
    (hgen : g.generate readings = some ((uid, g'), [])) :
    g'.Valid ∧ uid.toNat = top g' ∧ top g < top g' ∧ start * 2 ^ 22 ≤ top g' := by
  have hcalled := UIDGenerator.generate_called hg hgen
  obtain ⟨skipped, hread⟩ := hcalled.read
  obtain ⟨hle, hstart, hlt⟩ := hclock g'.lastTs (by rw [hread]; simp)
  have hfields := UIDGenerator.pack_fields hlt hcalled.valid.workerId hcalled.valid.seq
  refine ⟨hcalled.valid, ?_, ?_, ?_⟩
  · rw [hcalled.uid_eq]
    exact hfields.2.2.2
  · have hseq := hg.seq
    have hseq' := hcalled.valid.seq
    unfold top
    rw [hcalled.worker]
    rcases hcalled.takes.before hle with hts | ⟨hts, hnum⟩
    · have := UInt64.lt_iff_toNat_lt.mp hts
      omega
    · rw [hts]
      omega
  · unfold top
    omega

/-- The generator is past all uids it has given out, and they increase. -/
structure UidsOk (start : ℕ) (σ : State) : Prop where
  valid : σ.gen.Valid
  below : ∀ p ∈ σ.generated, p.2.toNat ≤ top σ.gen ∧ start * 2 ^ 22 ≤ p.2.toNat
  increasing : σ.generated.Pairwise fun p q => p.2 < q.2

theorem UidsOk.step {start : ℕ} (h : UidsOk start σ) (hok : ClockForward start σ l)
    (hs : Stepped cfg σ l σ') : UidsOk start σ' := by
  rcases hs.generated_cases with ⟨hsame, hgen⟩ | ⟨r, readings, uid, rfl, hgen, hgenerated⟩
  · exact ⟨hgen ▸ h.valid, by rw [hsame, hgen]; exact h.below, by rw [hsame]; exact h.increasing⟩
  · obtain ⟨hvalid, huid, hlt, hstart⟩ := top_of_generate h.valid hok hgen
    refine ⟨hvalid, fun p hp => ?_, ?_⟩
    · rw [hgenerated, List.mem_append, List.mem_singleton] at hp
      rcases hp with hold | rfl
      · obtain ⟨hle, hge⟩ := h.below p hold
        exact ⟨by omega, hge⟩
      · show uid.toNat ≤ _ ∧ _ ≤ uid.toNat
        rw [huid]
        exact ⟨le_rfl, hstart⟩
    · rw [hgenerated, List.pairwise_append]
      refine ⟨h.increasing, List.pairwise_singleton .., fun p hp q hq => ?_⟩
      cases List.mem_singleton.mp hq
      have hle := (h.below p hp).1
      show p.2 < uid
      rw [UInt64.lt_iff_toNat_lt, huid]
      omega

/-- In every run with such a clock. -/
theorem uidsOk_of_reach {start : ℕ}
    (h : Reach (Gateway.step cfg) (ClockForward start) (init rows workerId) σ) : UidsOk start σ := by
  refine h.invariant ?_ fun _ _ _ hinv hok hs => hinv.step hok (step_cases hs)
  refine ⟨UIDGenerator.new_valid workerId, fun p hp => ?_, .nil⟩
  cases hp

/-- A uid is that of one request. -/
theorem UidsOk.request_eq {start : ℕ} (h : UidsOk start σ) {uid : UInt64}
    (hr : .generated r uid ∈ σ.log) (hr' : .generated r' uid ∈ σ.log) : r = r' := by
  have hp : (r, uid) ∈ σ.generated := List.mem_filterMap.mpr ⟨_, hr, rfl⟩
  have hq : (r', uid) ∈ σ.generated := List.mem_filterMap.mpr ⟨_, hr', rfl⟩
  have hnodup : (σ.generated.map Prod.snd).Nodup :=
    List.pairwise_map.mpr (h.increasing.imp fun hlt => UInt64.ne_of_lt hlt)
  cases List.inj_on_of_nodup_map hnodup hp hq rfl
  rfl

/-- The rows are those of the start and those that have been registered, and no two have one uid. -/
structure KeyOk (rows : List Account) (σ : State) : Prop where
  rows : ∀ acc ∈ σ.rows, acc ∈ rows ∨ ∃ r username passcode, .registered r username passcode acc ∈ σ.log
  nodup : (σ.rows.map Account.uid).Nodup

/-- What a request for an account has got is not yet in the table. -/
theorem UidsOk.uid_notMem {start : ℕ} (h : UidsOk start σ) (hhist : HistoryOk cfg σ)
    (hbacked : ∀ e ∈ σ.log, e.Backed σ) (hkey : KeyOk rows σ)
    (hrows : ∀ acc ∈ rows, acc.uid.toNat < start * 2 ^ 22) {uid : UInt64}
    {codeHash : List UInt8} (hreq : σ.requests r = some (req, .insert username passcode uid codeHash)) :
    uid ∉ σ.rows.map Account.uid := by
  intro hmem
  obtain ⟨acc, hacc, rfl⟩ := List.mem_map.mp hmem
  have hopen := hhist.requests r req _ hreq
  rcases hkey.rows acc hacc with hold | ⟨r', username', passcode', hreg⟩
  · have hbelow := (h.below (r, acc.uid) (List.mem_filterMap.mpr ⟨_, hopen.stage.1.2, rfl⟩)).2
    exact absurd (hrows acc hold) (not_lt.mpr hbelow)
  · -- the account was made for the same request, which is not answered yet
    obtain ⟨before, hsub, hgen, -⟩ := hhist.log.of_mem hreg
    cases h.request_eq hopen.stage.1.2 (hsub hgen)
    obtain ⟨-, resp, hresp⟩ := hbacked _ hreg
    exact hopen.unanswered rfl resp hresp

/-- By induction over the run: a row that is inserted has the uid of its request, which is new. -/
theorem keyOk_of_reach {start : ℕ} (hnodup : (rows.map Account.uid).Nodup)
    (hrows : ∀ acc ∈ rows, acc.uid.toNat < start * 2 ^ 22)
    (h : Reach (Gateway.step cfg) (ClockForward start) (init rows workerId) σ) : KeyOk rows σ := by
  induction h with
  | refl => exact ⟨fun acc hacc => .inl hacc, hnodup⟩
  | @tail σ σ' _ hr _ hs ih =>
    have hs := step_cases hs
    have hold : ∀ acc ∈ σ.rows, acc ∈ rows ∨
        ∃ r username passcode, .registered r username passcode acc ∈ σ'.log := by
      intro acc hacc
      rcases ih.rows acc hacc with hinit | ⟨r, username, passcode, hreg⟩
      · exact .inl hinit
      · exact .inr ⟨r, username, passcode, hs.grows.1 hreg⟩
    rcases hs.rows_cases with hsame | ⟨r, req, username, passcode, uid, codeHash, x, -, -, hreq, hnew,
      hreg⟩
    · exact ⟨by rw [hsame]; exact hold, by rw [hsame]; exact ih.nodup⟩
    · have hfresh := (uidsOk_of_reach hr).uid_notMem (historyOk_of_reach hr) (backed_of_reach hr) ih
        hrows hreq
      refine ⟨fun acc hacc => ?_, ?_⟩
      · rw [hnew, List.mem_append, List.mem_singleton] at hacc
        rcases hacc with hacc | rfl
        · exact hold acc hacc
        · exact .inr ⟨r, username, passcode, hreg⟩
      · rw [hnew, List.map_append, List.nodup_append]
        refine ⟨ih.nodup, List.nodup_singleton _, fun u hu u' hu' heq => ?_⟩
        cases List.mem_singleton.mp hu'
        rw [show u = uid from heq] at hu
        exact hfresh hu

/-- **A uid is a key of the table**, also across restarts of the gateway: with a clock that is not set
back, and that stands at the start behind the times of all uids in the table, no two accounts ever get
one uid. -/
theorem uids_unique (cfg : Config) (rows : List Account) (workerId : UInt16) (start : ℕ)
    (hnodup : (rows.map Account.uid).Nodup) (hrows : ∀ acc ∈ rows, acc.uid.toNat < start * 2 ^ 22)
    (σ : State) (h : Reach (Gateway.step cfg) (ClockForward start) (init rows workerId) σ) :
    (σ.rows.map Account.uid).Nodup :=
  (keyOk_of_reach hnodup hrows h).nodup

/-- Two registrations of one name, side by side and in one millisecond. -/
theorem uids_unique_example : ∃ σ, Reach (Gateway.step exampleConfig) (ClockForward 1)
    (init [⟨7, [118], []⟩] 0) σ ∧ (σ.rows.map Account.uid).Nodup ∧ σ.rows.length = 3 := by
  have hrun : (run (Gateway.step exampleConfig) (ClockForward 1) (init [⟨7, [118], []⟩] 0)
      (.request 0 exampleRegister :: .request 1 exampleRegister ::
        registering.flatMap fun x => [.reply 0 x, .reply 1 x])).any (fun σ => σ.rows.length = 3) =
      true := by
    decide +kernel
  obtain ⟨σ, hreach, htest⟩ := exists_reach_of_run hrun
  refine ⟨σ, hreach, uids_unique _ _ _ 1 ?_ ?_ σ hreach, of_decide_eq_true htest⟩
  · exact List.nodup_singleton _
  · intro acc hacc
    cases List.mem_singleton.mp hacc
    decide

end Chatroom.Gateway
