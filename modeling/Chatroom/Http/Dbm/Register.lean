import Mathlib.Data.List.Count
import Mathlib.Logic.Function.Basic
import Mathlib.Logic.ExistsUnique
import Chatroom.Lib.Trace

/-!
# Registration (`DBConn::RegisterNew`)

A call counts the rows with the username and, if there is none, inserts one. The two statements are
separate steps, and calls on different connections go on between them. Whether `tbl_user` has a
unique index on the username is not in the repository, so it is a parameter; with one, an `INSERT`
that violates it reports an error.

Two calls that count before either inserts both try to insert. Without the index both succeed, with
it the second reports a failure of the server. `InsertsNew` is the condition on the steps that this
does not happen. With the index, one call succeeds in every run, and the table is right.
-/

namespace Chatroom.Gateway.Register

open Trace

/-- What the functions on the database return. -/
inductive GatewayCode where
  | success
  | userNotExist
  | verifyFailed
  | regAlreadyExist
  | regUidAlreadyExist
  | unknownError
  | connectionError
  | mysqlServerError
  deriving DecidableEq, Repr

/-- A row of `tbl_user`. -/
structure Row where
  uid : UInt64
  username : String
  passcode : String
  deriving DecidableEq, Repr

/-- The arguments of a call. -/
structure Request where
  username : String
  passcode : String
  uid : UInt64
  deriving DecidableEq, Repr

/-- The calls, the hashes that `HashPassword` makes for them, and whether usernames are unique. -/
structure Setting where
  unique : Bool
  req : ℕ → Request
  hash : ℕ → String → String

inductive Phase where
  | idle
  /-- The name was not there: about to insert. -/
  | checked
  | returned (code : GatewayCode)
  deriving DecidableEq, Repr

structure State where
  rows : List Row
  phase : ℕ → Phase

def init (rows : List Row) : State := ⟨rows, fun _ => .idle⟩

/-- `SELECT COUNT(*) FROM tbl_user WHERE username = ?`. -/
def count (rows : List Row) (name : String) : ℕ := rows.countP fun row => row.username = name

def State.goes (σ : State) (i : ℕ) (p : Phase) : State :=
  { σ with phase := Function.update σ.phase i p }

/-- The statements of call `i`; `err` says that the database fails. -/
inductive Label where
  | select (i : ℕ) (err : Bool)
  | insert (i : ℕ) (err : Bool)

variable (e : Setting)

/-- The username of call `i`, and the row it inserts. -/
def name (i : ℕ) : String := (e.req i).username

def row (i : ℕ) : Row where
  uid := (e.req i).uid
  username := name e i
  passcode := e.hash i (e.req i).passcode

def step (σ : State) : Label → Option State
  | .select i err =>
    if σ.phase i = .idle then
      if err then some (σ.goes i (.returned .mysqlServerError))
      else if 0 < count σ.rows (name e i) then some (σ.goes i (.returned .regAlreadyExist))
      else some (σ.goes i .checked)
    else none
  | .insert i err =>
    if σ.phase i = .checked then
      if err then some (σ.goes i (.returned .mysqlServerError))
      else if e.unique = true ∧ 0 < count σ.rows (name e i) then
        some (σ.goes i (.returned .mysqlServerError))
      else some ({ σ with rows := σ.rows ++ [row e i] }.goes i (.returned .success))
    else none

/-- The database does not fail. -/
def NoFailure (_ : State) : Label → Prop
  | .select _ err => err = false
  | .insert _ err => err = false

/-- Nor has anybody inserted the name since it was counted. -/
def InsertsNew (σ : State) : Label → Prop
  | .select _ err => err = false
  | .insert i err => err = false ∧ count σ.rows (name e i) = 0

instance (σ : State) : ∀ l, Decidable (NoFailure σ l)
  | .select .. => inferInstanceAs (Decidable (_ = _))
  | .insert .. => inferInstanceAs (Decidable (_ = _))

instance (σ : State) : ∀ l, Decidable (InsertsNew e σ l)
  | .select .. => inferInstanceAs (Decidable (_ = _))
  | .insert .. => inferInstanceAs (Decidable (_ ∧ _))

/-- No call for a name is under way. -/
def Finished (σ : State) (user : String) : Prop :=
  ∀ i, name e i = user → σ.phase i = .idle ∨ ∃ code, σ.phase i = .returned code

/-- One call has registered the name, the others found it there, and it is there once. -/
structure RegisteredOnce (σ : State) (user : String) : Prop where
  winner : ∃! i, name e i = user ∧ σ.phase i = .returned .success
  others : ∀ i, name e i = user → σ.phase i ≠ .idle → σ.phase i = .returned .success ∨
    σ.phase i = .returned .regAlreadyExist
  rows : count σ.rows user = 1

/-! ## What a step can do

Four cases for two statements: each of them finds the name in the table or does not. A step that fails
is not
among them, since all results here are about a database that does not. -/

variable {e} {σ σ' : State} {l : Label} {user : String} {i : ℕ}

/-- The steps of calls on a database that does not fail. -/
inductive Stepped (e : Setting) (σ : State) : Label → State → Prop
  | present {i : ℕ} : σ.phase i = .idle → 0 < count σ.rows (name e i) →
      Stepped e σ (.select i false) (σ.goes i (.returned .regAlreadyExist))
  | absent {i : ℕ} : σ.phase i = .idle → count σ.rows (name e i) = 0 →
      Stepped e σ (.select i false) (σ.goes i .checked)
  | violates {i : ℕ} : σ.phase i = .checked → e.unique = true → 0 < count σ.rows (name e i) →
      Stepped e σ (.insert i false) (σ.goes i (.returned .mysqlServerError))
  | inserts {i : ℕ} : σ.phase i = .checked → (e.unique = true → count σ.rows (name e i) = 0) →
      Stepped e σ (.insert i false)
        ({ σ with rows := σ.rows ++ [row e i] }.goes i (.returned .success))

/-- The steps on a database that does not fail. -/
theorem step_cases (hok : NoFailure σ l) (hs : step e σ l = some σ') : Stepped e σ l σ' := by
  cases l with
  | select i err =>
    cases hok
    simp only [step, Bool.false_eq_true, if_false] at hs
    split at hs
    · next hidle =>
      split at hs
      · next hpos =>
        cases hs
        exact .present hidle hpos
      · next hnone =>
        cases hs
        exact .absent hidle (Nat.eq_zero_of_not_pos hnone)
    · cases hs
  | insert i err =>
    cases hok
    simp only [step, Bool.false_eq_true, if_false] at hs
    split at hs
    · next hchecked =>
      split at hs
      · next hviolates =>
        cases hs
        exact .violates hchecked hviolates.1 hviolates.2
      · next hfree =>
        cases hs
        refine .inserts hchecked fun hunique => ?_
        exact Nat.eq_zero_of_not_pos fun hpos => hfree ⟨hunique, hpos⟩
    · cases hs

theorem goes_self (p : Phase) : (σ.goes i p).phase i = p := Function.update_self ..

theorem goes_of_ne {j : ℕ} {p : Phase} (h : j ≠ i) : (σ.goes i p).phase j = σ.phase j :=
  Function.update_of_ne h ..

/-- A row counts for its own name. -/
theorem count_append_row (rows : List Row) :
    count (rows ++ [row e i]) user = count rows user + if name e i = user then 1 else 0 := by
  simp [count, List.countP_append, List.countP_singleton, row]

/-! ## The history of a name

For a name that is not in the table at first. Nobody has inserted it yet and the calls for it have at
most counted; or one has inserted it, and the others that have returned were refused, with a code
that `refusal` allows. -/

/-- Where a call for the name may be that has not registered it. -/
def Behind (refusal : GatewayCode → Prop) (p : Phase) : Prop :=
  p = .idle ∨ p = .checked ∨ ∃ code, refusal code ∧ p = .returned code

inductive NameOk (e : Setting) (refusal : GatewayCode → Prop) (user : String) (σ : State) : Prop
  | free : count σ.rows user = 0 →
      (∀ i, name e i = user → σ.phase i = .idle ∨ σ.phase i = .checked) → NameOk e refusal user σ
  | taken (i : ℕ) : count σ.rows user = 1 → name e i = user → σ.phase i = .returned .success →
      (∀ j, name e j = user → j ≠ i → Behind refusal (σ.phase j)) → NameOk e refusal user σ

variable {refusal : GatewayCode → Prop}

/-- A call for another name is nothing to this one. -/
theorem NameOk.of_other (h : NameOk e refusal user σ) {p : Phase} (hi : name e i ≠ user) :
    NameOk e refusal user (σ.goes i p) := by
  have hsame : ∀ j, name e j = user → (σ.goes i p).phase j = σ.phase j := by
    intro j hj
    exact goes_of_ne fun heq => hi (heq ▸ hj)
  cases h with
  | free hcount hphases =>
    refine .free hcount fun j hj => ?_
    rw [hsame j hj]
    exact hphases j hj
  | taken w hcount hw hsuccess hphases =>
    refine .taken w hcount hw ?_ fun j hj hne => ?_
    · rw [hsame w hw]
      exact hsuccess
    · rw [hsame j hj]
      exact hphases j hj hne

/-- A call that has not registered the name goes on without doing so. -/
theorem NameOk.of_behind (h : NameOk e refusal user σ) {p : Phase} (hi : name e i = user)
    (hp : σ.phase i ≠ .returned .success)
    (hopen : count σ.rows user = 0 → p = .checked) (htaken : 0 < count σ.rows user → Behind refusal p) :
    NameOk e refusal user (σ.goes i p) := by
  cases h with
  | free hcount hphases =>
    refine .free hcount fun j hj => ?_
    rcases eq_or_ne j i with rfl | hne
    · rw [goes_self, hopen hcount]
      exact .inr rfl
    · rw [goes_of_ne hne]
      exact hphases j hj
  | taken w hcount hw hsuccess hphases =>
    have hwi : w ≠ i := fun heq => hp (heq ▸ hsuccess)
    refine .taken w hcount hw ?_ fun j hj hne => ?_
    · rw [goes_of_ne hwi]
      exact hsuccess
    · rcases eq_or_ne j i with rfl | hji
      · rw [goes_self]
        exact htaken (by show 0 < count σ.rows user; omega)
      · rw [goes_of_ne hji]
        exact hphases j hj hne

/-- The first `INSERT` of the name. -/
theorem NameOk.insert (h : NameOk e refusal user σ) (hi : name e i = user)
    (hcount : count σ.rows user = 0) :
    NameOk e refusal user
      ({ σ with rows := σ.rows ++ [row e i] }.goes i (.returned .success)) := by
  cases h with
  | taken _ hone => omega
  | free _ hphases =>
    refine .taken i ?_ hi (goes_self _) fun j hj hne => ?_
    · show count (σ.rows ++ [row e i]) user = 1
      rw [count_append_row, if_pos hi, hcount]
    · rw [goes_of_ne hne]
      exact (hphases j hj).imp id .inl

/-- The table of another name. -/
theorem NameOk.insert_other (h : NameOk e refusal user σ) (hi : name e i ≠ user) :
    NameOk e refusal user
      ({ σ with rows := σ.rows ++ [row e i] }.goes i (.returned .success)) := by
  refine NameOk.of_other ?_ hi
  have hcount : count (σ.rows ++ [row e i]) user = count σ.rows user := by
    rw [count_append_row, if_neg hi, Nat.add_zero]
  cases h with
  | free hzero hphases => exact .free (hcount.trans hzero) hphases
  | taken w hone hw hsuccess hphases => exact .taken w (hcount.trans hone) hw hsuccess hphases

/-- One step, where a name is inserted only if it is not there, or else the index refuses it. -/
theorem NameOk.step (h : NameOk e refusal user σ) (hs : Stepped e σ l σ')
    (hexist : refusal .regAlreadyExist) (hnew : ∀ i, l = .insert i false →
      count σ.rows (name e i) = 0 ∨ e.unique = true ∧ refusal .mysqlServerError) :
    NameOk e refusal user σ' := by
  cases hs with
  | @present i hidle hpos =>
    rcases ne_or_eq (name e i) user with hi | hi
    · exact h.of_other hi
    · refine h.of_behind hi (by rw [hidle]; nofun) (fun hzero => ?_) fun _ => ?_
      · rw [hi] at hpos
        omega
      · exact .inr (.inr ⟨_, hexist, rfl⟩)
  | @absent i hidle hzero =>
    rcases ne_or_eq (name e i) user with hi | hi
    · exact h.of_other hi
    · exact h.of_behind hi (by rw [hidle]; nofun) (fun _ => rfl) fun _ => .inr (.inl rfl)
  | @violates i hchecked hunique hpos =>
    rcases ne_or_eq (name e i) user with hi | hi
    · exact h.of_other hi
    · refine h.of_behind hi (by rw [hchecked]; nofun) (fun hzero => ?_) fun _ => ?_
      · rw [hi] at hpos
        omega
      · rcases hnew i rfl with hzero | ⟨-, hallowed⟩
        · omega
        · exact .inr (.inr ⟨_, hallowed, rfl⟩)
  | @inserts i hchecked hfree =>
    rcases ne_or_eq (name e i) user with hi | hi
    · exact h.insert_other hi
    · refine h.insert hi ?_
      rw [← hi]
      -- the name is free by the condition, or because the index has let it pass
      rcases hnew i rfl with hzero | ⟨hunique, -⟩
      · exact hzero
      · exact hfree hunique

/-- At first nobody has inserted it. -/
theorem nameOk_init {rows : List Row} (h : count rows user = 0) :
    NameOk e refusal user (init rows) :=
  .free h fun _ _ => .inl rfl

/-- A call returns with its second statement at the latest, whatever the table holds by then. -/
theorem insert_returns (h : σ.phase i = .checked) :
    ∃ σ' code, step e σ (.insert i false) = some σ' ∧ σ'.phase i = .returned code := by
  simp only [step, h, if_true, Bool.false_eq_true, if_false]
  split
  · exact ⟨_, _, rfl, goes_self _⟩
  · exact ⟨_, _, rfl, goes_self _⟩

/-- When no call is under way, one has registered the name, if there was any. -/
theorem NameOk.finished (h : NameOk e refusal user σ) (hsucc : ¬ refusal .success)
    (hfin : Finished e σ user)
    (hany : ∃ i, name e i = user ∧ σ.phase i ≠ .idle) :
    (∃! i, name e i = user ∧ σ.phase i = .returned .success) ∧ count σ.rows user = 1 ∧
      ∀ i, name e i = user → σ.phase i ≠ .idle →
        ∃ code, σ.phase i = .returned code ∧ (code = .success ∨ refusal code) := by
  cases h with
  | free _ hphases =>
    obtain ⟨i, hi, hne⟩ := hany
    -- somebody has counted and is still to insert, so not all calls are finished
    have hchecked := (hphases i hi).resolve_left hne
    rcases hfin i hi with hidle | ⟨code, hcode⟩
    · exact absurd hidle hne
    · rw [hchecked] at hcode
      cases hcode
  | taken w hone hw hsuccess hphases =>
    -- who did not insert the name was refused
    have hcodes : ∀ i, name e i = user → σ.phase i ≠ .idle →
        i = w ∨ ∃ code, refusal code ∧ σ.phase i = .returned code := by
      intro i hi hne
      rcases eq_or_ne i w with heq | hiw
      · exact .inl heq
      · rcases hphases i hi hiw with hidle | hchecked | hrefused
        · exact absurd hidle hne
        · rcases hfin i hi with hidle | ⟨code, hcode⟩
          · exact absurd hidle hne
          · rw [hchecked] at hcode
            cases hcode
        · exact .inr hrefused
    refine ⟨⟨w, ⟨hw, hsuccess⟩, fun i hi => ?_⟩, hone, fun i hi hne => ?_⟩
    · rcases hcodes i hi.1 (by rw [hi.2]; nofun) with heq | ⟨code, hrefused, hcode⟩
      · exact heq
      · rw [hi.2] at hcode
        cases hcode
        exact absurd hrefused hsucc
    · rcases hcodes i hi hne with rfl | ⟨code, hrefused, hcode⟩
      · exact ⟨.success, hsuccess, .inl rfl⟩
      · exact ⟨code, hcode, .inr hrefused⟩

/-- **A name is registered once, and every other call for it is told so**, whether usernames are
unique or not, in every run in which no name is inserted between the two statements of another call
for it. -/
theorem registeredOnce_of_insertsNew {rows : List Row}
    (h : Reach (step e) (InsertsNew e) (init rows) σ) (habsent : count rows user = 0)
    (hfin : Finished e σ user) (hany : ∃ i, name e i = user ∧ σ.phase i ≠ .idle) :
    RegisteredOnce e σ user := by
  have hname : NameOk e (· = .regAlreadyExist) user σ := by
    refine h.invariant (nameOk_init habsent) fun σ l σ' hinv hok hs => ?_
    have hnofail : NoFailure σ l := by
      cases l with
      | select => exact hok
      | insert => exact hok.1
    refine hinv.step (step_cases hnofail hs) rfl fun i hl => ?_
    subst hl
    exact .inl hok.2
  obtain ⟨hwinner, hrows, hcodes⟩ := hname.finished nofun hfin hany
  refine ⟨hwinner, fun i hi hne => ?_, hrows⟩
  obtain ⟨code, hcode, rfl | rfl⟩ := hcodes i hi hne
  · exact .inl hcode
  · exact .inr hcode

/-- **With a unique index the table is right in every run**: one call succeeds and the name is there
once. Only what the others are told may be wrong. -/
theorem registered_of_unique {rows : List Row} (hunique : e.unique = true)
    (h : Reach (step e) NoFailure (init rows) σ) (habsent : count rows user = 0)
    (hfin : Finished e σ user) (hany : ∃ i, name e i = user ∧ σ.phase i ≠ .idle) :
    (∃! i, name e i = user ∧ σ.phase i = .returned .success) ∧ count σ.rows user = 1 := by
  have hname : NameOk e (fun code => code = .regAlreadyExist ∨ code = .mysqlServerError) user σ := by
    refine h.invariant (nameOk_init habsent) fun σ l σ' hinv hok hs => ?_
    exact hinv.step (step_cases hok hs) (.inl rfl) fun i _ => .inr ⟨hunique, .inr rfl⟩
  obtain ⟨hwinner, hrows, -⟩ := hname.finished (by simp) hfin hany
  exact ⟨hwinner, hrows⟩

/-- Calls for the name `ann`, with and without an index. -/
def calls (unique : Bool) : Setting where
  unique := unique
  req := fun i => ⟨"ann", "secret", UInt64.ofNat i⟩
  hash := fun _ code => code

/-- Calls 0 and 1 have returned, the others were not made. -/
theorem finished_two {unique : Bool} {c c' : GatewayCode} (h0 : σ.phase 0 = .returned c)
    (h1 : σ.phase 1 = .returned c') (hidle : ∀ i, i ≠ 0 → i ≠ 1 → σ.phase i = .idle) :
    Finished (calls unique) σ "ann" := by
  intro i _
  by_cases hi0 : i = 0
  · exact .inr ⟨c, hi0 ▸ h0⟩
  by_cases hi1 : i = 1
  · exact .inr ⟨c', hi1 ▸ h1⟩
  exact .inl (hidle i hi0 hi1)

/-- A second call comes after the first has inserted the name. -/
theorem registeredOnce_in_turn : ∃ σ, Reach (step (calls false)) (InsertsNew (calls false)) (init []) σ ∧
    RegisteredOnce (calls false) σ "ann" ∧ σ.phase 1 = .returned .regAlreadyExist := by
  have hrun : run (step (calls false)) (InsertsNew (calls false)) (init [])
      [.select 0 false, .insert 0 false, .select 1 false] = some _ := rfl
  refine ⟨_, reach_of_run hrun, ?_, rfl⟩
  refine registeredOnce_of_insertsNew (reach_of_run hrun) rfl ?_ ⟨0, rfl, by decide⟩
  refine finished_two rfl rfl fun i h0 h1 => ?_
  simp only [goes_of_ne h1, goes_of_ne h0, init]

/-- Both calls count before either inserts. -/
def together : List Label := [.select 0 false, .select 1 false, .insert 0 false, .insert 1 false]

/-- Without an index both calls succeed and the name is there twice; with one, the second call reports
a failure of the server. -/
theorem not_registeredOnce_together :
    (∃ σ, Reach (step (calls false)) NoFailure (init []) σ ∧ Finished (calls false) σ "ann" ∧
      ¬ RegisteredOnce (calls false) σ "ann" ∧ σ.phase 0 = .returned .success ∧
      σ.phase 1 = .returned .success ∧ count σ.rows "ann" = 2) ∧
    ∃ σ, Reach (step (calls true)) NoFailure (init []) σ ∧ Finished (calls true) σ "ann" ∧
      ¬ RegisteredOnce (calls true) σ "ann" ∧ σ.phase 1 = .returned .mysqlServerError := by
  constructor
  · have hrun : run (step (calls false)) NoFailure (init []) together = some _ := rfl
    refine ⟨_, reach_of_run hrun, ?_, fun h => ?_, rfl, rfl, by decide⟩
    · refine finished_two rfl rfl fun i h0 h1 => ?_
      simp only [goes_of_ne h1, goes_of_ne h0, init]
    · exact absurd h.rows (by decide)
  · have hrun : run (step (calls true)) NoFailure (init []) together = some _ := rfl
    refine ⟨_, reach_of_run hrun, ?_, fun h => ?_, rfl⟩
    · refine finished_two rfl rfl fun i h0 h1 => ?_
      simp only [goes_of_ne h1, goes_of_ne h0, init]
    · rcases h.others 1 rfl (by decide) with hcode | hcode
      · cases hcode
      · cases hcode

end Chatroom.Gateway.Register
