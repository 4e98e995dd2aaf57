import Chatroom.Utils.StdString

/-!
# The address of a backend

A backend is started with an id, an address and a port, and registers with the status server under
`address:port`. The gateway hands this text to a client, which splits it at the first colon and connects
there. The two ends agree on everything but five forms of the command line: with an address and without
a port the backend says that its port is 3000, and listens on 1235; an address with a colon of its own,
such as one of IPv6, is cut at that colon; an address that is no literal, such as a host name, is not
looked up but thrown out by `ip::make_address`; a port beyond the range of `int` cannot be read; and of
port 0 the system makes one of its own choice, of which nobody is told.

`ip::make_address` is a parameter. All that is assumed of it is that texts with a colon and texts without
one, addresses of IPv6 and of IPv4, never stand for the same address.
-/

namespace Chatroom.Address

/-! ## The backend

`server_main` has four forms of its command line. The port that is registered and the port that is
listened on are
computed separately. -/

structure Settings where
  serverId : UInt32
  serverAddr : List UInt8
  listenPort : UInt32
  deriving DecidableEq, Repr

def colon : UInt8 := 58

/-- `192.168.56.101`. -/
def defaultHost : List UInt8 := [49, 57, 50, 46, 49, 54, 56, 46, 53, 54, 46, 49, 48, 49]

def defaultPort : UInt32 := 1235

/-- What `server_main` makes of its arguments; `none` after the message on its usage. `std::stoul` reads
64 bits, of which 32 are kept. -/
def settings : List (List UInt8) → Except StdError (Option Settings)
  | [] => .ok (some ⟨100, defaultHost ++ colon :: toDecimal defaultPort.toNat, defaultPort⟩)
  | [id] => do
    let serverId ← stoull id
    return some ⟨serverId.toUInt32, defaultHost ++ colon :: toDecimal defaultPort.toNat, defaultPort⟩
  | [id, addr] => do
    let serverId ← stoull id
    return some ⟨serverId.toUInt32, addr ++ colon :: toDecimal 3000, defaultPort⟩
  | [id, addr, port] => do
    let serverId ← stoull id
    let listenPort := (← stoull port).toUInt32
    return some ⟨serverId.toUInt32, addr ++ colon :: toDecimal listenPort.toNat, listenPort⟩
  | _ => .ok none

/-- The port that the acceptor is bound to: a port has 16 bits, and for port 0 the system chooses one. -/
def Settings.boundPort (s : Settings) (chosen : UInt16) : UInt16 :=
  if s.listenPort.toUInt16 = 0 then chosen else s.listenPort.toUInt16

/-! ## The client

`client_main` looks for the first colon, and makes a number of what is behind it with `stoi`. The port
of an
endpoint has 16 bits, so the number is cut on both sides. -/

/-- What keeps the client from connecting. -/
inductive AddressError where
  /-- `Invalid server address format: `. -/
  | noColon
  /-- An exception of `ip::make_address`. -/
  | makeAddress
  | std (e : StdError)
  deriving DecidableEq, Repr

variable {α : Type}

/-- The endpoint that `client_main` connects to. Whether the address or the port is read first is left
to the compiler; where both throw, the client ends either way. -/
def remote (makeAddress : List UInt8 → Option α) (serverAddr : List UInt8) :
    Except AddressError (α × UInt16) :=
  match find serverAddr colon 0 with
  | none => .error .noColon
  | some pos => do
    let serverHost ← (substrN serverAddr 0 pos).mapError .std
    let serverPort ← (substr serverAddr (pos + 1)).mapError .std
    match makeAddress serverHost with
    | none => .error .makeAddress
    | some address => do
      let port ← (stoi serverPort).mapError .std
      return (address, UInt16.ofInt port)

/-- Texts with a colon and texts without one stand for different addresses. -/
def Separates (makeAddress : List UInt8 → Option α) : Prop :=
  ∀ x y a, makeAddress x = some a → makeAddress y = some a → (colon ∈ x ↔ colon ∈ y)

/-! ## Between the two

What the client reads is put together from what the backend has written: an address, a colon, a number
in
decimal. -/

/-- The address that the backend was started with. -/
def hostOf : List (List UInt8) → List UInt8
  | _ :: host :: _ => host
  | _ => defaultHost

/-- The client gets to the backend: to its address and to the port it listens on. -/
def Reaches (makeAddress : List UInt8 → Option α) (chosen : UInt16) (args : List (List UInt8))
    (s : Settings) : Prop :=
  ∃ address, makeAddress (hostOf args) = some address ∧
    remote makeAddress s.serverAddr = .ok (address, s.boundPort chosen)

variable {host rest : List UInt8} {makeAddress : List UInt8 → Option α}

/-- The client cuts at the first colon. -/
theorem remote_append (h : colon ∉ host) (rest : List UInt8) :
    remote makeAddress (host ++ colon :: rest) = match makeAddress host with
      | none => .error .makeAddress
      | some address => (stoi rest).mapError .std >>= fun port => .ok (address, UInt16.ofInt port) := by
  have hsub : substr (host ++ colon :: rest) (host.length + 1) = .ok rest := by
    have hcut := substr_length_append (host ++ [colon]) rest
    rwa [List.length_append, List.append_assoc] at hcut
  rw [remote, find_append h]
  dsimp only
  rw [substrN_zero, hsub]
  rfl

/-- An address with a colon of its own does not come through. -/
theorem remote_ne_of_colon (hsep : Separates makeAddress) (h : colon ∈ host) {address : α}
    (haddress : makeAddress host = some address) (port : UInt16) :
    remote makeAddress (host ++ colon :: rest) ≠ .ok (address, port) := by
  obtain ⟨a, b, hab, ha⟩ := List.eq_append_cons_of_mem h
  -- what is left of the first colon has none, and stands for another address
  have hother : makeAddress a ≠ some address :=
    fun hsame => ha ((hsep _ _ _ hsame haddress).mpr h)
  rw [hab, List.append_assoc, List.cons_append, remote_append ha]
  cases hcut : makeAddress a with
  | none =>
    intro hbad
    cases hbad
  | some other =>
    cases stoi (b ++ colon :: rest) with
    | error e =>
      intro hbad
      cases hbad
    | ok v =>
      intro hbad
      have hsame : other = address := congrArg Prod.fst (Except.ok.inj hbad)
      exact hother (by rw [hcut, hsame])

/-- A port beyond `int` is not read. -/
theorem stoi_toDecimal_of_gt {n : ℕ} (h : 2147483647 < n) :
    stoi (toDecimal n) = .error .outOfRange := by
  have hrange : (n : ℤ) < -2147483648 ∨ 2147483647 < (n : ℤ) := by omega
  rw [stoi_toDecimal_eq]
  simp only [readInt, takeWhile_isDigit_toDecimal, toDecimal_ne_nil, digitsValue_toDecimal,
    if_false, hrange, Bool.false_eq_true, if_true]

/-- The conversion to a port, on numbers that are not negative. -/
theorem ofInt_natCast (n : ℕ) : UInt16.ofInt (n : ℤ) = UInt16.ofNat n := by
  have hmod : ((n : ℤ) % 2 ^ 16).toNat = n % 65536 := by omega
  rw [UInt16.ofInt, hmod]
  exact UInt16.ofNat_mod_size

/-- What the client makes of a port in decimal. -/
theorem remote_eq_iff (h : colon ∉ host) {address : α} (haddress : makeAddress host = some address)
    (n : ℕ) (port : UInt16) :
    remote makeAddress (host ++ colon :: toDecimal n) = .ok (address, port) ↔
      n ≤ 2147483647 ∧ UInt16.ofNat n = port := by
  rw [remote_append h, haddress]
  dsimp only
  by_cases hn : n ≤ 2147483647
  · rw [stoi_toDecimal hn]
    show Except.ok (address, UInt16.ofInt n) = _ ↔ _
    rw [Except.ok.injEq, Prod.mk.injEq, and_iff_right rfl, and_iff_right hn]
    rw [ofInt_natCast]
  · rw [stoi_toDecimal_of_gt (Nat.lt_of_not_le hn)]
    refine iff_of_false (fun hbad => ?_) fun hbad => hn hbad.1
    cases hbad

/-- The port registered is the one listened on, unless the system has chosen it. -/
theorem ofNat_eq_boundPort_iff (s : Settings) {chosen : UInt16} (hchosen : chosen ≠ 0) :
    UInt16.ofNat s.listenPort.toNat = s.boundPort chosen ↔ s.listenPort.toUInt16 ≠ 0 := by
  have hport : UInt16.ofNat s.listenPort.toNat = s.listenPort.toUInt16 := rfl
  rw [hport, Settings.boundPort]
  split
  · next hzero =>
    rw [hzero]
    exact iff_of_false (fun hbad => hchosen hbad.symm) fun hbad => hbad rfl
  · next hne => exact iff_of_true rfl hne

/-- The text under which a backend registers. -/
theorem serverAddr_of_settings {args : List (List UInt8)} {s : Settings}
    (h : settings args = .ok (some s)) : ∃ n, s.serverAddr = hostOf args ++ colon :: toDecimal n ∧
      (args.length = 2 ∧ n = 3000 ∧ s.listenPort = defaultPort ∨
        args.length ≠ 2 ∧ n = s.listenPort.toNat) := by
  unfold settings at h
  split at h
  · cases h
    exact ⟨_, rfl, .inr ⟨by decide, rfl⟩⟩
  · next id =>
    cases hid : stoull id with
    | error e =>
      rw [hid] at h
      cases h
    | ok serverId =>
      rw [hid] at h
      cases h
      exact ⟨_, rfl, .inr ⟨Nat.succ_ne_succ_iff.mpr (by decide), rfl⟩⟩
  · next id addr =>
    cases hid : stoull id with
    | error e =>
      rw [hid] at h
      cases h
    | ok serverId =>
      rw [hid] at h
      cases h
      exact ⟨_, rfl, .inl ⟨rfl, rfl, rfl⟩⟩
  · next id addr port =>
    cases hid : stoull id with
    | error e =>
      rw [hid] at h
      cases h
    | ok serverId =>
      cases hport : stoull port with
      | error e =>
        rw [hid, hport] at h
        cases h
      | ok listenPort =>
        rw [hid, hport] at h
        cases h
        exact ⟨_, rfl, .inr ⟨Nat.succ_ne_self 2, rfl⟩⟩
  · cases h

/-- **Where the clients of a backend go.** Whatever a backend was started with, and whichever port the
system chooses where none is asked for, the text under which it registers leads a client to its address
and to the port it listens on exactly if the port was given with the address or both were left out, the
address is a literal without a colon, and the port fits into an `int` and is not 0 in 16 bits. -/
theorem remote_serverAddr_iff (makeAddress : List UInt8 → Option α) (hsep : Separates makeAddress)
    (chosen : UInt16) (hchosen : chosen ≠ 0) (args : List (List UInt8)) (s : Settings)
    (h : settings args = .ok (some s)) :
    Reaches makeAddress chosen args s ↔
      args.length ≠ 2 ∧ (makeAddress (hostOf args)).isSome ∧ colon ∉ hostOf args ∧
        s.listenPort.toNat < 2 ^ 31 ∧ s.listenPort.toUInt16 ≠ 0 := by
  obtain ⟨n, haddr, hport⟩ := serverAddr_of_settings h
  unfold Reaches
  rw [haddr]
  cases haddress : makeAddress (hostOf args) with
  | none =>
    refine iff_of_false (fun ⟨_, hbad, _⟩ => ?_) fun hall => ?_
    · cases hbad
    · cases hall.2.1
  | some address =>
    have hreaches : ∀ P : α → Prop, (∃ a, some address = some a ∧ P a) ↔ P address := by
      intro P
      refine ⟨fun ⟨a, ha, hP⟩ => ?_, fun hP => ⟨address, rfl, hP⟩⟩
      cases ha
      exact hP
    rw [hreaches]
    by_cases hcolon : colon ∈ hostOf args
    · exact iff_of_false (remote_ne_of_colon hsep hcolon haddress _) fun hall => hall.2.2.1 hcolon
    · rw [remote_eq_iff hcolon haddress]
      rcases hport with ⟨htwo, rfl, hlisten⟩ | ⟨htwo, rfl⟩
      · refine iff_of_false (fun hall => ?_) fun hall => hall.1 htwo
        -- 3000 is not 1235
        have hbad := hall.2
        have hbound : s.boundPort chosen = 1235 := by
          rw [Settings.boundPort, hlisten]
          rfl
        rw [hbound] at hbad
        exact absurd hbad (by decide)
      · rw [ofNat_eq_boundPort_iff s hchosen, and_iff_right htwo, and_iff_right (Option.isSome_some),
          and_iff_right hcolon]
        exact and_congr_left fun _ => by omega

/-- `7 10.0.0.5 4000`. -/
def exampleArgs : List (List UInt8) := [[55], [49, 48, 46, 48, 46, 48, 46, 53], [52, 48, 48, 48]]

/-- The same with port 0. -/
def zeroArgs : List (List UInt8) := [[55], [49, 48, 46, 48, 46, 48, 46, 53], [48]]

/-- The addresses of IPv4 written as four numbers below 256. -/
def dottedQuad (host : List UInt8) : Option (List ℕ) :=
  let parts := host.splitOn 46
  if (host.all fun b => b = 46 || isDigit b) ∧ parts.length = 4 ∧
      ∀ p ∈ parts, p ≠ [] ∧ digitsValue p < 256 then
    some (parts.map digitsValue)
  else none

/-- No address of IPv4 has a colon. -/
theorem dottedQuad_separates : Separates dottedQuad := by
  have hnone : ∀ host a, dottedQuad host = some a → colon ∉ host := by
    intro host a ha hmem
    simp only [dottedQuad] at ha
    split at ha
    · next hcond => exact absurd (List.all_eq_true.mp hcond.1 colon hmem) (by decide)
    · cases ha
  exact fun x y a hx hy => iff_of_false (hnone x a hx) (hnone y a hy)

/-- With port 4000 the clients get there; with port 0 the backend listens on a port that the system has
chosen, and they do not. -/
theorem remote_serverAddr_example :
    (∃ s, settings exampleArgs = .ok (some s) ∧ Reaches dottedQuad 50000 exampleArgs s) ∧
      ∃ s, settings zeroArgs = .ok (some s) ∧ ¬ Reaches dottedQuad 50000 zeroArgs s := by
  constructor
  · have hargs : settings exampleArgs = .ok (some ⟨7, hostOf exampleArgs ++ colon :: toDecimal 4000,
      4000⟩) := by rfl
    refine ⟨_, hargs, (remote_serverAddr_iff dottedQuad dottedQuad_separates 50000 (by decide) _ _
      hargs).mpr ⟨?_, ?_, ?_, ?_, ?_⟩⟩ <;> decide
  · have hargs : settings zeroArgs = .ok (some ⟨7, hostOf zeroArgs ++ colon :: toDecimal 0, 0⟩) := by
      rfl
    refine ⟨_, hargs, fun hreaches => ?_⟩
    have hall := (remote_serverAddr_iff dottedQuad dottedQuad_separates 50000 (by decide) _ _
      hargs).mp hreaches
    exact hall.2.2.2.2 rfl

end Chatroom.Address
